/-
**One `cb_fiber` for the callbacks of a worker.**

`run()` loads each popped callback into its `cb_fiber`. After the run it drops the fiber if the
callback is suspended, resets it if the callback has ended, and keeps it if the callback yielded
`READY`: then the fiber is back in the queue, and the next popped callback finds it unfinished.

* `Refers` — a queue entry, an event context or a worker that is to run or to queue a fiber.
* `ReusedFinished` — what should hold: a loaded `cb_fiber` is finished and nothing refers to it, no
  reset fails, and each popped callback is started once.
* `readied_reused` — **a callback that yields `READY` breaks it.**
* `Reusable` — the condition on what the tasks do, besides the `HandOff` of fibers between workers.
* `reused_finished` — **under it no run breaks it.**
-/

import Sylar.Scheduler.Handoff

namespace Sylar.Scheduler

open Sylar.Library

variable {n : Nat}

/-! ### Where a `cb_fiber` is -/

namespace Pc

/-- The `cb_fiber` that a worker has loaded, until `run()` has decided about it. -/
def carries : Pc → Option FiberId
  | .tickling _ after => after.carries
  | .task _ .callback f => some f
  | .task _ .fiber _ | .dispatch _ | .top | .idle _ | .exited => none

/-- The fiber of a loaded callback that has not started. -/
def loads : Pc → Option FiberId
  | .task .chosen .callback f | .task .counted .callback f | .task .entered .callback f => some f
  | _ => none

/-- The fiber that a worker is to run, or to queue again. -/
def wants : Pc → Option FiberId
  | .tickling _ after => after.wants
  | .dispatch ft => ft.names
  | .task stage _ f =>
      if stage = .chosen ∨ stage = .counted ∨ stage = .rescheduling then some f else none
  | .top | .idle _ | .exited => none

/-- The worker has popped a callback, to be loaded. -/
def pops : Pc → Bool
  | .tickling _ after => after.pops
  | .dispatch (.cb (some _)) => true
  | _ => false

@[simp] theorem carries_tickleIf (needTickle : Bool) (after : Pc) :
    (tickleIf needTickle after).carries = after.carries := by
  cases needTickle <;> rfl

@[simp] theorem wants_tickleIf (needTickle : Bool) (after : Pc) :
    (tickleIf needTickle after).wants = after.wants := by
  cases needTickle <;> rfl

@[simp] theorem pops_tickleIf (needTickle : Bool) (after : Pc) :
    (tickleIf needTickle after).pops = after.pops := by
  cases needTickle <;> rfl

end Pc

/-- A fiber that has ended, or has nothing to run. -/
def Fiber.Done (fiber : Fiber) : Prop :=
  fiber.state = .term ∨ fiber.state = .excpt ∨ fiber.state = .init ∧ fiber.cb = none

instance (fiber : Fiber) : Decidable fiber.Done := inferInstanceAs (Decidable (_ ∨ _ ∨ _ ∧ _))

/-- Something will run the fiber, or queue it. -/
inductive Refers (s : Pool n) (f : FiberId) : Prop
  | hand (w : Fin n) (wants : (s.pc w).wants = some f)
  | queue (it : FiberAndThread) (member : it ∈ s.fibers) (names : it.fiberOrCb.names = some f)
  | context (fc : FiberOrCb) (member : fc ∈ s.contexts) (names : fc.names = some f)

theorem refers_iff {s : Pool n} {f : FiberId} :
    Refers s f ↔ (∃ w, (s.pc w).wants = some f) ∨
      (∃ it ∈ s.fibers, it.fiberOrCb.names = some f) ∨ ∃ fc ∈ s.contexts, fc.names = some f := by
  constructor
  · rintro (⟨w, wants⟩ | ⟨it, member, names⟩ | ⟨fc, member, names⟩)
    · exact Or.inl ⟨w, wants⟩
    · exact Or.inr (Or.inl ⟨it, member, names⟩)
    · exact Or.inr (Or.inr ⟨fc, member, names⟩)
  · rintro (⟨w, wants⟩ | ⟨it, member, names⟩ | ⟨fc, member, names⟩)
    · exact .hand w wants
    · exact .queue it member names
    · exact .context fc member names

instance (s : Pool n) (f : FiberId) : Decidable (Refers s f) := decidable_of_iff _ refers_iff.symm

/-! ### The property -/

/-- Some worker has loaded the popped callback, and is about to start it. -/
def Loaded (s : Pool n) (p : Nat) : Prop :=
  ∃ w f, (s.pc w).loads = some f ∧ (s.fiber f).pop = some p ∧ (s.fiber f).fresh = true

/-- **A `cb_fiber` is reused only when it is finished.** -/
structure ReusedFinished (s : Pool n) : Prop where
  /-- the `cb_fiber` that a popped callback is loaded into is finished -/
  finished : ∀ w c f, s.pc w = .dispatch (.cb (some c)) → s.cbFiber w = some f →
    (s.fiber f).state = .term ∨ (s.fiber f).state = .excpt ∨
      (s.fiber f).state = .init ∧ (s.fiber f).cb = none
  /-- and no queue entry and no event context refers to it -/
  unreferenced : ∀ w c f, s.pc w = .dispatch (.cb (some c)) → s.cbFiber w = some f →
    (∀ it ∈ s.fibers, it.fiberOrCb.names ≠ some f) ∧ ∀ fc ∈ s.contexts, fc.names ≠ some f
  /-- `reset(nullptr)` passes its assertion -/
  ended : ∀ w b f, s.pc w = .task .finished b f → s.state f = .term ∨ s.state f = .excpt
  /-- no popped callback is started twice -/
  once : s.started.Nodup
  /-- and each one is started, or loaded and about to start -/
  started : ∀ p < s.pops, p ∈ s.started ∨ Loaded s p

/-! ### The condition -/

/-- The next step of the worker pops a callback. -/
def Pool.popsCallback (s : Pool n) (w : Fin n) : Bool :=
  match s.pc w with
  | .top =>
      match scan s.state (threadId w) s.fibers with
      | some (.cb (some _), _) => true
      | _ => false
  | _ => false

/-- **The condition on a step**: a worker whose callback yielded `READY` pops no other callback until
that one has ended; and a callback ends while nothing refers to its fiber, which nobody schedules
after that. -/
def Reusable (s : Pool n) (event : Event n) : Prop :=
  (match event with
    | .work w =>
        s.popsCallback w = true → s.readied w = true → ∀ f ∈ s.cbFiber w, (s.fiber f).Done
    | .leave w outcome =>
        outcome = .term ∨ outcome = .excpt →
          ∀ f ∈ (s.pc w).names, (∃ v, s.cbFiber v = some f) → ¬ Refers s f
    | _ => True) ∧
  ∀ w, ∀ f ∈ s.cbFiber w, event.gives f = true → ¬ (s.fiber f).Done

instance (s : Pool n) (event : Event n) : Decidable (Reusable s event) :=
  match event with
  | .work w =>
      inferInstanceAs (Decidable ((s.popsCallback w = true → s.readied w = true →
        ∀ f ∈ s.cbFiber w, (s.fiber f).Done) ∧ _))
  | .leave w outcome =>
      inferInstanceAs (Decidable ((outcome = .term ∨ outcome = .excpt →
          ∀ f ∈ (s.pc w).names, (∃ v, s.cbFiber v = some f) → ¬ Refers s f) ∧ _))
  | .wake _ | .expire .. | .rearm .. | .drain _ | .trigger .. | .swapOut _ | .addTimer ..
  | .cancelTimer _ | .addEvent .. | .delEvent .. | .schedule .. | .scheduleBatch _ | .testTickle
  | .writeTickle | .testOther | .writeOther | .newFiber _ | .stop =>
      inferInstanceAs (Decidable (True ∧ _))

variable {s s' t : Pool n} {event : Event n} {v w : Fin n} {f : FiberId}

/-! ### What the fiber's state is after it has left -/

/-- What a stage says about the state of a fiber that has left its context. -/
def Ran (state : FiberId → State) : Pc → Prop
  | .tickling _ after => Ran state after
  | .task .leaving _ f | .task .back _ f | .task .uncounted _ f => state f ≠ .exec ∧ state f ≠ .init
  | .task .holding _ f => state f = .hold
  | .task .finished _ f => state f = .term ∨ state f = .excpt
  | _ => True

theorem Ran.congr {state state' : FiberId → State} {pc : Pc} (ran : Ran state pc)
    (same : ∀ f, pc.grip = some f → state' f = state f) : Ran state' pc := by
  induction pc with
  | tickling write after ih => exact ih ran same
  | task stage b f =>
    cases stage with
    | chosen | counted | entered | executing | rescheduling => trivial
    | leaving | back | uncounted | holding | finished =>
      unfold Ran
      rw [same f rfl]
      exact ran
  | _ => trivial

theorem ran_tickleIf {state : FiberId → State} {needTickle : Bool} {after : Pc} :
    Ran state (.tickleIf needTickle after) ↔ Ran state after := by
  cases needTickle <;> rfl

theorem ran_goto {pc : Pc} (moved : t.pc = Function.update s.pc w pc) (here : Ran t.state pc) :
    Ran t.state (t.pc w) := by
  rw [moved, Function.update_self]
  exact here

/-- The worker that moves. -/
theorem ran_self (move : Move s event s') (here : event.worker = some v)
    (ran : Ran s.state (s.pc v)) : Ran s'.state (s'.pc v) := by
  cases move
  case scan | expire | rearm | scheduleCbs | trigger | reschedule =>
    cases here
    exact ran_goto rfl (ran_tickleIf.mpr trivial)
  case testNone from' _ | testSome from' _ | write from' =>
    cases here
    rw [from'] at ran
    exact ran_goto rfl ran
  case leave w b f outcome from' outcomes _ =>
    cases here
    apply ran_goto rfl
    show (Function.update s.fiber f _ f).state ≠ _ ∧ (Function.update s.fiber f _ f).state ≠ _
    rw [Function.update_self]
    rcases outcomes with rfl | rfl | rfl | rfl <;> exact ⟨nofun, nofun⟩
  case save w b f from' =>
    cases here
    rw [from'] at ran
    apply ran_goto rfl
    show (Function.update s.fiber f _ f).state ≠ _ ∧ (Function.update s.fiber f _ f).state ≠ _
    rw [Function.update_self]
    exact ran
  case uncount w b f from' =>
    cases here
    rw [from'] at ran
    exact ran_goto rfl ran
  case readFinished w f from' ended =>
    cases here
    exact ran_goto rfl ended
  case readOther w b f from' other =>
    cases here
    rw [from'] at ran
    apply ran_goto rfl
    show s.state f = .hold
    cases state : s.state f with
    | hold => rfl
    | init => exact absurd state ran.2
    | exec => exact absurd state ran.1
    | ready => exact absurd state other.1
    | term => exact absurd state other.2.1
    | excpt => exact absurd state other.2.2
  case drain | addTimer | cancelTimer | addEvent | delEvent => exact ran
  case schedule | scheduleBatch | testTickleNone | testTickleSome | writeTickle | testOtherNone |
      testOtherSome | writeOther | newFiber | stop => cases here
  all_goals
    cases here
    exact ran_goto rfl trivial

theorem ran_next (handed : Handed s) (made : Made s) (ok : HandOff s event)
    (move : Move s event s') (ran : ∀ w, Ran s.state (s.pc w)) : ∀ w, Ran s'.state (s'.pc w) := by
  intro v
  by_cases here : event.worker = some v
  · exact ran_self move here (ran v)
  · rw [move.pc_eq here]
    apply (ran v).congr
    intro f grip
    exact congrArg Fiber.state (handed.fiber_eq made ok move grip here)

/-! ### What a step refers to, and what it finishes -/

theorem Refers.elim {p : Prop} (refers : Refers s f) (hand : ∀ w, (s.pc w).wants = some f → p)
    (queue : ∀ it ∈ s.fibers, it.fiberOrCb.names = some f → p)
    (contexts : ∀ fc ∈ s.contexts, fc.names = some f → p) : p := by
  rcases refers with ⟨w, wants⟩ | ⟨it, member, names⟩ | ⟨fc, member, names⟩
  · exact hand w wants
  · exact queue it member names
  · exact contexts fc member names

theorem not_done_of_state {fiber : Fiber} (state : fiber.state = .exec ∨ fiber.state = .ready ∨
    fiber.state = .hold) : ¬ fiber.Done := by
  unfold Fiber.Done
  rcases state with state | state | state <;> rw [state] <;> rintro (none | none | ⟨none, -⟩) <;>
    cases none

theorem not_done_of_cb {fiber : Fiber} {c : Callback} (state : fiber.state = .init)
    (loaded : fiber.cb = some c) : ¬ fiber.Done := by
  unfold Fiber.Done
  rw [state, loaded]
  rintro (none | none | ⟨-, none⟩) <;> cases none

/-- What a worker wants after a step, it wanted before, or it comes from the queue, or it is not
done. -/
theorem wants_of_move (move : Move s event s') (wants : (s'.pc v).wants = some f) :
    Refers s f ∨ ¬ (s'.fiber f).Done := by
  -- the worker that moves has `pc'` after
  have moves {w : Fin n} {pc' : Pc} {p : Prop}
      (wants : (Function.update s.pc w pc' v).wants = some f)
      (here : pc'.wants = some f → Refers s f ∨ p) : Refers s f ∨ p := by
    rcases eq_or_ne v w with rfl | other
    · rw [Function.update_self] at wants
      exact here wants
    · rw [Function.update_of_ne other] at wants
      exact Or.inl (.hand v wants)
  cases move
  case scan w ft left tickleMe from' scanned =>
    refine moves wants fun names => Or.inl ?_
    rw [Pc.wants_tickleIf] at names
    obtain ⟨-, it, member, content⟩ := (scan_scanned scanned).names names
    exact .queue it member content
  case testNone w _ from' _ | testSome w _ from' _ | write w _ from' | choose w _ from' _ |
      count w _ _ from' =>
    exact moves wants fun names => Or.inl (.hand w (by rw [from']; exact names))
  case reuse w c g from' keeps reusable =>
    refine moves wants ?_
    rintro ⟨⟩
    refine Or.inr ?_
    dsimp only [Pool.goto, Pool.setFiber]
    rw [Function.update_self]
    exact not_done_of_cb rfl rfl
  case renew w c from' none =>
    refine moves wants ?_
    rintro ⟨⟩
    refine Or.inr ?_
    dsimp only [Pool.goto, Pool.newFiber, Pool.setFiber]
    rw [Function.update_self]
    exact not_done_of_cb rfl rfl
  case readReady w b g from' ready =>
    refine moves wants ?_
    rintro ⟨⟩
    exact Or.inr (not_done_of_state (Or.inr (Or.inl ready)))
  case expire | rearm | reschedule | scheduleCbs | trigger =>
    refine moves wants fun names => ?_
    rw [Pc.wants_tickleIf] at names
    cases names
  case drain | addTimer | cancelTimer | addEvent | delEvent | schedule | scheduleBatch |
      testTickleNone | testTickleSome | writeTickle | testOtherNone | testOtherSome | writeOther |
      newFiber | stop =>
    exact Or.inl (.hand v wants)
  all_goals exact moves wants fun names => by cases names

/-- **A step refers to a finished fiber only if it was referred to, or is scheduled from outside.** -/
theorem refers_of_move (handed : Handed s) (move : Move s event s') (refers : Refers s' f) :
    Refers s f ∨ ¬ (s'.fiber f).Done ∨ event.gives f = true := by
  refine refers.elim (fun v wants => ?_) (fun it member names => ?_) fun fc member names => ?_
  · exact (wants_of_move move wants).imp_right Or.inl
  · rcases move.queue_cases member names with
      ⟨it, member, names⟩ | ⟨fc, member, names⟩ | ⟨w, b, from'⟩ | gives
    · exact Or.inl (.queue it member names)
    · exact Or.inl (.context fc member names)
    · exact Or.inl (.hand w (by rw [from']; rfl))
    · exact Or.inr (Or.inr gives)
  · rcases move.contexts_cases member names with old | ⟨w, b, from', same⟩
    · exact Or.inl (.context fc old names)
    · have exec := handed.settled w
      rw [from'] at exec
      rw [same]
      exact Or.inr (Or.inl (not_done_of_state (Or.inl exec)))

/-- A fiber ends by leaving its context with `TERM` or `EXCPT`, and in no other way. -/
theorem done_of_move (ran : ∀ w, Ran s.state (s.pc w)) (move : Move s event s')
    (done : (s'.fiber f).Done) : (s.fiber f).Done ∨ f = s.nextFiber ∨
      ∃ w outcome, event = .leave w outcome ∧ (outcome = .term ∨ outcome = .excpt) ∧
        (s.pc w).names = some f := by
  have wrote {g : FiberId} {new : Fiber} {p : Prop} (done : (Function.update s.fiber g new f).Done)
      (here : g = f → new.Done → (s.fiber f).Done ∨ p) : (s.fiber f).Done ∨ p := by
    rcases eq_or_ne f g with rfl | other
    · rw [Function.update_self] at done
      exact here rfl done
    · rw [Function.update_of_ne other] at done
      exact Or.inl done
  cases move
  case reuse =>
    exact wrote done fun _ new => absurd new (not_done_of_cb rfl rfl)
  case renew | newFiber =>
    exact wrote done fun same _ => Or.inr (Or.inl same.symm)
  case enter =>
    exact wrote done fun _ new => absurd new (not_done_of_state (Or.inl rfl))
  case hold =>
    exact wrote done fun _ new => absurd new (not_done_of_state (Or.inr (Or.inr rfl)))
  case switch | save =>
    exact wrote done fun same new => Or.inl (same ▸ new)
  case reset w b g from' reusable =>
    refine wrote done fun same _ => Or.inl ?_
    have ended := ran w
    rw [from'] at ended
    subst same
    exact ended.imp_right Or.inl
  case leave w b g outcome from' outcomes raises =>
    refine wrote done fun same new => Or.inr (Or.inr ⟨w, outcome, rfl, ?_, ?_⟩)
    · rcases new with term | excpt | ⟨init, -⟩
      · exact Or.inl term
      · exact Or.inr excpt
      · obtain rfl : outcome = .init := init
        rcases outcomes with other | other | other | other <;> cases other
    · rw [from', ← same]
      rfl
  all_goals exact Or.inl done

/-- **A finished fiber that nothing refers to stays finished**, until it is loaded again. -/
theorem done_next (handed : Handed s) (ran : ∀ w, Ran s.state (s.pc w)) (move : Move s event s')
    (done : (s.fiber f).Done) (unreferred : ¬ Refers s f) (old : f < s.nextFiber)
    (kept : ∀ w, event = .work w → s.takes w ≠ some f) : (s'.fiber f).Done := by
  have wrote {g : FiberId} {new : Fiber} (here : g = f → new.Done) :
      (Function.update s.fiber g new f).Done := by
    rcases eq_or_ne f g with rfl | other
    · rw [Function.update_self]
      exact here rfl
    · rw [Function.update_of_ne other]
      exact done
  cases move
  case reuse w c g from' keeps reusable =>
    apply wrote
    rintro rfl
    refine absurd ?_ (kept w rfl)
    simp only [Pool.takes, from']
    exact keeps
  case renew | newFiber =>
    apply wrote
    rintro rfl
    exact absurd old (Nat.lt_irrefl _)
  case enter w b g from' out =>
    apply wrote
    rintro rfl
    exact absurd (.hand w (by rw [from']; rfl)) unreferred
  case switch w b g from' alive =>
    apply wrote
    rintro rfl
    exact done
  case save w b g from' =>
    apply wrote
    rintro rfl
    exact done
  case leave w b g outcome from' _ _ =>
    apply wrote
    rintro rfl
    have exec := handed.settled w
    rw [from'] at exec
    exact absurd done (not_done_of_state (Or.inl exec))
  case hold w b g from' =>
    apply wrote
    rintro rfl
    have held := ran w
    rw [from'] at held
    exact absurd done (not_done_of_state (Or.inr (Or.inr held)))
  case reset w b g from' reusable =>
    apply wrote
    rintro rfl
    exact Or.inr (Or.inr ⟨rfl, rfl⟩)
  all_goals exact done

/-- Who holds a fiber held it before, has taken hold of it, or has made it. -/
theorem grip_of_move (move : Move s event s') (grip : (s'.pc v).grip = some f) :
    (s.pc v).grip = some f ∨ event = .work v ∧ s.takes v = some f ∨ f = s.nextFiber := by
  -- the worker that moves has `pc'` after
  have moves {w : Fin n} {pc' : Pc} {p : Prop} (grip : (Function.update s.pc w pc' v).grip = some f)
      (here : w = v → pc'.grip = some f → (s.pc v).grip = some f ∨ p) :
      (s.pc v).grip = some f ∨ p := by
    rcases eq_or_ne v w with rfl | other
    · rw [Function.update_self] at grip
      exact here rfl grip
    · rw [Function.update_of_ne other] at grip
      exact Or.inl grip
  cases move
  case scan w ft left tickleMe from' scanned =>
    refine moves grip fun same names => Or.inr (Or.inl ⟨congrArg Event.work same, ?_⟩)
    rw [Pc.grip_tickleIf] at names
    simp only [Pool.takes, ← same, from', scanned]
    exact names
  case reuse w c g from' keeps reusable =>
    refine moves grip fun same names => Or.inr (Or.inl ⟨congrArg Event.work same, ?_⟩)
    simp only [Pool.takes, ← same, from']
    exact keeps.trans names
  case renew w c from' none =>
    refine moves grip fun _ names => Or.inr (Or.inr ?_)
    exact (Option.some.inj names).symm
  case testNone from' _ | testSome from' _ | write from' | choose from' _ | count from' |
      enter from' _ | switch from' _ | leave from' _ _ | save from' | uncount from' |
      readFinished from' _ | readOther from' _ =>
    refine moves grip fun same names => Or.inl ?_
    rw [← same, from']
    exact names
  case skip | exit | idle | readReady | readOver | hold | reset | noTimer | someTimer | noPending |
      somePending | stops | stays | block | wake | endTrigger | swapOut | endIdle =>
    exact moves grip fun _ names => by cases names
  case expire | rearm | scheduleCbs | trigger | reschedule =>
    refine moves grip fun _ names => ?_
    rw [Pc.grip_tickleIf] at names
    cases names
  case drain | addTimer | cancelTimer | addEvent | delEvent | schedule | scheduleBatch |
      testTickleNone | testTickleSome | writeTickle | testOtherNone | testOtherSome | writeOther |
      newFiber | stop =>
    exact Or.inl grip

/-! ### The invariant -/

/-- The fiber is reset, and nobody holds it. -/
structure Empty (s : Pool n) (f : FiberId) : Prop where
  init : (s.fiber f).state = .init
  cb : (s.fiber f).cb = none
  free : ∀ w, (s.pc w).grip ≠ some f

theorem Empty.done (empty : Empty s f) : (s.fiber f).Done := Or.inr (Or.inr ⟨empty.init, empty.cb⟩)

theorem Empty.next (empty : Empty s f) (move : Move s event s') (old : f < s.nextFiber)
    (kept : ∀ w, event = .work w → s.takes w ≠ some f) : Empty s' f := by
  have same : s'.fiber f = s.fiber f := by
    rcases move.fiber_eq f with same | rfl | ⟨w, -, held | ⟨work, takes, -⟩⟩
    · exact same
    · exact absurd old (Nat.lt_irrefl _)
    · exact absurd held (empty.free w)
    · exact absurd takes (kept w work)
  refine ⟨same ▸ empty.init, same ▸ empty.cb, fun w grip => ?_⟩
  rcases grip_of_move move grip with held | ⟨work, takes⟩ | rfl
  · exact empty.free w held
  · exact kept w work takes
  · exact Nat.lt_irrefl _ old

/-- **The invariant of the callback fibers.** -/
structure Reuse (s : Pool n) : Prop where
  ran : ∀ w, Ran s.state (s.pc w)
  alone : Exclusive s.cbFiber
  carried : ∀ w f, (s.pc w).carries = some f → s.cbFiber w = some f
  unreferred : ∀ w f, s.cbFiber w = some f → (s.fiber f).Done → ¬ Refers s f
  /-- unless the worker is at its run, or it yielded `READY`, a kept fiber is empty -/
  empty : ∀ w f, s.cbFiber w = some f → s.readied w = false → (s.pc w).carries = some f ∨ Empty s f
  /-- a popped callback finds its fiber finished -/
  ready : ∀ w f, (s.pc w).pops = true → s.cbFiber w = some f → (s.fiber f).Done

/-- A kept fiber was kept before, or has just been made for a popped callback. -/
theorem cbFiber_of_move (move : Move s event s') (kept : s'.cbFiber w = some f) :
    s.cbFiber w = some f ∨
      f = s.nextFiber ∧ (s'.pc w).carries = some f ∧ (s'.pc w).pops = false ∧
        ¬ (s'.fiber f).Done := by
  cases move
  case renew v c from' none =>
    rcases eq_or_ne w v with rfl | other
    · obtain rfl := Option.some.inj ((Function.update_self w _ s.cbFiber).symm.trans kept)
      refine Or.inr ⟨rfl, ?_⟩
      dsimp only [Pool.goto, Pool.newFiber, Pool.setFiber]
      rw [Function.update_self, Function.update_self]
      exact ⟨rfl, rfl, not_done_of_cb rfl rfl⟩
    · exact Or.inl ((Function.update_of_ne other _ s.cbFiber).symm.trans kept)
  case hold v b g from' =>
    dsimp only at kept
    split at kept
    · rcases eq_or_ne w v with rfl | other
      · rw [Function.update_self] at kept
        cases kept
      · exact Or.inl ((Function.update_of_ne other _ s.cbFiber).symm.trans kept)
    · exact Or.inl kept
  all_goals exact Or.inl kept

/-- A worker whose kept fiber did not yield `READY` was so before, or has just loaded it. -/
theorem readied_of_move (move : Move s event s') (kept : s'.cbFiber w = some f)
    (quiet : s'.readied w = false) : s.readied w = false ∨ (s'.pc w).carries = some f := by
  cases move
  case reuse v c g from' keeps reusable =>
    rcases eq_or_ne w v with rfl | other
    · refine Or.inr ?_
      dsimp only [Pool.goto, Pool.setFiber]
      rw [Function.update_self, ← kept]
      exact keeps.symm
    · exact Or.inl ((Function.update_of_ne other _ s.readied).symm.trans quiet)
  case renew v c from' none =>
    rcases eq_or_ne w v with rfl | other
    · refine Or.inr ?_
      dsimp only [Pool.goto, Pool.newFiber, Pool.setFiber]
      rw [Function.update_self, ← kept]
      exact (Function.update_self w _ s.cbFiber).symm
    · exact Or.inl ((Function.update_of_ne other _ s.readied).symm.trans quiet)
  case reschedule v b g from' =>
    dsimp only at quiet
    split at quiet
    · rcases eq_or_ne w v with rfl | other
      · rw [Function.update_self] at quiet
        cases quiet
      · exact Or.inl ((Function.update_of_ne other _ s.readied).symm.trans quiet)
    · exact Or.inl quiet
  all_goals exact Or.inl quiet

/-- A worker that has a callback to load had it before, or has just popped it; it wrote no fiber. -/
theorem pops_of_move (move : Move s event s') (here : event.worker = some w)
    (pops : (s'.pc w).pops = true) :
    s'.fiber = s.fiber ∧ ((s.pc w).pops = true ∨ event = .work w ∧ s.popsCallback w = true) := by
  cases move
  case scan v ft left tickleMe from' scanned =>
    cases here
    refine ⟨rfl, Or.inr ⟨rfl, ?_⟩⟩
    dsimp only [Pool.goto] at pops
    rw [Function.update_self, Pc.pops_tickleIf] at pops
    match ft, pops with
    | .cb (some c), _ => simp only [Pool.popsCallback, from', scanned]
  case testNone from' _ | testSome from' _ | write from' =>
    cases here
    dsimp only [Pool.goto] at pops
    rw [Function.update_self] at pops
    refine ⟨rfl, Or.inl ?_⟩
    rw [from']
    exact pops
  case drain | addTimer | cancelTimer | addEvent | delEvent => exact ⟨rfl, Or.inl pops⟩
  case schedule | scheduleBatch | testTickleNone | testTickleSome | writeTickle | testOtherNone |
      testOtherSome | writeOther | newFiber | stop => cases here
  case expire | rearm | scheduleCbs | trigger | reschedule =>
    cases here
    dsimp only [Pool.goto] at pops
    rw [Function.update_self, Pc.pops_tickleIf] at pops
    cases pops
  all_goals
    cases here
    dsimp only [Pool.goto, Pool.newFiber, Pool.setFiber] at pops
    rw [Function.update_self] at pops
    cases pops

/-- Who runs a `cb_fiber` keeps it. -/
theorem carried_next (move : Move s event s')
    (carried : ∀ w f, (s.pc w).carries = some f → s.cbFiber w = some f) :
    ∀ w f, (s'.pc w).carries = some f → s'.cbFiber w = some f := by
  intro w f carries
  by_cases here : event.worker = some w
  · have same {pc pc' : Pc} (from' : s.pc w = pc) (carries : pc'.carries = some f)
        (before : pc'.carries = pc.carries) : s.cbFiber w = some f :=
      carried w f (by rw [from', ← before]; exact carries)
    cases move
    case drain | addTimer | cancelTimer | addEvent | delEvent => exact carried w f carries
    case schedule | scheduleBatch | testTickleNone | testTickleSome | writeTickle | testOtherNone |
        testOtherSome | writeOther | newFiber | stop => cases here
    case expire | rearm | scheduleCbs | trigger | reschedule | scan =>
      cases here
      dsimp only [Pool.goto] at carries
      rw [Function.update_self, Pc.carries_tickleIf] at carries
      cases carries
    case reuse c g from' keeps reusable =>
      cases here
      dsimp only [Pool.goto, Pool.setFiber] at carries
      rw [Function.update_self] at carries
      exact keeps.trans carries
    case renew c from' none =>
      cases here
      dsimp only [Pool.goto, Pool.newFiber, Pool.setFiber] at carries
      rw [Function.update_self] at carries
      exact (Function.update_self w _ s.cbFiber).trans carries
    case count b g from' | enter b g from' _ | switch b g from' _ | leave b g _ from' _ _ |
        save b g from' | uncount b g from' | readReady b g from' _ | readOther b g from' _ =>
      cases here
      dsimp only [Pool.goto, Pool.setFiber] at carries
      rw [Function.update_self] at carries
      exact same from' carries (by cases b <;> rfl)
    case testNone from' _ | testSome from' _ | write from' | readFinished from' _ =>
      cases here
      dsimp only [Pool.goto] at carries
      rw [Function.update_self] at carries
      exact same from' carries rfl
    all_goals
      cases here
      dsimp only [Pool.goto, Pool.setFiber] at carries
      rw [Function.update_self] at carries
      cases carries
  · rw [move.pc_eq here] at carries
    rw [move.cbFiber_eq here]
    exact carried w f carries

/-- A worker that runs its `cb_fiber` goes on with it, or drops it, or queues it again, or has reset
it. -/
theorem carries_next (handed : Handed s) (move : Move s event s')
    (carries : (s.pc w).carries = some f) (kept : s'.cbFiber w = some f)
    (quiet : s'.readied w = false) : (s'.pc w).carries = some f ∨ Empty s' f := by
  by_cases here : event.worker = some w
  · have same {pc pc' : Pc} (from' : s.pc w = pc) (after : pc'.carries = pc.carries) :
        (Function.update s.pc w pc' w).carries = some f := by
      rw [Function.update_self, after, ← from']
      exact carries
    have gone {pc : Pc} {p : Prop} (from' : s.pc w = pc) (none : pc.carries = none) : p := by
      rw [from', none] at carries
      cases carries
    cases move
    case drain | addTimer | cancelTimer | addEvent | delEvent => exact Or.inl carries
    case schedule | scheduleBatch | testTickleNone | testTickleSome | writeTickle | testOtherNone |
        testOtherSome | writeOther | newFiber | stop => cases here
    case count b g from' | enter b g from' _ | switch b g from' _ | leave b g _ from' _ _ |
        save b g from' | uncount b g from' | readReady b g from' _ | readOther b g from' _ =>
      cases here
      exact Or.inl (same from' (by cases b <;> rfl))
    case testNone from' _ | testSome from' _ | write from' | readFinished from' _ =>
      cases here
      exact Or.inl (same from' rfl)
    case reschedule b g from' =>
      cases here
      cases b with
      | fiber => exact gone from' rfl
      | callback =>
        dsimp only at quiet
        rw [if_pos rfl, Function.update_self] at quiet
        cases quiet
    case hold b g from' =>
      cases here
      cases b with
      | fiber => exact gone from' rfl
      | callback =>
        dsimp only at kept
        rw [if_pos rfl, Function.update_self] at kept
        cases kept
    case reset b g from' reusable =>
      cases here
      cases b with
      | fiber => exact gone from' rfl
      | callback =>
        obtain rfl : g = f := by
          rw [from'] at carries
          exact Option.some.inj carries
        have mine : (s.pc w).grip = some g := by
          rw [from']
          rfl
        refine Or.inr ⟨?_, ?_, fun v grip => ?_⟩
        · exact congrArg Fiber.state (Function.update_self g _ s.fiber)
        · exact congrArg Fiber.cb (Function.update_self g _ s.fiber)
        · dsimp only [Pool.goto, Pool.setFiber] at grip
          rcases eq_or_ne v w with rfl | other
          · rw [Function.update_self] at grip
            cases grip
          · rw [Function.update_of_ne other] at grip
            exact other (handed.exclusive v w g grip mine)
    case scan from' _ | skip from' _ | choose from' _ | reuse from' _ _ | renew from' _ |
        exit from' nothing _ | idle from' _ _ | readOver from' _ | noTimer from' _ |
        someTimer from' | noPending from' _ | somePending from' | stops from' _ | stays from' |
        block from' | wake from' | expire from' _ _ _ | rearm from' | scheduleCbs from' |
        trigger from' _ | endTrigger from' | swapOut from' | endIdle from' =>
      cases here
      exact gone from' rfl
  · rw [move.pc_eq here]
    exact Or.inl carries

/-- A finished `cb_fiber` is taken hold of only by its own worker, to be loaded. -/
theorem Reuse.takes (reuse : Reuse s) (kept : s.cbFiber w = some f) (done : (s.fiber f).Done)
    (takes : s.takes v = some f) : v = w ∧ ∃ c, s.pc w = .dispatch (.cb (some c)) := by
  unfold Pool.takes at takes
  split at takes
  next =>
    obtain ⟨⟨ft, left, tickleMe⟩, scanned, names⟩ := Option.bind_eq_some_iff.mp takes
    obtain ⟨-, it, member, content⟩ := (scan_scanned scanned).names names
    exact absurd (.queue it member content) (reuse.unreferred w f kept done)
  next c from' =>
    obtain rfl := reuse.alone v w f takes kept
    exact ⟨rfl, c, from'⟩
  next => cases takes

/-- A worker with a callback to load loads it into its `cb_fiber`. -/
theorem loads_of_move {c : Callback} (move : Move s event s') (work : event = .work w)
    (from' : s.pc w = .dispatch (.cb (some c))) (kept : s.cbFiber w = some f) :
    (s'.pc w).carries = some f := by
  have elsewhere {pc : Pc} {p : Prop} (here : s.pc w = pc)
      (other : pc ≠ .dispatch (.cb (some c))) : p := absurd (here.symm.trans from') other
  cases move
  case reuse v d g here keeps reusable =>
    cases work
    dsimp only [Pool.goto, Pool.setFiber]
    rw [Function.update_self, ← kept]
    exact keeps.symm
  case renew v d here none =>
    cases work
    rw [none] at kept
    cases kept
  case exit v ft here nothing _ | idle v ft here nothing _ =>
    cases work
    apply elsewhere here
    rintro ⟨⟩
    rcases nothing with none | none <;> cases none
  case scan here _ | testNone here _ | testSome here _ | write here | skip here _ | choose here _ |
      count here | enter here _ | switch here _ | save here | uncount here | readReady here _ |
      readOver here _ | readFinished here _ | readOther here _ | reschedule here | hold here |
      reset here _ | noTimer here _ | someTimer here | noPending here _ | somePending here |
      stops here _ | stays here | block here | scheduleCbs here | endTrigger here | endIdle here =>
    cases work
    exact elsewhere here nofun
  all_goals cases work

theorem top_of_popsCallback (pops : s.popsCallback w = true) : s.pc w = .top := by
  unfold Pool.popsCallback at pops
  split at pops
  next from' => exact from'
  next => cases pops

/-- Only one worker keeps a fiber. -/
theorem alone_next (made : Made s) (move : Move s event s') (alone : Exclusive s.cbFiber) :
    Exclusive s'.cbFiber := by
  cases move
  case renew v c from' none =>
    apply alone.update
    rintro f ⟨⟩
    exact Or.inr fun u kept => Nat.lt_irrefl _ (made _ (.kept u kept))
  case hold v b g from' =>
    dsimp only
    split
    · exact alone.update nofun
    · exact alone
  all_goals exact alone

/-- **A step that meets the conditions keeps the invariant.** -/
theorem Reuse.next (reuse : Reuse s) (handed : Handed s) (made : Made s) (ok : HandOff s event)
    (reusable : Reusable s event) (move : Move s event s') : Reuse s' where
  ran := ran_next handed made ok move reuse.ran
  alone := alone_next made move reuse.alone
  carried := carried_next move reuse.carried
  unreferred w f kept done refers := by
    rcases cbFiber_of_move move kept with before | ⟨-, -, -, notDone⟩
    · have scheduled : event.gives f = true → ¬ (s.fiber f).Done :=
        reusable.2 w f before
      rcases done_of_move reuse.ran move done with wasDone | rfl | ⟨v, outcome, rfl, ended, names⟩
      · rcases refers_of_move handed move refers with referred | notDone | gives
        · exact reuse.unreferred w f before wasDone referred
        · exact notDone done
        · exact scheduled gives wasDone
      · exact Nat.lt_irrefl _ (made _ (.kept w before))
      · rcases refers_of_move handed move refers with referred | notDone | gives
        · exact reusable.1 ended f names ⟨w, before⟩ referred
        · exact notDone done
        · cases gives
    · exact notDone done
  empty w f kept quiet := by
    rcases readied_of_move move kept quiet with wasQuiet | carries
    · rcases cbFiber_of_move move kept with before | ⟨-, carries, -, -⟩
      · rcases reuse.empty w f before wasQuiet with carries | empty
        · exact carries_next handed move carries kept quiet
        · by_cases loading : event = .work w ∧ s.takes w = some f
          · obtain ⟨rfl, takes⟩ := loading
            obtain ⟨-, c, from'⟩ := reuse.takes before empty.done takes
            exact Or.inl (loads_of_move move rfl from' before)
          · refine Or.inr (empty.next move (made _ (.kept w before)) fun v work takes => loading ?_)
            obtain ⟨rfl, -⟩ := reuse.takes before empty.done takes
            exact ⟨work, takes⟩
      · exact Or.inl carries
    · exact Or.inl carries
  ready w f pops kept := by
    rcases cbFiber_of_move move kept with before | ⟨-, -, none, -⟩
    · by_cases here : event.worker = some w
      · obtain ⟨same, already | ⟨rfl, popped⟩⟩ := pops_of_move move here pops
        · rw [same]
          exact reuse.ready w f already before
        · rw [same]
          cases quiet : s.readied w with
          | true => exact reusable.1 popped quiet f before
          | false =>
            rcases reuse.empty w f before quiet with carries | empty
            · rw [top_of_popsCallback popped] at carries
              cases carries
            · exact empty.done
      · rw [move.pc_eq here] at pops
        have done := reuse.ready w f pops before
        apply done_next handed reuse.ran move done (reuse.unreferred w f before done)
          (made _ (.kept w before))
        rintro v rfl takes
        obtain ⟨rfl, -⟩ := reuse.takes before done takes
        exact here rfl
    · rw [none] at pops
      cases pops

/-! ### Popped callbacks are started once -/

/-- **The invariant of the popped callbacks**, by their numbers. -/
structure Numbered (s : Pool n) : Prop where
  bound : ∀ f p, (s.fiber f).pop = some p → p < s.pops
  fresh : ∀ f p, (s.fiber f).pop = some p → (s.fiber f).fresh = true → p ∉ s.started
  alone : ∀ f g p, (s.fiber f).pop = some p → (s.fiber g).pop = some p → f = g
  old : ∀ p ∈ s.started, p < s.pops
  once : s.started.Nodup

namespace Numbered

/-- No callback is loaded or started. -/
theorem quiet (numbered : Numbered s) (pops : t.pops = s.pops) (started : t.started = s.started)
    (fibers : ∀ f p, (t.fiber f).pop = some p → (s.fiber f).pop = some p ∧
      ((t.fiber f).fresh = true → (s.fiber f).fresh = true)) : Numbered t where
  bound f p number := by
    rw [pops]
    exact numbered.bound f p (fibers f p number).1
  fresh f p number isFresh := by
    rw [started]
    obtain ⟨before, wasFresh⟩ := fibers f p number
    exact numbered.fresh f p before (wasFresh isFresh)
  alone f g p first second := numbered.alone f g p (fibers f p first).1 (fibers g p second).1
  old p member := by
    rw [pops]
    exact numbered.old p (started ▸ member)
  once := by
    rw [started]
    exact numbered.once

/-- A popped callback is loaded into a fiber, under the next number. -/
theorem load {g : FiberId} {new : Fiber} (numbered : Numbered s) (number : new.pop = some s.pops)
    (wrote : t.fiber = Function.update s.fiber g new) (pops : t.pops = s.pops + 1)
    (started : t.started = s.started) : Numbered t := by
  -- who has a number has the new one, or had it before
  have either : ∀ f p, (t.fiber f).pop = some p →
      f = g ∧ p = s.pops ∨ f ≠ g ∧ t.fiber f = s.fiber f := by
    intro f p has
    rw [wrote] at has ⊢
    rcases eq_or_ne f g with rfl | other
    · rw [Function.update_self, number] at has
      exact Or.inl ⟨rfl, (Option.some.inj has).symm⟩
    · exact Or.inr ⟨other, Function.update_of_ne other _ _⟩
  have below : ∀ f p, (t.fiber f).pop = some p → f ≠ g → t.fiber f = s.fiber f → p < s.pops :=
    fun f p has _ same => numbered.bound f p (same ▸ has)
  refine ⟨fun f p has => ?_, fun f p has isFresh => ?_, fun f h p first second => ?_,
    fun p member => ?_, ?_⟩
  · rw [pops]
    rcases either f p has with ⟨-, rfl⟩ | ⟨other, same⟩
    · exact Nat.lt_succ_self _
    · exact Nat.lt_succ_of_lt (below f p has other same)
  · rw [started]
    rcases either f p has with ⟨-, rfl⟩ | ⟨-, same⟩
    · exact fun member => Nat.lt_irrefl _ (numbered.old _ member)
    · exact numbered.fresh f p (same ▸ has) (same ▸ isFresh)
  · rcases either f p first with ⟨rfl, rfl⟩ | ⟨other, same⟩ <;>
      rcases either h _ second with ⟨rfl, number'⟩ | ⟨other', same'⟩
    · rfl
    · exact absurd (below h _ second other' same') (Nat.lt_irrefl _)
    · exact absurd (number' ▸ below f p first other same) (Nat.lt_irrefl _)
    · exact numbered.alone f h p (same ▸ first) (same' ▸ second)
  · rw [pops]
    exact Nat.lt_succ_of_lt (numbered.old p (started ▸ member))
  · rw [started]
    exact numbered.once

/-- A fiber is switched to; if it is new, its callback starts. -/
theorem start {g : FiberId} (numbered : Numbered s)
    (wrote : t.fiber = Function.update s.fiber g { s.fiber g with fresh := false })
    (pops : t.pops = s.pops)
    (started : t.started = if (s.fiber g).fresh then (s.fiber g).pop.toList ++ s.started
      else s.started) : Numbered t := by
  have same : ∀ f p, (t.fiber f).pop = some p → (s.fiber f).pop = some p ∧
      ((t.fiber f).fresh = true → f ≠ g ∧ (s.fiber f).fresh = true) := by
    intro f p has
    rw [wrote] at has ⊢
    rcases eq_or_ne f g with rfl | other
    · rw [Function.update_self] at has ⊢
      exact ⟨has, nofun⟩
    · rw [Function.update_of_ne other] at has ⊢
      exact ⟨has, fun isFresh => ⟨other, isFresh⟩⟩
  have member_iff : ∀ p, p ∈ t.started → p ∈ s.started ∨
      (s.fiber g).fresh = true ∧ (s.fiber g).pop = some p := by
    intro p member
    rw [started] at member
    split at member
    next isFresh =>
      rcases List.mem_append.mp member with new | member
      · exact Or.inr ⟨isFresh, Option.mem_toList.mp new⟩
      · exact Or.inl member
    next => exact Or.inl member
  refine ⟨fun f p has => ?_, fun f p has isFresh member => ?_, fun f h p first second => ?_,
    fun p member => ?_, ?_⟩
  · rw [pops]
    exact numbered.bound f p (same f p has).1
  · obtain ⟨before, wasFresh⟩ := same f p has
    obtain ⟨other, wasFresh⟩ := wasFresh isFresh
    rcases member_iff p member with old | ⟨-, number⟩
    · exact numbered.fresh f p before wasFresh old
    · exact other (numbered.alone f g p before number)
  · exact numbered.alone f h p (same f p first).1 (same h p second).1
  · rw [pops]
    rcases member_iff p member with old | ⟨-, number⟩
    · exact numbered.old p old
    · exact numbered.bound g p number
  · rw [started]
    split
    next isFresh =>
      cases number : (s.fiber g).pop with
      | none => exact numbered.once
      | some p => exact List.nodup_cons.mpr ⟨numbered.fresh g p number isFresh, numbered.once⟩
    next => exact numbered.once

/-- **Every step keeps the numbers.** -/
theorem next (numbered : Numbered s) (move : Move s event s') : Numbered s' := by
  have wrote {g : FiberId} {new : Fiber} (here : ∀ p, new.pop = some p →
      (s.fiber g).pop = some p ∧ (new.fresh = true → (s.fiber g).fresh = true)) :
      ∀ f p, (Function.update s.fiber g new f).pop = some p → (s.fiber f).pop = some p ∧
        ((Function.update s.fiber g new f).fresh = true → (s.fiber f).fresh = true) := by
    intro f p has
    rcases eq_or_ne f g with rfl | other
    · rw [Function.update_self] at has ⊢
      exact here p has
    · rw [Function.update_of_ne other] at has ⊢
      exact ⟨has, id⟩
  cases move
  case reuse => exact numbered.load rfl rfl rfl rfl
  case renew => exact numbered.load rfl rfl rfl rfl
  case switch => exact numbered.start rfl rfl rfl
  case enter | leave | save | hold => exact numbered.quiet rfl rfl (wrote fun p has => ⟨has, id⟩)
  case reset | newFiber => exact numbered.quiet rfl rfl (wrote nofun)
  all_goals exact numbered.quiet rfl rfl fun f p has => ⟨has, id⟩

end Numbered

theorem Pc.grip_of_loads {pc : Pc} (loads : pc.loads = some f) : pc.grip = some f := by
  match pc, loads with
  | .task .chosen .callback _, rfl => rfl
  | .task .counted .callback _, rfl => rfl
  | .task .entered .callback _, rfl => rfl

/-- The worker that has loaded a callback starts it, or goes on towards that. -/
theorem loads_next {p : Nat} (move : Move s event s') (here : event.worker = some w)
    (loads : (s.pc w).loads = some f) (number : (s.fiber f).pop = some p)
    (isFresh : (s.fiber f).fresh = true) : p ∈ s'.started ∨ Loaded s' p := by
  have gone {pc : Pc} {p : Prop} (from' : s.pc w = pc) (none : pc.loads = none) : p := by
    rw [from', none] at loads
    cases loads
  cases move
  case count b g from' =>
    cases here
    cases b with
    | fiber => exact gone from' rfl
    | callback =>
      rw [from'] at loads
      refine Or.inr ⟨w, f, ?_, number, isFresh⟩
      exact (congrArg Pc.loads (Function.update_self w _ s.pc)).trans loads
  case enter b g from' _ =>
    cases here
    cases b with
    | fiber => exact gone from' rfl
    | callback =>
      rw [from'] at loads
      obtain rfl : g = f := Option.some.inj loads
      refine Or.inr ⟨w, g, ?_, ?_, ?_⟩
      · exact congrArg Pc.loads (Function.update_self w _ s.pc)
      · exact (congrArg Fiber.pop (Function.update_self g _ s.fiber)).trans number
      · exact (congrArg Fiber.fresh (Function.update_self g _ s.fiber)).trans isFresh
  case switch b g from' _ =>
    cases here
    cases b with
    | fiber => exact gone from' rfl
    | callback =>
      rw [from'] at loads
      obtain rfl : g = f := Option.some.inj loads
      left
      dsimp only
      rw [if_pos isFresh, number]
      exact List.mem_cons_self
  case schedule | scheduleBatch | testTickleNone | testTickleSome | writeTickle | testOtherNone |
      testOtherSome | writeOther | newFiber | stop => cases here
  case drain from' | addTimer from' | cancelTimer from' | addEvent from' | delEvent from' |
      scan from' _ | testNone from' _ | testSome from' _ | write from' | skip from' _ |
      choose from' _ | reuse from' _ _ | renew from' _ | exit from' _ _ | idle from' _ _ |
      leave from' _ _ | save from' | uncount from' | readReady from' _ | readOver from' _ |
      readFinished from' _ | readOther from' _ | reschedule from' | hold from' | reset from' _ |
      noTimer from' _ | someTimer from' | noPending from' _ | somePending from' | stops from' _ |
      stays from' | block from' | wake from' | expire from' _ _ _ | rearm from' |
      scheduleCbs from' | trigger from' _ | endTrigger from' | swapOut from' | endIdle from' =>
    cases here
    exact gone from' rfl

theorem started_subset (move : Move s event s') : s.started ⊆ s'.started := by
  intro p member
  cases move
  case switch =>
    dsimp only
    split
    · exact List.mem_append_right _ member
    · exact member
  all_goals exact member

/-- The numbers grow by one where a callback is loaded. -/
theorem pops_next {p : Nat} (move : Move s event s') (below : p < s'.pops) :
    p < s.pops ∨ Loaded s' p := by
  cases move
  case reuse w c g from' keeps reusable =>
    rcases Nat.lt_succ_iff_lt_or_eq.mp below with old | rfl
    · exact Or.inl old
    · refine Or.inr ⟨w, g, ?_, ?_, ?_⟩
      · exact congrArg Pc.loads (Function.update_self w _ s.pc)
      · exact congrArg Fiber.pop (Function.update_self g _ s.fiber)
      · exact congrArg Fiber.fresh (Function.update_self g _ s.fiber)
  case renew w c from' none =>
    rcases Nat.lt_succ_iff_lt_or_eq.mp below with old | rfl
    · exact Or.inl old
    · refine Or.inr ⟨w, s.nextFiber, ?_, ?_, ?_⟩
      · exact congrArg Pc.loads (Function.update_self w _ s.pc)
      · exact congrArg Fiber.pop (Function.update_self s.nextFiber _ s.fiber)
      · exact congrArg Fiber.fresh (Function.update_self s.nextFiber _ s.fiber)
  all_goals exact Or.inl below

theorem started_next (handed : Handed s) (made : Made s) (ok : HandOff s event)
    (move : Move s event s') (started : ∀ p < s.pops, p ∈ s.started ∨ Loaded s p) :
    ∀ p < s'.pops, p ∈ s'.started ∨ Loaded s' p := by
  intro p below
  rcases pops_next move below with before | loaded
  · rcases started p before with old | ⟨w, f, loads, number, isFresh⟩
    · exact Or.inl (started_subset move old)
    · by_cases here : event.worker = some w
      · exact loads_next move here loads number isFresh
      · have same := handed.fiber_eq made ok move (Pc.grip_of_loads loads) here
        exact Or.inr ⟨w, f, by rw [move.pc_eq here]; exact loads, by rw [same]; exact number,
          by rw [same]; exact isFresh⟩
  · exact Or.inr loaded

/-! ### Runs -/

/-- Both conditions on a step. -/
def ReuseOk (s : Pool n) (event : Event n) : Prop := HandOff s event ∧ Reusable s event

instance (s : Pool n) (event : Event n) : Decidable (ReuseOk s event) :=
  inferInstanceAs (Decidable (_ ∧ _))

theorem reuse_initial : Reuse (Pool.initial n) where
  ran _ := trivial
  alone _ _ _ kept := by cases kept
  carried _ _ carries := by cases carries
  unreferred _ _ kept := by cases kept
  empty _ _ kept := by cases kept
  ready _ _ pops := by cases pops

theorem numbered_initial : Numbered (Pool.initial n) where
  bound _ _ number := by cases number
  fresh _ _ number := by cases number
  alone _ _ _ number := by cases number
  old _ member := by cases member
  once := List.nodup_nil

/-- Everything that is invariant under the two conditions. -/
theorem reuse_of_reachable (reached : (pool n).ReachableWhen ReuseOk s) :
    Reuse s ∧ Numbered s ∧ ∀ p < s.pops, p ∈ s.started ∨ Loaded s p := by
  have all : (Made s ∧ Handed s) ∧ Reuse s ∧ Numbered s ∧
      ∀ p < s.pops, p ∈ s.started ∨ Loaded s p := by
    apply reached.invariant
    · rintro s rfl
      exact ⟨⟨made_initial, handed_initial⟩, reuse_initial, numbered_initial, nofun⟩
    · rintro s event s' ⟨⟨made, handed⟩, reuse, numbered, started⟩ ⟨ok, reusable⟩ stepped
      have move := move_of_next stepped
      exact ⟨⟨made.step move, handed.next made ok move⟩, reuse.next handed made ok reusable move,
        numbered.next move, started_next handed made ok move started⟩
  exact all.2

/-- **Under the conditions, in every run, a `cb_fiber` is reused only when it is finished, and every
popped callback is started once.** -/
theorem reused_finished (reached : (pool n).ReachableWhen ReuseOk s) : ReusedFinished s := by
  obtain ⟨reuse, numbered, started⟩ := reuse_of_reachable reached
  have done : ∀ w c f, s.pc w = .dispatch (.cb (some c)) → s.cbFiber w = some f →
      (s.fiber f).Done := by
    intro w c f from' kept
    exact reuse.ready w f (by rw [from']; rfl) kept
  refine ⟨done, fun w c f from' kept => ?_, fun w b f from' => ?_, numbered.once, started⟩
  · have unreferred := reuse.unreferred w f kept (done w c f from' kept)
    exact ⟨fun it member names => unreferred (.queue it member names),
      fun fc member names => unreferred (.context fc member names)⟩
  · have ran := reuse.ran w
    rw [from'] at ran
    exact ran

/-- A callback yields `READY`, is resumed and ends; then the worker pops another one. -/
theorem reused_finished_afterReady :
    ∃ s : Pool 1, (pool 1).ReachableWhen ReuseOk s ∧
      (s.pc 0 = .dispatch (.cb (some 8)) ∧ s.cbFiber 0 = some 0) ∧ ReusedFinished s := by
  have run : ∃ s, (pool 1).ReachableWhen ReuseOk s ∧
      decide (s.pc 0 = .dispatch (.cb (some 8)) ∧ s.cbFiber 0 = some 0) = true :=
    Machine.reachableWhen_of_replay rfl
      (List.flatten [[.schedule (.cb (some 7)) (-1)], List.replicate 5 (.work 0), [.leave 0 .ready],
        List.replicate 10 (.work 0), [.leave 0 .term], List.replicate 3 (.work 0),
        [.schedule (.cb (some 8)) (-1), .work 0]]) _ (by decide +kernel)
  obtain ⟨s, reached, check⟩ := run
  exact ⟨s, reached, of_decide_eq_true check, reused_finished reached⟩

/-! ### A callback that yields `READY` -/

/-- Two callbacks are queued; the first yields `READY`. -/
def readied : List (Event 1) :=
  List.flatten [
    [.scheduleBatch [.cb (some 7), .cb (some 8)]],
    List.replicate 6 (.work 0),
    [.leave 0 .ready],
    List.replicate 6 (.work 0)]

/-- **A fiber that is `READY`, and in the queue, is reset for the next callback**: the assertion of
`Fiber::reset` fails. -/
theorem readied_reused :
    (∃ s, (pool 1).Reachable s ∧ s.pc 0 = .dispatch (.cb (some 8)) ∧ s.cbFiber 0 = some 0 ∧
      s.state 0 = .ready ∧ (s.next (.work 0)).isNone = true) ∧
    ¬ ∀ n, ∀ s : Pool n, (pool n).Reachable s → ReusedFinished s := by
  have reused := Machine.reachable_of_replay (m := pool 1) rfl readied
    (fun s => decide (s.pc 0 = .dispatch (.cb (some 8)) ∧ s.cbFiber 0 = some 0 ∧
      s.state 0 = .ready ∧ (s.next (.work 0)).isNone = true)) (by decide +kernel)
  simp only [decide_eq_true_eq] at reused
  refine ⟨reused, fun all => ?_⟩
  obtain ⟨s, reached, from', kept, ready, -⟩ := reused
  have ready : (s.fiber 0).state = .ready := ready
  have finished := (all 1 s reached).finished 0 8 0 from' kept
  rw [ready] at finished
  rcases finished with none | none | ⟨none, -⟩ <;> cases none

end Sylar.Scheduler
