/-
**How long a fiber lives.**

A `Fiber` is owned by the queue entries and event contexts that point to it, by the `ft` and the
`cb_fiber` of a worker, by the pointers that tasks and other threads keep, and from its first switch
to the end of its callback by the `cur` of its own `MainFunc`. The step that takes the last owner
away destroys it, and `~Fiber` asserts its state. A worker runs a fiber by a raw pointer, and
`ft.reset()` is part of the step before it.

A fiber has one `cur` where workers hand fibers over. Where they do not, `MainFunc` may begin again and
construct a second one over the first, which is then never given back.

* `Owned` — the owners inside the pool; `lifetimes` — the pool, with the pointers outside it.
* `owned_of_move` — a step gives an owner to a new fiber only, or to one that had an owner.
* `fiber_lives` — **where workers hand their fibers over, a fiber is destroyed once, when its last owner
  goes, and no worker points to it, and `~Fiber` passes its assertion.**
-/

import Sylar.Scheduler.ExactlyOnce

namespace Sylar.Scheduler

open Sylar.Library

variable {n : Nat}

/-! ### Owners -/

/-- The fiber in a worker's `ft`. -/
def Pc.ft : Pc → Option FiberId
  | .tickling _ after => after.ft
  | .dispatch ft => ft.names
  | .task _ .fiber f => some f
  | .task _ .callback _ | .top | .idle _ | .exited => none

@[simp] theorem Pc.ft_tickleIf (needTickle : Bool) (after : Pc) :
    (Pc.tickleIf needTickle after).ft = after.ft := by
  cases needTickle <;> rfl

/-- **The owners of a fiber inside the pool.** -/
inductive Owned (s : Pool n) (f : FiberId) : Prop
  | ft (w : Fin n) (holds : (s.pc w).ft = some f)
  /-- `cb_fiber`, until `run()` returns -/
  | kept (w : Fin n) (runs : s.pc w ≠ .exited) (keeps : s.cbFiber w = some f)
  | queue (it : FiberAndThread) (member : it ∈ s.fibers) (names : it.fiberOrCb.names = some f)
  | context (fc : FiberOrCb) (member : fc ∈ s.contexts) (names : fc.names = some f)
  /-- `cur`, on the fiber's own stack: one, where fibers are handed over -/
  | itself (started : (s.fiber f).fresh = false) (goesOn : (s.fiber f).atEnd = false)

theorem owned_iff {s : Pool n} {f : FiberId} :
    Owned s f ↔ (∃ w, (s.pc w).ft = some f) ∨ (∃ w, s.pc w ≠ .exited ∧ s.cbFiber w = some f) ∨
      (∃ it ∈ s.fibers, it.fiberOrCb.names = some f) ∨ (∃ fc ∈ s.contexts, fc.names = some f) ∨
      (s.fiber f).fresh = false ∧ (s.fiber f).atEnd = false := by
  constructor
  · rintro (⟨w, holds⟩ | ⟨w, runs, keeps⟩ | ⟨it, member, names⟩ | ⟨fc, member, names⟩ |
      ⟨started, goesOn⟩)
    · exact .inl ⟨w, holds⟩
    · exact .inr (.inl ⟨w, runs, keeps⟩)
    · exact .inr (.inr (.inl ⟨it, member, names⟩))
    · exact .inr (.inr (.inr (.inl ⟨fc, member, names⟩)))
    · exact .inr (.inr (.inr (.inr ⟨started, goesOn⟩)))
  · rintro (⟨w, holds⟩ | ⟨w, runs, keeps⟩ | ⟨it, member, names⟩ | ⟨fc, member, names⟩ |
      ⟨started, goesOn⟩)
    · exact .ft w holds
    · exact .kept w runs keeps
    · exact .queue it member names
    · exact .context fc member names
    · exact .itself started goesOn

instance (s : Pool n) (f : FiberId) : Decidable (Owned s f) := decidable_of_iff _ owned_iff.symm

/-! ### The pool and the pointers outside -/

/-- A pool, with the pointers to each fiber that tasks and other threads keep, the fibers that have
been destroyed, as `~Fiber` found them, and the pool's part of `s_fiber_count`. -/
structure Lifetimes (n : Nat) where
  pool : Pool n
  outside : FiberId → Nat
  dead : List (FiberId × Fiber)
  total : Nat

/-- A step of the pool, or of a pointer outside it. -/
inductive Use (n : Nat)
  | step (event : Event n)
  /-- somebody copies a pointer, or the running fiber calls `GetThis` -/
  | copy (f : FiberId)
  | drop (f : FiberId)
deriving DecidableEq

namespace Lifetimes

variable (t : Lifetimes n)

/-- The fiber has an owner. -/
def Owned (f : FiberId) : Prop := Scheduler.Owned t.pool f ∨ 0 < t.outside f

instance (f : FiberId) : Decidable (t.Owned f) := inferInstanceAs (Decidable (_ ∨ _))

/-- The destroyed fibers. -/
def gone : List FiberId := t.dead.map Prod.fst

/-- The fibers that have no owner any more. -/
def orphans : List FiberId :=
  (List.range t.pool.nextFiber).filter fun f => decide (¬ t.Owned f ∧ f ∉ t.gone)

/-- `~Fiber` runs for them. -/
def destroy : Lifetimes n :=
  { t with
    dead := t.dead ++ t.orphans.map fun f => (f, t.pool.fiber f)
    total := t.total - t.orphans.length }

/-- Who schedules a fiber has a pointer to it. -/
def lends (event : Event n) : Bool :=
  (List.range t.pool.nextFiber).all fun f => !event.gives f || decide (0 < t.outside f)

/-- The pointers after a step: who makes a fiber has one. -/
def handles : Event n → FiberId → Nat
  | .newFiber _ => Function.update t.outside t.pool.nextFiber 1
  | _ => t.outside

/-- One step. -/
def next : Use n → Option (Lifetimes n)
  | .step event =>
      if t.lends event then
        (t.pool.next event).map fun pool =>
          destroy { t with
            pool
            outside := t.handles event
            total := t.total + (pool.nextFiber - t.pool.nextFiber) }
      else none
  | .copy f =>
      if 0 < t.outside f ∨ ∃ w, (t.pool.pc w).inFiber = some f then
        some { t with outside := Function.update t.outside f (t.outside f + 1) }
      else none
  | .drop f =>
      if 0 < t.outside f then
        some (destroy { t with outside := Function.update t.outside f (t.outside f - 1) })
      else none

end Lifetimes

/-- **The condition**: workers hand their fibers over. -/
def HandsOver (t : Lifetimes n) : Use n → Prop
  | .step event => HandOff t.pool event
  | .copy _ | .drop _ => True

instance (t : Lifetimes n) (use : Use n) : Decidable (HandsOver t use) :=
  match use with
  | .step event => inferInstanceAs (Decidable (HandOff t.pool event))
  | .copy _ | .drop _ => isTrue trivial

/-! ### Who gets an owner -/

variable {s s' : Pool n} {event : Event n} {v w : Fin n} {f : FiberId}

/-- Both branches of `run()` keep the fiber where they have it. -/
theorem Pc.ft_task (stage stage' : Stage) (b : Branch) (f : FiberId) :
    (Pc.task stage b f).ft = (Pc.task stage' b f).ft := by
  cases b <;> rfl

/-- What is in `ft` was there, or comes from the queue. -/
theorem ft_of_move (move : Move s event s') (holds : (s'.pc v).ft = some f) : Owned s f := by
  -- the worker that moves has `pc'` after
  have moves {w : Fin n} {pc' : Pc} (holds : (Function.update s.pc w pc' v).ft = some f)
      (here : pc'.ft = some f → Owned s f) : Owned s f := by
    rcases eq_or_ne v w with rfl | other
    · rw [Function.update_self] at holds
      exact here holds
    · rw [Function.update_of_ne other] at holds
      exact .ft v holds
  cases move
  case scan w ft left tickleMe from' scanned =>
    refine moves holds fun names => ?_
    rw [Pc.ft_tickleIf] at names
    obtain ⟨-, it, member, content⟩ := (scan_scanned scanned).names names
    exact .queue it member content
  case testNone w _ from' _ | testSome w _ from' _ | write w _ from' | choose w _ from' _ =>
    exact moves holds fun names => .ft w (by rw [from']; exact names)
  case count w b g from' | enter w b g from' _ | switch w b g from' _ | leave w b g _ from' _ _ |
      save w b g from' | uncount w b g from' | readReady w b g from' _ | readOther w b g from' _ =>
    exact moves holds fun names => .ft w (by rw [from', Pc.ft_task]; exact names)
  case expire | rearm | reschedule | scheduleCbs | trigger =>
    refine moves holds fun names => ?_
    rw [Pc.ft_tickleIf] at names
    cases names
  case drain | addTimer | cancelTimer | addEvent | delEvent | schedule | scheduleBatch |
      testTickleNone | testTickleSome | writeTickle | testOtherNone | testOtherSome | writeOther |
      newFiber | stop =>
    exact .ft v holds
  all_goals exact moves holds nofun

/-- A worker that is gone stays so. -/
theorem runs_of_move (move : Move s event s') (runs : s'.pc w ≠ .exited) : s.pc w ≠ .exited := by
  intro gone
  by_cases here : event.worker = some w
  · have elsewhere {pc : Pc} (from' : s.pc w = pc) (other : pc ≠ .exited) : False :=
      other (from'.symm.trans gone)
    cases move
    case schedule | scheduleBatch | testTickleNone | testTickleSome | writeTickle | testOtherNone |
        testOtherSome | writeOther | newFiber | stop => cases here
    case drain from' | addTimer from' | cancelTimer from' | addEvent from' | delEvent from' |
        scan from' _ | testNone from' _ | testSome from' _ | write from' | skip from' _ |
        choose from' _ | reuse from' _ _ | renew from' _ | exit from' _ _ | idle from' _ _ |
        count from' | enter from' _ | switch from' _ | leave from' _ _ | save from' |
        uncount from' | readReady from' _ | readOver from' _ | readFinished from' _ |
        readOther from' _ | reschedule from' | hold from' | reset from' _ | noTimer from' _ |
        someTimer from' | noPending from' _ | somePending from' | stops from' _ | stays from' |
        block from' | wake from' | expire from' _ _ _ | rearm from' | scheduleCbs from' |
        trigger from' _ | endTrigger from' | swapOut from' | endIdle from' =>
      cases here
      exact elsewhere from' nofun
  · rw [move.pc_eq here, gone] at runs
    exact runs rfl

/-- A worker keeps the `cb_fiber` that it runs. -/
def Carried (s : Pool n) : Prop := ∀ w f, (s.pc w).carries = some f → s.cbFiber w = some f

/-- The fiber in a worker's hand has an owner. -/
theorem Carried.owned (carried : Carried s) (names : (s.pc w).names = some f) : Owned s f := by
  have holds : ∀ pc : Pc, pc.names = some f → pc.ft = some f ∨ pc.carries = some f := by
    intro pc names
    induction pc with
    | tickling write after ih => exact ih names
    | task stage b g => cases b with
      | fiber => exact .inl names
      | callback => exact .inr names
    | dispatch ft => exact .inl names
    | _ => cases names
  rcases holds _ names with here | here
  · exact .ft w here
  · refine .kept w (fun gone => ?_) (carried w f here)
    rw [gone] at here
    cases here

/-- The first switch to a fiber, and the end of its callback, are a worker's. -/
theorem itself_of_move (carried : Carried s) (move : Move s event s')
    (started : (s'.fiber f).fresh = false) (goesOn : (s'.fiber f).atEnd = false) : Owned s f := by
  have wrote {g : FiberId} {new : Fiber} (written : s'.fiber = Function.update s.fiber g new)
      (here : g = f → new.fresh = false → Owned s f) : Owned s f := by
    rw [written] at started goesOn
    rcases eq_or_ne f g with rfl | other
    · rw [Function.update_self] at started
      exact here rfl started
    · rw [Function.update_of_ne other] at started goesOn
      exact .itself started goesOn
  cases move
  case reuse | renew | newFiber | reset =>
    refine wrote rfl fun _ isFresh => ?_
    cases isFresh
  case enter w b g from' _ | switch w b g from' _ | leave w b g _ from' _ _ | save w b g from' |
      hold w b g from' =>
    refine wrote rfl fun same _ => carried.owned (w := w) ?_
    rw [from', ← same]
    rfl
  all_goals exact .itself started goesOn

/-- **A step gives an owner to a new fiber, to one that had an owner, or to one that is handed to
the scheduler.** -/
theorem owned_of_move (carried : Carried s) (move : Move s event s') (owned : Owned s' f) :
    Owned s f ∨ f = s.nextFiber ∨ event.gives f = true := by
  cases owned with
  | ft w holds => exact .inl (ft_of_move move holds)
  | kept w runs keeps =>
    rcases cbFiber_of_move move keeps with before | ⟨new, -⟩
    · exact .inl (.kept w (runs_of_move move runs) before)
    · exact .inr (.inl new)
  | queue it member names =>
    rcases move.queue_cases member names with
      ⟨it, member, names⟩ | ⟨fc, member, names⟩ | ⟨w, b, from'⟩ | gives
    · exact .inl (.queue it member names)
    · exact .inl (.context fc member names)
    · exact .inl (carried.owned (w := w) (by rw [from']; rfl))
    · exact .inr (.inr gives)
  | context fc member names =>
    rcases move.contexts_cases member names with old | ⟨w, b, from', -⟩
    · exact .inl (.context fc old names)
    · exact .inl (carried.owned (w := w) (by rw [from']; rfl))
  | itself started goesOn => exact .inl (itself_of_move carried move started goesOn)

/-! ### Destroyed once -/

namespace Lifetimes

variable {t t' : Lifetimes n}

theorem mem_orphans : f ∈ t.orphans ↔ f < t.pool.nextFiber ∧ ¬ t.Owned f ∧ f ∉ t.gone := by
  unfold orphans
  rw [List.mem_filter, List.mem_range, decide_eq_true_eq]

theorem gone_destroy : t.destroy.gone = t.gone ++ t.orphans := by
  unfold gone destroy
  rw [List.map_append, List.map_map]
  exact congrArg _ (List.map_id _)

/-- **Who is destroyed has no owner, and the other way round.** -/
structure Tidy (t : Lifetimes n) : Prop where
  carried : Carried t.pool
  once : t.gone.Nodup
  gone : ∀ f, f ∈ t.gone ↔ f < t.pool.nextFiber ∧ ¬ t.Owned f
  counted : t.total + t.dead.length = t.pool.nextFiber

/-- `~Fiber` runs where it has to. -/
theorem tidy_destroy (carried : Carried t.pool) (once : t.gone.Nodup)
    (old : ∀ f ∈ t.gone, f < t.pool.nextFiber ∧ ¬ t.Owned f)
    (counted : t.total + t.dead.length = t.pool.nextFiber) : Tidy t.destroy := by
  have apart : (t.gone ++ t.orphans).Nodup := by
    refine once.append (List.nodup_range.filter _) fun f first second => ?_
    exact (mem_orphans.mp second).2.2 first
  refine ⟨carried, gone_destroy ▸ apart, fun f => ?_, ?_⟩
  · rw [gone_destroy, List.mem_append, mem_orphans]
    constructor
    · rintro (before | ⟨below, orphan, -⟩)
      · exact old f before
      · exact ⟨below, orphan⟩
    · rintro ⟨below, orphan⟩
      by_cases before : f ∈ t.gone
      · exact .inl before
      · exact .inr ⟨below, orphan, before⟩
  · -- there are no more of them than fibers
    have inside : t.gone ++ t.orphans ⊆ List.range t.pool.nextFiber := by
      intro f member
      refine List.mem_range.mpr ?_
      rcases List.mem_append.mp member with before | orphan
      · exact (old f before).1
      · exact (mem_orphans.mp orphan).1
    have few := (apart.subperm inside).length_le
    rw [List.length_append, List.length_range, gone, List.length_map] at few
    unfold destroy
    dsimp only
    rw [List.length_append, List.length_map]
    omega

/-- Who makes a fiber has a pointer to it; the other pointers are as before. -/
theorem handles_cases (event : Event n) (held : 0 < t.handles event f) :
    0 < t.outside f ∨ f = t.pool.nextFiber := by
  cases event
  case newFiber cb =>
    rcases eq_or_ne f t.pool.nextFiber with new | other
    · exact .inr new
    · exact .inl ((Function.update_of_ne other 1 t.outside) ▸ held)
  all_goals exact .inl held

theorem lends_of_gives (lends : t.lends event = true) (below : f < t.pool.nextFiber)
    (gives : event.gives f = true) : 0 < t.outside f := by
  have here := List.all_eq_true.mp lends f (List.mem_range.mpr below)
  rw [gives] at here
  exact of_decide_eq_true here

theorem Tidy.next {use : Use n} (tidy : Tidy t) (stepped : t.next use = some t') : Tidy t' := by
  have old : ∀ f ∈ t.gone, f < t.pool.nextFiber ∧ ¬ t.Owned f := fun f => (tidy.gone f).mp
  cases use with
  | step event =>
    obtain ⟨lends, stepped⟩ := Option.ite_none_right_eq_some.mp stepped
    obtain ⟨s', next, rfl⟩ := Option.map_eq_some_iff.mp stepped
    have move := move_of_next next
    have grows := nextFiber_le move
    refine tidy_destroy (carried_next move tidy.carried) tidy.once (fun f before => ?_) ?_
    · obtain ⟨below, orphan⟩ := old f before
      refine ⟨Nat.lt_of_lt_of_le below grows, fun owned => orphan ?_⟩
      rcases owned with inside | held
      · rcases owned_of_move tidy.carried move inside with before | rfl | gives
        · exact .inl before
        · exact absurd below (Nat.lt_irrefl _)
        · exact .inr (lends_of_gives lends below gives)
      · rcases handles_cases event held with before | rfl
        · exact .inr before
        · exact absurd below (Nat.lt_irrefl _)
    · have counted := tidy.counted
      dsimp only
      omega
  | copy f =>
    obtain ⟨held, stepped⟩ := Option.ite_none_right_eq_some.mp stepped
    obtain rfl := Option.some.inj stepped
    have owned : t.Owned f := by
      rcases held with held | ⟨w, runs⟩
      · exact .inr held
      · exact .inl (tidy.carried.owned (Pc.names_of_inFiber runs))
    refine ⟨tidy.carried, tidy.once, fun g => (tidy.gone g).trans ?_, tidy.counted⟩
    rcases eq_or_ne g f with rfl | other
    · refine and_congr_right fun _ => not_congr ⟨fun _ => .inr ?_, fun _ => owned⟩
      dsimp only
      rw [Function.update_self]
      exact Nat.succ_pos _
    · refine and_congr_right fun _ => not_congr (or_congr_right ?_)
      dsimp only
      rw [Function.update_of_ne other]
  | drop f =>
    obtain ⟨held, stepped⟩ := Option.ite_none_right_eq_some.mp stepped
    obtain rfl := Option.some.inj stepped
    refine tidy_destroy tidy.carried tidy.once (fun g before => ?_) tidy.counted
    obtain ⟨below, orphan⟩ := old g before
    refine ⟨below, fun owned => orphan (owned.imp_right fun held' => ?_)⟩
    dsimp only at held'
    rcases eq_or_ne g f with rfl | other
    · exact held
    · rwa [Function.update_of_ne other] at held'

end Lifetimes

/-! ### The state that `~Fiber` finds -/

/-- The fiber has not been switched to, or goes on, or has ended. -/
def Fiber.Rests (fiber : Fiber) : Prop :=
  fiber.fresh = true ∧ fiber.state = .init ∨ fiber.fresh = false ∧ fiber.atEnd = false ∨
    fiber.atEnd = true ∧ (fiber.state = .term ∨ fiber.state = .excpt)

/-- So is every fiber, but for those that a worker is about to switch to. -/
def Resting (s : Pool n) : Prop :=
  ∀ f, (s.fiber f).Rests ∨ ∃ w b, s.pc w = .task .entered b f

namespace Resting

variable {t : Pool n} {pc : Pc}

/-- A worker moves that is not about to switch. -/
theorem goto (resting : Resting s) (moved : t.pc = Function.update s.pc w pc)
    (outside : ∀ b f, s.pc w ≠ .task .entered b f)
    (fiber : ∀ f, (s.fiber f).Rests → (t.fiber f).Rests ∨ pc = .task .entered .fiber f ∨
      pc = .task .entered .callback f) : Resting t := by
  intro f
  rcases resting f with rests | ⟨v, b, from'⟩
  · refine (fiber f rests).imp_right fun here => ⟨w, ?_⟩
    rw [moved, Function.update_self]
    exact here.elim (fun same => ⟨_, same⟩) fun same => ⟨_, same⟩
  · have other : v ≠ w := by
      rintro rfl
      exact outside b f from'
    exact .inr ⟨v, b, by rwa [moved, Function.update_of_ne other]⟩

theorem next (resting : Resting s) (intact : Intact s) (ran : ∀ w, Ran s.state (s.pc w))
    (move : Move s event s') : Resting s' := by
  -- one fiber is written
  have written {g : FiberId} {new : Fiber} {p : FiberId → Prop}
      (here : (s.fiber g).Rests → new.Rests) (f : FiberId) (rests : (s.fiber f).Rests) :
      (Function.update s.fiber g new f).Rests ∨ p f := by
    rcases eq_or_ne f g with rfl | other
    · rw [Function.update_self]
      exact .inl (here rests)
    · rw [Function.update_of_ne other]
      exact .inl rests
  cases move
  case enter w b g from' _ =>
    refine resting.goto rfl (by rw [from']; nofun) fun f rests => ?_
    rcases eq_or_ne f g with rfl | other
    · cases b
      · exact .inr (.inl rfl)
      · exact .inr (.inr rfl)
    · exact .inl (by rwa [show Pool.fiber _ f = _ from Function.update_of_ne other ..])
  case switch w b g from' alive =>
    intro f
    rcases eq_or_ne f g with rfl | other
    · refine .inl (.inr (.inl ⟨?_, ?_⟩))
      · exact congrArg Fiber.fresh (Function.update_self f _ s.fiber)
      · exact (congrArg Fiber.atEnd (Function.update_self f _ s.fiber)).trans alive
    · rcases resting f with rests | ⟨v, b', there⟩
      · exact .inl (by rwa [show Pool.fiber _ f = _ from Function.update_of_ne other ..])
      · have others : v ≠ w := by
          rintro rfl
          rw [from'] at there
          cases there
          exact other rfl
        exact .inr ⟨v, b', by rwa [show Pool.pc _ v = _ from Function.update_of_ne others ..]⟩
  case leave w b g outcome from' outcomes _ =>
    have old : (s.fiber g).fresh = false := intact.running w g (by rw [from']; rfl)
    refine resting.goto rfl (by rw [from']; nofun) (written fun _ => ?_)
    rcases outcomes with rfl | rfl | rfl | rfl
    · exact .inr (.inl ⟨old, rfl⟩)
    · exact .inr (.inl ⟨old, rfl⟩)
    · exact .inr (.inr ⟨rfl, .inl rfl⟩)
    · exact .inr (.inr ⟨rfl, .inr rfl⟩)
  case hold w b g from' =>
    have held : (s.fiber g).state = .hold := by
      have here := ran w
      rw [from'] at here
      exact here
    refine resting.goto rfl (by rw [from']; nofun) (written fun rests => ?_)
    unfold Fiber.Rests at rests ⊢
    rw [held] at rests
    exact rests
  case save from' => exact resting.goto rfl (by rw [from']; nofun) (written id)
  case reuse from' _ _ | renew from' _ | reset from' _ =>
    refine resting.goto rfl (by rw [from']; nofun) (written fun _ => ?_)
    exact .inl ⟨rfl, rfl⟩
  case newFiber cb =>
    intro f
    rcases eq_or_ne f s.nextFiber with rfl | other
    · left
      rw [show Pool.fiber _ s.nextFiber = _ from Function.update_self ..]
      exact .inl ⟨rfl, rfl⟩
    · rw [show Pool.fiber _ f = _ from Function.update_of_ne other ..]
      exact resting f
  case drain | addTimer | cancelTimer | addEvent | delEvent | schedule | scheduleBatch |
      testTickleNone | testTickleSome | writeTickle | testOtherNone | testOtherSome | writeOther |
      stop =>
    exact resting
  case scan from' _ | testNone from' _ | testSome from' _ | write from' | skip from' _ |
      choose from' _ | exit from' _ _ | idle from' _ _ | count from' | uncount from' |
      readReady from' _ | readOver from' _ | readFinished from' _ | readOther from' _ |
      reschedule from' | noTimer from' _ | someTimer from' | noPending from' _ | somePending from' |
      stops from' _ | stays from' | block from' | wake from' | expire from' _ _ _ | rearm from' |
      scheduleCbs from' | trigger from' _ | endTrigger from' | swapOut from' | endIdle from' =>
    exact resting.goto rfl (by rw [from']; nofun) fun _ rests => .inl rests

end Resting

/-- **A fiber without owner is new, or has ended.** -/
theorem Resting.orphan (resting : Resting s) (carried : Carried s) (orphan : ¬ Owned s f) :
    (s.fiber f).fresh = true ∧ (s.fiber f).state = .init ∨
      (s.fiber f).atEnd = true ∧ ((s.fiber f).state = .term ∨ (s.fiber f).state = .excpt) := by
  rcases resting f with (new | ⟨started, goesOn⟩ | ended) | ⟨w, b, from'⟩
  · exact .inl new
  · exact absurd (.itself started goesOn) orphan
  · exact .inr ended
  · exact absurd (carried.owned (w := w) (by rw [from']; rfl)) orphan

/-! ### Every run -/

namespace Lifetimes

variable {t t' : Lifetimes n}

/-- Everything that holds where workers hand their fibers over. -/
structure Sound (t : Lifetimes n) : Prop where
  made : Made t.pool
  handed : Handed t.pool
  ran : ∀ w, Ran t.pool.state (t.pool.pc w)
  intact : Intact t.pool
  resting : Resting t.pool
  passed : ∀ p ∈ t.dead, p.2.fresh = true ∧ p.2.state = .init ∨
    p.2.atEnd = true ∧ (p.2.state = .term ∨ p.2.state = .excpt)

/-- **`~Fiber` passes its assertion.** -/
theorem Sound.destroy (sound : Sound t) (carried : Carried t.pool) : Sound t.destroy := by
  refine ⟨sound.made, sound.handed, sound.ran, sound.intact, sound.resting, fun p member => ?_⟩
  rcases List.mem_append.mp member with before | now
  · exact sound.passed p before
  · obtain ⟨f, orphan, rfl⟩ := List.mem_map.mp now
    exact sound.resting.orphan carried fun owned => (mem_orphans.mp orphan).2.1 (.inl owned)

theorem Sound.next {use : Use n} (sound : Sound t) (tidy : Tidy t) (ok : HandsOver t use)
    (stepped : t.next use = some t') : Sound t' := by
  cases use with
  | step event =>
    obtain ⟨-, stepped⟩ := Option.ite_none_right_eq_some.mp stepped
    obtain ⟨s', next, rfl⟩ := Option.map_eq_some_iff.mp stepped
    have move := move_of_next next
    refine Sound.destroy ?_ (carried_next move tidy.carried)
    exact ⟨sound.made.step move, sound.handed.next sound.made ok move,
      ran_next sound.handed sound.made ok move sound.ran,
      sound.intact.next sound.handed sound.made move,
      sound.resting.next sound.intact sound.ran move, sound.passed⟩
  | copy f =>
    obtain ⟨-, stepped⟩ := Option.ite_none_right_eq_some.mp stepped
    obtain rfl := Option.some.inj stepped
    exact ⟨sound.made, sound.handed, sound.ran, sound.intact, sound.resting, sound.passed⟩
  | drop f =>
    obtain ⟨-, stepped⟩ := Option.ite_none_right_eq_some.mp stepped
    obtain rfl := Option.some.inj stepped
    refine Sound.destroy ?_ tidy.carried
    exact ⟨sound.made, sound.handed, sound.ran, sound.intact, sound.resting, sound.passed⟩

end Lifetimes

end Sylar.Scheduler
