/-
**Every callback that is scheduled is called once.**

The pool's runs, with the callbacks that are put in the queue, those that are popped, loaded into a
`cb_fiber`, and those that `MainFunc` calls. It begins whenever a context is entered that was never
saved: at the first switch to a fiber, and again if the fiber has written its state and is taken by
another worker before its context is saved.

* `Kept` — what is put in the queue is in the queue, in a worker's hand, or popped.
* `Aged` — where fibers are handed over, only a fiber's first switch finds a context never saved.
* `Called` — what is called was popped, under a number that has been started.
* `exactly_once` — **where fibers are handed over, no callback is called more often than it is
  scheduled; and where they are reused only when finished, and what others enqueue is served, each one
  has been called as often as it was scheduled when the workers are gone.**
* `called_again` — a fiber that is not handed over: its callback is called twice.
-/

import Sylar.Scheduler.CallbackFiber
import Sylar.Scheduler.Drained
import Sylar.Library.Tally

namespace Sylar.Scheduler

open Sylar.Library

variable {n : Nat}

/-! ### The callbacks of a run -/

/-- A pool with what its run has put in the queue, popped and called. -/
structure Tracked (n : Nat) where
  pool : Pool n
  enqueued : List Callback
  popped : List Callback
  called : List Callback

/-- The callback in a task. -/
def callbackOf : FiberOrCb → Option Callback
  | .cb c => c
  | .fiber _ => none

/-- What the next step of a worker does with callbacks: enqueue, pop, or call them. -/
def Pool.enqueues (s : Pool n) : Event n → List FiberOrCb
  | .work w =>
      match s.pc w with
      | .idle (.listed cbs 0) => cbs.map .cb
      | _ => []
  | .trigger _ i => s.contexts[i]?.toList
  | .schedule fc _ => [fc]
  | .scheduleBatch fcs => fcs
  | _ => []

/-- The callback that the step loads into a `cb_fiber`. -/
def Pool.loads (s : Pool n) : Event n → Option Callback
  | .work w =>
      match s.pc w with
      | .dispatch (.cb c) => c
      | _ => none
  | _ => none

/-- The callback that the step calls: a context that was never saved is the one of `makecontext`, and
`MainFunc` begins. -/
def Pool.calls (s : Pool n) : Event n → Option Callback
  | .work w =>
      match s.pc w with
      | .task .entered _ f =>
          if (s.fiber f).saved = 0 ∧ (s.fiber f).pop.isSome then (s.fiber f).cb else none
      | _ => none
  | _ => none

/-- One step. -/
def trackedStep (t : Tracked n) (event : Event n) : Option (Tracked n) :=
  (t.pool.next event).map fun pool =>
    { pool
      enqueued := t.enqueued ++ (t.pool.enqueues event).filterMap callbackOf
      popped := t.popped ++ (t.pool.loads event).toList
      called := t.called ++ (t.pool.calls event).toList }

/-- The runs of a pool, tracked. -/
def tracked (n : Nat) : Machine (Tracked n) (Event n) :=
  ⟨fun t => t = ⟨Pool.initial n, [], [], []⟩, trackedStep⟩

variable {t t' : Tracked n} {s s' : Pool n} {event : Event n} {c : Callback}

theorem trackedStep_cases (stepped : trackedStep t event = some t') :
    ∃ s', Move t.pool event s' ∧ t' = ⟨s',
      t.enqueued ++ (t.pool.enqueues event).filterMap callbackOf,
      t.popped ++ (t.pool.loads event).toList, t.called ++ (t.pool.calls event).toList⟩ := by
  obtain ⟨s', next, same⟩ := Option.map_eq_some_iff.mp stepped
  exact ⟨s', move_of_next next, same.symm⟩

/-! ### In the queue, in hand, popped -/

/-- The callback that a worker has taken and not loaded. -/
def Pc.inHand : Pc → Option Callback
  | .tickling _ after => after.inHand
  | .dispatch ft => callbackOf ft
  | .task .. | .top | .idle _ | .exited => none

@[simp] theorem Pc.inHand_tickleIf (needTickle : Bool) (after : Pc) :
    (Pc.tickleIf needTickle after).inHand = after.inHand := by
  cases needTickle <;> rfl

/-- How often the callback is in the queue. -/
def Pool.queued (s : Pool n) (c : Callback) : Nat :=
  s.fibers.countP fun it => callbackOf it.fiberOrCb = some c

/-- How many workers have it in hand. -/
def Pool.held (s : Pool n) (c : Callback) : Nat :=
  tally (fun pc => decide (Pc.inHand pc = some c)) s.pc

/-- **What is put in the queue is kept.** -/
def Kept (t : Tracked n) (c : Callback) : Prop :=
  t.enqueued.count c = t.pool.queued c + t.pool.held c + t.popped.count c

theorem count_filterMap (fcs : List FiberOrCb) :
    (fcs.filterMap callbackOf).count c = fcs.countP fun fc => callbackOf fc = some c := by
  induction fcs with
  | nil => rfl
  | cons fc rest ih =>
    rw [List.countP_cons, ← ih]
    cases content : callbackOf fc with
    | none => simp [List.filterMap_cons_none content]
    | some d => simp [List.filterMap_cons_some content, List.count_cons]

theorem count_toList (o : Option Callback) : o.toList.count c = (decide (o = some c)).toNat := by
  cases o with
  | none => rfl
  | some d =>
    by_cases same : d = c <;> simp [same]

/-- A worker moves. -/
theorem held_update {w : Fin n} {pc : Pc} (moved : s'.pc = Function.update s.pc w pc) :
    s'.held c + (decide ((s.pc w).inHand = some c)).toNat =
      s.held c + (decide (pc.inHand = some c)).toNat := by
  unfold Pool.held
  rw [moved]
  exact tally_update (fun pc => decide (Pc.inHand pc = some c)) s.pc w pc

/-- A worker moves with what it has in hand. -/
theorem held_goto {w : Fin n} {pc : Pc} (moved : s'.pc = Function.update s.pc w pc)
    (same : pc.inHand = (s.pc w).inHand) : s'.held c = s.held c := by
  have update := held_update (c := c) moved
  rw [same] at update
  omega

/-- A worker takes what it has popped in hand. -/
theorem held_scan {w : Fin n} {ft : FiberOrCb} {tickleMe : Bool} (from' : s.pc w = .top)
    (moved : s'.pc = Function.update s.pc w (.tickleIf tickleMe (.dispatch ft))) :
    s'.held c = s.held c + (decide (callbackOf ft = some c)).toNat := by
  have update := held_update (c := c) moved
  rw [from', Pc.inHand_tickleIf] at update
  exact update

/-- The queue grows. -/
theorem queued_append {more : List FiberAndThread} (grown : s'.fibers = s.fibers ++ more) :
    s'.queued c = s.queued c + more.countP fun it => callbackOf it.fiberOrCb = some c := by
  unfold Pool.queued
  rw [grown, List.countP_append]

/-- A scan takes a callback out of the queue. -/
theorem queued_of_scan {state : FiberId → State} {self : Int} {fibers left : List FiberAndThread}
    {ft : FiberOrCb} {tickleMe : Bool} (ran : scan state self fibers = some (ft, left, tickleMe)) :
    (left.countP fun it => callbackOf it.fiberOrCb = some c) +
        (decide (callbackOf ft = some c)).toNat =
      fibers.countP fun it => callbackOf it.fiberOrCb = some c := by
  generalize result : (ft, left, tickleMe) = r at ran
  cases scan_scans ran with
  | @taken it skipped later _ takes first told =>
    cases result
    rw [List.countP_append, List.countP_append, List.countP_cons, ← Nat.add_assoc]
    cases decide (callbackOf it.fiberOrCb = some c) <;> rfl
  | nothing =>
    cases result
    rfl

/-- **One step** moves a callback on, or puts it in the queue. -/
theorem kept_move (move : Move s event s') :
    s'.queued c + s'.held c + (s.loads event).toList.count c =
      s.queued c + s.held c + ((s.enqueues event).filterMap callbackOf).count c := by
  have quiet {w : Fin n} {pc : Pc} (fibers : s'.fibers = s.fibers)
      (moved : s'.pc = Function.update s.pc w pc) (same : pc.inHand = (s.pc w).inHand)
      (loads : s.loads event = none) (enqueues : s.enqueues event = []) :
      s'.queued c + s'.held c + (s.loads event).toList.count c =
        s.queued c + s.held c + ((s.enqueues event).filterMap callbackOf).count c := by
    have held := held_goto (c := c) moved same
    have queued : s'.queued c = s.queued c := by
      unfold Pool.queued
      rw [fibers]
    rw [held, queued, loads, enqueues]
    rfl
  -- a worker loads what it has in hand
  have load {w : Fin n} {f : FiberId} {d : Callback} (fibers : s'.fibers = s.fibers)
      (from' : s.pc w = .dispatch (.cb (some d))) (work : event = .work w)
      (moved : s'.pc = Function.update s.pc w (.task .chosen .callback f)) :
      s'.queued c + s'.held c + (s.loads event).toList.count c =
        s.queued c + s.held c + ((s.enqueues event).filterMap callbackOf).count c := by
    subst work
    have update := held_update (c := c) moved
    rw [from'] at update
    have queued : s'.queued c = s.queued c := by
      unfold Pool.queued
      rw [fibers]
    rw [queued, count_toList, show s.loads (.work w) = some d by simp [Pool.loads, from'],
      show s.enqueues (.work w) = [] by simp [Pool.enqueues, from']]
    simp only [Pc.inHand, callbackOf] at update
    simpa [Nat.add_assoc] using update
  -- the queue grows by what the step enqueues
  have grows {more : List FiberAndThread} (grown : s'.fibers = s.fibers ++ more)
      (held : s'.held c = s.held c) (loads : s.loads event = none)
      (enqueues : (s.enqueues event).countP (fun fc => callbackOf fc = some c) =
        more.countP fun it => callbackOf it.fiberOrCb = some c) :
      s'.queued c + s'.held c + (s.loads event).toList.count c =
        s.queued c + s.held c + ((s.enqueues event).filterMap callbackOf).count c := by
    rw [queued_append grown, held, loads, count_filterMap, enqueues, Option.toList_none,
      List.count_nil]
    omega
  cases move
  case reschedule w b f from' =>
    refine grows rfl (held_goto rfl ?_) ?_ ?_
    · rw [from', Pc.inHand_tickleIf]
      rfl
    · simp [Pool.loads, from']
    · simp [Pool.enqueues, from', callbackOf]
  case scheduleCbs w cbs from' =>
    refine grows rfl (held_goto rfl ?_) ?_ ?_
    · rw [from', Pc.inHand_tickleIf]
      rfl
    · simp [Pool.loads, from']
    · simp [Pool.enqueues, from', List.countP_map, Function.comp_def]
  case trigger w i fc from' found =>
    refine grows rfl (held_goto rfl ?_) rfl ?_
    · rw [from', Pc.inHand_tickleIf]
      rfl
    · simp [Pool.enqueues, found, List.countP_cons]
  case schedule fc thread known =>
    exact grows rfl rfl rfl (by simp [Pool.enqueues, List.countP_cons])
  case scheduleBatch fcs known =>
    exact grows rfl rfl rfl (by simp [Pool.enqueues, List.countP_map, Function.comp_def])
  case scan w ft left tickleMe from' scanned =>
    have held : Pool.held { s.goto w (.tickleIf tickleMe (.dispatch ft)) with fibers := left } c =
        s.held c + (decide (callbackOf ft = some c)).toNat := held_scan from' rfl
    rw [held, show s.loads (.work w) = none by simp [Pool.loads, from'],
      show s.enqueues (.work w) = [] by simp [Pool.enqueues, from']]
    have queued := queued_of_scan (c := c) scanned
    show left.countP _ + _ + 0 = s.fibers.countP _ + _ + 0
    omega
  case reuse w d f from' _ _ | renew w d from' _ =>
    exact load rfl from' rfl rfl
  case drain | addTimer | cancelTimer | addEvent | delEvent |
      testTickleNone | testTickleSome | writeTickle | testOtherNone | testOtherSome | writeOther |
      newFiber | stop => rfl
  case exit w ft from' nothing _ | idle w ft from' nothing _ =>
    rcases nothing with rfl | rfl <;>
      exact quiet rfl rfl (by rw [from']; rfl) (by simp [Pool.loads, from'])
        (by simp [Pool.enqueues, from'])
  case leave from' _ _ | wake from' | expire from' _ _ _ | rearm from' | swapOut from' =>
    exact quiet rfl rfl (by rw [from']; simp [Pc.inHand]) rfl rfl
  case write from' | count from' | save from' | uncount from' | hold from' |
      someTimer from' | somePending from' | stays from' | block from' | endTrigger from' |
      endIdle from' | testNone from' _ | testSome from' _ | skip from' _ | choose from' _ |
      enter from' _ | switch from' _ |
      readReady from' _ | readOver from' _ | readFinished from' _ | readOther from' _ |
      reset from' _ | noTimer from' _ | noPending from' _ | stops from' _ =>
    exact quiet rfl rfl (by rw [from']; rfl) (by simp [Pool.loads, from'])
      (by simp [Pool.enqueues, from'])

theorem kept_of_reachable (reached : (tracked n).Reachable t) : Kept t c := by
  refine reached.invariant (P := fun t => Kept t c) (fun t begins => ?_)
    fun t event t' kept _ stepped => ?_
  · cases begins
    have none : (Pool.initial n).held c = 0 := tally_eq_zero_iff.mpr fun _ => decide_eq_false nofun
    unfold Kept
    rw [none]
    rfl
  · obtain ⟨s', move, rfl⟩ := trackedStep_cases stepped
    have moved := kept_move (c := c) move
    unfold Kept at kept ⊢
    rw [List.count_append, List.count_append]
    dsimp only
    omega

/-! ### Fibers that are handed over -/

/-- The fiber that the worker runs. -/
def Pc.inFiber : Pc → Option FiberId
  | .tickling _ after => after.inFiber
  | .task .executing _ f => some f
  | _ => none

@[simp] theorem Pc.inFiber_tickleIf (needTickle : Bool) (after : Pc) :
    (Pc.tickleIf needTickle after).inFiber = after.inFiber := by
  cases needTickle <;> rfl

/-- It is `EXEC`. -/
theorem Settled.exec {state : FiberId → State} {pc : Pc} (settled : Settled state pc) {f : FiberId}
    (runs : pc.inFiber = some f) : state f = .exec := by
  induction pc with
  | tickling write after ih => exact ih settled runs
  | task stage b g =>
    cases stage with
    | executing =>
      cases runs
      exact settled
    | _ => cases runs
  | _ => cases runs

theorem Pc.grip_of_inFiber {pc : Pc} {f : FiberId} (runs : pc.inFiber = some f) :
    pc.grip = some f := by
  induction pc with
  | tickling write after ih => exact ih runs
  | task stage b g =>
    cases stage with
    | executing => exact runs
    | _ => cases runs
  | _ => cases runs

theorem Pc.names_of_inFiber {pc : Pc} {f : FiberId} (runs : pc.inFiber = some f) :
    pc.names = some f := Pc.names_of_grip (Pc.grip_of_inFiber runs)

/-- **The fibers with a callback are intact**: one that runs is not new, and one that is new has its
callback. -/
structure Intact (s : Pool n) : Prop where
  running : ∀ w f, (s.pc w).inFiber = some f → (s.fiber f).fresh = false
  full : ∀ f, (s.fiber f).pop.isSome = true → (s.fiber f).fresh = true →
    (s.fiber f).cb.isSome = true

/-- A worker that runs a fiber did so, or has just switched to it. -/
theorem inFiber_of_move (move : Move s event s') {v : Fin n} {f : FiberId}
    (runs : (s'.pc v).inFiber = some f) :
    (s.pc v).inFiber = some f ∨ (s'.fiber f).fresh = false := by
  have moved {w : Fin n} {pc : Pc} (here : s'.pc = Function.update s.pc w pc)
      (now : pc.inFiber = some f → (s.pc w).inFiber = some f ∨ (s'.fiber f).fresh = false) :
      (s.pc v).inFiber = some f ∨ (s'.fiber f).fresh = false := by
    rw [here] at runs
    rcases eq_or_ne v w with rfl | other
    · rw [Function.update_self] at runs
      exact now runs
    · rw [Function.update_of_ne other] at runs
      exact .inl runs
  cases move
  case switch w b g from' _ =>
    refine moved rfl fun now => .inr ?_
    obtain rfl := Option.some.inj now
    show (Function.update s.fiber g _ g).fresh = false
    rw [Function.update_self]
  case drain | addTimer | cancelTimer | addEvent | delEvent | schedule | scheduleBatch |
      testTickleNone | testTickleSome | writeTickle | testOtherNone | testOtherSome | writeOther |
      newFiber | stop =>
    exact .inl runs
  case testNone from' _ | testSome from' _ | write from' =>
    refine moved rfl fun now => .inl ?_
    rw [from']
    exact now
  case scan | expire | rearm | reschedule | scheduleCbs | trigger =>
    refine moved rfl fun now => ?_
    rw [Pc.inFiber_tickleIf] at now
    cases now
  all_goals exact moved rfl nofun

/-- A fiber that becomes new is made, or reset. -/
theorem fresh_of_move (move : Move s event s') {f : FiberId} (fresh : (s'.fiber f).fresh = true) :
    (s.fiber f).fresh = true ∨ f = s.nextFiber ∨ s.state f ≠ .exec := by
  have wrote {g : FiberId} {new : Fiber} (written : s'.fiber = Function.update s.fiber g new)
      (here : g = f → new.fresh = true →
        (s.fiber f).fresh = true ∨ f = s.nextFiber ∨ s.state f ≠ .exec) :
      (s.fiber f).fresh = true ∨ f = s.nextFiber ∨ s.state f ≠ .exec := by
    rw [written] at fresh
    rcases eq_or_ne f g with rfl | other
    · rw [Function.update_self] at fresh
      exact here rfl fresh
    · rw [Function.update_of_ne other] at fresh
      exact .inl fresh
  have reusable {g : FiberId} (same : g = f)
      (states : s.state g = .init ∨ s.state g = .term ∨ s.state g = .excpt) :
      s.state f ≠ .exec := by
    subst same
    rcases states with state | state | state <;> rw [state] <;> nofun
  cases move
  case reuse states => exact wrote rfl fun same _ => .inr (.inr (reusable same states))
  case reset states => exact wrote rfl fun same _ => .inr (.inr (reusable same states))
  case renew | newFiber => exact wrote rfl fun same _ => .inr (.inl same.symm)
  case switch =>
    refine wrote rfl fun _ new => ?_
    cases new
  case enter | leave | save | hold =>
    refine wrote rfl fun same new => .inl ?_
    subst same
    exact new
  all_goals exact .inl fresh

/-- A new fiber for a callback has it, unless it was being run. -/
theorem full_of_move (move : Move s event s') {f : FiberId}
    (number : (s'.fiber f).pop.isSome = true) (fresh : (s'.fiber f).fresh = true) :
    (s'.fiber f).cb.isSome = true ∨ (s.fiber f).pop.isSome = true ∧ (s.fiber f).fresh = true ∧
      ((s'.fiber f).cb = (s.fiber f).cb ∨ ∃ w, (s.pc w).inFiber = some f) := by
  have wrote {g : FiberId} {new : Fiber} (written : s'.fiber = Function.update s.fiber g new)
      (here : g = f → new.pop.isSome = true → new.fresh = true → new.cb.isSome = true ∨
        (s.fiber g).pop.isSome = true ∧ (s.fiber g).fresh = true ∧
          (new.cb = (s.fiber g).cb ∨ ∃ w, (s.pc w).inFiber = some g)) :
      (s'.fiber f).cb.isSome = true ∨ (s.fiber f).pop.isSome = true ∧ (s.fiber f).fresh = true ∧
        ((s'.fiber f).cb = (s.fiber f).cb ∨ ∃ w, (s.pc w).inFiber = some f) := by
    rw [written] at number fresh ⊢
    rcases eq_or_ne f g with rfl | other
    · rw [Function.update_self] at number fresh ⊢
      exact here rfl number fresh
    · rw [Function.update_of_ne other] at number fresh ⊢
      exact .inr ⟨number, fresh, .inl rfl⟩
  cases move
  case reuse | renew => exact wrote rfl fun _ _ _ => .inl rfl
  case leave w b g outcome from' _ _ =>
    exact wrote rfl fun _ numbered new => .inr ⟨numbered, new, .inr ⟨w, by rw [from']; rfl⟩⟩
  case enter | save | hold => exact wrote rfl fun _ numbered new => .inr ⟨numbered, new, .inl rfl⟩
  case switch =>
    refine wrote rfl fun _ _ new => ?_
    cases new
  case reset | newFiber =>
    refine wrote rfl fun _ numbered _ => ?_
    cases numbered
  all_goals exact .inr ⟨number, fresh, .inl rfl⟩

theorem Intact.next (intact : Intact s) (handed : Handed s) (made : Made s)
    (move : Move s event s') : Intact s' := by
  refine ⟨fun v f runs => ?_, fun f number fresh => ?_⟩
  · rcases inFiber_of_move move runs with before | old
    · refine Bool.eq_false_iff.mpr fun fresh => ?_
      rcases fresh_of_move move fresh with new | rfl | state
      · rw [intact.running v f before] at new
        cases new
      · exact Nat.lt_irrefl _ (made _ (.hand v (Pc.names_of_inFiber before)))
      · exact state ((handed.settled v).exec before)
    · exact old
  · rcases full_of_move move number fresh with full | ⟨old, new, same | ⟨w, runs⟩⟩
    · exact full
    · rw [same]
      exact intact.full f old new
    · rw [intact.running w f runs] at new
      cases new

/-- **A new fiber has never left**, and one that is not new runs, or has left. -/
structure Aged (s : Pool n) : Prop where
  new : ∀ f, (s.fiber f).fresh = true → (s.fiber f).leaves = 0 ∧ (s.fiber f).saved = 0
  old : ∀ f, (s.fiber f).fresh = false → (∃ w, (s.pc w).inFiber = some f) ∨ 0 < (s.fiber f).leaves

/-- Who runs a fiber still does, when no worker is taken out of one. -/
theorem inFiber_update {w : Fin n} {pc : Pc} (moved : s'.pc = Function.update s.pc w pc)
    {p : FiberId → Prop} (keeps : ∀ f, p f → (s.pc w).inFiber = some f → pc.inFiber = some f)
    {v : Fin n} {f : FiberId} (here : p f) (runs : (s.pc v).inFiber = some f) :
    (s'.pc v).inFiber = some f := by
  rw [moved]
  rcases eq_or_ne v w with rfl | other
  · rw [Function.update_self]
    exact keeps f here runs
  · rwa [Function.update_of_ne other]

namespace Aged

/-- A worker moves, and no fiber is written. -/
theorem goto (aged : Aged s) (same : s'.fiber = s.fiber) {w : Fin n} {pc : Pc}
    (moved : s'.pc = Function.update s.pc w pc)
    (keeps : ∀ f, (s.pc w).inFiber = some f → pc.inFiber = some f) : Aged s' := by
  refine ⟨fun f => same ▸ aged.new f, fun f isOld => ?_⟩
  rw [same] at isOld ⊢
  exact (aged.old f isOld).imp_left fun ⟨v, runs⟩ =>
    ⟨v, inFiber_update (p := fun _ => True) moved (fun f _ => keeps f) trivial runs⟩

/-- One fiber is written. -/
theorem write (aged : Aged s) {g : FiberId} {new : Fiber}
    (written : s'.fiber = Function.update s.fiber g new)
    (stays : ∀ v f, f ≠ g → (s.pc v).inFiber = some f → (s'.pc v).inFiber = some f)
    (isNew : new.fresh = true → new.leaves = 0 ∧ new.saved = 0)
    (isOld : new.fresh = false → (∃ v, (s'.pc v).inFiber = some g) ∨ 0 < new.leaves) : Aged s' := by
  refine ⟨fun f => ?_, fun f => ?_⟩
  · rw [written]
    rcases eq_or_ne f g with rfl | other
    · rw [Function.update_self]
      exact isNew
    · rw [Function.update_of_ne other]
      exact aged.new f
  · rw [written]
    rcases eq_or_ne f g with rfl | other
    · rw [Function.update_self]
      exact isOld
    · rw [Function.update_of_ne other]
      exact fun started => (aged.old f started).imp_left fun ⟨v, runs⟩ => ⟨v, stays v f other runs⟩

theorem next (aged : Aged s) (intact : Intact s) (move : Move s event s') : Aged s' := by
  -- a worker moves that runs no fiber
  have stays {w : Fin n} {pc : Pc} (moved : s'.pc = Function.update s.pc w pc)
      (outside : (s.pc w).inFiber = none) (v : Fin n) (f : FiberId)
      (runs : (s.pc v).inFiber = some f) : (s'.pc v).inFiber = some f :=
    inFiber_update (p := fun _ => True) moved
      (fun _ _ inside => by rw [outside] at inside; cases inside) trivial runs
  -- a fiber is written, and keeps what this is about
  have keeps {g : FiberId} {new : Fiber} {w : Fin n} {pc : Pc}
      (written : s'.fiber = Function.update s.fiber g new)
      (moved : s'.pc = Function.update s.pc w pc) (outside : (s.pc w).inFiber = none)
      (fresh : new.fresh = (s.fiber g).fresh) (leaves : new.leaves = (s.fiber g).leaves)
      (saved : new.saved = (s.fiber g).saved ∨ new.saved = new.leaves) : Aged s' := by
    refine aged.write written (fun v f _ => stays moved outside v f) (fun isNew => ?_) fun isOld => ?_
    · obtain ⟨never, unsaved⟩ := aged.new g (fresh ▸ isNew)
      have left := leaves.trans never
      exact ⟨left, saved.elim (fun same => same.trans unsaved) fun same => same.trans left⟩
    · rw [leaves]
      exact (aged.old g (fresh ▸ isOld)).imp_left fun ⟨v, runs⟩ => ⟨v, stays moved outside v g runs⟩
  cases move
  case enter w b g from' _ | hold w b g from' =>
    exact keeps rfl rfl (by rw [from']; rfl) rfl rfl (.inl rfl)
  case save w b g from' => exact keeps rfl rfl (by rw [from']; rfl) rfl rfl (.inr rfl)
  case switch w b g from' _ =>
    refine aged.write rfl (fun v f _ => stays rfl (by rw [from']; rfl) v f) nofun fun _ => .inl ⟨w, ?_⟩
    exact congrArg Pc.inFiber (Function.update_self w _ s.pc)
  case leave w b g outcome from' _ _ =>
    have runs : (s.pc w).inFiber = some g := by rw [from']; rfl
    refine aged.write rfl (fun v f other inside => ?_) (fun isNew => ?_) fun _ =>
      .inr (Nat.succ_pos _)
    · refine inFiber_update (p := fun f => f ≠ g) rfl (fun f notG inside => ?_) other inside
      exact absurd (Option.some.inj (inside.symm.trans runs)) notG
    · rw [show (s.fiber g).fresh = false from intact.running w g runs] at isNew
      cases isNew
  case reuse w c g from' _ _ | renew w c from' _ | reset w b g from' _ =>
    exact aged.write rfl (fun v f _ => stays rfl (by rw [from']; rfl) v f) (fun _ => ⟨rfl, rfl⟩) nofun
  case newFiber =>
    exact aged.write rfl (fun _ _ _ runs => runs) (fun _ => ⟨rfl, rfl⟩) nofun
  case drain | addTimer | cancelTimer | addEvent | delEvent | schedule | scheduleBatch |
      testTickleNone | testTickleSome | writeTickle | testOtherNone | testOtherSome | writeOther |
      stop =>
    exact ⟨aged.new, aged.old⟩
  case testNone from' _ | testSome from' _ | write from' =>
    exact aged.goto rfl rfl fun f runs => by rwa [from'] at runs
  case scan from' _ | skip from' _ | choose from' _ | exit from' _ _ | idle from' _ _ |
      count from' | uncount from' | readReady from' _ | readOver from' _ | readFinished from' _ |
      readOther from' _ | reschedule from' | noTimer from' _ | someTimer from' | noPending from' _ |
      somePending from' | stops from' _ | stays from' | block from' | wake from' |
      expire from' _ _ _ | rearm from' | scheduleCbs from' | trigger from' _ | endTrigger from' |
      swapOut from' | endIdle from' =>
    exact aged.goto rfl rfl fun f runs => by rw [from'] at runs; cases runs

/-- **The first switch to a fiber** is the only one that finds its context never saved. -/
theorem fresh_iff (aged : Aged s) (handed : Handed s) {w : Fin n} {b : Branch} {f : FiberId}
    (from' : s.pc w = .task .entered b f) :
    (s.fiber f).fresh = true ↔ (s.fiber f).saved = 0 := by
  refine ⟨fun isNew => (aged.new f isNew).2, fun unsaved => ?_⟩
  by_contra notNew
  rcases aged.old f (Bool.eq_false_iff.mpr notNew) with ⟨v, runs⟩ | left
  · have mine : (s.pc w).grip = some f := by rw [from']; rfl
    obtain rfl := handed.exclusive v w f (Pc.grip_of_inFiber runs) mine
    rw [from'] at runs
    cases runs
  · rw [← handed.saved_of_task from' nofun nofun, unsaved] at left
    exact Nat.lt_irrefl 0 left

end Aged

/-! ### Popped and called -/

/-- **What a step starts**: nothing, or a new fiber that a popped callback was loaded into. -/
inductive Starts (s : Pool n) (event : Event n) (s' : Pool n) : Prop
  | none (same : s'.started = s.started) (calls : s.calls event = none)
  | some (f : FiberId) (p : Nat) (fresh : (s.fiber f).fresh = true)
      (number : (s.fiber f).pop = some p) (started : s'.started = p :: s.started)
      (calls : s.calls event = (s.fiber f).cb)

theorem starts_of_move (aged : Aged s) (handed : Handed s) (move : Move s event s') :
    Starts s event s' := by
  cases move
  case switch w b f from' _ =>
    have first := aged.fresh_iff handed from'
    cases fresh : (s.fiber f).fresh with
    | false =>
      have saved : (s.fiber f).saved ≠ 0 := fun unsaved => by
        rw [first.mpr unsaved] at fresh
        cases fresh
      exact .none rfl (by simp [Pool.calls, from', saved])
    | true =>
      have unsaved := first.mp fresh
      cases number : (s.fiber f).pop with
      | none => exact .none rfl (by simp [Pool.calls, from', number])
      | some p => exact .some f p fresh number rfl (by simp [Pool.calls, from', unsaved, number])
  case drain | addTimer | cancelTimer | addEvent | delEvent | schedule | scheduleBatch |
      testTickleNone | testTickleSome | writeTickle | testOtherNone | testOtherSome | writeOther |
      newFiber | stop | leave | wake | expire | rearm | swapOut | trigger =>
    exact .none rfl rfl
  case write from' | count from' | save from' | uncount from' | hold from' |
      someTimer from' | somePending from' | stays from' | block from' | endTrigger from' |
      endIdle from' | reschedule from' | scheduleCbs from' | testNone from' _ | testSome from' _ |
      skip from' _ | choose from' _ | enter from' _ | scan from' _ | renew from' _ |
      readReady from' _ | readOver from' _ | readFinished from' _ | readOther from' _ |
      reset from' _ | noTimer from' _ | noPending from' _ | stops from' _ | exit from' _ _ |
      idle from' _ _ | reuse from' _ _ =>
    exact .none rfl (by simp [Pool.calls, from'])

/-- Only a load counts a pop. -/
theorem pops_of_load (move : Move s event s') :
    s'.pops = s.pops + (s.loads event).toList.length := by
  cases move
  case reuse w d f from' _ _ | renew w d from' _ => simp [Pool.loads, from']
  case drain | addTimer | cancelTimer | addEvent | delEvent | schedule | scheduleBatch |
      testTickleNone | testTickleSome | writeTickle | testOtherNone | testOtherSome | writeOther |
      newFiber | stop | leave | wake | expire | rearm | swapOut | trigger =>
    rfl
  case exit w ft from' nothing _ | idle w ft from' nothing _ =>
    rcases nothing with rfl | rfl <;> simp [Pool.loads, from', Pool.goto]
  case write from' | count from' | save from' | uncount from' | hold from' |
      someTimer from' | somePending from' | stays from' | block from' | endTrigger from' |
      endIdle from' | reschedule from' | scheduleCbs from' | testNone from' _ | testSome from' _ |
      skip from' _ | choose from' _ | enter from' _ | scan from' _ |
      readReady from' _ | readOver from' _ | readFinished from' _ | readOther from' _ |
      reset from' _ | noTimer from' _ | noPending from' _ | stops from' _ | switch from' _ =>
    simp [Pool.loads, from', Pool.goto, Pool.setFiber]

/-- **A new fiber with a callback** had it before, or is loaded with it. -/
theorem loaded_of_move (move : Move s event s') {f : FiberId} {p : Nat}
    (number : (s'.fiber f).pop = some p) (fresh : (s'.fiber f).fresh = true)
    (cb : (s'.fiber f).cb = some c) :
    ((s.fiber f).pop = some p ∧ (s.fiber f).fresh = true ∧ (s.fiber f).cb = some c) ∨
      s.loads event = some c ∧ p = s.pops := by
  have wrote {g : FiberId} {new : Fiber} (here : g = f → new.pop = some p → new.fresh = true →
        new.cb = some c → ((s.fiber f).pop = some p ∧ (s.fiber f).fresh = true ∧
          (s.fiber f).cb = some c) ∨ s.loads event = some c ∧ p = s.pops)
      (written : s'.fiber = Function.update s.fiber g new) :
      ((s.fiber f).pop = some p ∧ (s.fiber f).fresh = true ∧ (s.fiber f).cb = some c) ∨
        s.loads event = some c ∧ p = s.pops := by
    rw [written] at number fresh cb
    rcases eq_or_ne f g with rfl | other
    · rw [Function.update_self] at number fresh cb
      exact here rfl number fresh cb
    · rw [Function.update_of_ne other] at number fresh cb
      exact .inl ⟨number, fresh, cb⟩
  cases move
  case reuse w d g from' _ _ | renew w d from' _ =>
    refine wrote (fun _ numbered _ holds => .inr ⟨?_, (Option.some.inj numbered).symm⟩) rfl
    rw [← holds]
    simp [Pool.loads, from']
  case enter | save | hold =>
    refine wrote (fun same numbered new holds => ?_) rfl
    subst same
    exact .inl ⟨numbered, new, holds⟩
  case leave =>
    refine wrote (fun same numbered new holds => ?_) rfl
    subst same
    obtain ⟨-, kept⟩ := Option.ite_none_left_eq_some.mp holds
    exact .inl ⟨numbered, new, kept⟩
  case switch =>
    refine wrote (fun _ _ new _ => ?_) rfl
    cases new
  case reset | newFiber =>
    refine wrote (fun _ numbered _ _ => ?_) rfl
    cases numbered
  all_goals exact .inl ⟨number, fresh, cb⟩

/-- How often the callback was started: it was popped under so many numbers that have been. -/
def Tracked.starts (t : Tracked n) (c : Callback) : Nat :=
  t.pool.started.countP fun p => t.popped[p]? = some c

/-- **What is called was popped.** -/
structure Called (t : Tracked n) : Prop where
  length : t.popped.length = t.pool.pops
  loaded : ∀ f p c, (t.pool.fiber f).pop = some p → (t.pool.fiber f).fresh = true →
    (t.pool.fiber f).cb = some c → t.popped[p]? = some c
  atMost : ∀ c, t.called.count c ≤ t.starts c

/-- What was popped keeps its number. -/
theorem getElem?_append_of_some {popped : List Callback} {p : Nat} (found : popped[p]? = some c)
    (more : List Callback) : (popped ++ more)[p]? = some c := by
  rw [List.getElem?_append_left (List.getElem?_eq_some_iff.mp found).1, found]

/-- What was started keeps its number. -/
theorem countP_append_le (started : List Nat) (popped more : List Callback) :
    (started.countP fun p => popped[p]? = some c) ≤
      started.countP fun p => (popped ++ more)[p]? = some c :=
  List.countP_mono_left fun _ _ found =>
    decide_eq_true (getElem?_append_of_some (of_decide_eq_true found) more)

theorem Called.next (called : Called t) (aged : Aged t.pool) (handed : Handed t.pool)
    (move : Move t.pool event s') : Called ⟨s',
      t.enqueued ++ (t.pool.enqueues event).filterMap callbackOf,
      t.popped ++ (t.pool.loads event).toList, t.called ++ (t.pool.calls event).toList⟩ where
  length := by rw [pops_of_load move, List.length_append, called.length]
  loaded f p c number fresh cb := by
    rcases loaded_of_move move number fresh cb with ⟨number, fresh, cb⟩ | ⟨loads, rfl⟩
    · exact getElem?_append_of_some (called.loaded f p c number fresh cb) _
    · rw [loads, ← called.length]
      exact List.getElem?_concat_length
  atMost c := by
    have before := called.atMost c
    unfold Tracked.starts at before ⊢
    rw [List.count_append, count_toList]
    cases starts_of_move aged handed move with
    | none same calls =>
      rw [same, calls]
      exact before.trans (countP_append_le t.pool.started _ _)
    | some f p fresh number started calls =>
      rw [started, calls, List.countP_cons]
      have later := before.trans (countP_append_le t.pool.started _ (t.pool.loads event).toList)
      by_cases here : (t.pool.fiber f).cb = some c
      · have found := getElem?_append_of_some (called.loaded f p c number fresh here)
          (t.pool.loads event).toList
        rw [if_pos (decide_eq_true found), decide_eq_true here]
        exact Nat.add_le_add later (le_refl _)
      · rw [decide_eq_false here]
        exact later.trans (Nat.le_add_right _ _)

/-- **What holds where fibers are handed over.** -/
structure Tallied (t : Tracked n) : Prop where
  called : Called t
  numbered : Numbered t.pool
  made : Made t.pool
  handed : Handed t.pool
  intact : Intact t.pool
  aged : Aged t.pool

theorem tallied_initial : Tallied (⟨Pool.initial n, [], [], []⟩ : Tracked n) :=
  ⟨⟨rfl, nofun, fun _ => le_refl _⟩, numbered_initial, made_initial, handed_initial, ⟨nofun, nofun⟩,
    fun _ _ => ⟨rfl, rfl⟩, nofun⟩

theorem Tallied.next (all : Tallied t) (handOff : HandOff t.pool event)
    (move : Move t.pool event s') : Tallied ⟨s',
      t.enqueued ++ (t.pool.enqueues event).filterMap callbackOf,
      t.popped ++ (t.pool.loads event).toList, t.called ++ (t.pool.calls event).toList⟩ where
  called := all.called.next all.aged all.handed move
  numbered := all.numbered.next move
  made := all.made.step move
  handed := all.handed.next all.made handOff move
  intact := all.intact.next all.handed all.made move
  aged := all.aged.next all.intact move

theorem tallied_of_reachable
    (reached : (tracked n).ReachableWhen (fun t event => HandOff t.pool event) t) : Tallied t := by
  refine reached.invariant (fun t begins => ?_) fun t event t' all handOff stepped => ?_
  · cases begins
    exact tallied_initial
  · obtain ⟨s', move, rfl⟩ := trackedStep_cases stepped
    exact all.next handOff move

/-- Every number has its callback. -/
theorem countP_range (popped : List Callback) :
    (List.range popped.length).countP (fun p => popped[p]? = some c) = popped.count c := by
  induction popped using List.reverseRecOn with
  | nil => rfl
  | append_singleton popped d ih =>
    have old : ∀ p ∈ List.range popped.length,
        decide ((popped ++ [d])[p]? = some c) = decide (popped[p]? = some c) := by
      intro p below
      rw [List.getElem?_append_left (List.mem_range.mp below)]
    rw [List.length_append, List.length_singleton, List.range_succ, List.countP_append,
      List.count_append, List.countP_congr (q := fun p => popped[p]? = some c) (by simpa using old),
      ih, List.countP_singleton, List.getElem?_concat_length]
    simp [List.count_singleton]

/-! ### Under the conditions -/

/-- The tracked run is a run of the pool. -/
theorem pool_of_tracked {ok : Pool n → Event n → Prop}
    (reached : (tracked n).ReachableWhen (fun t event => ok t.pool event) t) :
    (pool n).ReachableWhen ok t.pool := by
  induction reached with
  | start begins =>
    cases begins
    exact .start rfl
  | step _ meets stepped ih =>
    obtain ⟨s', next, rfl⟩ := Option.map_eq_some_iff.mp stepped
    exact .step ih meets next

/-- **What is started is called.** -/
def Complete (t : Tracked n) : Prop := ∀ c, t.starts c ≤ t.called.count c

theorem Complete.next (complete : Complete t) (all : Tallied t) (move : Move t.pool event s') :
    Complete ⟨s', t.enqueued ++ (t.pool.enqueues event).filterMap callbackOf,
      t.popped ++ (t.pool.loads event).toList, t.called ++ (t.pool.calls event).toList⟩ := by
  intro c
  have before := complete c
  -- the numbers that have been started are of callbacks popped before
  have same : (t.pool.started.countP fun p =>
      (t.popped ++ (t.pool.loads event).toList)[p]? = some c) = t.starts c := by
    refine List.countP_congr fun p member => ?_
    have below : p < t.popped.length := all.called.length ▸ all.numbered.old p member
    rw [List.getElem?_append_left below]
  unfold Tracked.starts
  rw [List.count_append, count_toList]
  cases starts_of_move all.aged all.handed move with
  | none unchanged calls =>
    rw [unchanged, same]
    exact before.trans (Nat.le_add_right _ _)
  | some f p fresh number started calls =>
    obtain ⟨d, cb⟩ := Option.isSome_iff_exists.mp (all.intact.full f (by rw [number]; rfl) fresh)
    have found := getElem?_append_of_some (all.called.loaded f p d number fresh cb)
      (t.pool.loads event).toList
    rw [started, List.countP_cons, same, calls, cb, found]
    cases decide (some d = some c) <;> exact Nat.add_le_add before (le_refl _)

/-- **The conditions**: on the fibers that are handed over and reused, and on what is enqueued. -/
def OnceOk (t : Tracked n) (event : Event n) : Prop := ReuseOk t.pool event ∧ Served t.pool event

instance (t : Tracked n) (event : Event n) : Decidable (OnceOk t event) :=
  inferInstanceAs (Decidable (_ ∧ _))

theorem complete_of_reachable
    (reached : (tracked n).ReachableWhen (fun t event => HandOff t.pool event) t) : Complete t := by
  have all : Tallied t ∧ Complete t := by
    refine reached.invariant (P := fun t => Tallied t ∧ Complete t) (fun t begins => ?_)
      fun t event t' before handOff stepped => ?_
    · cases begins
      exact ⟨tallied_initial, fun _ => le_refl _⟩
    · obtain ⟨s', move, rfl⟩ := trackedStep_cases stepped
      exact ⟨before.1.next handOff move, before.2.next before.1 move⟩
  exact all.2

/-! ### Every run -/

/-- What is started was popped, once for each number. -/
theorem starts_le_popped (called : Called t) (numbered : Numbered t.pool) :
    t.starts c ≤ t.popped.count c := by
  have inside : t.pool.started ⊆ List.range t.popped.length := fun p member =>
    List.mem_range.mpr (called.length ▸ numbered.old p member)
  calc t.starts c
      ≤ (List.range t.popped.length).countP (fun p => t.popped[p]? = some c) :=
        (numbered.once.subperm inside).countP_le _
    _ = t.popped.count c := countP_range t.popped

/-- When every number has been started, each is counted. -/
theorem starts_eq_popped (called : Called t) (numbered : Numbered t.pool)
    (all : ∀ p < t.pool.pops, p ∈ t.pool.started) : t.starts c = t.popped.count c := by
  have perm : t.pool.started.Perm (List.range t.popped.length) := by
    refine (List.perm_ext_iff_of_nodup numbered.once List.nodup_range).mpr fun p => ?_
    rw [List.mem_range, called.length]
    exact ⟨numbered.old p, all p⟩
  unfold Tracked.starts
  rw [perm.countP_eq, countP_range]

/-- No worker has anything left. -/
theorem held_of_exited (gone : ∀ w, s.pc w = .exited) : s.held c = 0 :=
  tally_eq_zero_iff.mpr fun w => by
    rw [gone w]
    rfl

/-- Where fibers are handed over, nothing is called too often. -/
theorem count_called_le
    (reached : (tracked n).ReachableWhen (fun t event => HandOff t.pool event) t) (c : Callback) :
    t.called.count c ≤ t.enqueued.count c := by
  have all := tallied_of_reachable reached
  calc t.called.count c ≤ t.starts c := all.called.atMost c
    _ ≤ t.popped.count c := starts_le_popped all.called all.numbered
    _ ≤ t.enqueued.count c := by
      rw [kept_of_reachable reached.reachable (c := c)]
      exact Nat.le_add_left _ _

/-- Under the conditions nothing is left out. -/
theorem called_perm_of_gone (reached : (tracked n).ReachableWhen OnceOk t)
    (gone : ∀ w, t.pool.pc w = .exited) : t.called.Perm t.enqueued := by
  refine List.perm_iff_count.mpr fun c => ?_
  have handedOver := reached.mono fun _ _ (ok : OnceOk _ _) => ok.1.1
  have tallied := tallied_of_reachable handedOver
  have pending := Pending.reachable (pool_of_tracked (reached.mono fun _ _ ok => ok.2))
  have started := (reuse_of_reachable (pool_of_tracked (reached.mono fun _ _ ok => ok.1))).2.2
  -- nothing is queued, in hand, or loaded
  have all : ∀ p < t.pool.pops, p ∈ t.pool.started := fun p below =>
    (started p below).resolve_right fun ⟨w, f, loads, _⟩ => by
      rw [gone w] at loads
      cases loads
  have kept := kept_of_reachable reached.reachable (c := c)
  unfold Kept Pool.queued at kept
  rw [pending.drained gone, held_of_exited gone] at kept
  calc t.called.count c = t.starts c :=
        le_antisymm (tallied.called.atMost c) (complete_of_reachable handedOver c)
    _ = t.popped.count c := starts_eq_popped tallied.called tallied.numbered all
    _ = t.enqueued.count c := by
      rw [kept]
      exact (Nat.zero_add _).symm

/-- **Where fibers are handed over, a callback is called at most as often as it is scheduled; where
they are reused only when finished, and what others enqueue is served, exactly as often when the
workers are gone.** -/
theorem exactly_once :
    (∀ t : Tracked n, (tracked n).ReachableWhen (fun t event => HandOff t.pool event) t →
      ∀ c, t.called.count c ≤ t.enqueued.count c) ∧
    ∀ t : Tracked n, (tracked n).ReachableWhen OnceOk t → (∀ w, t.pool.pc w = .exited) →
      t.called.Perm t.enqueued :=
  ⟨fun _ reached => count_called_le reached, fun _ reached => called_perm_of_gone reached⟩

/-- A callback yields `READY`, is resumed and ends; another one comes after `stop()`. -/
def readyThenLate : List (Event 1) :=
  List.flatten [
    [.schedule (.cb (some 7)) (-1)],
    List.replicate 5 (.work 0),
    [.leave 0 .ready],
    List.replicate 10 (.work 0),
    [.leave 0 .term],
    List.replicate 4 (.work 0),
    idleEnds.take 6,
    runsLate]

theorem exactly_once_late :
    ∃ t : Tracked 1, (tracked 1).ReachableWhen OnceOk t ∧ t.enqueued = [7, 1] ∧
      t.called.Perm [7, 1] ∧ t.called.count 7 ≤ t.enqueued.count 7 := by
  have run : ∃ t, (tracked 1).ReachableWhen OnceOk t ∧
      decide (t.pool.pc 0 = .exited ∧ t.enqueued = [7, 1]) = true :=
    Machine.reachableWhen_of_replay rfl readyThenLate _ (by decide +kernel)
  obtain ⟨t, reached, check⟩ := run
  obtain ⟨gone, enqueued⟩ := of_decide_eq_true check
  refine ⟨t, reached, enqueued, ?_,
    exactly_once.1 t (reached.mono fun _ _ (ok : OnceOk _ _) => ok.1.1) 7⟩
  rw [← enqueued]
  refine exactly_once.2 t reached fun w => ?_
  rwa [Fin.fin_one_eq_zero w]

/-! ### Not handed over -/

/-- A callback waits for an event, which another worker reports before the context is saved. -/
def callbackWoken : List (Event 2) :=
  List.flatten [
    [.schedule (.cb (some 7)) (-1)],
    List.replicate 5 (.work 0),
    [.addEvent 0 none, .leave 0 .hold],
    List.replicate 5 (.work 1),
    [.wake 1, .expire 1 [] 0 0 false, .work 1, .trigger 1 0, .work 1, .work 1, .work 1, .swapOut 1,
      .work 1],
    List.replicate 5 (.work 1)]

/-- **A callback whose fiber is not handed over is called twice**: the other worker switches to a
context that was never saved, and `MainFunc` begins again. -/
theorem called_again :
    ∃ t : Tracked 2, (tracked 2).Reachable t ∧ t.enqueued = [7] ∧ t.called = [7, 7] := by
  have run := Machine.reachable_of_replay (m := tracked 2) rfl callbackWoken
    (fun t => decide (t.enqueued = [7] ∧ t.called = [7, 7])) (by decide +kernel)
  simpa only [decide_eq_true_eq] using run

end Sylar.Scheduler
