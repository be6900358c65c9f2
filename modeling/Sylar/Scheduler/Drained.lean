/-
**What is left in the queue when the workers are gone.**

A worker whose idle fiber has ended goes on scanning: it leaves only when a scan gives it nothing. So
a task that is enqueued while some worker that may run it is yet to scan is not left behind, unless
the scan passes it over as a fiber in `EXEC`, or stops at an empty task in front of it.

* `Pool.scansAgain` — a worker that is yet to scan.
* `Served` — the condition: what other threads enqueue is not empty, and goes to a worker that is
  yet to scan; fibers are not pinned; no timer that has lost its callback expires.
* `Pending` — **every entry of the queue has a worker that is yet to scan and may run it**.
* `queue_drained` — **so the queue is empty when all workers are gone**.
* `empty_task_strands` — an empty task makes the last worker leave with another task in the queue.
-/

import Sylar.Scheduler.Scan
import Sylar.Scheduler.Wakeup

namespace Sylar.Scheduler

open Sylar.Library

variable {n : Nat}

/-! ### Workers that are yet to scan -/

namespace Pc

/-- The worker is gone, or on its way out. -/
def isLast (dead : Bool) : Pc → Bool
  | .tickling _ after => after.isLast dead
  | .dispatch ft => dead && decide (Nothing ft)
  | .exited => true
  | .top | .task .. | .idle _ => false

/-- What it got from the timers has callbacks. -/
def full : Pc → Prop
  | .tickling _ after => after.full
  | .idle (.listed cbs _) => none ∉ cbs
  | .top | .dispatch _ | .task .. | .idle _ | .exited => True

@[simp] theorem isLast_tickleIf (dead needTickle : Bool) (after : Pc) :
    (tickleIf needTickle after).isLast dead = after.isLast dead := by
  cases needTickle <;> rfl

@[simp] theorem full_tickleIf {needTickle : Bool} {after : Pc} :
    (tickleIf needTickle after).full ↔ after.full := by
  cases needTickle <;> rfl

end Pc

/-- The worker will scan the queue once more at least. -/
def Pool.scansAgain (s : Pool n) (w : Fin n) : Prop := (s.pc w).isLast (s.idleTerm w) = false

instance (s : Pool n) (w : Fin n) : Decidable (s.scansAgain w) :=
  inferInstanceAs (Decidable (_ = false))

/-- **Who enqueues, and what.** -/
def Served (s : Pool n) : Event n → Prop
  | .schedule fc thread =>
      fc.nonEmpty = true ∧ (fc.names ≠ none → thread = -1) ∧
        ∃ w, s.scansAgain w ∧ (thread = -1 ∨ thread = threadId w)
  | .scheduleBatch fcs => (∀ fc ∈ fcs, fc.nonEmpty = true) ∧ ∃ w, s.scansAgain w
  | .expire _ cbs _ _ _ => ∀ cb ∈ cbs, cb.isSome = true
  | _ => True

instance (s : Pool n) (event : Event n) : Decidable (Served s event) := by
  cases event <;> unfold Served <;> infer_instance

variable {s s' : Pool n}

/-- **A worker that is yet to scan** stays so, unless it scans and gets nothing. -/
theorem scansAgain_step {event : Event n} (move : Move s event s') {v : Fin n}
    (again : s.scansAgain v) :
    s'.scansAgain v ∨
      s.pc v = .top ∧ ∃ ft tickleMe, scan s.state (threadId v) s.fibers =
        some (ft, s'.fibers, tickleMe) ∧ Nothing ft := by
  -- the worker that moves has `pc'` after
  have moves {w : Fin n} {pc' : Pc} {t : Pool n} (moved : t.pc = Function.update s.pc w pc')
      (term : t.idleTerm = s.idleTerm) (here : v = w → pc'.isLast (s.idleTerm v) = false) :
      t.scansAgain v := by
    unfold Pool.scansAgain at again ⊢
    rw [moved, term]
    rcases eq_or_ne v w with rfl | other
    · rw [Function.update_self]
      exact here rfl
    · rwa [Function.update_of_ne other]
  cases move
  case scan w ft left tickleMe from' scanned =>
    by_cases nothing : v = w ∧ Nothing ft
    · obtain ⟨rfl, nothing⟩ := nothing
      exact .inr ⟨from', ft, tickleMe, scanned, nothing⟩
    · refine .inl (moves rfl rfl fun same => ?_)
      rw [Pc.isLast_tickleIf]
      have some : ¬ Nothing ft := fun isNothing => nothing ⟨same, isNothing⟩
      simp [Pc.isLast, some]
  case exit w ft from' nothing dead =>
    refine .inl (moves rfl rfl fun same => ?_)
    subst same
    unfold Pool.scansAgain at again
    rw [from', dead] at again
    simp [Pc.isLast, nothing] at again
  case stops w from' stopping =>
    refine .inl ?_
    unfold Pool.scansAgain at again ⊢
    show Pc.isLast (Function.update s.idleTerm w true v) (Function.update s.pc w _ v) = false
    rcases eq_or_ne v w with rfl | other
    · rw [Function.update_self, Function.update_self]
      rfl
    · rwa [Function.update_of_ne other, Function.update_of_ne other]
  case testNone w after from' _ | testSome w after from' _ | write w after from' =>
    refine .inl (moves rfl rfl fun same => ?_)
    subst same
    unfold Pool.scansAgain at again
    rwa [from'] at again
  case expire | rearm | reschedule | scheduleCbs | trigger =>
    refine .inl (moves rfl rfl fun _ => ?_)
    rw [Pc.isLast_tickleIf]
    rfl
  case drain | addTimer | cancelTimer | addEvent | delEvent | schedule | scheduleBatch |
      testTickleNone | testTickleSome | writeTickle | testOtherNone | testOtherSome | writeOther |
      newFiber | stop =>
    exact .inl again
  case choose | skip | reuse | renew | idle | count | enter | switch | leave | save | uncount |
      readReady | readOver | readFinished | readOther | hold | reset | noTimer | someTimer |
      noPending | somePending | stays | block | wake | endTrigger | swapOut | endIdle =>
    exact .inl (moves rfl rfl fun _ => rfl)

/-! ### Fibers in `EXEC` -/

/-- A fiber in `EXEC` is inside some worker. -/
def Inside (s : Pool n) : Prop := ∀ f, s.state f = .exec → ∃ w, (s.pc w).executes = some f

namespace Inside

variable {w : Fin n} {pc : Pc} {t : Pool n}

/-- A worker moves that had no fiber inside, and no fiber gets to `EXEC`. -/
theorem goto (inside : Inside s) (moved : t.pc = Function.update s.pc w pc)
    (outside : (s.pc w).executes = none) (state : ∀ f, t.state f = .exec → s.state f = .exec) :
    Inside t := by
  intro f exec
  obtain ⟨v, there⟩ := inside f (state f exec)
  have other : v ≠ w := by
    rintro rfl
    rw [outside] at there
    cases there
  exact ⟨v, by rwa [moved, Function.update_of_ne other]⟩

/-- The state of a fiber that is written. -/
theorem state_setFiber (g : FiberId) (new : Fiber) (f : FiberId) :
    (s.setFiber g new).state f = if f = g then new.state else s.state f := by
  show (Function.update s.fiber g new f).state = _
  rw [Function.update_apply]
  split <;> rfl

theorem next {event : Event n} (inside : Inside s) (move : Move s event s') : Inside s' := by
  -- a fiber is written, not to `EXEC`
  have written (g : FiberId) (new : Fiber) (notExec : new.state = .exec → s.state g = .exec)
      (f : FiberId) (exec : (s.setFiber g new).state f = .exec) : s.state f = .exec := by
    rw [state_setFiber] at exec
    split at exec
    next same => exact same ▸ notExec exec
    next => exact exec
  cases move
  case enter w b g from' out =>
    intro f exec
    have exec : (s.setFiber g { s.fiber g with state := .exec }).state f = .exec := exec
    rw [state_setFiber] at exec
    by_cases same : f = g
    · subst same
      exact ⟨w, by rw [show (Pool.goto _ w _).pc w = _ from Function.update_self ..]; rfl⟩
    · rw [if_neg same] at exec
      obtain ⟨v, there⟩ := inside f exec
      have other : v ≠ w := by
        rintro rfl
        rw [from'] at there
        cases there
      exact ⟨v, by rwa [show (Pool.goto _ w _).pc v = _ from Function.update_of_ne other ..]⟩
  case switch w b g from' alive =>
    intro f exec
    have exec : (s.setFiber g { s.fiber g with fresh := false }).state f = .exec := exec
    obtain ⟨v, there⟩ :=
      inside f (written g { s.fiber g with fresh := false } (fun same => same) f exec)
    rcases eq_or_ne v w with rfl | other
    · rw [from'] at there
      exact ⟨v, by rw [show Pool.pc _ v = _ from Function.update_self ..]; exact there⟩
    · exact ⟨v, by rwa [show Pool.pc _ v = _ from Function.update_of_ne other ..]⟩
  case leave w b g outcome from' outcomes raises =>
    intro f exec
    have exec : (s.setFiber g _).state f = .exec := exec
    rw [state_setFiber] at exec
    split at exec
    next =>
      rcases outcomes with rfl | rfl | rfl | rfl <;> cases exec
    next notG =>
      obtain ⟨v, there⟩ := inside f exec
      have other : v ≠ w := by
        rintro rfl
        rw [from'] at there
        exact notG (Option.some.inj there).symm
      exact ⟨v, by rwa [show (Pool.goto _ w _).pc v = _ from Function.update_of_ne other ..]⟩
  case reuse from' _ _ | renew from' _ | hold from' | reset from' _ =>
    exact inside.goto rfl (by rw [from']; rfl) (written _ _ fun same => by cases same)
  case save from' => exact inside.goto rfl (by rw [from']; rfl) (written _ _ fun same => same)
  case newFiber => exact fun f exec => inside f (written _ _ (fun same => by cases same) f exec)
  case drain | addTimer | cancelTimer | addEvent | delEvent | schedule | scheduleBatch |
      testTickleNone | testTickleSome | writeTickle | testOtherNone | testOtherSome | writeOther |
      stop =>
    exact inside
  case scan from' _ | testNone from' _ | testSome from' _ | write from' | skip from' _ |
      choose from' _ | exit from' _ _ | idle from' _ _ | count from' | uncount from' |
      readReady from' _ | readOver from' _ | readFinished from' _ | readOther from' _ |
      reschedule from' | noTimer from' _ | someTimer from' | noPending from' _ | somePending from' |
      stops from' _ | stays from' | block from' | wake from' | expire from' _ _ _ | rearm from' |
      scheduleCbs from' | trigger from' _ | endTrigger from' | swapOut from' | endIdle from' =>
    exact inside.goto rfl (by rw [from']; rfl) fun _ exec => exec

end Inside

/-! ### What waits -/

/-- An entry that is not empty, is pinned only if it is a callback, and has a worker to take it. -/
structure Expected (s : Pool n) (it : FiberAndThread) : Prop where
  nonEmpty : it.fiberOrCb.nonEmpty = true
  free : it.fiberOrCb.names ≠ none → it.thread = -1
  worker : ∃ w, s.scansAgain w ∧ it.allows (threadId w)

/-- **The invariant.** -/
structure Pending (s : Pool n) : Prop where
  inside : Inside s
  full : ∀ w, (s.pc w).full
  contexts : ∀ fc ∈ s.contexts, fc.nonEmpty = true
  fibers : ∀ it ∈ s.fibers, Expected s it

namespace Pending

/-- A worker with a fiber inside is yet to scan. -/
theorem scansAgain_of_inside {w : Fin n} {f : FiberId} (there : (s.pc w).executes = some f) :
    s.scansAgain w := by
  unfold Pool.scansAgain
  match s.pc w, there with
  | .task .entered _ _, _ => rfl
  | .task .executing _ _, _ => rfl

/-- **An entry that is there before and after a step** is still expected: a scan that gets nothing
leaves what another worker is to take. -/
theorem kept {event : Event n} (pending : Pending s) (move : Move s event s')
    {it : FiberAndThread} (before : it ∈ s.fibers) (after : it ∈ s'.fibers) : Expected s' it := by
  obtain ⟨nonEmpty, free, w, again, allows⟩ := pending.fibers it before
  refine ⟨nonEmpty, free, ?_⟩
  obtain stays | ⟨top, ft, tickleMe, scanned, nothing⟩ := scansAgain_step move again
  · exact ⟨w, stays, allows⟩
  · have known := fun entry member => (pending.fibers entry member).nonEmpty
    generalize s'.fibers = left at scanned after
    generalize s.fibers = fibers at scanned before known
    cases scan_scans scanned with
    | @taken entry skipped later _ takes first told =>
      have full := known entry (List.mem_append_right _ List.mem_cons_self)
      rcases nothing with null | null <;> rw [null] at full <;> cases full
    | nothing untaken told =>
      -- it is a fiber in `EXEC`, inside another worker
      have skipped := of_decide_eq_false (untaken it after)
      have notRunnable : ¬ it.runnable s.state := fun runnable => skipped ⟨allows, runnable⟩
      obtain ⟨f, isFiber, exec⟩ : ∃ f, it.fiberOrCb = .fiber (some f) ∧ s.state f = .exec := by
        simpa [FiberAndThread.runnable] using notRunnable
      obtain ⟨v, there⟩ := pending.inside f exec
      have unpinned : it.thread = -1 := free (by rw [isFiber]; nofun)
      refine ⟨v, ?_, .inl unpinned⟩
      refine (scansAgain_step move (scansAgain_of_inside there)).resolve_right fun atTop => ?_
      rw [atTop.1] at there
      cases there

/-- A new entry, for a worker that is yet to scan. -/
theorem expected_new {fc : FiberOrCb} {w : Fin n} (nonEmpty : fc.nonEmpty = true)
    (again : s'.scansAgain w) : Expected s' ⟨fc, -1⟩ := ⟨nonEmpty, fun _ => rfl, w, again, .inl rfl⟩

/-- **What is in the queue after a step is expected.** -/
theorem next_fibers {event : Event n} (pending : Pending s) (served : Served s event)
    (move : Move s event s') {it : FiberAndThread} (after : it ∈ s'.fibers) : Expected s' it := by
  -- a worker that is not about to scan is yet to scan
  have again {w : Fin n} {pc : Pc} (from' : s.pc w = pc) (notLast : ∀ dead, pc.isLast dead = false)
      (notTop : pc ≠ .top) : s'.scansAgain w := by
    have here : s.scansAgain w := by
      unfold Pool.scansAgain
      rw [from']
      exact notLast _
    exact (scansAgain_step move here).resolve_right fun atTop => notTop (from'.symm.trans atTop.1)
  by_cases before : it ∈ s.fibers
  · exact pending.kept move before after
  have added {more : List FiberAndThread} (appended : it ∈ s.fibers ++ more) : it ∈ more :=
    (List.mem_append.mp appended).resolve_left before
  cases move
  case scan w ft left tickleMe from' scanned =>
    exact absurd ((scan_scanned scanned).rest.subset after) before
  case reschedule w b f from' =>
    obtain rfl := List.mem_singleton.mp (added after)
    exact expected_new rfl (again from' (fun _ => rfl) nofun)
  case scheduleCbs w cbs from' =>
    obtain ⟨c, member, rfl⟩ := List.mem_map.mp (added after)
    have full : none ∉ cbs := by
      have here := pending.full w
      rw [from'] at here
      exact here
    refine expected_new ?_ (again from' (fun _ => rfl) nofun)
    cases c with
    | none => exact absurd member full
    | some c => rfl
  case trigger w i fc from' found =>
    obtain rfl := List.mem_singleton.mp (added after)
    exact expected_new (pending.contexts fc (List.mem_of_getElem? found))
      (again from' (fun _ => rfl) nofun)
  case schedule fc thread known =>
    obtain rfl := List.mem_singleton.mp (added after)
    obtain ⟨nonEmpty, free, w, there, allows⟩ := served
    exact ⟨nonEmpty, free, w, there, allows⟩
  case scheduleBatch fcs known =>
    obtain ⟨fc, member, rfl⟩ := List.mem_map.mp (added after)
    obtain ⟨nonEmpty, w, there⟩ := served
    exact expected_new (nonEmpty fc member) (w := w) there
  all_goals exact absurd after before

/-- **One step.** -/
theorem next {event : Event n} (pending : Pending s) (served : Served s event)
    (move : Move s event s') : Pending s' := by
  refine ⟨pending.inside.next move, ?_, ?_, fun it after => pending.next_fibers served move after⟩
  · intro v
    have moves {w : Fin n} {pc : Pc} (full : pc.full) : (Function.update s.pc w pc v).full := by
      rcases eq_or_ne v w with rfl | other
      · rwa [Function.update_self]
      · rw [Function.update_of_ne other]
        exact pending.full v
    cases move
    case scan | reschedule | scheduleCbs | trigger =>
      exact moves (Pc.full_tickleIf.mpr trivial)
    case expire w cbs kept later front from' _ _ _ =>
      exact moves (Pc.full_tickleIf.mpr fun lost => Bool.false_ne_true (served none lost))
    case rearm w cbs later front from' =>
      have here := pending.full w
      rw [from'] at here
      exact moves (Pc.full_tickleIf.mpr here)
    case testNone w after from' _ | testSome w after from' _ | write w after from' =>
      have here := pending.full w
      rw [from'] at here
      exact moves here
    case drain | addTimer | cancelTimer | addEvent | delEvent | schedule | scheduleBatch |
        testTickleNone | testTickleSome | writeTickle | testOtherNone | testOtherSome | writeOther |
        newFiber | stop =>
      exact pending.full v
    all_goals exact moves trivial
  · intro fc member
    cases move
    case trigger => exact pending.contexts fc (List.mem_of_mem_eraseIdx member)
    case delEvent => exact pending.contexts fc (List.mem_of_mem_eraseIdx member)
    case addEvent w cb b f from' =>
      rcases List.mem_append.mp member with old | new
      · exact pending.contexts fc old
      · obtain rfl := List.mem_singleton.mp new
        cases cb <;> rfl
    all_goals exact pending.contexts fc member

/-- **Every reachable state.** -/
theorem reachable (reached : (pool n).ReachableWhen Served s) : Pending s := by
  refine reached.invariant (fun s begins => ?_) fun s event s' pending served stepped =>
    pending.next served (move_of_next stepped)
  cases begins
  exact ⟨nofun, fun _ => trivial, nofun, nofun⟩

end Pending

/-- When the workers are gone, nothing waits. -/
theorem Pending.drained (pending : Pending s) (gone : ∀ w, s.pc w = .exited) : s.fibers = [] := by
  refine List.eq_nil_iff_forall_not_mem.mpr fun it member => ?_
  obtain ⟨w, again, -⟩ := (pending.fibers it member).worker
  unfold Pool.scansAgain at again
  rw [gone w] at again
  cases again

/-- **Every entry of the queue has a worker to take it; when all are gone, the queue is empty.** -/
theorem queue_drained {s : Pool n} (reached : (pool n).ReachableWhen Served s) :
    (∀ it ∈ s.fibers, ∃ w, s.scansAgain w ∧ it.allows (threadId w)) ∧
      ((∀ w, s.pc w = .exited) → s.fibers = []) := by
  have pending := Pending.reachable reached
  exact ⟨fun it member => (pending.fibers it member).worker, pending.drained⟩

/-- The idle fiber of the only worker ends after `stop()`. -/
def idleEnds : List (Event 1) := .stop :: List.replicate 6 (.work 0)

/-- A callback that comes after that is run, and the worker goes. -/
def runsLate : List (Event 1) :=
  .schedule (.cb (some 1)) (-1) :: List.replicate 5 (.work 0) ++
    .leave 0 .term :: List.replicate 6 (.work 0)

theorem queue_drained_late :
    ∃ s, (pool 1).Reachable s ∧ s.pc 0 = .exited ∧ s.started = [0] ∧ s.fibers = [] := by
  have run : ∃ s, (pool 1).ReachableWhen Served s ∧
      decide (s.pc 0 = .exited ∧ s.started = [0]) = true :=
    Machine.reachableWhen_of_replay rfl (idleEnds ++ runsLate) _ (by decide)
  obtain ⟨s, reached, check⟩ := run
  obtain ⟨gone, started⟩ := of_decide_eq_true check
  refine ⟨s, reached.reachable, gone, started, (queue_drained reached).2 fun w => ?_⟩
  rwa [Fin.fin_one_eq_zero w]

/-- **An empty task makes the last worker leave** with another task in the queue. -/
theorem empty_task_strands : ∃ s, (pool 1).Reachable s ∧ s.pc 0 = .exited ∧
    s.fibers = [⟨.cb (some 1), -1⟩] := by
  have run : ∃ s, (pool 1).Reachable s ∧
      decide (s.pc 0 = .exited ∧ s.fibers = [⟨.cb (some 1), -1⟩]) = true :=
    Machine.reachable_of_replay rfl
      (idleEnds ++
        [.schedule (.cb none) (-1), .schedule (.cb (some 1)) (-1), .work 0, .work 0, .work 0])
      _ (by decide)
  obtain ⟨s, reached, check⟩ := run
  exact ⟨s, reached, of_decide_eq_true check⟩

end Sylar.Scheduler
