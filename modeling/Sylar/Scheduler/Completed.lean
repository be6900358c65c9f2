/-
**What the pool does not look at: a list that is being filled.**

A worker between `list_expired_cbs` and `schedule(cbs)` has a list that may still grow. The other
steps of the pool do not look into it: they do the same whatever is still to come.

* `Pool.completed` — the same pool, with more in the lists that workers are filling.
* `completed_next` — **a step that neither fills nor schedules such a list does the same on the
  completed pool**; `completed_trackedStep` — with the callbacks of the run.
* `onceOk_completed` — nor do the conditions on fibers and on what is enqueued look into it.
-/

import Sylar.Scheduler.ExactlyOnce

namespace Sylar.Scheduler

open Sylar.Library

variable {n : Nat}

namespace Pc

/-- The list that the worker is filling, with the rest of it, and so many timers to arm again. -/
def completed (more : List (Option Callback)) (later : Nat) : Pc → Pc
  | .tickling write after => .tickling write (after.completed more later)
  | .idle (.listed cbs again) => .idle (.listed (cbs ++ more) (again + later))
  | pc => pc

/-- The worker is filling `cbs`, or about to schedule it. -/
def lists : Pc → Bool
  | .idle (.listed ..) => true
  | _ => false

variable {more : List (Option Callback)} {later : Nat}

@[simp] theorem completed_nil (pc : Pc) : pc.completed [] 0 = pc := by
  fun_induction completed [] 0 pc with
  | case1 write after ih => rw [ih]
  | case2 cbs again => rw [List.append_nil, Nat.add_zero]
  | case3 => rfl

@[simp] theorem completed_tickleIf (needTickle : Bool) (after : Pc) :
    (tickleIf needTickle after).completed more later =
      tickleIf needTickle (after.completed more later) := by
  cases needTickle <;> rfl

@[simp] theorem completed_dispatch (ft : FiberOrCb) :
    (dispatch ft).completed more later = dispatch ft := rfl

@[simp] theorem completed_task (stage : Stage) (branch : Branch) (f : FiberId) :
    (task stage branch f).completed more later = task stage branch f := rfl

@[simp] theorem completed_top : top.completed more later = top := rfl

@[simp] theorem completed_exited : exited.completed more later = exited := rfl

@[simp] theorem completed_tickling (write : Bool) (after : Pc) :
    (tickling write after).completed more later = tickling write (after.completed more later) := rfl

@[simp] theorem completed_listed (cbs : List (Option Callback)) (again : Nat) :
    (idle (.listed cbs again)).completed more later =
      idle (.listed (cbs ++ more) (again + later)) := rfl

/-- A worker that has no list is where it was. -/
theorem completed_idle {stage : IdleStage} (closed : (idle stage).lists = false) :
    (idle stage).completed more later = idle stage := by
  cases stage with
  | listed cbs again => cases closed
  | _ => rfl

@[simp] theorem names_completed (pc : Pc) : (pc.completed more later).names = pc.names := by
  fun_induction completed more later pc with
  | case1 write after ih => exact ih
  | case2 | case3 => rfl

@[simp] theorem wants_completed (pc : Pc) : (pc.completed more later).wants = pc.wants := by
  fun_induction completed more later pc with
  | case1 write after ih => exact ih
  | case2 | case3 => rfl

@[simp] theorem window_completed (pc : Pc) : (pc.completed more later).window = pc.window := by
  fun_induction completed more later pc with
  | case1 write after ih => exact ih
  | case2 | case3 => rfl

@[simp] theorem isLast_completed (dead : Bool) (pc : Pc) :
    (pc.completed more later).isLast dead = pc.isLast dead := by
  fun_induction completed more later pc with
  | case1 write after ih => exact ih
  | case2 | case3 => rfl

end Pc

/-- The pool, with more in the lists that workers are filling. -/
def Pool.completed (s : Pool n) (more : Fin n → List (Option Callback)) (later : Fin n → Nat) :
    Pool n :=
  { s with pc := fun v => (s.pc v).completed (more v) (later v) }

section Completed

variable {s : Pool n} {more : Fin n → List (Option Callback)} {later : Fin n → Nat} {w : Fin n}

/-! ### The fields -/

namespace Pool

theorem pc_completed :
    (s.completed more later).pc w = (s.pc w).completed (more w) (later w) := rfl

@[simp] theorem state_completed : (s.completed more later).state = s.state := rfl

@[simp] theorem cbFiber_completed : (s.completed more later).cbFiber = s.cbFiber := rfl

@[simp] theorem contexts_completed : (s.completed more later).contexts = s.contexts := rfl

@[simp] theorem toTest_completed : (s.completed more later).toTest = s.toTest := rfl

@[simp] theorem toWrite_completed : (s.completed more later).toWrite = s.toWrite := rfl

@[simp] theorem otherToTest_completed :
    (s.completed more later).otherToTest = s.otherToTest := rfl

@[simp] theorem otherToWrite_completed :
    (s.completed more later).otherToWrite = s.otherToWrite := rfl

end Pool

/-- A worker moves, and nobody else's list is completed otherwise. -/
theorem completed_update_of_agree {more' : Fin n → List (Option Callback)} {later' : Fin n → Nat}
    (sameMore : ∀ v, v ≠ w → more' v = more v) (sameLater : ∀ v, v ≠ w → later' v = later v)
    (pcs : Fin n → Pc) (pc : Pc) :
    (fun v => (Function.update pcs w pc v).completed (more' v) (later' v)) =
      Function.update (fun v => (pcs v).completed (more v) (later v)) w
        (pc.completed (more' w) (later' w)) := by
  funext v
  rcases eq_or_ne v w with rfl | other
  · rw [Function.update_self, Function.update_self]
  · rw [Function.update_of_ne other, Function.update_of_ne other, sameMore v other,
      sameLater v other]

/-- **A worker moves** on the completed pool as on the pool. -/
theorem completed_moved {t t' : Pool n} {pc : Pc} (moved : t.pc = Function.update s.pc w pc)
    (same : t' = { t with
      pc := Function.update (s.completed more later).pc w (pc.completed (more w) (later w)) }) :
    t' = t.completed more later := by
  rw [same]
  unfold Pool.completed
  rw [moved, completed_update_of_agree (fun _ _ => rfl) (fun _ _ => rfl)]

theorem completed_goto (pc : Pc) :
    (s.completed more later).goto w (pc.completed (more w) (later w)) =
      (s.goto w pc).completed more later :=
  completed_moved rfl rfl

/-! ### The steps of a worker -/

theorem completed_scanStep :
    (s.completed more later).scanStep w =
      (s.scanStep w).map fun s' => s'.completed more later := by
  unfold Pool.scanStep
  rw [Option.map_map]
  refine congrArg (fun go => Option.map go _) (funext fun r => ?_)
  refine completed_moved rfl ?_
  rw [Pc.completed_tickleIf]
  rfl

theorem completed_tickleStep (write : Bool) (after : Pc) :
    (s.completed more later).tickleStep w write (after.completed (more w) (later w)) =
      (s.tickleStep w write after).completed more later := by
  unfold Pool.tickleStep
  cases write with
  | true => exact completed_moved rfl rfl
  | false =>
    rw [if_neg Bool.false_ne_true, if_neg Bool.false_ne_true, ← completed_goto]
    show Pool.goto _ w (if s.idleThreadCount > 0 then _ else _) = _
    split <;> rfl

theorem completed_resetFiber (f : FiberId) (cb : Option Callback) (pop : Option Nat) :
    (s.completed more later).resetFiber f cb pop =
      (s.resetFiber f cb pop).map fun s' => s'.completed more later := by
  unfold Pool.resetFiber
  rw [Pool.state_completed]
  cases s.state f <;> rfl

theorem completed_dispatchStep (ft : FiberOrCb) :
    (s.completed more later).dispatchStep w ft =
      (s.dispatchStep w ft).map fun s' => s'.completed more later := by
  have idles : (if s.idleTerm w then some ((s.completed more later).goto w .exited)
      else some { (s.completed more later).goto w (.idle .timeout) with
        idleThreadCount := s.idleThreadCount + 1 }) =
      Option.map (fun s' => s'.completed more later) (if s.idleTerm w then some (s.goto w .exited)
        else some { s.goto w (.idle .timeout) with idleThreadCount := s.idleThreadCount + 1 }) := by
    split
    · exact congrArg some (completed_moved rfl rfl)
    · exact congrArg some (completed_moved rfl rfl)
  match ft with
  | .fiber none | .cb none => exact idles
  | .fiber (some f) =>
    unfold Pool.dispatchStep
    rw [Option.map_some, ← completed_goto]
    show some (Pool.goto _ w (if s.state f = .term then _ else _)) = _
    split <;> rfl
  | .cb (some c) =>
    simp only [Pool.dispatchStep, Pool.cbFiber_completed]
    cases s.cbFiber w with
    | none => exact congrArg some (completed_moved rfl rfl)
    | some f =>
      simp only [completed_resetFiber, Option.map_map]
      exact congrArg (fun go => Option.map go _) (funext fun s' => completed_moved rfl rfl)

theorem completed_taskStep (branch : Branch) (f : FiberId) (stage : Stage) :
    (s.completed more later).taskStep w branch f stage =
      (s.taskStep w branch f stage).map fun s' => s'.completed more later := by
  cases stage with
  | executing => rfl
  | chosen | leaving | back | holding => exact congrArg some (completed_moved rfl rfl)
  | rescheduling =>
    refine congrArg some (completed_moved rfl ?_)
    rw [Pc.completed_tickleIf]
    rfl
  | counted =>
    unfold Pool.taskStep
    show (if s.state f = .exec then none else _) = Option.map _ (if s.state f = .exec then _ else _)
    split
    · rfl
    · exact congrArg some (completed_moved rfl rfl)
  | entered =>
    unfold Pool.taskStep
    show (if (s.fiber f).atEnd then none else _) =
      Option.map _ (if (s.fiber f).atEnd then none else _)
    split
    · rfl
    · exact congrArg some (completed_moved rfl rfl)
  | uncounted =>
    refine congrArg some (Eq.trans ?_ (completed_goto _))
    rw [Pool.state_completed]
    cases s.state f <;> cases branch <;> rfl
  | finished =>
    simp only [Pool.taskStep, completed_resetFiber, Option.map_map]
    exact congrArg (fun go => Option.map go _) (funext fun s' => completed_moved rfl rfl)

theorem holds_completed (more' : List (Option Callback)) (later' : Nat) (pc : Pc) :
    (s.completed more later).holds (pc.completed more' later') ↔ s.holds pc := by
  induction pc with
  | tickling write after ih => exact ih
  | dispatch ft =>
    match ft with
    | .fiber none | .fiber (some _) | .cb none | .cb (some _) => exact Iff.rfl
  | task stage b f => cases stage <;> exact Iff.rfl
  | idle stage => cases stage <;> exact Iff.rfl
  | top | exited => exact Iff.rfl

theorem quiescent_completed : (s.completed more later).quiescent ↔ s.quiescent := by
  refine and_congr_right fun _ => and_congr_right fun _ => and_congr_right fun _ => ?_
  exact forall_congr' fun v => not_congr (holds_completed _ _ _)

theorem completed_idleStep {stage : IdleStage} (closed : (Pc.idle stage).lists = false) :
    (s.completed more later).idleStep w stage =
      (s.idleStep w stage).map fun s' => s'.completed more later := by
  cases stage with
  | blocked | woken | reports => rfl
  | listed cbs again => cases closed
  | wait | triggered | left => exact congrArg some (completed_moved rfl rfl)
  | timeout =>
    refine congrArg some (completed_moved rfl ?_)
    show Pool.goto _ w (.idle (if s.timers = 0 then .pending else .wait)) = _
    split <;> rfl
  | pending =>
    refine congrArg some (completed_moved rfl ?_)
    show Pool.goto _ w (.idle (if s.pendingEventCount = 0 then .last else .wait)) = _
    split <;> rfl
  | last =>
    unfold Pool.idleStep
    show (if schedulerStopping s.autoStop s.stopping s.fibers s.activeThreadCount then _ else _) =
      Option.map _
        (if schedulerStopping s.autoStop s.stopping s.fibers s.activeThreadCount then _ else _)
    split
    · refine congrArg some (completed_moved rfl ?_)
      simp only [decide_not, decide_eq_decide.mpr quiescent_completed]
      rfl
    · exact congrArg some (completed_moved rfl rfl)

/-- A worker that schedules its list has all of it. -/
theorem completed_work
    (closed : (s.pc w).lists = true → more w = [] ∧ later w = 0) :
    (s.completed more later).work w = (s.work w).map fun s' => s'.completed more later := by
  unfold Pool.work
  rw [Pool.pc_completed]
  cases from' : s.pc w with
  | top => exact completed_scanStep
  | tickling write after => exact congrArg some (completed_tickleStep write after)
  | dispatch ft => exact completed_dispatchStep ft
  | task stage branch f => exact completed_taskStep branch f stage
  | exited => rfl
  | idle stage =>
    cases open' : (Pc.idle stage).lists with
    | false =>
      rw [Pc.completed_idle open']
      exact completed_idleStep open'
    | true =>
      obtain ⟨all, none⟩ := closed (by rw [from', open'])
      rw [all, none, Pc.completed_nil]
      cases stage with
      | listed cbs again =>
        cases again with
        | zero =>
          refine congrArg some (completed_moved rfl ?_)
          rw [Pc.completed_tickleIf]
          rfl
        | succ again => rfl
      | _ => cases open'

/-! ### The other steps -/

theorem completed_leave (outcome : State) :
    (s.completed more later).leave w outcome =
      (s.leave w outcome).map fun s' => s'.completed more later := by
  unfold Pool.leave
  rw [Pool.pc_completed]
  cases from' : s.pc w with
  | top | tickling | dispatch | exited => rfl
  | idle stage => cases stage <;> rfl
  | task stage b f =>
    cases stage with
    | executing =>
      rw [Pc.completed_task]
      by_cases stuck : (s.fiber f).cb = none ∧ outcome ≠ .excpt
      · cases outcome with
        | init | exec => rfl
        | hold | ready | term | excpt =>
          refine (if_pos stuck).trans ?_
          dsimp only
          rw [if_pos stuck, Option.map_none]
      · cases outcome with
        | init | exec => rfl
        | hold | ready | term | excpt =>
          refine (if_neg stuck).trans ?_
          dsimp only
          rw [if_neg stuck]
          exact congrArg some (completed_moved rfl rfl)
    | _ => cases outcome <;> rfl

/-- The step is one of `list_expired_cbs`. -/
def Event.fills : Event n → Bool
  | .expire .. | .rearm .. => true
  | _ => false

/-- **A step that neither fills a list nor schedules one that is not full does the same on the
completed pool.** -/
theorem completed_next {event : Event n} (fills : event.fills = false)
    (closed : ∀ w, event = .work w → (s.pc w).lists = true → more w = [] ∧ later w = 0) :
    (s.completed more later).next event =
      (s.next event).map fun s' => s'.completed more later := by
  cases event with
  | expire | rearm => cases fills
  | work w => exact completed_work (closed w rfl)
  | leave w outcome => exact completed_leave outcome
  | wake w =>
    simp only [Pool.next, Pool.pc_completed]
    cases from' : s.pc w with
    | idle stage =>
      cases stage with
      | blocked => exact congrArg some (completed_moved rfl rfl)
      | _ => rfl
    | _ => rfl
  | drain w =>
    simp only [Pool.next, Pool.pc_completed]
    cases from' : s.pc w with
    | idle stage => cases stage <;> rfl
    | _ => rfl
  | trigger w i =>
    simp only [Pool.next, Pool.pc_completed, Pool.contexts_completed]
    cases from' : s.pc w with
    | idle stage =>
      cases stage with
      | reports =>
        cases s.contexts[i]? with
        | none => rfl
        | some fc =>
          refine congrArg some (completed_moved rfl ?_)
          rw [Pc.completed_tickleIf]
          rfl
      | _ => rfl
    | _ => rfl
  | swapOut w =>
    simp only [Pool.next, Pool.pc_completed]
    cases from' : s.pc w with
    | idle stage =>
      cases stage with
      | reports => exact congrArg some (completed_moved rfl rfl)
      | _ => rfl
    | _ => rfl
  | addTimer w front | cancelTimer w | addEvent w cb =>
    simp only [Pool.next, Pool.pc_completed]
    cases from' : s.pc w with
    | idle stage | task stage b f => cases stage <;> rfl
    | _ => rfl
  | delEvent w i =>
    simp only [Pool.next, Pool.pc_completed, Pool.contexts_completed]
    cases from' : s.pc w with
    | idle stage | task stage b f => cases stage <;> cases s.contexts[i]? <;> rfl
    | _ => rfl
  | schedule fc thread =>
    simp only [Pool.next]
    show (if s.known fc then _ else none) = Option.map _ (if s.known fc then _ else none)
    split <;> rfl
  | scheduleBatch fcs =>
    simp only [Pool.next]
    show (if fcs.all s.known then _ else none) = Option.map _ (if fcs.all s.known then _ else none)
    split <;> rfl
  | testTickle =>
    simp only [Pool.next, Pool.toTest_completed]
    cases s.toTest <;> rfl
  | writeTickle =>
    simp only [Pool.next, Pool.toWrite_completed]
    cases s.toWrite <;> rfl
  | testOther =>
    simp only [Pool.next, Pool.otherToTest_completed]
    cases s.otherToTest <;> rfl
  | writeOther =>
    simp only [Pool.next, Pool.otherToWrite_completed]
    cases s.otherToWrite <;> rfl
  | newFiber | stop => rfl

/-! ### The callbacks of a run -/

theorem completed_enqueues {event : Event n}
    (closed : ∀ w, event = .work w → (s.pc w).lists = true → more w = [] ∧ later w = 0) :
    (s.completed more later).enqueues event = s.enqueues event := by
  cases event with
  | work w =>
    have here : (s.completed more later).pc w = (s.pc w).completed (more w) (later w) := rfl
    cases open' : (s.pc w).lists with
    | true =>
      obtain ⟨all, none⟩ := closed w rfl open'
      rw [all, none, Pc.completed_nil] at here
      simp only [Pool.enqueues, here]
    | false =>
      simp only [Pool.enqueues, here]
      cases from' : s.pc w with
      | idle stage =>
        cases stage with
        | listed cbs again =>
          rw [from'] at open'
          cases open'
        | _ => rfl
      | _ => rfl
  | _ => rfl

theorem completed_loads (event : Event n) :
    (s.completed more later).loads event = s.loads event := by
  cases event with
  | work w =>
    simp only [Pool.loads, Pool.pc_completed]
    cases from' : s.pc w with
    | idle stage => cases stage <;> rfl
    | _ => rfl
  | _ => rfl

theorem completed_calls (event : Event n) :
    (s.completed more later).calls event = s.calls event := by
  cases event with
  | work w =>
    simp only [Pool.calls, Pool.pc_completed]
    cases from' : s.pc w with
    | idle stage => cases stage <;> rfl
    | _ => rfl
  | _ => rfl

/-- The same run, with more in the lists that workers are filling. -/
def Tracked.completed (t : Tracked n) (more : Fin n → List (Option Callback))
    (later : Fin n → Nat) : Tracked n :=
  { t with pool := t.pool.completed more later }

/-- **Such a step does the same with callbacks.** -/
theorem completed_trackedStep {t : Tracked n} {event : Event n} (fills : event.fills = false)
    (closed : ∀ w, event = .work w → (t.pool.pc w).lists = true → more w = [] ∧ later w = 0) :
    trackedStep (t.completed more later) event =
      (trackedStep t event).map fun t' => t'.completed more later := by
  unfold trackedStep
  rw [Option.map_map]
  show Option.map _ ((t.pool.completed more later).next event) = _
  rw [completed_next fills closed, Option.map_map]
  refine congrArg (fun go => Option.map go _) (funext fun s' => ?_)
  show Tracked.mk _ _ _ _ = Tracked.mk _ _ _ _
  congr 2
  · exact congrArg (List.filterMap callbackOf) (completed_enqueues closed)
  · exact congrArg Option.toList (completed_loads event)
  · exact congrArg Option.toList (completed_calls event)

/-! ### The conditions -/

theorem completed_takes : (s.completed more later).takes w = s.takes w := by
  unfold Pool.takes
  rw [Pool.pc_completed]
  cases from' : s.pc w with
  | idle stage => cases stage <;> rfl
  | _ => rfl

theorem completed_popsCallback : (s.completed more later).popsCallback w = s.popsCallback w := by
  unfold Pool.popsCallback
  rw [Pool.pc_completed]
  cases from' : s.pc w with
  | idle stage => cases stage <;> rfl
  | _ => rfl

theorem completed_refers {f : FiberId} : Refers (s.completed more later) f ↔ Refers s f := by
  rw [refers_iff, refers_iff]
  refine or_congr_left (exists_congr fun v => ?_)
  show ((s.pc v).completed (more v) (later v)).wants = some f ↔ _
  rw [Pc.wants_completed]

theorem completed_scansAgain : (s.completed more later).scansAgain w ↔ s.scansAgain w := by
  unfold Pool.scansAgain
  show ((s.pc w).completed (more w) (later w)).isLast (s.idleTerm w) = false ↔ _
  rw [Pc.isLast_completed]

theorem completed_handOff {event : Event n} :
    HandOff (s.completed more later) event ↔ HandOff s event := by
  cases event with
  | work w =>
    show (∀ f ∈ (s.completed more later).takes w, ∀ v,
      ((s.pc v).completed (more v) (later v)).window ≠ some f) ↔ _
    simp only [completed_takes, Pc.window_completed]
    rfl
  | _ => exact Iff.rfl

theorem completed_reusable {event : Event n} :
    Reusable (s.completed more later) event ↔ Reusable s event := by
  refine and_congr_left fun _ => ?_
  cases event with
  | work w =>
    show ((s.completed more later).popsCallback w = true → _) ↔ _
    rw [completed_popsCallback]
    rfl
  | leave w outcome =>
    show (outcome = .term ∨ outcome = .excpt → ∀ f ∈ ((s.pc w).completed _ _).names,
      (∃ v, s.cbFiber v = some f) → ¬ Refers (s.completed more later) f) ↔ _
    simp only [completed_refers, Pc.names_completed]
  | _ => exact Iff.rfl

theorem completed_served {event : Event n} :
    Served (s.completed more later) event ↔ Served s event := by
  cases event with
  | schedule fc thread =>
    exact and_congr_right fun _ => and_congr_right fun _ =>
      exists_congr fun v => and_congr_left fun _ => completed_scansAgain
  | scheduleBatch fcs => exact and_congr_right fun _ => exists_congr fun v => completed_scansAgain
  | _ => exact Iff.rfl

/-- **The conditions do not look into a list that is being filled.** -/
theorem onceOk_completed {t : Tracked n} {event : Event n} :
    OnceOk (t.completed more later) event ↔ OnceOk t event :=
  and_congr (and_congr completed_handOff completed_reusable) completed_served

end Completed

end Sylar.Scheduler
