/-
**What gets into the queue: the constructors of `Fiber_and_Thread`, and the test after them.**

`schedule_no_lock` makes the entry and pushes it if `fiber_or_cb` holds a `Fiber::ptr` or a
function. A variant of the two always does: the test is of the type, and an empty task passes it.

* `Given`, `construct` — the four constructors: by value, and by pointer, which swaps the task out
  of the caller's hands.
* `scheduleGiven_eq`, `scheduleGivens_eq` — **the test lets everything through**: the queue is that
  of `scheduleNoLock` and `scheduleAll`.
* `scheduleGiven_nonEmpty_iff` — what is pushed is there exactly when the argument is.
* `Supplied` — the condition on a step of the pool: what is scheduled is there. `Filled.next_iff` —
  **it is exact**: a step keeps empty tasks out of the queue if and only if it meets the condition.
* `no_empty_task` — **under it, in every run, no entry is empty**, no scan reads a null pointer, and
  none comes away empty-handed with an entry popped.
-/

import Sylar.Scheduler.Scan
import Sylar.Scheduler.Moves

namespace Sylar.Scheduler

open Sylar.Library

/-! ### Constructing an entry -/

/-- The argument of `schedule_no_lock`, with what a pointer points to. -/
inductive Given
  | fiber (f : Option FiberId)
  | fiberPtr (f : Option FiberId)
  | cb (c : Option Callback)
  | cbPtr (c : Option Callback)
deriving DecidableEq

/-- The task that is given. -/
def Given.task : Given → FiberOrCb
  | .fiber f | .fiberPtr f => .fiber f
  | .cb c | .cbPtr c => .cb c

/-- What the caller has afterwards: nothing where it has given a pointer. -/
def Given.swapped : Given → Given
  | .fiber f => .fiber f
  | .fiberPtr _ => .fiberPtr none
  | .cb c => .cb c
  | .cbPtr _ => .cbPtr none

/-- `swap` of what the entry holds and what is pointed to. -/
def swap {α : Type} (held pointee : α) : α × α := (pointee, held)

/-- The constructors of `Fiber_and_Thread`: the entry, and what the caller has afterwards. -/
def construct (given : Given) (thr : Int) : FiberAndThread × Given :=
  match given with
  | .fiber f => (⟨.fiber f, thr⟩, .fiber f)
  | .fiberPtr f =>
      let held : Option FiberId := none
      let swapped := swap held f
      (⟨.fiber swapped.1, thr⟩, .fiberPtr swapped.2)
  | .cb f => (⟨.cb f, thr⟩, .cb f)
  | .cbPtr f =>
      let held : Option Callback := none
      let swapped := swap held f
      (⟨.cb swapped.1, thr⟩, .cbPtr swapped.2)

/-- `std::holds_alternative<Fiber::ptr>`. -/
def holdsFiber : FiberOrCb → Bool
  | .fiber _ => true
  | .cb _ => false

/-- `std::holds_alternative<std::function<void()>>`. -/
def holdsCb : FiberOrCb → Bool
  | .fiber _ => false
  | .cb _ => true

/-- `schedule_no_lock`: the queue, `need_tickle`, and what the caller has afterwards. -/
def scheduleGiven (fibers : List FiberAndThread) (given : Given) (thread : Int) :
    List FiberAndThread × Bool × Given :=
  let needTickle := fibers.isEmpty
  let made := construct given thread
  let ft := made.1
  (if holdsFiber ft.fiberOrCb || holdsCb ft.fiberOrCb then fibers ++ [ft] else fibers,
    needTickle, made.2)

/-- `schedule(begin, end)` under its lock: the addresses of the elements are given. -/
def scheduleGivens (fibers : List FiberAndThread) :
    List Given → List FiberAndThread × Bool × List Given
  | [] => (fibers, false, [])
  | given :: rest =>
      let one := scheduleGiven fibers given (-1)
      let later := scheduleGivens one.1 rest
      (later.1, one.2.1 || later.2.1, one.2.2 :: later.2.2)

/-- The test after the constructor is true of every entry. -/
theorem holds_alternative (fc : FiberOrCb) : (holdsFiber fc || holdsCb fc) = true := by
  cases fc <;> rfl

theorem construct_eq (given : Given) (thr : Int) :
    construct given thr = (⟨given.task, thr⟩, given.swapped) := by
  cases given <;> rfl

/-- **Every argument is pushed**, empty or not. -/
theorem scheduleGiven_eq (fibers : List FiberAndThread) (given : Given) (thread : Int) :
    scheduleGiven fibers given thread =
      ((scheduleNoLock fibers given.task thread).1, (scheduleNoLock fibers given.task thread).2,
        given.swapped) := by
  simp only [scheduleGiven, construct_eq, holds_alternative, if_true, scheduleNoLock]

theorem scheduleGivens_eq (fibers : List FiberAndThread) (givens : List Given) :
    scheduleGivens fibers givens =
      ((scheduleAll fibers (givens.map Given.task)).1,
        (scheduleAll fibers (givens.map Given.task)).2, givens.map Given.swapped) := by
  induction givens generalizing fibers with
  | nil => rfl
  | cons given rest ih =>
    rw [scheduleGivens, scheduleGiven_eq, ih]
    rfl

/-- No entry is a null fiber or an empty function. -/
def AllThere (fibers : List FiberAndThread) : Prop :=
  ∀ it ∈ fibers, it.fiberOrCb.nonEmpty = true

instance (fibers : List FiberAndThread) : Decidable (AllThere fibers) :=
  inferInstanceAs (Decidable (∀ it ∈ fibers, _))

theorem allThere_append {fibers more : List FiberAndThread} :
    AllThere (fibers ++ more) ↔ AllThere fibers ∧ AllThere more := List.forall_mem_append

theorem allThere_singleton {fc : FiberOrCb} {thread : Int} :
    AllThere [⟨fc, thread⟩] ↔ fc.nonEmpty = true := by simp [AllThere]

theorem allThere_map {α : Type} {task : α → FiberOrCb} {l : List α} :
    AllThere (l.map fun a => ⟨task a, -1⟩) ↔ ∀ a ∈ l, (task a).nonEmpty = true := by
  simp [AllThere]

/-- **What is pushed is there exactly when the argument is**, by value or by pointer. -/
theorem scheduleGiven_nonEmpty_iff (fibers : List FiberAndThread) (given : Given) (thread : Int) :
    AllThere (scheduleGiven fibers given thread).1 ↔
      AllThere fibers ∧ given.task.nonEmpty = true := by
  rw [scheduleGiven_eq]
  exact allThere_append.trans (and_congr_right' allThere_singleton)

theorem scheduleGivens_nonEmpty_iff (fibers : List FiberAndThread) (givens : List Given) :
    AllThere (scheduleGivens fibers givens).1 ↔
      AllThere fibers ∧ ∀ given ∈ givens, given.task.nonEmpty = true := by
  rw [scheduleGivens_eq, scheduleAll_eq, List.map_map]
  exact allThere_append.trans (and_congr_right' allThere_map)

/-! ### The pool -/

variable {n : Nat} {s s' : Pool n} {event : Event n}

/-- The condition on a step: what it schedules is there. -/
def Supplied (s : Pool n) : Event n → Prop
  | .schedule fc _ => fc.nonEmpty = true
  | .scheduleBatch fcs => ∀ fc ∈ fcs, fc.nonEmpty = true
  | .work w =>
      match s.pc w with
      | .idle (.listed cbs 0) => ∀ c ∈ cbs, c.isSome = true
      | _ => True
  | _ => True

instance (s : Pool n) : (event : Event n) → Decidable (Supplied s event)
  | .schedule fc _ => inferInstanceAs (Decidable (fc.nonEmpty = true))
  | .scheduleBatch fcs => inferInstanceAs (Decidable (∀ fc ∈ fcs, fc.nonEmpty = true))
  | .work w => by
      unfold Supplied
      dsimp only
      split <;> infer_instance
  | .leave .. | .wake _ | .expire .. | .rearm .. | .drain _ | .trigger .. | .swapOut _
  | .addTimer .. | .cancelTimer _ | .addEvent .. | .delEvent .. | .testTickle | .writeTickle
  | .testOther | .writeOther | .newFiber _ | .stop => isTrue trivial

/-- **No empty task is in the queue**, and none comes out of it. -/
structure NoEmptyTask (s : Pool n) : Prop where
  queue : AllThere s.fibers
  scans : ∀ w : Fin n, (scan s.state (threadId w) s.fibers).isSome = true
  pops : ∀ (w : Fin n) ft left tickleMe,
    scan s.state (threadId w) s.fibers = some (ft, left, tickleMe) → Nothing ft → left = s.fibers

/-- The invariant: the contexts of the events have tasks too. -/
structure Filled (s : Pool n) : Prop where
  queue : AllThere s.fibers
  contexts : ∀ fc ∈ s.contexts, fc.nonEmpty = true

theorem Filled.noEmptyTask (filled : Filled s) : NoEmptyTask s where
  queue := filled.queue
  scans w := by
    refine scan_isSome fun it member null => ?_
    have there := filled.queue it member
    rw [null] at there
    cases there
  pops w ft left tickleMe scanned nothing := by
    generalize same : (ft, left, tickleMe) = r at scanned
    generalize content : s.fibers = fibers at scanned
    cases scan_scans scanned with
    | @taken it skipped later _ takes first told =>
      cases same
      have there := filled.queue it (content ▸ List.mem_append_right _ List.mem_cons_self)
      rcases nothing with null | none
      · rw [null] at there
        cases there
      · rw [none] at there
        cases there
    | nothing untaken told =>
      cases same
      rfl

/-- A worker that does not schedule what it got from `list_expired_cbs` meets the condition. -/
theorem supplied_work {w : Fin n} {pc : Pc} (from' : s.pc w = pc)
    (elsewhere : ∀ cbs, pc ≠ .idle (.listed cbs 0)) : Supplied s (.work w) := by
  unfold Supplied
  dsimp only
  split
  next cbs listed => exact absurd (from'.symm.trans listed) (elsewhere cbs)
  next => trivial

/-- **A step keeps empty tasks out of the queue if and only if it meets the condition.** -/
theorem Filled.next_iff (filled : Filled s) (move : Move s event s') :
    AllThere s'.fibers ↔ Supplied s event := by
  have queues := move.queues
  generalize s'.fibers = fibers at queues
  cases queues with
  | scan from' scanned =>
    have kept : AllThere fibers := fun it member =>
      filled.queue it ((scan_scanned scanned).rest.subset member)
    exact iff_of_true kept (supplied_work from' nofun)
  | reschedule from' =>
    exact iff_of_true (allThere_append.mpr ⟨filled.queue, allThere_singleton.mpr rfl⟩)
      (supplied_work from' nofun)
  | scheduleCbs from' =>
    refine allThere_append.trans ((and_iff_right filled.queue).trans (allThere_map.trans ?_))
    simp only [Supplied, from']
    rfl
  | @trigger w i fc found =>
    refine iff_of_true (allThere_append.mpr ⟨filled.queue, ?_⟩) trivial
    exact allThere_singleton.mpr (filled.contexts fc (List.mem_of_getElem? found))
  | schedule => exact allThere_append.trans ((and_iff_right filled.queue).trans allThere_singleton)
  | scheduleBatch => exact allThere_append.trans ((and_iff_right filled.queue).trans allThere_map)
  | work from' _ _ listed => exact iff_of_true filled.queue (supplied_work from' listed)
  | other passes =>
    refine iff_of_true filled.queue ?_
    cases event with
    | work | trigger | schedule | scheduleBatch => cases passes
    | _ => trivial

/-- **A step that meets the condition keeps the invariant.** -/
theorem Filled.next (filled : Filled s) (supplied : Supplied s event) (move : Move s event s') :
    Filled s' := by
  refine ⟨(filled.next_iff move).mpr supplied, ?_⟩
  cases move
  case trigger => exact fun fc member => filled.contexts fc (List.mem_of_mem_eraseIdx member)
  case delEvent => exact fun fc member => filled.contexts fc (List.mem_of_mem_eraseIdx member)
  case addEvent w cb b f from' =>
    refine List.forall_mem_append.mpr ⟨filled.contexts, fun fc member => ?_⟩
    rw [List.mem_singleton.mp member]
    cases cb <;> rfl
  all_goals exact filled.contexts

theorem filled_of_reachable (reached : (pool n).ReachableWhen Supplied s) : Filled s := by
  refine reached.invariant ?_ fun _ _ _ filled supplied stepped =>
    filled.next supplied (move_of_next stepped)
  rintro _ rfl
  exact ⟨fun it member => absurd member List.not_mem_nil,
    fun fc member => absurd member List.not_mem_nil⟩

/-- **In every run that schedules no empty task, none is in the queue**: no scan reads a null fiber,
and none comes away with nothing and an entry less. There, a call of `schedule` leaves no empty task
exactly when it is given none, by value or by pointer. -/
theorem no_empty_task (n : Nat) (s : Pool n) (reached : (pool n).ReachableWhen Supplied s) :
    NoEmptyTask s ∧
      (∀ given thread, AllThere (scheduleGiven s.fibers given thread).1 ↔
        given.task.nonEmpty = true) ∧
      ∀ givens, AllThere (scheduleGivens s.fibers givens).1 ↔
        ∀ given ∈ givens, given.task.nonEmpty = true := by
  have filled := filled_of_reachable reached
  refine ⟨filled.noEmptyTask, fun given thread => ?_, fun givens => ?_⟩
  · exact (scheduleGiven_nonEmpty_iff s.fibers given thread).trans (and_iff_right filled.queue)
  · exact (scheduleGivens_nonEmpty_iff s.fibers givens).trans (and_iff_right filled.queue)

/-- A fiber pinned to the worker, and a batch of one callback. -/
theorem no_empty_task_two : ∃ s : Pool 1, (pool 1).ReachableWhen Supplied s ∧
    s.fibers = [⟨.fiber (some 0), 0⟩, ⟨.cb (some 8), -1⟩] ∧ NoEmptyTask s := by
  have run : ∃ s, (pool 1).ReachableWhen Supplied s ∧
      decide (s.fibers = [⟨.fiber (some 0), 0⟩, ⟨.cb (some 8), -1⟩]) = true :=
    Machine.reachableWhen_of_replay rfl
      [.newFiber (some 7), .schedule (.fiber (some 0)) 0, .scheduleBatch [.cb (some 8)]] _
      (by decide +kernel)
  obtain ⟨s, reached, check⟩ := run
  exact ⟨s, reached, of_decide_eq_true check, (no_empty_task 1 s reached).1⟩

/-- **An empty function and a null fiber are scheduled**, and are in the queue; a scan that comes to
the fiber reads the null pointer. -/
theorem empty_task_queued :
    (∃ s : Pool 1, (pool 1).Reachable s ∧ s.fibers = [⟨.cb none, -1⟩, ⟨.fiber none, -1⟩] ∧
      ¬ NoEmptyTask s) ∧
    ∃ s : Pool 1, (pool 1).Reachable s ∧ scan s.state 0 s.fibers = none := by
  constructor
  · have run : ∃ s, (pool 1).Reachable s ∧
        decide (s.fibers = [⟨.cb none, -1⟩, ⟨.fiber none, -1⟩]) = true :=
      Machine.reachable_of_replay rfl [.schedule (.cb none) (-1), .schedule (.fiber none) (-1)] _
        (by decide +kernel)
    obtain ⟨s, reached, check⟩ := run
    have content := of_decide_eq_true check
    refine ⟨s, reached, content, fun noEmpty => ?_⟩
    have there := noEmpty.queue ⟨.cb none, -1⟩ (content ▸ List.mem_cons_self)
    cases there
  · have run : ∃ s, (pool 1).Reachable s ∧
        decide (scan s.state 0 s.fibers = none) = true :=
      Machine.reachable_of_replay rfl [.schedule (.fiber none) (-1)] _ (by decide +kernel)
    obtain ⟨s, reached, check⟩ := run
    exact ⟨s, reached, of_decide_eq_true check⟩

end Sylar.Scheduler
