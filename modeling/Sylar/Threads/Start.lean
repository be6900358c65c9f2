/-
**`Scheduler::start` and the threads it makes.**

`start()` holds `m_mutex` while it makes the threads of the pool one after the other. The constructor
of `Thread` waits on `m_semaphore` for the new thread, which writes its id to the object, takes the
callback out of it, notifies, and then calls the callback: `run()`, which asks for `m_mutex` itself.

* `starting` — every interleaving of `start()`, of the new threads and of other threads that take
  `m_mutex`; `pthread_create` may fail.
* `Worker.Law` — what the object and the thread hold, by where `Thread::run` is in its body.
* `Started` — **the invariant**: how far `start()` is, how many threads there are, who is in
  `m_threads`, and who has `m_mutex`.
* `thread_published` — **a thread whose constructor has returned is published**: its object holds its
  id and no callback, the callback is called at most once, and `Thread::run` touches the object no
  more.
* `start_returns` — **`start()` returns**: under `m_mutex` every step of anyone brings its end closer,
  some step is always possible, and in the end `m_thread_ids` names every worker in order.
-/

import Sylar.Library.Machine
import Mathlib.Algebra.BigOperators.Group.Finset.Basic
import Mathlib.Algebra.Order.BigOperators.Group.Finset
import Mathlib.Algebra.Order.Group.Nat
import Mathlib.Algebra.Group.Action.Defs

namespace Sylar.Threads

open Sylar.Library

/-! ### A thread and its object -/

/-- How far `Thread::run` is. -/
inductive Entry
  /-- `pthread_create` has not been called -/
  | unborn
  | begun
  /-- `t_thread` and `t_thread_name` are set -/
  | named
  /-- `m_id` is set -/
  | known
  /-- the callback is swapped out of the object -/
  | taken
  /-- `m_semaphore.notify()` is done -/
  | posted
  /-- in `run()`, without `m_mutex` -/
  | running
  /-- in `run()`, with `m_mutex` -/
  | scanning
deriving DecidableEq

/-- The statements of `Thread::run` that are done. -/
def Entry.rank : Entry → Nat
  | .unborn => 0
  | .begun => 1
  | .named => 2
  | .known => 3
  | .taken => 4
  | .posted => 5
  | .running | .scanning => 6

/-- A `Thread` object and the thread that it stands for. -/
structure Worker where
  entry : Entry := .unborn
  /-- `m_name` -/
  name : String := ""
  /-- `m_id` -/
  id : Nat := 0
  /-- `m_cb` is not empty -/
  cb : Bool := false
  /-- `m_semaphore` -/
  semaphore : Nat := 0
  /-- `t_thread_name` -/
  threadName : String := "UNKNOWN"
  /-- the local `cb` is not empty -/
  localCb : Bool := false
  /-- the constructor has returned, and `m_threads` has the object -/
  inThreads : Bool := false
  /-- how often the callback was called -/
  ran : Nat := 0
  /-- `Thread::run` has touched the object after the constructor returned -/
  late : Bool := false

/-- The thread goes on. -/
def Worker.goto (w : Worker) (entry : Entry) : Worker := { w with entry }

/-- The constructor's `m_semaphore.wait()` is over, and `m_threads` gets the object. -/
def Worker.constructed (w : Worker) : Worker :=
  { w with semaphore := w.semaphore - 1, inThreads := true }

/-- `Thread::run` touches the object. -/
def Worker.touch (w : Worker) (entry : Entry) : Worker :=
  { w.goto entry with late := w.late || w.inThreads }

/-- The next statement of `Thread::run`, up to the call of `run()`; `tid` is `GetThreadId()`. -/
def Worker.advance (w : Worker) (tid : Nat) : Option Worker :=
  match w.entry with
  | .begun => some { w.touch .named with threadName := w.name }
  | .named => some { w.touch .known with id := tid }
  | .known => some { w.touch .taken with localCb := w.cb, cb := false }
  | .taken => some { w.touch .posted with semaphore := w.semaphore + 1 }
  | .posted => if w.localCb then some { w.goto .running with ran := w.ran + 1 } else none
  | .unborn | .running | .scanning => none

/-! ### Starting -/

/-- What `start()` is called with: `m_thread_count`, `m_name`, the ids that the kernel gives, and
`m_thread_ids` before the call. -/
structure Plan where
  threadCount : Nat
  name : String
  tid : Nat → Nat
  threadIds : List Nat

/-- `m_name + "_" + std::to_string(i)`. -/
def Plan.threadName (plan : Plan) (i : Nat) : String := plan.name ++ "_" ++ toString i

/-- Where `start()` is. -/
inductive StartPc
  /-- it has not taken `m_mutex` -/
  | outside
  /-- at the head of the loop -/
  | creating (i : Nat)
  /-- in the constructor of thread `i`, at `m_semaphore.wait()` -/
  | waiting (i : Nat)
  /-- at `m_thread_ids.emplace_back(m_threads[i]->getId())` -/
  | recording (i : Nat)
  | returned
  /-- it found the scheduler started -/
  | skipped
  /-- `pthread_create` failed for thread `i`, and the constructor threw -/
  | thrown (i : Nat)
deriving DecidableEq

/-- Who has `m_mutex`. -/
inductive Holder
  | starter
  | worker (i : Nat)
  | other
deriving DecidableEq

/-- The scheduler and its threads. -/
structure Starting where
  pc : StartPc
  mutex : Option Holder
  stopping : Bool
  threadIds : List Nat
  worker : Nat → Worker

/-- A step: of `start()`, of a new thread, or of another thread that takes `m_mutex`. -/
inductive StartEvent
  | start
  | createFails
  | work (i : Nat)
  | otherLock
  | otherUnlock
deriving DecidableEq

namespace Starting

variable (plan : Plan) (s : Starting)

/-- One thread changes. -/
def setWorker (i : Nat) (w : Worker) : Starting :=
  { s with worker := Function.update s.worker i w }

/-- The next step of `start()`; `none`: it waits. -/
def startStep : Option Starting :=
  match s.pc with
  | .outside =>
      if s.mutex = none then
        if s.stopping then
          some { s with pc := .creating 0, mutex := some .starter, stopping := false }
        else some { s with pc := .skipped }
      else none
  | .creating i =>
      if i < plan.threadCount then
        -- `new Thread(..)` up to the wait
        some { s.setWorker i { entry := .begun, name := plan.threadName i, cb := true } with
          pc := .waiting i }
      else some { s with pc := .returned, mutex := none }
  | .waiting i =>
      if 0 < (s.worker i).semaphore then
        some { s.setWorker i (s.worker i).constructed with pc := .recording i }
      else none
  | .recording i =>
      some { s with pc := .creating (i + 1), threadIds := s.threadIds ++ [(s.worker i).id] }
  | .returned | .skipped | .thrown _ => none

/-- The next step of a thread. -/
def workStep (i : Nat) : Option Starting :=
  match (s.worker i).entry with
  | .running =>
      if s.mutex = none then
        some { s.setWorker i ((s.worker i).goto .scanning) with mutex := some (.worker i) }
      else none
  | .scanning => some { s.setWorker i ((s.worker i).goto .running) with mutex := none }
  | _ => ((s.worker i).advance (plan.tid i)).map (s.setWorker i)

/-- One step. -/
def next : StartEvent → Option Starting
  | .start => s.startStep plan
  | .createFails =>
      match s.pc with
      | .creating i =>
          if i < plan.threadCount then some { s with pc := .thrown i, mutex := none } else none
      | _ => none
  | .work i => s.workStep plan i
  | .otherLock => if s.mutex = none then some { s with mutex := some .other } else none
  | .otherUnlock => if s.mutex = some .other then some { s with mutex := none } else none

end Starting

/-- The runs of one call of `start()`. -/
def starting (plan : Plan) : Machine Starting StartEvent :=
  ⟨fun s => ∃ stopping, s = ⟨.outside, none, stopping, plan.threadIds, fun _ => {}⟩,
    Starting.next plan⟩

/-! ### The invariant -/

namespace StartPc

/-- The threads made so far. -/
def created (n : Nat) : StartPc → Nat
  | .outside | .skipped => 0
  | .creating i | .thrown i => i
  | .waiting i | .recording i => i + 1
  | .returned => n

/-- Those of them whose constructors have returned. -/
def made (n : Nat) : StartPc → Nat
  | .outside | .skipped => 0
  | .creating i | .thrown i | .waiting i => i
  | .recording i => i + 1
  | .returned => n

/-- Those of them whose ids are recorded. -/
def recorded (n : Nat) : StartPc → Nat
  | .outside | .skipped => 0
  | .creating i | .thrown i | .waiting i | .recording i => i
  | .returned => n

/-- `start()` has `m_mutex`. -/
def locked : StartPc → Bool
  | .creating _ | .waiting _ | .recording _ => true
  | _ => false

/-- The loop is where it can be. -/
def inLoop (n : Nat) : StartPc → Prop
  | .creating i => i ≤ n
  | .waiting i | .recording i | .thrown i => i < n
  | _ => True

end StartPc

/-- **What the object and the thread hold**, by where `Thread::run` is. -/
structure Worker.Law (w : Worker) (name : String) (tid : Nat) : Prop where
  named : 1 ≤ w.entry.rank → w.name = name
  cb : w.cb = decide (1 ≤ w.entry.rank ∧ w.entry.rank < 4)
  threadName : 2 ≤ w.entry.rank → w.threadName = name
  id : 3 ≤ w.entry.rank → w.id = tid
  localCb : w.localCb = decide (4 ≤ w.entry.rank)
  semaphore : w.semaphore = if 5 ≤ w.entry.rank ∧ w.inThreads = false then 1 else 0
  ran : w.ran = if 6 ≤ w.entry.rank then 1 else 0
  inThreads : w.inThreads = true → 5 ≤ w.entry.rank
  late : w.late = false

/-- **The invariant.** -/
structure Started (plan : Plan) (s : Starting) : Prop where
  law : ∀ i, (s.worker i).Law (plan.threadName i) (plan.tid i)
  born : ∀ i, 1 ≤ (s.worker i).entry.rank ↔ i < s.pc.created plan.threadCount
  made : ∀ i, (s.worker i).inThreads = true ↔ i < s.pc.made plan.threadCount
  threadIds : s.threadIds =
    plan.threadIds ++ (List.range (s.pc.recorded plan.threadCount)).map plan.tid
  inLoop : s.pc.inLoop plan.threadCount
  starter : s.mutex = some .starter ↔ s.pc.locked = true
  scanner : ∀ i, s.mutex = some (.worker i) ↔ (s.worker i).entry = .scanning

/-! ### What a thread's steps do -/

/-- The statements of `Thread::run` come one after the other, before `run()` only, and keep the law. -/
theorem Worker.Law.advance {w w' : Worker} {name : String} {tid : Nat} (law : w.Law name tid)
    (stepped : w.advance tid = some w') :
    w'.Law name tid ∧ w'.inThreads = w.inThreads ∧ 1 ≤ w.entry.rank ∧
      w'.entry.rank = w.entry.rank + 1 ∧ w.entry ≠ .scanning ∧ w'.entry ≠ .scanning := by
  have early : w.entry.rank < 5 → w.inThreads = false := fun below =>
    Bool.eq_false_iff.mpr fun there => absurd (law.inThreads there) (by omega)
  obtain ⟨named, cb, threadName, id, localCb, semaphore, ran, -, late⟩ := law
  unfold Worker.advance at stepped
  split at stepped
  case h_1 entry | h_2 entry | h_3 entry | h_4 entry =>
    -- the object is touched while its constructor has not returned
    cases stepped
    have outside := early (by simp [entry, Entry.rank])
    simp only [entry, Entry.rank] at named cb threadName id localCb semaphore ran
    refine ⟨⟨?_, ?_, ?_, ?_, ?_, ?_, ?_, ?_, ?_⟩, ?_⟩ <;>
      simp_all [Worker.touch, Worker.goto, Entry.rank]
  case h_5 entry =>
    obtain ⟨there, same⟩ := Option.ite_none_right_eq_some.mp stepped
    cases same
    simp only [entry, Entry.rank] at named cb threadName id localCb semaphore ran
    refine ⟨⟨?_, ?_, ?_, ?_, ?_, ?_, ?_, ?_, ?_⟩, ?_⟩ <;> simp_all [Worker.goto, Entry.rank]
  all_goals cases stepped

/-- In `run()` only the place changes. -/
theorem Worker.Law.inRun {w : Worker} {name : String} {tid : Nat} (law : w.Law name tid)
    {entry : Entry} (here : w.entry.rank = 6) (there : entry.rank = 6) :
    (w.goto entry).Law name tid := by
  obtain ⟨named, cb, threadName, id, localCb, semaphore, ran, inThreads, late⟩ := law
  rw [here] at named cb threadName id localCb semaphore ran inThreads
  refine ⟨?_, ?_, ?_, ?_, ?_, ?_, ?_, ?_, late⟩ <;> rw [show (w.goto entry).entry.rank = 6 from there]
  exacts [named, cb, threadName, id, localCb, semaphore, ran, inThreads]

namespace Started

variable {plan : Plan} {s : Starting}

/-- **One thread changes**: it is enough that the invariant says the right thing of it. -/
theorem put (started : Started plan s) {i : Nat} {w : Worker} {s' : Starting}
    (worker : s'.worker = Function.update s.worker i w)
    (law : w.Law (plan.threadName i) (plan.tid i))
    (born : 1 ≤ w.entry.rank ↔ i < s'.pc.created plan.threadCount)
    (bornOther : ∀ j, j ≠ i →
      (j < s.pc.created plan.threadCount ↔ j < s'.pc.created plan.threadCount))
    (made : w.inThreads = true ↔ i < s'.pc.made plan.threadCount)
    (madeOther : ∀ j, j ≠ i → (j < s.pc.made plan.threadCount ↔ j < s'.pc.made plan.threadCount))
    (threadIds : s'.threadIds =
      plan.threadIds ++ (List.range (s'.pc.recorded plan.threadCount)).map plan.tid)
    (inLoop : s'.pc.inLoop plan.threadCount)
    (starter : s'.mutex = some .starter ↔ s'.pc.locked = true)
    (scanner : s'.mutex = some (.worker i) ↔ w.entry = .scanning)
    (scannerOther : ∀ j, j ≠ i → (s'.mutex = some (.worker j) ↔ s.mutex = some (.worker j))) :
    Started plan s' := by
  refine ⟨fun j => ?_, fun j => ?_, fun j => ?_, threadIds, inLoop, starter, fun j => ?_⟩
  all_goals
    rw [worker]
    rcases eq_or_ne j i with rfl | other
  · rwa [Function.update_self]
  · rw [Function.update_of_ne other]
    exact started.law j
  · rwa [Function.update_self]
  · rw [Function.update_of_ne other]
    exact (started.born j).trans (bornOther j other)
  · rwa [Function.update_self]
  · rw [Function.update_of_ne other]
    exact (started.made j).trans (madeOther j other)
  · rwa [Function.update_self]
  · rw [Function.update_of_ne other]
    exact (scannerOther j other).trans (started.scanner j)

/-- A thread moves, and `start()` does not. -/
theorem work (started : Started plan s) {i : Nat} {s' : Starting}
    (stepped : s.workStep plan i = some s') : Started plan s' := by
  have law := started.law i
  unfold Starting.workStep at stepped
  split at stepped
  next entry =>
    obtain ⟨free, same⟩ := Option.ite_none_right_eq_some.mp stepped
    cases same
    have rank : (s.worker i).entry.rank = 6 := by rw [entry]; rfl
    have unlocked : ¬ s.pc.locked = true := by simp [← started.starter, free]
    refine started.put rfl (law.inRun rank (by rfl)) ?_ (fun _ _ => .rfl) (started.made i)
      (fun _ _ => .rfl) started.threadIds started.inLoop ?_ ?_ fun j other => ?_
    · have inside : 1 ≤ Entry.rank .scanning := by decide
      exact iff_of_true inside ((started.born i).mp (by omega))
    · exact iff_of_false (by simp) unlocked
    · exact iff_of_true rfl rfl
    · simp [free, other.symm]
  next entry =>
    cases stepped
    have rank : (s.worker i).entry.rank = 6 := by rw [entry]; rfl
    have holds := (started.scanner i).mpr entry
    have unlocked : ¬ s.pc.locked = true := by simp [← started.starter, holds]
    refine started.put rfl (law.inRun rank (by rfl)) ?_ (fun _ _ => .rfl) (started.made i)
      (fun _ _ => .rfl) started.threadIds started.inLoop ?_ ?_ fun j other => ?_
    · have inside : 1 ≤ Entry.rank .running := by decide
      exact iff_of_true inside ((started.born i).mp (by omega))
    · exact iff_of_false (by simp) unlocked
    · exact iff_of_false (by simp) (by simp [Worker.goto])
    · simp [holds, other.symm]
  next =>
    obtain ⟨w, advanced, rfl⟩ := Option.map_eq_some_iff.mp stepped
    obtain ⟨kept, inThreads, was, next, before, after⟩ := law.advance advanced
    refine started.put rfl kept ?_ (fun _ _ => .rfl) ?_ (fun _ _ => .rfl) started.threadIds
      started.inLoop started.starter ?_ fun _ _ => .rfl
    · exact iff_of_true (by omega) ((started.born i).mp was)
    · rw [inThreads]
      exact started.made i
    · exact iff_of_false (fun holds => before ((started.scanner i).mp holds)) after

/-- `start()` moves, and no thread does. -/
theorem move (started : Started plan s) {s' : Starting} (worker : s'.worker = s.worker)
    (created : s'.pc.created plan.threadCount = s.pc.created plan.threadCount)
    (made : s'.pc.made plan.threadCount = s.pc.made plan.threadCount)
    (threadIds : s'.threadIds =
      plan.threadIds ++ (List.range (s'.pc.recorded plan.threadCount)).map plan.tid)
    (inLoop : s'.pc.inLoop plan.threadCount)
    (starter : s'.mutex = some .starter ↔ s'.pc.locked = true)
    (scanner : ∀ i, s'.mutex = some (.worker i) ↔ s.mutex = some (.worker i)) : Started plan s' := by
  refine ⟨?_, ?_, ?_, threadIds, inLoop, starter, ?_⟩ <;> rw [worker]
  · exact started.law
  · rw [created]
    exact started.born
  · rw [made]
    exact started.made
  · exact fun i => (scanner i).trans (started.scanner i)

/-- Under `m_mutex` no thread has it. -/
theorem unscanned (started : Started plan s) (locked : s.pc.locked = true) (i : Nat) :
    s.mutex ≠ some (.worker i) := by
  rw [started.starter.mpr locked]
  simp

/-- The thread that `start()` waits for is not in `m_threads` yet. -/
theorem unmade (started : Started plan s) {i : Nat} (pc : s.pc = .waiting i) :
    (s.worker i).inThreads = false := by
  refine Bool.eq_false_iff.mpr fun there => ?_
  rw [started.made i, pc] at there
  exact Nat.lt_irrefl i there

theorem start (started : Started plan s) {s' : Starting} (stepped : s.startStep plan = some s') :
    Started plan s' := by
  have threadIds := started.threadIds
  have inLoop := started.inLoop
  have unscanned := started.unscanned
  unfold Starting.startStep at stepped
  split at stepped
  next pc =>
    obtain ⟨free, stepped⟩ := Option.ite_none_right_eq_some.mp stepped
    rw [pc] at threadIds
    split at stepped
    · cases stepped
      exact started.move rfl (by rw [pc]; rfl) (by rw [pc]; rfl) threadIds (Nat.zero_le _)
        (by simp [StartPc.locked]) (by simp [free])
    · cases stepped
      exact started.move rfl (by rw [pc]; rfl) (by rw [pc]; rfl) threadIds trivial
        (by simp [StartPc.locked, free]) fun _ => .rfl
  next i pc =>
    rw [pc] at threadIds inLoop unscanned
    have holds : s.mutex = some .starter := started.starter.mpr (by rw [pc]; rfl)
    split at stepped
    next more =>
      cases stepped
      refine started.put rfl ?_ ?_ (fun j other => ?_) ?_ (fun j _ => ?_) threadIds more ?_ ?_
        fun j _ => .rfl
      · refine ⟨?_, ?_, ?_, ?_, ?_, ?_, ?_, ?_, ?_⟩ <;> simp [Entry.rank]
      · exact iff_of_true (Nat.le_refl _) (Nat.lt_succ_self i)
      · rw [pc]
        show j < i ↔ j < i + 1
        omega
      · exact iff_of_false (by simp) (Nat.lt_irrefl i)
      · rw [pc]
        rfl
      · exact iff_of_true holds rfl
      · exact iff_of_false (unscanned rfl i) (by simp)
    next last =>
      cases stepped
      have all : i = plan.threadCount := Nat.le_antisymm inLoop (Nat.le_of_not_lt last)
      subst all
      exact started.move rfl (by rw [pc]; rfl) (by rw [pc]; rfl) threadIds trivial
        (by simp [StartPc.locked]) (by simp [holds])
  next i pc =>
    rw [pc] at threadIds inLoop unscanned
    have holds : s.mutex = some .starter := started.starter.mpr (by rw [pc]; rfl)
    obtain ⟨notified, same⟩ := Option.ite_none_right_eq_some.mp stepped
    cases same
    have law := started.law i
    have unmade := started.unmade pc
    -- the semaphore was raised by the thread's notify
    have posted : 5 ≤ (s.worker i).entry.rank := by
      by_contra early
      rw [law.semaphore, if_neg fun both => early both.1] at notified
      exact Nat.lt_irrefl 0 notified
    have once : (s.worker i).semaphore = 1 := by rw [law.semaphore, if_pos ⟨posted, unmade⟩]
    refine started.put rfl ?_ ?_ (fun j _ => ?_) ?_ (fun j other => ?_) threadIds inLoop ?_ ?_
      fun j _ => .rfl
    · exact ⟨law.named, law.cb, law.threadName, law.id, law.localCb,
        by simp [Worker.constructed, once], law.ran, fun _ => posted, law.late⟩
    · exact iff_of_true (Nat.le_trans (by decide) posted) (Nat.lt_succ_self i)
    · rw [pc]
      rfl
    · exact iff_of_true rfl (Nat.lt_succ_self i)
    · rw [pc]
      show j < i ↔ j < i + 1
      omega
    · exact iff_of_true holds rfl
    · refine iff_of_false (unscanned rfl i) fun scanning => unscanned rfl i ?_
      exact (started.scanner i).mpr scanning
  next i pc =>
    rw [pc] at threadIds inLoop unscanned
    have holds : s.mutex = some .starter := started.starter.mpr (by rw [pc]; rfl)
    cases stepped
    have posted : 5 ≤ (s.worker i).entry.rank := by
      refine (started.law i).inThreads ((started.made i).mpr ?_)
      rw [pc]
      exact Nat.lt_succ_self i
    have id : (s.worker i).id = plan.tid i := (started.law i).id (by omega)
    refine started.move rfl (by rw [pc]; rfl) (by rw [pc]; rfl) ?_ (Nat.succ_le_of_lt inLoop)
      (iff_of_true holds rfl) fun _ => .rfl
    show s.threadIds ++ [(s.worker i).id] = _ ++ (List.range (i + 1)).map plan.tid
    rw [threadIds, id, List.range_succ, List.map_append, List.append_assoc]
    rfl
  all_goals cases stepped

/-- **Every step keeps the invariant.** -/
theorem step (started : Started plan s) {e : StartEvent} {s' : Starting}
    (stepped : s.next plan e = some s') : Started plan s' := by
  cases e with
  | start => exact started.start stepped
  | work i => exact started.work stepped
  | createFails =>
    simp only [Starting.next] at stepped
    split at stepped
    next i pc =>
      obtain ⟨more, same⟩ := Option.ite_none_right_eq_some.mp stepped
      cases same
      have threadIds := started.threadIds
      rw [pc] at threadIds
      have holds : s.mutex = some .starter := started.starter.mpr (by rw [pc]; rfl)
      exact started.move rfl (by rw [pc]; rfl) (by rw [pc]; rfl) threadIds more
        (by simp [StartPc.locked]) (by simp [holds])
    next => cases stepped
  | otherLock =>
    obtain ⟨free, same⟩ := Option.ite_none_right_eq_some.mp stepped
    cases same
    have unlocked : ¬ s.pc.locked = true := by simp [← started.starter, free]
    exact started.move rfl rfl rfl started.threadIds started.inLoop
      (iff_of_false (by simp) unlocked) (by simp [free])
  | otherUnlock =>
    obtain ⟨holds, same⟩ := Option.ite_none_right_eq_some.mp stepped
    cases same
    have unlocked : ¬ s.pc.locked = true := by simp [← started.starter, holds]
    exact started.move rfl rfl rfl started.threadIds started.inLoop
      (iff_of_false (by simp) unlocked) (by simp [holds])

theorem reachable (reached : (starting plan).Reachable s) : Started plan s := by
  refine reached.invariant ?_ fun _ _ _ started _ stepped => started.step stepped
  rintro _ ⟨stopping, rfl⟩
  refine ⟨fun i => ?_, fun i => ?_, fun i => ?_, by simp [StartPc.recorded], trivial, ?_, fun i => ?_⟩
  · refine ⟨?_, ?_, ?_, ?_, ?_, ?_, ?_, ?_, ?_⟩ <;> simp [Entry.rank]
  all_goals simp [Entry.rank, StartPc.created, StartPc.made, StartPc.locked]

end Started

/-! ### How far the end is -/

/-- The steps of `start()` to its end, under `m_mutex`. -/
def StartPc.left (n : Nat) : StartPc → Nat
  | .creating i => 3 * (n - i) + 1
  | .waiting i => 3 * (n - i)
  | .recording i => 3 * (n - i) - 1
  | _ => 0

/-- With those of the threads, to where they wait for `m_mutex`. -/
def Starting.left (plan : Plan) (s : Starting) : Nat :=
  s.pc.left plan.threadCount + ∑ i ∈ Finset.range plan.threadCount, (6 - (s.worker i).entry.rank)

theorem Starting.left_le (plan : Plan) (s : Starting) : s.left plan ≤ 9 * plan.threadCount + 1 := by
  have own : s.pc.left plan.threadCount ≤ 3 * plan.threadCount + 1 := by
    cases s.pc <;> simp only [StartPc.left] <;> omega
  have threads : ∑ i ∈ Finset.range plan.threadCount, (6 - (s.worker i).entry.rank) ≤
      ∑ _i ∈ Finset.range plan.threadCount, 6 :=
    Finset.sum_le_sum fun i _ => Nat.sub_le _ _
  rw [Finset.sum_const, Finset.card_range, smul_eq_mul] at threads
  unfold Starting.left
  omega

namespace Started

variable {plan : Plan} {s : Starting}

/-- A thread that has been made is one of the pool. -/
theorem lt_of_born (started : Started plan s) {i : Nat} (born : 1 ≤ (s.worker i).entry.rank) :
    i < plan.threadCount := by
  have below := (started.born i).mp born
  have inLoop := started.inLoop
  cases pc : s.pc <;> simp only [pc, StartPc.created, StartPc.inLoop] at below inLoop <;> omega

/-- **Under `m_mutex` every step brings the end closer.** -/
theorem left_lt (started : Started plan s) (locked : s.pc.locked = true) {e : StartEvent}
    {s' : Starting} (stepped : s.next plan e = some s') : s'.left plan < s.left plan := by
  have holds : s.mutex = some .starter := started.starter.mpr locked
  have inLoop := started.inLoop
  have same : ∀ w : Nat → Worker, (∀ i, (s.worker i).entry.rank ≤ (w i).entry.rank) →
      ∑ i ∈ Finset.range plan.threadCount, (6 - (w i).entry.rank) ≤
        ∑ i ∈ Finset.range plan.threadCount, (6 - (s.worker i).entry.rank) :=
    fun w later => Finset.sum_le_sum fun i _ => Nat.sub_le_sub_left (later i) 6
  have changed : ∀ i w, (s.worker i).entry.rank ≤ w.entry.rank → ∀ j,
      (s.worker j).entry.rank ≤ (Function.update s.worker i w j).entry.rank := by
    intro i w later j
    rcases eq_or_ne j i with rfl | other
    · rwa [Function.update_self]
    · rw [Function.update_of_ne other]
  cases e with
  | start =>
    simp only [Starting.next, Starting.startStep] at stepped
    split at stepped
    next pc => simp [pc, StartPc.locked] at locked
    next i pc =>
      split at stepped
      next more =>
        cases stepped
        have unborn : (s.worker i).entry.rank ≤ 1 := by
          by_contra born
          have below := (started.born i).mp (by omega)
          rw [pc] at below
          exact Nat.lt_irrefl i below
        have sums := same _ (changed i { entry := .begun, name := plan.threadName i, cb := true } unborn)
        simp only [Starting.left, Starting.setWorker, pc, StartPc.left]
        omega
      next last =>
        cases stepped
        simp only [Starting.left, pc, StartPc.left]
        omega
    next i pc =>
      obtain ⟨-, stays⟩ := Option.ite_none_right_eq_some.mp stepped
      cases stays
      have sums := same _ (changed i (s.worker i).constructed (Nat.le_refl _))
      rw [pc] at inLoop
      simp only [Starting.left, Starting.setWorker, pc, StartPc.left, StartPc.inLoop] at inLoop ⊢
      omega
    next i pc =>
      cases stepped
      rw [pc] at inLoop
      simp only [Starting.left, pc, StartPc.left, StartPc.inLoop] at inLoop ⊢
      omega
    all_goals cases stepped
  | createFails =>
    simp only [Starting.next] at stepped
    split at stepped
    next i pc =>
      obtain ⟨more, stays⟩ := Option.ite_none_right_eq_some.mp stepped
      cases stays
      simp only [Starting.left, pc, StartPc.left]
      omega
    next => cases stepped
  | work i =>
    simp only [Starting.next, Starting.workStep] at stepped
    split at stepped
    next =>
      obtain ⟨free, -⟩ := Option.ite_none_right_eq_some.mp stepped
      rw [holds] at free
      cases free
    next entry => exact absurd ((started.scanner i).mpr entry) (started.unscanned locked i)
    next =>
      obtain ⟨w, advanced, rfl⟩ := Option.map_eq_some_iff.mp stepped
      obtain ⟨kept, -, was, next, -⟩ := (started.law i).advance advanced
      have bound : w.entry.rank ≤ 6 := by cases w.entry <;> decide
      refine Nat.add_lt_add_left (Finset.sum_lt_sum (fun j _ => ?_) ?_) _
      · exact Nat.sub_le_sub_left (changed i w (by omega) j) 6
      · refine ⟨i, Finset.mem_range.mpr (started.lt_of_born was), ?_⟩
        show 6 - (Function.update s.worker i w i).entry.rank < _
        rw [Function.update_self]
        omega
  | otherLock =>
    obtain ⟨free, -⟩ := Option.ite_none_right_eq_some.mp stepped
    rw [holds] at free
    cases free
  | otherUnlock =>
    obtain ⟨other, -⟩ := Option.ite_none_right_eq_some.mp stepped
    rw [holds] at other
    cases other

/-- **`start()` waits for nobody who waits for it.** -/
theorem progress (started : Started plan s) (locked : s.pc.locked = true) :
    ∃ e s', e ≠ .createFails ∧ s.next plan e = some s' := by
  cases pc : s.pc with
  | outside | returned | skipped | thrown => simp [pc, StartPc.locked] at locked
  | creating i =>
    by_cases more : i < plan.threadCount
    · exact ⟨.start, _, by decide, by simp only [Starting.next, Starting.startStep, pc, if_pos more]; rfl⟩
    · exact ⟨.start, _, by decide, by simp only [Starting.next, Starting.startStep, pc, if_neg more]; rfl⟩
  | recording i => exact ⟨.start, _, by decide, by simp only [Starting.next, Starting.startStep, pc]; rfl⟩
  | waiting i =>
    have law := started.law i
    have born : 1 ≤ (s.worker i).entry.rank := (started.born i).mpr (by rw [pc]; exact Nat.lt_succ_self i)
    have unmade := started.unmade pc
    by_cases posted : 5 ≤ (s.worker i).entry.rank
    · have notified : 0 < (s.worker i).semaphore := by
        rw [law.semaphore, if_pos ⟨posted, unmade⟩]
        exact Nat.one_pos
      exact ⟨.start, _, by decide, by
        simp only [Starting.next, Starting.startStep, pc, if_pos notified]; rfl⟩
    · -- the thread has not notified yet, and nothing keeps it from it
      have moves : ∃ w, (s.worker i).advance (plan.tid i) = some w := by
        unfold Worker.advance
        cases entry : (s.worker i).entry <;> simp [entry, Entry.rank] at born posted ⊢
      obtain ⟨w, advanced⟩ := moves
      refine ⟨.work i, s.setWorker i w, by simp, ?_⟩
      simp only [Starting.next, Starting.workStep]
      cases entry : (s.worker i).entry <;> simp [entry, Entry.rank, advanced] at posted ⊢

end Started

/-! ### The results -/

/-- **A thread whose constructor has returned is published.** -/
theorem thread_published (plan : Plan) (s : Starting) (reached : (starting plan).Reachable s)
    (i : Nat) (made : (s.worker i).inThreads = true) :
    i < plan.threadCount ∧ (s.worker i).id = plan.tid i ∧ (s.worker i).cb = false ∧
      (s.worker i).threadName = plan.threadName i ∧ (s.worker i).ran ≤ 1 ∧
      (s.worker i).late = false := by
  have started := Started.reachable reached
  have law := started.law i
  have posted := law.inThreads made
  refine ⟨started.lt_of_born (by omega), law.id (by omega), ?_, law.threadName (by omega), ?_, law.late⟩
  · rw [law.cb, decide_eq_false_iff_not]
    omega
  · rw [law.ran]
    split <;> omega

/-- One thread, whose constructor has returned and which has called its callback. -/
theorem thread_published_one :
    ∃ s, (starting ⟨1, "io", fun i => i + 100, [7]⟩).Reachable s ∧ (s.worker 0).ran = 1 ∧
      (s.worker 0).id = 100 ∧ (s.worker 0).late = false := by
  obtain ⟨s, reached, check⟩ := Machine.reachable_of_replay
    (m := starting ⟨1, "io", fun i => i + 100, [7]⟩) ⟨true, rfl⟩
    [.otherLock, .otherUnlock, .start, .start, .work 0, .work 0, .work 0, .work 0, .work 0, .start]
    (fun s => decide ((s.worker 0).inThreads = true ∧ (s.worker 0).ran = 1)) (by decide +kernel)
  obtain ⟨made, ran⟩ := of_decide_eq_true check
  obtain ⟨-, id, -, -, -, late⟩ := thread_published _ s reached 0 made
  exact ⟨s, reached, ran, id, late⟩

/-- **`start()` returns.** Under `m_mutex` some step is possible, not counting a failure of
`pthread_create`, and there are at most `9 * m_thread_count + 1` steps of anyone to the end; then
`m_thread_ids` names every worker, in order, and all of them are in `m_threads`. -/
theorem start_returns (plan : Plan) (s : Starting) (reached : (starting plan).Reachable s) :
    (s.pc.locked = true →
      (∃ e s', e ≠ .createFails ∧ (starting plan).step s e = some s') ∧
      s.left plan ≤ 9 * plan.threadCount + 1 ∧
      ∀ e s', (starting plan).step s e = some s' → s'.left plan < s.left plan) ∧
    (s.pc = .returned →
      s.threadIds = plan.threadIds ++ (List.range plan.threadCount).map plan.tid ∧
      ∀ i < plan.threadCount, (s.worker i).inThreads = true) := by
  have started := Started.reachable reached
  refine ⟨fun locked => ⟨started.progress locked, s.left_le plan, fun e s' stepped =>
    started.left_lt locked stepped⟩, fun returned => ⟨?_, fun i below => ?_⟩⟩
  · have threadIds := started.threadIds
    rwa [returned] at threadIds
  · rw [started.made i, returned]
    exact below

/-- Two threads, the second of which is made while the first waits for `m_mutex`. -/
theorem start_returns_two :
    ∃ s, (starting ⟨2, "io", fun i => i + 100, [7]⟩).Reachable s ∧ s.threadIds = [7, 100, 101] := by
  obtain ⟨s, reached, check⟩ := Machine.reachable_of_replay
    (m := starting ⟨2, "io", fun i => i + 100, [7]⟩) ⟨true, rfl⟩
    [.start, .start, .work 0, .work 0, .work 0, .work 0, .start, .start, .work 0, .start, .work 1,
      .work 1, .work 1, .work 1, .start, .start, .start]
    (fun s => decide (s.pc = .returned)) (by decide +kernel)
  exact ⟨s, reached, ((start_returns _ s reached).2 (of_decide_eq_true check)).1⟩

end Sylar.Threads
