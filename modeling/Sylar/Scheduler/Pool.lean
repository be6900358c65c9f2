/-
**The pool: `Scheduler::run()` on any number of workers, and the idle loop of `IOManager`.**

A worker's program counter says which step it makes next. A step is one access to shared state: the
scan under `m_mutex`, one read or write of a counter or of a fiber's `m_state`, one switch of
contexts, one system call.

* `Pc.top` — before the scan; `Pc.dispatch` — after it, with what it took.
* `Pc.task` — running a fiber, in either branch of `run()`; `Stage` says how far.
* `Pc.idle` — in the idle fiber; `IdleStage` says how far.
* `Pc.tickling` — in `tickle()`, and then on.

`work` is the step of a worker whose next step is determined; the other events are what a task, the
kernel or another thread does. What only the properties speak of is ghost state: `pops`, `started`,
`readied`, `staleSwitch`, `overwritten`, `unsound`.

An armed timer is a unit of `timers`: which one it is matters to nothing here.
-/

import Sylar.Library.Machine
import Sylar.Scheduler.Queue
import Mathlib.Logic.Function.Basic
import Mathlib.Data.Fintype.Basic

namespace Sylar.Scheduler

open Sylar.Library

/-- The branch of `run()` that runs a fiber: a queued fiber, or `cb_fiber`. -/
inductive Branch
  | fiber
  | callback
deriving DecidableEq

/-- How far a worker is in running a fiber. -/
inductive Stage
  /-- before `++m_active_thread_count` -/
  | chosen
  /-- before `swapIn` writes `EXEC` -/
  | counted
  /-- before the switch of contexts in `swapIn` -/
  | entered
  /-- the fiber runs -/
  | executing
  /-- the fiber has written its state, before `swapOut` saves its context -/
  | leaving
  /-- `swapIn` has returned, before `--m_active_thread_count` -/
  | back
  /-- before `run()` reads the state -/
  | uncounted
  /-- the state read was `READY`, before `schedule(fiber)` -/
  | rescheduling
  /-- another state was read, before `setState(HOLD)` -/
  | holding
  /-- `TERM` or `EXCPT` was read in the callback branch, before `reset(nullptr)` -/
  | finished
deriving DecidableEq

/-- How far a worker is in the idle fiber. -/
inductive IdleStage
  /-- before `get_next_timeout` in `stopping()` -/
  | timeout
  /-- no timer was read, before `m_pending_event_count` is read -/
  | pending
  /-- zero was read, before `Scheduler::stopping()` -/
  | last
  /-- before `epoll_wait` -/
  | wait
  /-- in `epoll_wait` -/
  | blocked
  /-- before `list_expired_cbs` -/
  | woken
  /-- with `cbs`, and timers to arm again, before `schedule(cbs)` -/
  | listed (cbs : List (Option Callback)) (later : Nat)
  /-- in the loop over the reports -/
  | reports
  /-- after `triggerEvent`, before `--m_pending_event_count` -/
  | triggered
  /-- out of the idle fiber, before `--m_idle_thread_count` -/
  | left
deriving DecidableEq

/-- Where a worker is. -/
inductive Pc
  | top
  | tickling (write : Bool) (after : Pc)
  | dispatch (ft : FiberOrCb)
  | task (stage : Stage) (branch : Branch) (f : FiberId)
  | idle (stage : IdleStage)
  | exited
deriving DecidableEq

/-- `if (need_tickle) tickle();`, and then on. -/
def Pc.tickleIf (needTickle : Bool) (after : Pc) : Pc :=
  if needTickle then .tickling false after else after

/-- A fiber: `m_state`, `m_cb`, whether its context is new, or at the end of `MainFunc`; and in the
ghost state how often it left its context, up to which time the context is saved, and which popped
callback it was loaded with. -/
structure Fiber where
  state : State := .init
  cb : Option Callback := none
  fresh : Bool := true
  atEnd : Bool := false
  leaves : Nat := 0
  saved : Nat := 0
  pop : Option Nat := none
deriving DecidableEq

/-- A scheduler with `n` workers. -/
structure Pool (n : Nat) where
  pc : Fin n → Pc
  cbFiber : Fin n → Option FiberId
  idleTerm : Fin n → Bool
  fiber : FiberId → Fiber
  nextFiber : Nat
  fibers : List FiberAndThread
  activeThreadCount : Nat
  idleThreadCount : Nat
  tickleBytes : Nat
  toTest : Nat
  toWrite : Nat
  otherToTest : Nat
  otherToWrite : Nat
  timers : Nat
  pendingEventCount : Nat
  contexts : List FiberOrCb
  stopping : Bool
  autoStop : Bool
  pops : Nat
  started : List Nat
  readied : Fin n → Bool
  staleSwitch : Bool
  overwritten : Bool
  unsound : Bool

variable {n : Nat}

/-- The id of a worker's thread. -/
def threadId (w : Fin n) : Int := w.val

/-- A new scheduler, started. -/
def Pool.initial (n : Nat) : Pool n where
  pc _ := .top
  cbFiber _ := none
  idleTerm _ := false
  fiber _ := {}
  nextFiber := 0
  fibers := []
  activeThreadCount := 0
  idleThreadCount := 0
  tickleBytes := 0
  toTest := 0
  toWrite := 0
  otherToTest := 0
  otherToWrite := 0
  timers := 0
  pendingEventCount := 0
  contexts := []
  stopping := false
  autoStop := true
  pops := 0
  started := []
  readied _ := false
  staleSwitch := false
  overwritten := false
  unsound := false

/-- `Scheduler::stopping()`. -/
def schedulerStopping (autoStop stopping : Bool) (fibers : List FiberAndThread)
    (activeThreadCount : Nat) : Bool :=
  autoStop && stopping && fibers.isEmpty && activeThreadCount == 0

namespace Pool

variable (s : Pool n)

/-- Move a worker. -/
def goto (w : Fin n) (pc : Pc) : Pool n := { s with pc := Function.update s.pc w pc }

/-- Write a fiber. -/
def setFiber (f : FiberId) (fiber : Fiber) : Pool n :=
  { s with fiber := Function.update s.fiber f fiber }

/-- The state of a fiber. -/
def state (f : FiberId) : State := (s.fiber f).state

/-- A popped task that the worker has not finished: it is to be run or running, or `READY` and not
yet back in the queue. -/
def holds : Pc → Prop
  | .tickling _ after => holds after
  | .dispatch (.fiber (some f)) => s.state f ≠ .term
  | .dispatch (.cb (some _)) => True
  | .task stage _ f =>
      match stage with
      | .chosen | .counted | .entered | .executing | .rescheduling => True
      | .leaving | .back | .uncounted => s.state f = .ready
      | .holding | .finished => False
  | _ => False

instance decidableHolds : (pc : Pc) → Decidable (s.holds pc)
  | .tickling _ after => decidableHolds after
  | .dispatch (.fiber (some f)) => inferInstanceAs (Decidable (s.state f ≠ .term))
  | .dispatch (.cb (some _)) => isTrue trivial
  | .task .chosen _ _ | .task .counted _ _ | .task .entered _ _ | .task .executing _ _
  | .task .rescheduling _ _ => isTrue trivial
  | .task .leaving _ f | .task .back _ f | .task .uncounted _ f =>
      inferInstanceAs (Decidable (s.state f = .ready))
  | .task .holding _ _ | .task .finished _ _ => isFalse id
  | .dispatch (.fiber none) | .dispatch (.cb none) | .top | .idle _ | .exited => isFalse id

/-- What a scheduler that is stopping should be: no timer, no event, no task. -/
def quiescent : Prop :=
  s.timers = 0 ∧ s.pendingEventCount = 0 ∧ s.fibers = [] ∧ ∀ w, ¬ s.holds (s.pc w)

instance : Decidable s.quiescent := inferInstanceAs (Decidable (_ ∧ _ ∧ _ ∧ _))

/-- `Fiber::reset`; `none` is its failed assertion. -/
def resetFiber (f : FiberId) (cb : Option Callback) (pop : Option Nat) : Option (Pool n) :=
  match s.state f with
  | .init | .term | .excpt => some (s.setFiber f { cb, pop })
  | _ => none

/-- `new Fiber(cb)`. -/
def newFiber (cb : Option Callback) (pop : Option Nat) : Pool n :=
  { s.setFiber s.nextFiber { cb, pop } with nextFiber := s.nextFiber + 1 }

/-! ### The steps of a worker -/

/-- The scan, under the lock. -/
def scanStep (w : Fin n) : Option (Pool n) :=
  (scan s.state (threadId w) s.fibers).map fun r =>
    { s.goto w (.tickleIf r.2.2 (.dispatch r.1)) with fibers := r.2.1 }

/-- `tickle()`: the test, then the write. -/
def tickleStep (w : Fin n) (write : Bool) (after : Pc) : Pool n :=
  if write then { s.goto w after with tickleBytes := s.tickleBytes + 1 }
  else s.goto w (if s.idleThreadCount > 0 then .tickling true after else after)

/-- `run()` decides what to do with what it took. -/
def dispatchStep (w : Fin n) : FiberOrCb → Option (Pool n)
  | .fiber (some f) =>
      some (s.goto w (if s.state f = .term then .top else .task .chosen .fiber f))
  | .cb (some c) =>
      -- `cb_fiber` takes the callback
      match s.cbFiber w with
      | some f =>
          (s.resetFiber f (some c) (some s.pops)).map fun s' =>
            { s'.goto w (.task .chosen .callback f) with
              pops := s.pops + 1, readied := Function.update s.readied w false }
      | none =>
          some { (s.newFiber (some c) (some s.pops)).goto w (.task .chosen .callback s.nextFiber) with
            cbFiber := Function.update s.cbFiber w (some s.nextFiber)
            pops := s.pops + 1, readied := Function.update s.readied w false }
  | .fiber none | .cb none =>
      if s.idleTerm w then some (s.goto w .exited)
      else some { s.goto w (.idle .timeout) with idleThreadCount := s.idleThreadCount + 1 }

/-- `run()` and `swapIn` around a fiber. -/
def taskStep (w : Fin n) (branch : Branch) (f : FiberId) : Stage → Option (Pool n)
  | .chosen =>
      some { s.goto w (.task .counted branch f) with activeThreadCount := s.activeThreadCount + 1 }
  | .counted =>
      if s.state f = .exec then none
      else some ((s.setFiber f { s.fiber f with state := .exec }).goto w (.task .entered branch f))
  | .entered =>
      let fiber := s.fiber f
      -- past its last `swapOut`, `MainFunc` only fails its assertion
      if fiber.atEnd then none
      else some { (s.setFiber f { fiber with fresh := false }).goto w (.task .executing branch f) with
        started := if fiber.fresh then fiber.pop.toList ++ s.started else s.started
        staleSwitch := s.staleSwitch || decide (fiber.saved ≠ fiber.leaves) }
  | .executing => none
  | .leaving =>
      let fiber := s.fiber f
      some ((s.setFiber f { fiber with saved := fiber.leaves }).goto w (.task .back branch f))
  | .back =>
      some { s.goto w (.task .uncounted branch f) with
        activeThreadCount := s.activeThreadCount - 1 }
  | .uncounted =>
      some (s.goto w
        (match s.state f, branch with
          | .ready, _ => .task .rescheduling branch f
          | .term, .fiber | .excpt, .fiber => .top
          | .term, .callback | .excpt, .callback => .task .finished branch f
          | _, _ => .task .holding branch f))
  | .rescheduling =>
      let scheduled := scheduleNoLock s.fibers (.fiber (some f)) (-1)
      some { s.goto w (.tickleIf scheduled.2 .top) with
        fibers := scheduled.1
        readied := if branch = .callback then Function.update s.readied w true else s.readied }
  | .holding =>
      some { (s.setFiber f { s.fiber f with state := .hold }).goto w .top with
        cbFiber := if branch = .callback then Function.update s.cbFiber w none else s.cbFiber
        overwritten := s.overwritten || decide (s.state f = .term) }
  | .finished => (s.resetFiber f none none).map fun s' => s'.goto w .top

/-- `IOManager::idle()`, where the next step is determined. -/
def idleStep (w : Fin n) : IdleStage → Option (Pool n)
  | .timeout => some (s.goto w (.idle (if s.timers = 0 then .pending else .wait)))
  | .pending => some (s.goto w (.idle (if s.pendingEventCount = 0 then .last else .wait)))
  | .last =>
      if schedulerStopping s.autoStop s.stopping s.fibers s.activeThreadCount then
        -- `stopping()` returns true: the idle fiber ends
        some { s.goto w (.idle .left) with
          idleTerm := Function.update s.idleTerm w true
          unsound := s.unsound || decide (¬ s.quiescent) }
      else some (s.goto w (.idle .wait))
  | .wait => some (s.goto w (.idle .blocked))
  | .listed cbs 0 =>
      let scheduled := scheduleAll s.fibers (cbs.map .cb)
      some { s.goto w (.tickleIf scheduled.2 (.idle .reports)) with fibers := scheduled.1 }
  | .triggered =>
      some { s.goto w (.idle .reports) with pendingEventCount := s.pendingEventCount - 1 }
  | .left => some { s.goto w .top with idleThreadCount := s.idleThreadCount - 1 }
  | .blocked | .woken | .reports | .listed _ (_ + 1) => none

/-- The next step of a worker, where it is determined. -/
def work (w : Fin n) : Option (Pool n) :=
  match s.pc w with
  | .top => s.scanStep w
  | .tickling write after => some (s.tickleStep w write after)
  | .dispatch ft => s.dispatchStep w ft
  | .task stage branch f => s.taskStep w branch f stage
  | .idle stage => s.idleStep w stage
  | .exited => none

end Pool

/-! ### Runs -/

/-- A step: of a worker, of the task a worker runs, of the kernel, or of another thread. -/
inductive Event (n : Nat)
  /-- the next step of a worker -/
  | work (w : Fin n)
  /-- the running fiber writes its state, to leave its context -/
  | leave (w : Fin n) (outcome : State)
  /-- `epoll_wait` returns: a report, or the timeout -/
  | wake (w : Fin n)
  /-- the write section of `list_expired_cbs`: what it hands out, how many timers (at most one) it
  arms again in there, how many after it -/
  | expire (w : Fin n) (cbs : List (Option Callback)) (kept later : Nat) (front : Bool)
  /-- `list_expired_cbs` arms a timer again after its write section -/
  | rearm (w : Fin n) (front : Bool)
  /-- the report of the tickle pipe -/
  | drain (w : Fin n)
  /-- the report of an event -/
  | trigger (w : Fin n) (i : Nat)
  /-- the idle fiber swaps out -/
  | swapOut (w : Fin n)
  /-- the running task adds a timer; `front`: it is the first, and `add_timer` tickles -/
  | addTimer (w : Fin n) (front : Bool)
  /-- the running task cancels a timer -/
  | cancelTimer (w : Fin n)
  /-- the running task calls `add_event` -/
  | addEvent (w : Fin n) (cb : Option Callback)
  /-- the running task calls `del_event` -/
  | delEvent (w : Fin n) (i : Nat)
  /-- `schedule(fc, thread)` by any thread -/
  | schedule (fc : FiberOrCb) (thread : Int)
  /-- `schedule(begin, end)` by any thread -/
  | scheduleBatch (fcs : List FiberOrCb)
  /-- `tickle()` of such a `schedule`: the test of `m_idle_thread_count` -/
  | testTickle
  /-- `tickle()` of such a `schedule`: the write to the pipe -/
  | writeTickle
  /-- the test, where `add_timer` or `stop()` tickles -/
  | testOther
  /-- the write, where `add_timer` or `stop()` tickles -/
  | writeOther
  /-- a fiber is made -/
  | newFiber (cb : Option Callback)
  /-- `stop()` sets `m_stopping` and tickles -/
  | stop
deriving DecidableEq

namespace Pool

variable (s : Pool n)

/-- A fiber that is passed around exists. -/
def known : FiberOrCb → Bool
  | .fiber (some f) => f < s.nextFiber
  | _ => true

/-- The running fiber writes its state. A fiber whose `m_cb` is empty ends with an exception, and one
that returns has emptied it. -/
def leave (w : Fin n) (outcome : State) : Option (Pool n) :=
  match s.pc w, outcome with
  | .task .executing branch f, .hold | .task .executing branch f, .ready
  | .task .executing branch f, .term | .task .executing branch f, .excpt =>
      let fiber := s.fiber f
      if fiber.cb = none ∧ outcome ≠ .excpt then none
      else
        some ((s.setFiber f { fiber with
          state := outcome
          cb := if outcome = .term then none else fiber.cb
          atEnd := outcome = .term || outcome = .excpt
          leaves := fiber.leaves + 1 }).goto w (.task .leaving branch f))
  | _, _ => none

/-- One step. -/
def next : Event n → Option (Pool n)
  | .work w => s.work w
  | .leave w outcome => s.leave w outcome
  | .wake w =>
      match s.pc w with
      | .idle .blocked => some (s.goto w (.idle .woken))
      | _ => none
  | .expire w cbs kept later front =>
      match s.pc w with
      | .idle .woken =>
          if cbs.length ≤ s.timers ∧ kept + later ≤ cbs.length ∧ kept ≤ 1 ∧ (kept = 0 → later = 0) then
            some { s.goto w (.tickleIf front (.idle (.listed cbs later))) with
              timers := s.timers - cbs.length + kept }
          else none
      | _ => none
  | .rearm w front =>
      match s.pc w with
      | .idle (.listed cbs (later + 1)) =>
          some { s.goto w (.tickleIf front (.idle (.listed cbs later))) with
            timers := s.timers + 1 }
      | _ => none
  | .drain w =>
      match s.pc w with
      | .idle .reports => some { s with tickleBytes := 0 }
      | _ => none
  | .trigger w i =>
      match s.pc w, s.contexts[i]? with
      | .idle .reports, some fc =>
          let scheduled := scheduleNoLock s.fibers fc (-1)
          some { s.goto w (.tickleIf scheduled.2 (.idle .triggered)) with
            fibers := scheduled.1
            contexts := s.contexts.eraseIdx i }
      | _, _ => none
  | .swapOut w =>
      match s.pc w with
      | .idle .reports => some (s.goto w (.idle .left))
      | _ => none
  | .addTimer w front =>
      match s.pc w with
      | .task .executing _ _ =>
          some { s with timers := s.timers + 1, otherToTest := s.otherToTest + front.toNat }
      | _ => none
  | .cancelTimer w =>
      match s.pc w with
      | .task .executing _ _ => some { s with timers := s.timers - 1 }
      | _ => none
  | .addEvent w cb =>
      match s.pc w with
      | .task .executing _ f =>
          some { s with
            pendingEventCount := s.pendingEventCount + 1
            contexts := s.contexts ++ [match cb with | some c => .cb (some c) | none => .fiber (some f)] }
      | _ => none
  | .delEvent w i =>
      match s.pc w, s.contexts[i]? with
      | .task .executing _ _, some _ =>
          some { s with
            pendingEventCount := s.pendingEventCount - 1
            contexts := s.contexts.eraseIdx i }
      | _, _ => none
  | .schedule fc thread =>
      if s.known fc then
        let scheduled := scheduleNoLock s.fibers fc thread
        some { s with fibers := scheduled.1, toTest := s.toTest + scheduled.2.toNat }
      else none
  | .scheduleBatch fcs =>
      if fcs.all s.known then
        let scheduled := scheduleAll s.fibers fcs
        some { s with fibers := scheduled.1, toTest := s.toTest + scheduled.2.toNat }
      else none
  | .testTickle =>
      match s.toTest with
      | 0 => none
      | rest + 1 =>
          some { s with
            toTest := rest
            toWrite := if s.idleThreadCount > 0 then s.toWrite + 1 else s.toWrite }
  | .writeTickle =>
      match s.toWrite with
      | 0 => none
      | rest + 1 => some { s with toWrite := rest, tickleBytes := s.tickleBytes + 1 }
  | .testOther =>
      match s.otherToTest with
      | 0 => none
      | rest + 1 =>
          some { s with
            otherToTest := rest
            otherToWrite := if s.idleThreadCount > 0 then s.otherToWrite + 1 else s.otherToWrite }
  | .writeOther =>
      match s.otherToWrite with
      | 0 => none
      | rest + 1 => some { s with otherToWrite := rest, tickleBytes := s.tickleBytes + 1 }
  | .newFiber cb => some (s.newFiber cb none)
  | .stop => some { s with stopping := true, otherToTest := s.otherToTest + n }

end Pool

/-- The runs of a pool of `n` workers. -/
def pool (n : Nat) : Machine (Pool n) (Event n) := ⟨fun s => s = Pool.initial n, Pool.next⟩

end Sylar.Scheduler
