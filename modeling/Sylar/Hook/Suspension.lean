/-
**One call of `do_io` among everything else that runs.**

The fiber of the call, the timers, the event table, the queue, the context of the descriptor and the
kernel's descriptor: the call arms a timer and registers an event whenever the function it wraps says
`EAGAIN`, and meanwhile other tasks, timer callbacks, idle workers and threads do what they like. Each
piece of code between two suspensions, or a smaller one, is a step.

* `lookup`, `attempt`, `arm`, `register`, `resume` — the call; the control flow is that of `Pc`.
* `runTimeout` — a worker runs the callback of one of its timers.
* `close` — another task closes the descriptor; `reopen` — the kernel gives its number out again.
* `suspension` — the machine. The call does not share the handles of its timers or the closure it
  gives them, and its fiber is scheduled by the event table only.
* `Effect` — what a segment that is not the call's own leaves; `stays_of_next` — it leaves the call
  where it is.
-/

import Sylar.EventTable.Waiters
import Sylar.Hook.DoIo
import Sylar.Timers.Handles

namespace Sylar.Hook

open Sylar.Library
open Sylar.Timers (Address TimerManager)
open Sylar.EventTable (Caller IOManager Operation Scheduled SchedulerId)

/-- A call of a hook on a thread with hooks: the hook, its descriptor, the scheduler and the fiber it
is made on, and the closure it makes for its timers. -/
structure IoCall where
  hook : IoHook
  fd : Nat
  scheduler : SchedulerId
  fiber : FiberId
  onTimeout : Callback
deriving DecidableEq

/-- The task a trigger of its event schedules. -/
def IoCall.task (c : IoCall) : Scheduled := ⟨c.scheduler, .fiber (some c.fiber)⟩

/-- The thread, as `add_event` sees it. -/
def IoCall.caller (c : IoCall) : Caller := ⟨some c.scheduler, c.fiber, .exec⟩

/-- A call and what it can touch. `queue` has the callbacks that `idle()` schedules, `file` is what
the kernel has under the number. Of the call: where it is, `fd_timeout`, `timer`, and
`tinfo->cancelled` while there is a `timer_info`. The last fields record what happened: the timers it
has armed, the clock at the first of them, whether the descriptor was closed during its suspension,
and what it called the function on after that. -/
structure Suspension where
  now : UInt64
  timers : TimerManager
  table : IOManager
  queue : List (Option Callback)
  fdMgr : FdManger
  file : Option Nat
  pc : Pc
  timeout : UInt64
  timer : Option Address
  tinfo : Option (Option Errno)
  armed : List Address
  first : Option UInt64
  closed : Bool
  late : List (Option Nat)

/-- A step. -/
inductive Segment
  /-- `getFdCtx(fd)` and the tests of the context -/
  | lookup
  /-- `fun(fd, ...)` -/
  | attempt (r : IoResult)
  /-- `add_condition_timer`; the object gets the address `a` -/
  | arm (a : Address)
  /-- `add_event`, and `Yield_to_Hold` -/
  | register (fault : Bool)
  /-- the fiber is run again -/
  | resume
  /-- a callback of the call is run -/
  | runTimeout (fault : Bool)
  /-- another callback is run -/
  | runOther (cb : Option Callback)
  /-- `list_expired_cbs` in `idle()`, and `schedule` of what it gives -/
  | expire (probe : Address)
  /-- a call on a timer -/
  | timers (call : Timers.Call)
  /-- an operation on the event table, or a report -/
  | operate (fault : Bool) (operation : Operation)
  /-- another task is run -/
  | serve (task : Scheduled)
  /-- time passes -/
  | tick (now : UInt64)
  /-- `close(fd)` in another task -/
  | close (fault : Bool)
  /-- `socket` or `accept` in another task gets the number -/
  | reopen (connection : Nat)
  /-- the context of the number is written -/
  | setCtx (ctx : FdCtx)
deriving DecidableEq

/-- The call has returned. -/
def Pc.over : Pc → Bool
  | .returned _ => true
  | _ => false

namespace Suspension

variable (c : IoCall) (s : Suspension)

/-! ### The call -/

/-- Go on. A call that returns drops its `timer_info`. -/
def goes (pc : Pc) : Suspension := { s with pc, tinfo := if pc.over then none else s.tinfo }

/-- `if (timer) timer->cancel()`. -/
def cancelTimer : Suspension :=
  match s.timer with
  | some a => { s with timers := (Timers.cancel s.timers a).1 }
  | none => s

/-- The context of the descriptor. -/
def context : Option FdCtx := (s.fdMgr.getFdCtx c.fd false).2.map s.fdMgr.ctx

/-- Up to the loop. -/
def lookup : Option Suspension :=
  match s.pc with
  | .lookup =>
      match Pc.afterContext (s.context c) with
      | .attempt =>
          some { s with
            pc := .attempt
            tinfo := some none
            timeout := ((s.context c).map (·.getTimeout c.hook.timeoutSo)).getD noTimeout }
      | pc => some { s with pc }
  | _ => none

/-- The record of a call of the function. -/
def called : Suspension := { s with late := if s.closed then s.late ++ [s.file] else s.late }

/-- A call of the function; on a number that is not open it fails. -/
def attempt (r : IoResult) : Option Suspension :=
  if s.file = none ∧ r ≠ .error .ebadf then none
  else
    match s.pc with
    | .direct => some (s.called.goes (.returned (.passes r)))
    | .attempt => some (s.called.goes (.afterResult r))
    | _ => none

/-- After `EAGAIN`: the timer. -/
def arm (a : Address) : Option Suspension :=
  match s.pc with
  | .arm =>
      if s.timeout = noTimeout then some { s.goes .register with timer := none }
      else if a ∈ s.timers.created then none
      else
        some { s.goes .register with
          timers := (Timers.addTimer s.timers a s.now s.timeout (some c.onTimeout) false).1
          timer := some a
          armed := a :: s.armed
          first := s.first.or (some s.now) }
  | _ => none

/-- `add_event(fd, (Event) 1)`: an error, or the suspension. -/
def register (fault : Bool) : Option Suspension :=
  match s.pc with
  | .register =>
      match EventTable.ctl s.table fault (.addEvent c.fd .read none c.caller) with
      | none => none
      | some (table, none) => some ({ s with table }.cancelTimer.goes (.afterAdded false))
      | some (table, some progress) =>
          (EventTable.commit table progress).map fun table =>
            { s with table }.goes (.afterAdded true)
  | _ => none

/-- After `Yield_to_Hold`. -/
def resume : Option Suspension :=
  match s.pc with
  | .suspended =>
      if c.task ∈ s.table.scheduled then
        let table := { s.table with scheduled := s.table.scheduled.erase c.task }
        some ({ s with table }.cancelTimer.goes (.afterResumed s.tinfo.join))
      else none
  | _ => none

/-- `Cond_cb` and the closure: with the `timer_info` gone, or `cancelled` set, it does nothing. -/
def runTimeout (fault : Bool) : Option Suspension :=
  if some c.onTimeout ∈ s.queue then
    let s := { s with queue := s.queue.erase (some c.onTimeout) }
    match s.tinfo with
    | some none =>
        (EventTable.perform s.table fault (.cancelEvent c.fd .read)).map fun table =>
          { s with table, tinfo := some (some .etimedout) }
    | some (some _) | none => some s
  else none

/-! ### The others -/

/-- `list_expired_cbs`, and `schedule` of what it gives. -/
def expire (probe : Address) : Option Suspension :=
  if probe ∈ s.timers.created then none
  else
    let expired := Timers.listExpiredCbs s.timers s.now probe
    some { s with timers := expired.1, queue := s.queue ++ expired.2 }

/-- A call on a timer that is not one of the call's. -/
def Others : Timers.Call → Prop
  | .addTimer _ _ _ cb _ => cb ≠ some c.onTimeout
  | .cancel a | .refresh a _ | .reset a _ _ _ => a ∉ s.armed
  | .listExpiredCbs _ _ => False

instance : DecidablePred (s.Others c)
  | .addTimer _ _ _ cb _ => inferInstanceAs (Decidable (cb ≠ some c.onTimeout))
  | .cancel a | .refresh a _ | .reset a _ _ _ => inferInstanceAs (Decidable (a ∉ s.armed))
  | .listExpiredCbs _ _ => isFalse id

/-- `close`: the events are cancelled and the context is dropped, if there is one; the kernel forgets
its interest. -/
def close (fault : Bool) : Option Suspension :=
  let dropped : Option (IOManager × FdManger) :=
    if (s.context c).isSome then
      (EventTable.perform s.table fault (.cancelAll c.fd)).map fun table =>
        (table, s.fdMgr.delFdCtx c.fd)
    else some (s.table, s.fdMgr)
  dropped.map fun (table, fdMgr) =>
    { s with
      table := { table with interest := Function.update table.interest c.fd none }
      fdMgr
      file := none
      closed := s.closed || s.pc == .suspended }

/-- `socket` or `accept` gets the number. -/
def reopen (connection : Nat) : Option Suspension :=
  if s.file = none then
    some { s with file := some connection, fdMgr := (s.fdMgr.getFdCtx c.fd true).1 }
  else none

/-- `FdCtx::init`, `setsockopt`, `fcntl` or `ioctl` writes the context. -/
def setCtx (ctx : FdCtx) : Option Suspension :=
  (s.fdMgr.getFdCtx c.fd false).2.map fun id =>
    { s with fdMgr := { s.fdMgr with ctx := Function.update s.fdMgr.ctx id ctx } }

/-- One step. -/
def next : Segment → Option Suspension
  | .lookup => s.lookup c
  | .attempt r => s.attempt r
  | .arm a => s.arm c a
  | .register fault => s.register c fault
  | .resume => s.resume c
  | .runTimeout fault => s.runTimeout c fault
  | .runOther cb =>
      if cb ∈ s.queue ∧ cb ≠ some c.onTimeout then some { s with queue := s.queue.erase cb } else none
  | .expire probe => s.expire probe
  | .timers call =>
      if s.Others c call then (Timers.step s.timers call).map fun timers => { s with timers }
      else none
  | .operate fault operation =>
      if operation.Spares c.fiber then
        (EventTable.perform s.table fault operation).map fun table => { s with table }
      else none
  | .serve task =>
      if task ∈ s.table.scheduled ∧ task.task ≠ .fiber (some c.fiber) then
        some { s with table := { s.table with scheduled := s.table.scheduled.erase task } }
      else none
  | .tick now => some { s with now }
  | .close fault => s.close c fault
  | .reopen connection => s.reopen c connection
  | .setCtx ctx => s.setCtx c ctx

/-- Before the call, in a program that has just begun. -/
def initial (now : UInt64) (file : Option Nat) : Suspension where
  now
  timers := Timers.empty
  table := .initial
  queue := []
  fdMgr := .empty
  file
  pc := .lookup
  timeout := noTimeout
  timer := none
  tinfo := none
  armed := []
  first := none
  closed := false
  late := []

end Suspension

/-- The runs of a call of a hook among everything else; what there is before the call is made by the
others. -/
def suspension (c : IoCall) : Machine Suspension Segment :=
  ⟨fun s => ∃ now file, s = .initial now file, Suspension.next c⟩

/-- `recv` on a descriptor, on the fiber `7`. -/
def recvCall : IoCall := ⟨.recv, 5, 0, 7, 1⟩

/-- What `FdCtx::init` makes, with a receive timeout. -/
def socketCtx (timeout : UInt64) : FdCtx :=
  { fd := 5, isInit := true, isSocket := true, sysNonblock := true, recvTimeout := timeout }

/-- The call waits for data, for ten milliseconds at most. -/
def waitTen : List Segment :=
  [.reopen 1, .setCtx (socketCtx 10), .lookup, .attempt (.error .eagain), .arm 3, .register false]

/-! ### What each segment does -/

namespace Suspension

variable {c : IoCall} {s s' : Suspension}

/-- Cancelling changes the timers and nothing else. -/
theorem cancelTimer_eq (s : Suspension) :
    s.cancelTimer = { s with timers := s.cancelTimer.timers } := by
  unfold cancelTimer
  split <;> rfl

theorem lookup_cases (stepped : s.lookup c = some s') :
    s.pc = .lookup ∧
      ((Pc.afterContext (s.context c) = .attempt ∧ ∃ timeout,
          s' = { s with pc := .attempt, tinfo := some none, timeout }) ∨
        (Pc.afterContext (s.context c) ≠ .attempt ∧
          s' = { s with pc := Pc.afterContext (s.context c) })) := by
  unfold lookup at stepped
  split at stepped
  next before =>
    refine ⟨before, ?_⟩
    split at stepped
    next goes =>
      cases stepped
      exact Or.inl ⟨goes, _, rfl⟩
    next other =>
      cases stepped
      exact Or.inr ⟨other, rfl⟩
  next => cases stepped

theorem attempt_cases {r : IoResult} (stepped : s.attempt r = some s') :
    (s.pc = .direct ∧ s' = s.called.goes (.returned (.passes r))) ∨
      (s.pc = .attempt ∧ s' = s.called.goes (.afterResult r)) := by
  obtain ⟨-, stepped⟩ := Option.ite_none_left_eq_some.mp stepped
  split at stepped
  next before =>
    cases stepped
    exact Or.inl ⟨before, rfl⟩
  next before =>
    cases stepped
    exact Or.inr ⟨before, rfl⟩
  next => cases stepped

theorem arm_cases {a : Address} (stepped : s.arm c a = some s') :
    s.pc = .arm ∧
      (s' = { s with pc := .register, timer := none } ∨
        (s.timeout ≠ noTimeout ∧ a ∉ s.timers.created ∧
          s' = { s with
            pc := .register
            timers := (Timers.addTimer s.timers a s.now s.timeout (some c.onTimeout) false).1
            timer := some a
            armed := a :: s.armed
            first := s.first.or (some s.now) })) := by
  unfold arm at stepped
  split at stepped
  next before =>
    refine ⟨before, ?_⟩
    split at stepped
    next =>
      cases stepped
      exact Or.inl rfl
    next limited =>
      obtain ⟨fresh, same⟩ := Option.ite_none_left_eq_some.mp stepped
      cases same
      exact Or.inr ⟨limited, fresh, rfl⟩
  next => cases stepped

/-- **The period of a timer** is the timeout, and there is none for `-1`. -/
theorem period_of_arm {a : Address} (stepped : s.arm c a = some s') :
    s'.timer.map (fun a => (s'.timers.timer a).ms) =
      if s.timeout = noTimeout then none else some s.timeout := by
  unfold arm at stepped
  split at stepped
  next =>
    split at stepped
    next none =>
      cases stepped
      rw [if_pos none]
      rfl
    next limited =>
      obtain ⟨-, same⟩ := Option.ite_none_left_eq_some.mp stepped
      cases same
      rw [if_neg limited]
      show some ((Timers.addTimer s.timers a s.now s.timeout _ false).1.timer a).ms = _
      rw [Timers.addTimer, Timers.insertTimer_timer]
      exact congrArg (fun t => some (Timers.Timer.ms t)) (Timers.write_timer_self ..)
  next => cases stepped

theorem register_cases {fault : Bool} (stepped : s.register c fault = some s') :
    s.pc = .register ∧
      ((∃ table, EventTable.ctl s.table fault (.addEvent c.fd .read none c.caller) =
            some (table, none) ∧
          s' = ({ s with table } : Suspension).cancelTimer.goes (.returned (.fails none))) ∨
        ∃ table progress table',
          EventTable.ctl s.table fault (.addEvent c.fd .read none c.caller) =
            some (table, some progress) ∧
          EventTable.commit table progress = some table' ∧
          s' = { s with table := table', pc := .suspended }) := by
  unfold register at stepped
  split at stepped
  next before =>
    refine ⟨before, ?_⟩
    split at stepped
    next => cases stepped
    next table failed =>
      cases stepped
      exact Or.inl ⟨table, failed, rfl⟩
    next table progress called =>
      obtain ⟨table', committed, rfl⟩ := Option.map_eq_some_iff.mp stepped
      exact Or.inr ⟨table, progress, table', called, committed, rfl⟩
  next => cases stepped

theorem resume_cases (stepped : s.resume c = some s') :
    s.pc = .suspended ∧ c.task ∈ s.table.scheduled ∧
      s' = ({ s with
        table := { s.table with scheduled := s.table.scheduled.erase c.task } } :
          Suspension).cancelTimer.goes (.afterResumed s.tinfo.join) := by
  unfold resume at stepped
  split at stepped
  next before =>
    obtain ⟨queued, same⟩ := Option.ite_none_right_eq_some.mp stepped
    cases same
    exact ⟨before, queued, rfl⟩
  next => cases stepped

theorem runTimeout_cases {fault : Bool} (stepped : s.runTimeout c fault = some s') :
    some c.onTimeout ∈ s.queue ∧
      ((s.tinfo = some none ∧ ∃ table,
          EventTable.perform s.table fault (.cancelEvent c.fd .read) = some table ∧
          s' = { s with
            queue := s.queue.erase (some c.onTimeout), table, tinfo := some (some .etimedout) }) ∨
        (s.tinfo ≠ some none ∧ s' = { s with queue := s.queue.erase (some c.onTimeout) })) := by
  obtain ⟨queued, stepped⟩ := Option.ite_none_right_eq_some.mp stepped
  refine ⟨queued, ?_⟩
  dsimp only at stepped
  split at stepped
  next alive =>
    obtain ⟨table, performed, rfl⟩ := Option.map_eq_some_iff.mp stepped
    exact Or.inl ⟨alive, table, performed, rfl⟩
  next set =>
    cases stepped
    exact Or.inr ⟨fun alive => (by cases set.symm.trans alive), rfl⟩
  next gone =>
    cases stepped
    exact Or.inr ⟨fun alive => (by cases gone.symm.trans alive), rfl⟩

theorem close_cases {fault : Bool} (stepped : s.close c fault = some s') :
    ∃ table fdMgr interest,
      (EventTable.perform s.table fault (.cancelAll c.fd) = some table ∨ table = s.table) ∧
        s' = { s with
          table := { table with interest }
          fdMgr
          file := none
          closed := s.closed || s.pc == .suspended } := by
  obtain ⟨⟨table, fdMgr⟩, dropped, rfl⟩ := Option.map_eq_some_iff.mp stepped
  refine ⟨table, fdMgr, _, ?_, rfl⟩
  split at dropped
  · obtain ⟨table', performed, same⟩ := Option.map_eq_some_iff.mp dropped
    cases same
    exact Or.inl performed
  · cases dropped
    exact Or.inr rfl

/-- The segments of the call itself. -/
def own : Segment → Bool
  | .lookup | .attempt _ | .arm _ | .register _ | .resume => true
  | _ => false

/-- **What a segment of the others leaves.** -/
inductive Effect (c : IoCall) (s : Suspension) : Segment → Suspension → Prop
  | timesOut {fault : Bool} {table : IOManager} (queued : some c.onTimeout ∈ s.queue)
      (alive : s.tinfo = some none)
      (performed : EventTable.perform s.table fault (.cancelEvent c.fd .read) = some table) :
      Effect c s (.runTimeout fault)
        { s with queue := s.queue.erase (some c.onTimeout), table, tinfo := some (some .etimedout) }
  | late {fault : Bool} (queued : some c.onTimeout ∈ s.queue) (set : s.tinfo ≠ some none) :
      Effect c s (.runTimeout fault) { s with queue := s.queue.erase (some c.onTimeout) }
  | runs {cb : Option Callback} : Effect c s (.runOther cb) { s with queue := s.queue.erase cb }
  | expires {probe : Address} (fresh : probe ∉ s.timers.created) :
      Effect c s (.expire probe) { s with
        timers := (Timers.listExpiredCbs s.timers s.now probe).1
        queue := s.queue ++ (Timers.listExpiredCbs s.timers s.now probe).2 }
  | timers {call : Timers.Call} {timers : TimerManager} (others : s.Others c call)
      (called : Timers.step s.timers call = some timers) :
      Effect c s (.timers call) { s with timers }
  | operates {fault : Bool} {operation : Operation} {table : IOManager}
      (spares : operation.Spares c.fiber)
      (performed : EventTable.perform s.table fault operation = some table) :
      Effect c s (.operate fault operation) { s with table }
  | serves {task : Scheduled} : Effect c s (.serve task)
      { s with table := { s.table with scheduled := s.table.scheduled.erase task } }
  | ticks {now : UInt64} : Effect c s (.tick now) { s with now }
  | closes {fault : Bool} {table : IOManager} {fdMgr : FdManger} {interest : EventTable.Interest}
      (performed : EventTable.perform s.table fault (.cancelAll c.fd) = some table ∨
        table = s.table) :
      Effect c s (.close fault) { s with
        table := { table with interest }
        fdMgr
        file := none
        closed := s.closed || s.pc == .suspended }
  | reopens {connection : Nat} : Effect c s (.reopen connection)
      { s with file := some connection, fdMgr := (s.fdMgr.getFdCtx c.fd true).1 }
  | writes {ctx : FdCtx} {id : FdCtxId} (found : (s.fdMgr.getFdCtx c.fd false).2 = some id) :
      Effect c s (.setCtx ctx)
        { s with fdMgr := { s.fdMgr with ctx := Function.update s.fdMgr.ctx id ctx } }

theorem effect_of_next {segment : Segment} (other : own segment = false)
    (stepped : s.next c segment = some s') : Effect c s segment s' := by
  cases segment with
  | lookup | attempt r | arm a | register fault | resume => cases other
  | runTimeout fault =>
    obtain ⟨queued, ⟨alive, table, performed, rfl⟩ | ⟨set, rfl⟩⟩ := runTimeout_cases stepped
    · exact .timesOut queued alive performed
    · exact .late queued set
  | runOther cb =>
    obtain ⟨-, same⟩ := Option.ite_none_right_eq_some.mp stepped
    cases same
    exact .runs
  | expire probe =>
    obtain ⟨fresh, same⟩ := Option.ite_none_left_eq_some.mp stepped
    cases same
    exact .expires fresh
  | timers call =>
    obtain ⟨others, stepped⟩ := Option.ite_none_right_eq_some.mp stepped
    obtain ⟨timers, called, rfl⟩ := Option.map_eq_some_iff.mp stepped
    exact .timers others called
  | operate fault operation =>
    obtain ⟨spares, stepped⟩ := Option.ite_none_right_eq_some.mp stepped
    obtain ⟨table, performed, rfl⟩ := Option.map_eq_some_iff.mp stepped
    exact .operates spares performed
  | serve task =>
    obtain ⟨-, same⟩ := Option.ite_none_right_eq_some.mp stepped
    cases same
    exact .serves
  | tick now =>
    cases stepped
    exact .ticks
  | close fault =>
    obtain ⟨table, fdMgr, interest, performed, rfl⟩ := close_cases stepped
    exact .closes performed
  | reopen connection =>
    obtain ⟨-, same⟩ := Option.ite_none_right_eq_some.mp stepped
    cases same
    exact .reopens
  | setCtx ctx =>
    obtain ⟨id, found, rfl⟩ := Option.map_eq_some_iff.mp stepped
    exact .writes found

/-- A segment of the others leaves the call where it is. -/
structure Stays (s s' : Suspension) : Prop where
  pc : s'.pc = s.pc
  timer : s'.timer = s.timer
  armed : s'.armed = s.armed
  first : s'.first = s.first
  timeout : s'.timeout = s.timeout
  late : s'.late = s.late
  closed : s'.closed = true → s.closed = true ∨ s.pc = .suspended
  tinfo : s'.tinfo = s.tinfo ∨ (s.tinfo = some none ∧ s'.tinfo = some (some .etimedout))

/-- **What is not the call's own leaves it where it is.** -/
theorem stays_of_next {segment : Segment} (other : own segment = false)
    (stepped : s.next c segment = some s') : Stays s s' := by
  cases effect_of_next other stepped with
  | timesOut _ alive => exact ⟨rfl, rfl, rfl, rfl, rfl, rfl, Or.inl, Or.inr ⟨alive, rfl⟩⟩
  | late | runs | expires | timers | operates | serves | ticks | reopens | writes =>
    exact ⟨rfl, rfl, rfl, rfl, rfl, rfl, Or.inl, Or.inl rfl⟩
  | closes =>
    exact ⟨rfl, rfl, rfl, rfl, rfl, rfl, fun closed => (Bool.or_eq_true_iff.mp closed).imp id
      beq_iff_eq.mp, Or.inl rfl⟩

/-- The segments of the others on timers, their callbacks and the clock. -/
def timed : Segment → Bool
  | .runTimeout _ | .runOther _ | .expire _ | .timers _ | .tick _ => true
  | _ => false

/-- **What is not about timers either leaves them alone**, with the queue, the clock and the
`timer_info`. -/
theorem untimed_of_next {segment : Segment} (other : own segment = false)
    (plain : timed segment = false) (stepped : s.next c segment = some s') :
    s'.timers = s.timers ∧ s'.queue = s.queue ∧ s'.now = s.now ∧ s'.tinfo = s.tinfo := by
  cases effect_of_next other stepped with
  | timesOut | late | runs | expires | timers | ticks => cases plain
  | operates | serves | closes | reopens | writes => exact ⟨rfl, rfl, rfl, rfl⟩

end Suspension

end Sylar.Hook
