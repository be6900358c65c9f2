/-
**`connect_with_timeout`, among everything else that runs.**

The call asks the kernel to connect; when that is in progress it arms a timer, registers `WRITE` and
suspends itself. It ends with `getsockopt(SO_ERROR)`, which it comes to in two ways: after the
suspension, and when `add_event` fails. A connection that is in progress has no error to read.

What runs besides is as for a call of `do_io`: `Connecting.around` is that machine's state, of which
the call itself has the timer and its `timer_info`.

* `connection` — the machine; `woken` records what put the fiber back into the queue.
* `Sound` — **the condition**: `add_event` succeeds, and the fiber is run again after a report or its
  timeout, not after a cancellation alone.
* `connect_honest` — **in runs that keep to it, `0` means connected**.
* `sockError_zero` — otherwise it is returned whenever `SO_ERROR` reads `0`.
* `unregistered_connected`, `cancelled_connected` — **so both ways give success while the connection
  is in progress**.
-/

import Sylar.Hook.Descriptors
import Sylar.Hook.Readiness

namespace Sylar.Hook

open Sylar.Library
open Sylar.Timers (Address)
open Sylar.EventTable (Caller IOManager Operation Reports Scheduled SchedulerId Traced)

/-- `EINPROGRESS`. -/
def einprogress : Errno := .other 115

/-- A call of `connect_with_timeout` on a thread with hooks, and the closure it makes for its
timer. -/
structure ConnectCall where
  fd : Nat
  timeoutMs : UInt64
  scheduler : SchedulerId
  fiber : FiberId
  onTimeout : Callback
deriving DecidableEq

/-- What the others see of it. -/
def ConnectCall.io (c : ConnectCall) : IoCall :=
  ⟨.write, c.fd, c.scheduler, c.fiber, c.onTimeout⟩

/-- What `getsockopt(SO_ERROR)` gives: `-1`, or the error of the socket, if there is one. -/
inductive SoError
  | fails (e : Errno)
  | reads (error : Option Errno)
deriving DecidableEq

/-- Where a call is. -/
inductive ConnectPc
  /-- before `getFdCtx` -/
  | lookup
  /-- before `return connect_f(...)` -/
  | direct
  /-- before `connect_f` -/
  | connect
  /-- after `EINPROGRESS`, before the timer -/
  | arm
  /-- before `add_event` -/
  | register
  /-- in `Yield_to_Hold` -/
  | suspended
  /-- before `getsockopt` -/
  | sockError
  /-- `0`, or `-1` with `errno` -/
  | returned (r : Option Errno)
deriving DecidableEq

/-- After `getFdCtx`. -/
def ConnectPc.afterContext (ctx : Option FdCtx) : ConnectPc :=
  match connectPath ctx with
  | .ebadf => .returned (some .ebadf)
  | .direct => .direct
  | .waits => .connect

/-- What the others see of it. -/
def ConnectPc.io : ConnectPc → Pc
  | .lookup => .lookup
  | .direct => .direct
  | .connect | .sockError => .attempt
  | .arm => .arm
  | .register => .register
  | .suspended => .suspended
  | .returned _ => .returned (.fails none)

/-- A step. -/
inductive ConnectSegment
  /-- `getFdCtx(fd)` and the tests of the context -/
  | lookup
  /-- `connect_f`: `0`, or `-1` with `errno` -/
  | connect (r : Option Errno)
  /-- `add_condition_timer`; the object gets the address `a` -/
  | arm (a : Address)
  /-- `add_event`, and `Yield_to_Hold` -/
  | register (fault : Bool)
  /-- the fiber is run again -/
  | resume
  /-- `getsockopt(fd, SOL_SOCKET, SO_ERROR, ...)` -/
  | sockError (r : SoError)
  /-- the callback of the call's timer is run -/
  | runTimeout (fault : Bool)
  /-- a step of the others -/
  | others (segment : Segment)
  /-- a connection is established, or given up -/
  | settle (connection : Nat)
deriving DecidableEq

/-- A call and what it can touch. `inProgress` is the kernel's. The last fields record what happened:
whether `connect_f` gave `0`, what put the fiber into the queue, and what `SO_ERROR` was. -/
structure Connecting where
  around : Suspension
  pc : ConnectPc
  inProgress : Nat → Bool
  connected : Bool
  woken : Option ConnectSegment
  soError : Option SoError

namespace Connecting

variable (c : ConnectCall) (s : Connecting)

/-! ### The call -/

/-- Go on. A call that returns drops its `timer_info`. -/
def goes (pc : ConnectPc) : Connecting := { s with pc, around := s.around.goes pc.io }

/-- Up to `connect_f`. -/
def lookup : Option Connecting :=
  match s.pc with
  | .lookup => some (s.goes (.afterContext (s.around.context c.io)))
  | _ => none

/-- `connect_f` gives `0`, or a connection is in progress. -/
def connects (r : Option Errno) : Connecting :=
  { s with
    connected := s.connected || r == none
    inProgress :=
      match s.around.file with
      | some connection => Function.update s.inProgress connection (r == some einprogress)
      | none => s.inProgress }

/-- A call of `connect_f`; on a number that is not open it fails. -/
def connect (r : Option Errno) : Option Connecting :=
  if s.around.file = none ∧ r ≠ some .ebadf then none
  else
    match s.pc with
    | .direct => some ((s.connects r).goes (.returned r))
    | .connect =>
        some ((s.connects r).goes (if r = some einprogress then .arm else .returned r))
    | _ => none

/-- The timer, if there is a timeout. -/
def arm (a : Address) : Option Connecting :=
  match s.pc with
  | .arm =>
      ({ s.around with timeout := c.timeoutMs, tinfo := some none }.arm c.io a).map fun around =>
        { s with pc := .register, around }
  | _ => none

/-- `add_event(fd, WRITE)`: the suspension, or on to `getsockopt`. -/
def register (fault : Bool) : Option Connecting :=
  match s.pc with
  | .register =>
      match EventTable.ctl s.around.table fault (.addEvent c.fd .write none c.io.caller) with
      | none => none
      | some (table, none) =>
          some ({ s with around := { s.around with table }.cancelTimer }.goes .sockError)
      | some (table, some progress) =>
          (EventTable.commit table progress).map fun table =>
            { s with around := { s.around with table } }.goes .suspended
  | _ => none

/-- After `Yield_to_Hold`. -/
def resume : Option Connecting :=
  match s.pc with
  | .suspended =>
      if c.io.task ∈ s.around.table.scheduled then
        let table :=
          { s.around.table with scheduled := s.around.table.scheduled.erase c.io.task }
        let s := { s with around := { s.around with table }.cancelTimer }
        match s.around.tinfo.join with
        | some e => some (s.goes (.returned (some e)))
        | none => some (s.goes .sockError)
      else none
  | _ => none

/-- What `getsockopt(SO_ERROR)` can give: there is no error while the connection is in progress. -/
def Gives (r : SoError) : Prop :=
  (s.around.file = none → r = .fails .ebadf) ∧
    ∀ connection ∈ s.around.file, s.inProgress connection = true → r = .reads none

instance (r : SoError) : Decidable (s.Gives r) := inferInstanceAs (Decidable (_ ∧ _))

/-- `getsockopt`, and the return. -/
def sockError (r : SoError) : Option Connecting :=
  match s.pc with
  | .sockError =>
      if s.Gives r then
        let s := { s with soError := some r }
        match r with
        | .fails e => some (s.goes (.returned (some e)))
        | .reads error => some (s.goes (.returned error))
      else none
  | _ => none

/-- `Cond_cb` and the closure: with the `timer_info` gone, or `cancelled` set, it does nothing. -/
def runTimeout (fault : Bool) : Option Connecting :=
  if s.around.queue.contains (some c.onTimeout) then
    let around := { s.around with queue := s.around.queue.erase (some c.onTimeout) }
    match around.tinfo with
    | some none =>
        (EventTable.perform around.table fault (.cancelEvent c.fd .write)).map fun table =>
          { s with around := { around with table, tinfo := some (some .etimedout) } }
    | some (some _) | none => some { s with around }
  else none

/-! ### The others -/

/-- A step of the others: not one of a call of `do_io`, whose callbacks are the call's here. -/
def Foreign : Segment → Bool
  | .runTimeout _ => false
  | segment => !Suspension.own segment

/-- One step. -/
def step : ConnectSegment → Option Connecting
  | .lookup => s.lookup c
  | .connect r => s.connect r
  | .arm a => s.arm c a
  | .register fault => s.register c fault
  | .resume => s.resume c
  | .sockError r => s.sockError r
  | .runTimeout fault => s.runTimeout c fault
  | .others segment =>
      if Foreign segment then
        (s.around.next c.io segment).map fun around => { s with around }
      else none
  | .settle connection =>
      some { s with inProgress := Function.update s.inProgress connection false }

/-- The record of what puts the fiber into the queue. -/
def next (segment : ConnectSegment) : Option Connecting :=
  (s.step c segment).map fun s' =>
    if c.io.task ∉ s.around.table.scheduled ∧ c.io.task ∈ s'.around.table.scheduled then
      { s' with woken := some segment }
    else s'

/-- Before the call, in a program that has just begun. -/
def initial (now : UInt64) (file : Option Nat) : Connecting :=
  ⟨.initial now file, .lookup, fun _ => false, false, none, none⟩

end Connecting

/-- The runs of a call of `connect_with_timeout` among everything else. -/
def connection (c : ConnectCall) : Machine Connecting ConnectSegment :=
  ⟨fun s => ∃ now file, s = .initial now file, Connecting.next c⟩

/-! ### What should hold -/

namespace ConnectSegment

/-- A report that the descriptor can be written, or of an error. -/
def writable (c : ConnectCall) : ConnectSegment → Bool
  | .others (.operate _ (.report fd events)) => fd = c.fd ∧ Reports events .write
  | _ => false

/-- A cancellation by the others. -/
def cancels : ConnectSegment → Bool
  | .others (.close _) | .others (.operate _ (.cancelEvent ..))
  | .others (.operate _ (.cancelAll _)) => true
  | _ => false

end ConnectSegment

/-- **Success means connected**, and no timer of the call is left: when the call returns `0`, then
`connect_f` did, or a report that the descriptor can be written woke it and `SO_ERROR` was `0`. -/
structure HonestConnect (c : ConnectCall) (s : Connecting) : Prop where
  success : s.pc = .returned none → s.connected = true ∨
    (∃ segment ∈ s.woken, segment.writable c = true) ∧ s.soError = some (.reads none)
  timers : ∀ r, s.pc = .returned r → ∀ a ∈ s.around.armed, a ∉ s.around.timers.timers

/-- **The condition**: `add_event` does not fail, and the fiber is not run again after a cancellation
by the others, unless it has timed out. -/
def Sound (c : ConnectCall) (s : Connecting) : ConnectSegment → Prop
  | .register fault =>
      (EventTable.ctl s.around.table fault (.addEvent c.fd .write none c.io.caller)).all
        (·.2.isSome) = true
  | .resume => s.around.tinfo.join = none → s.woken.any ConnectSegment.cancels = false
  | _ => True

instance Sound.decide (c : ConnectCall) (s : Connecting) :
    (segment : ConnectSegment) → Decidable (Sound c s segment)
  | .register _ => inferInstanceAs (Decidable (Option.all _ _ = true))
  | .resume =>
      inferInstanceAs (Decidable (s.around.tinfo.join = none → Option.any _ s.woken = false))
  | .lookup | .connect _ | .arm _ | .sockError _ | .runTimeout _ | .others _ | .settle _ =>
      isTrue trivial

/-! ### What each segment does -/

namespace Connecting

variable {c : ConnectCall} {s s' : Connecting}

theorem afterContext_cases (ctx : Option FdCtx) :
    ConnectPc.afterContext ctx = .returned (some .ebadf) ∨ ConnectPc.afterContext ctx = .direct ∨
      ConnectPc.afterContext ctx = .connect := by
  unfold ConnectPc.afterContext
  cases connectPath ctx with
  | ebadf => exact .inl rfl
  | direct => exact .inr (.inl rfl)
  | waits => exact .inr (.inr rfl)

theorem lookup_cases (stepped : s.lookup c = some s') :
    s.pc = .lookup ∧ s' = s.goes (.afterContext (s.around.context c.io)) := by
  unfold lookup at stepped
  split at stepped
  next before => exact ⟨before, (Option.some.inj stepped).symm⟩
  next => cases stepped

theorem connect_cases {r : Option Errno} (stepped : s.connect r = some s') :
    (s.pc = .direct ∧ s' = (s.connects r).goes (.returned r)) ∨
      (s.pc = .connect ∧
        s' = (s.connects r).goes (if r = some einprogress then .arm else .returned r)) := by
  obtain ⟨-, stepped⟩ := Option.ite_none_left_eq_some.mp stepped
  split at stepped
  next before => exact .inl ⟨before, (Option.some.inj stepped).symm⟩
  next before => exact .inr ⟨before, (Option.some.inj stepped).symm⟩
  next => cases stepped

theorem arm_cases {a : Address} (stepped : s.arm c a = some s') :
    s.pc = .arm ∧ ∃ around,
      Suspension.next c.io { s.around with timeout := c.timeoutMs, tinfo := some none } (.arm a) =
        some around ∧ s' = { s with pc := .register, around } := by
  unfold arm at stepped
  split at stepped
  next before =>
    obtain ⟨around, armed, rfl⟩ := Option.map_eq_some_iff.mp stepped
    exact ⟨before, around, armed, rfl⟩
  next => cases stepped

theorem register_cases {fault : Bool} (stepped : s.register c fault = some s') :
    s.pc = .register ∧
      ((∃ table, EventTable.ctl s.around.table fault (.addEvent c.fd .write none c.io.caller) =
            some (table, none) ∧
          s' = ({ s with around := { s.around with table }.cancelTimer } : Connecting).goes
            .sockError) ∨
        ∃ table progress table',
          EventTable.ctl s.around.table fault (.addEvent c.fd .write none c.io.caller) =
            some (table, some progress) ∧
          EventTable.commit table progress = some table' ∧
          s' = ({ s with around := { s.around with table := table' } } : Connecting).goes
            .suspended) := by
  unfold register at stepped
  split at stepped
  next before =>
    refine ⟨before, ?_⟩
    split at stepped
    next => cases stepped
    next table failed => exact .inl ⟨table, failed, (Option.some.inj stepped).symm⟩
    next table progress called =>
      obtain ⟨table', committed, rfl⟩ := Option.map_eq_some_iff.mp stepped
      exact .inr ⟨table, progress, table', called, committed, rfl⟩
  next => cases stepped

/-- The fiber is taken from the queue, and the timer cancelled. -/
def back (c : ConnectCall) (s : Connecting) : Connecting :=
  { s with
    around := { s.around with
      table := { s.around.table with
        scheduled := s.around.table.scheduled.erase c.io.task } }.cancelTimer }

theorem resume_cases (stepped : s.resume c = some s') :
    s.pc = .suspended ∧ c.io.task ∈ s.around.table.scheduled ∧
      ((∃ e, s.around.tinfo.join = some e ∧ s' = (s.back c).goes (.returned (some e))) ∨
        s.around.tinfo.join = none ∧ s' = (s.back c).goes .sockError) := by
  unfold resume at stepped
  split at stepped
  next before =>
    obtain ⟨queued, stepped⟩ := Option.ite_none_right_eq_some.mp stepped
    refine ⟨before, queued, ?_⟩
    have kept : (s.back c).around.tinfo = s.around.tinfo := by
      unfold back
      rw [Suspension.cancelTimer_eq]
    rw [← kept]
    dsimp only at stepped
    split at stepped
    next e set => exact .inl ⟨e, set, (Option.some.inj stepped).symm⟩
    next unset => exact .inr ⟨unset, (Option.some.inj stepped).symm⟩
  next => cases stepped

theorem sockError_cases {r : SoError} (stepped : s.sockError r = some s') :
    s.pc = .sockError ∧ s.Gives r ∧
      ((∃ e, r = .fails e ∧
          s' = ({ s with soError := some r } : Connecting).goes (.returned (some e))) ∨
        ∃ error, r = .reads error ∧
          s' = ({ s with soError := some r } : Connecting).goes (.returned error)) := by
  unfold sockError at stepped
  split at stepped
  next before =>
    obtain ⟨given, stepped⟩ := Option.ite_none_right_eq_some.mp stepped
    refine ⟨before, given, ?_⟩
    cases r with
    | fails e => exact .inl ⟨e, rfl, (Option.some.inj stepped).symm⟩
    | reads error => exact .inr ⟨error, rfl, (Option.some.inj stepped).symm⟩
  next => cases stepped

theorem runTimeout_cases {fault : Bool} (stepped : s.runTimeout c fault = some s') :
    (s.around.tinfo = some none ∧ ∃ table,
        EventTable.perform s.around.table fault (.cancelEvent c.fd .write) = some table ∧
        s' = { s with around := { s.around with
          queue := s.around.queue.erase (some c.onTimeout)
          table
          tinfo := some (some .etimedout) } }) ∨
      s' = { s with around :=
        { s.around with queue := s.around.queue.erase (some c.onTimeout) } } := by
  obtain ⟨-, stepped⟩ := Option.ite_none_right_eq_some.mp stepped
  dsimp only at stepped
  split at stepped
  next alive =>
    obtain ⟨table, performed, rfl⟩ := Option.map_eq_some_iff.mp stepped
    exact .inl ⟨alive, table, performed, rfl⟩
  next => exact .inr (Option.some.inj stepped).symm
  next => exact .inr (Option.some.inj stepped).symm

theorem others_cases {segment : Segment} (stepped : s.step c (.others segment) = some s') :
    Suspension.own segment = false ∧ (∀ fault, segment ≠ .runTimeout fault) ∧
      ∃ around, s.around.next c.io segment = some around ∧ s' = { s with around } := by
  obtain ⟨foreign, stepped⟩ := Option.ite_none_right_eq_some.mp stepped
  obtain ⟨around, ran, rfl⟩ := Option.map_eq_some_iff.mp stepped
  refine ⟨?_, ?_, around, ran, rfl⟩
  · cases segment <;> first | rfl | cases foreign
  · rintro fault rfl
    cases foreign

end Connecting

/-! ### The timer and the registration -/

variable {c : ConnectCall} {s s' : Connecting}

/-- **What holds of every call**, whatever woke it. -/
structure Tracked (c : ConnectCall) (s : Connecting) : Prop where
  seen : s.around.pc = s.pc.io
  rounds : Rounds c.io s.around
  traced : Traced s.around.table c.fiber c.fd .write s.pc.io.registrations

namespace Tracked

/-- A fiber that is neither in the table nor in the queue. -/
theorem not_scheduled (tracked : Tracked c s) (awake : s.pc.io.registrations = 0) :
    c.io.task ∉ s.around.table.scheduled := by
  intro member
  have count := tracked.traced.count
  rw [awake] at count
  have none : s.around.table.wakes c.fiber = 0 := by omega
  exact absurd (beq_self_eq_true _) (List.countP_eq_zero.mp none c.io.task member)

/-- Between its rounds the call has no timer in the set. -/
theorem out (tracked : Tracked c s) {pc : ConnectPc} (before : s.pc = pc)
    (between : pc.io ≠ .register ∧ pc.io ≠ .suspended) :
    ∀ a ∈ s.around.armed, a ∉ s.around.timers.timers := by
  refine tracked.rounds.out ?_
  rw [tracked.seen, before]
  exact between

/-- A step of a call that is awake. -/
theorem awake (tracked : Tracked c s) {pc : ConnectPc} (before : s.pc = pc)
    (between : pc.io ≠ .register ∧ pc.io ≠ .suspended)
    (timers : s'.around.timers = s.around.timers) (armed : s'.around.armed = s.around.armed)
    (table : s'.around.table = s.around.table) (seen : s'.around.pc = s'.pc.io)
    (none : pc.io.registrations = 0 ∧ s'.pc.io.registrations = 0) : Tracked c s' := by
  refine ⟨seen, tracked.rounds.of_out timers armed (tracked.out before between), ?_⟩
  have traced := tracked.traced
  rw [before, none.1] at traced
  rw [table, none.2]
  exact traced

/-- The suspension ends, or there is none: the timer is cancelled, and the call goes on. -/
theorem cancelTimer (tracked : Tracked c s) {table : IOManager}
    (traced : Traced table c.fiber c.fd .write 0) {pc : ConnectPc}
    (none : pc.io.registrations = 0) :
    Tracked c
      (({ s with around := { s.around with table }.cancelTimer } : Connecting).goes pc) := by
  have moved : Rounds c.io { s.around with table } :=
    ⟨tracked.rounds.placed, tracked.rounds.made, tracked.rounds.ours, tracked.rounds.live⟩
  refine ⟨rfl, moved.cancelTimer.1.of_out rfl rfl moved.cancelTimer.2, ?_⟩
  show Traced (Suspension.cancelTimer _).table c.fiber c.fd .write pc.io.registrations
  rw [Suspension.cancelTimer_eq, none]
  exact traced

/-- A step of the others. -/
theorem others (tracked : Tracked c s) {segment : Segment}
    (stepped : s.step c (.others segment) = some s') : Tracked c s' := by
  obtain ⟨other, -, around, ran, rfl⟩ := Connecting.others_cases stepped
  refine ⟨(Suspension.stays_of_next other ran).pc.trans tracked.seen, tracked.rounds.next ran, ?_⟩
  exact Suspension.traced_of_next (c := c.io) tracked.traced other ran

/-- **The step lemma.** -/
theorem step (tracked : Tracked c s) {segment : ConnectSegment}
    (stepped : s.step c segment = some s') : Tracked c s' := by
  cases segment with
  | lookup =>
    obtain ⟨before, rfl⟩ := Connecting.lookup_cases stepped
    refine tracked.awake before ⟨nofun, nofun⟩ rfl rfl rfl rfl ⟨rfl, ?_⟩
    show (ConnectPc.afterContext _).io.registrations = 0
    rcases Connecting.afterContext_cases (s.around.context c.io) with same | same | same <;>
      rw [same] <;> rfl
  | connect r =>
    rcases Connecting.connect_cases stepped with ⟨before, rfl⟩ | ⟨before, rfl⟩
    · exact tracked.awake before ⟨nofun, nofun⟩ rfl rfl rfl rfl ⟨rfl, rfl⟩
    · refine tracked.awake before ⟨nofun, nofun⟩ rfl rfl rfl rfl ⟨rfl, ?_⟩
      show (ConnectPc.io (if r = some einprogress then .arm else .returned r)).registrations = 0
      split <;> rfl
  | arm a =>
    obtain ⟨before, around, armed, rfl⟩ := Connecting.arm_cases stepped
    have rounds : Rounds c.io { s.around with timeout := c.timeoutMs, tinfo := some none } :=
      ⟨tracked.rounds.placed, tracked.rounds.made, tracked.rounds.ours, tracked.rounds.live⟩
    have traced := tracked.traced
    rw [before] at traced
    refine ⟨?_, rounds.next armed, ?_⟩
    · obtain ⟨-, rfl | ⟨-, -, rfl⟩⟩ := Suspension.arm_cases armed <;> rfl
    · obtain ⟨-, rfl | ⟨-, -, rfl⟩⟩ := Suspension.arm_cases armed <;> exact traced
  | register fault =>
    obtain ⟨before, ⟨table, called, rfl⟩ | ⟨table, progress, table', called, committed, rfl⟩⟩ :=
      Connecting.register_cases stepped
    · have traced := tracked.traced
      rw [before] at traced
      exact tracked.cancelTimer (traced.ctl called).1 rfl
    · have traced := tracked.traced
      rw [before] at traced
      refine ⟨rfl, ⟨tracked.rounds.placed, tracked.rounds.made, tracked.rounds.ours,
        fun a member inside => ?_⟩, traced.register (Option.some_ne_none _) called committed⟩
      obtain ⟨same, armed, -⟩ := tracked.rounds.live a member inside
      exact ⟨same, armed, .inr rfl⟩
  | resume =>
    obtain ⟨before, queued, ⟨e, -, rfl⟩ | ⟨-, rfl⟩⟩ := Connecting.resume_cases stepped
    · have traced := tracked.traced
      rw [before] at traced
      exact tracked.cancelTimer (traced.resume queued rfl) rfl
    · have traced := tracked.traced
      rw [before] at traced
      exact tracked.cancelTimer (traced.resume queued rfl) rfl
  | sockError r =>
    obtain ⟨before, -, ⟨e, -, rfl⟩ | ⟨error, -, rfl⟩⟩ := Connecting.sockError_cases stepped
    · exact tracked.awake before ⟨nofun, nofun⟩ rfl rfl rfl rfl ⟨rfl, rfl⟩
    · exact tracked.awake before ⟨nofun, nofun⟩ rfl rfl rfl rfl ⟨rfl, rfl⟩
  | runTimeout fault =>
    rcases Connecting.runTimeout_cases stepped with ⟨-, table, performed, rfl⟩ | rfl
    · refine ⟨tracked.seen, ⟨tracked.rounds.placed, tracked.rounds.made, tracked.rounds.ours,
        tracked.rounds.live⟩, tracked.traced.perform ?_ performed⟩
      trivial
    · exact ⟨tracked.seen, ⟨tracked.rounds.placed, tracked.rounds.made, tracked.rounds.ours,
        tracked.rounds.live⟩, tracked.traced⟩
  | others segment => exact tracked.others stepped
  | settle connection =>
    cases stepped
    exact ⟨tracked.seen, tracked.rounds, tracked.traced⟩

theorem initial (c : ConnectCall) (now : UInt64) (file : Option Nat) :
    Tracked c (.initial now file) :=
  ⟨rfl, rounds_initial c.io now file, EventTable.traced_initial c.fiber c.fd .write⟩

/-- It does not depend on what is recorded. -/
theorem next (tracked : Tracked c s) {segment : ConnectSegment}
    (stepped : s.next c segment = some s') : Tracked c s' := by
  obtain ⟨s₁, ran, rfl⟩ := Option.map_eq_some_iff.mp stepped
  have after := tracked.step ran
  split
  · exact ⟨after.seen, after.rounds, after.traced⟩
  · exact after

end Tracked

/-! ### What wakes the fiber -/

/-- A report, a cancellation by the others, or the timeout. -/
def ConnectSegment.Wakes (c : ConnectCall) (s : Connecting) (segment : ConnectSegment) : Prop :=
  segment.writable c = true ∨ segment.cancels = true ∨ s.around.tinfo.join ≠ none

/-- **A fiber that is in the queue was put there by one of them.** -/
def Explained (c : ConnectCall) (s : Connecting) : Prop :=
  s.pc = .suspended → c.io.task ∈ s.around.table.scheduled →
    ∃ segment ∈ s.woken, segment.Wakes c s

/-- A `timer_info` that says cancelled goes on to say so. -/
theorem join_of_stays {s s' : Suspension} (stays : Suspension.Stays s s')
    (set : s.tinfo.join ≠ none) : s'.tinfo.join ≠ none := by
  rcases stays.tinfo with same | ⟨unset, -⟩
  · rwa [same]
  · rw [unset] at set
    exact absurd rfl set

/-- A call with its fiber in the queue is suspended. -/
theorem Tracked.suspended (tracked : Tracked c s)
    (queued : c.io.task ∈ s.around.table.scheduled) : s.pc = .suspended := by
  cases pc : s.pc with
  | suspended => rfl
  | lookup | direct | connect | arm | register | sockError | returned =>
    exact absurd queued (tracked.not_scheduled (by rw [pc]; rfl))

/-- **What a step can put into the queue.** -/
theorem wakes_of_step (tracked : Tracked c s) {segment : ConnectSegment}
    (stepped : s.step c segment = some s') (suspended : s'.pc = .suspended)
    (before : c.io.task ∉ s.around.table.scheduled)
    (after : c.io.task ∈ s'.around.table.scheduled) : segment.Wakes c s' := by
  cases segment with
  | lookup =>
    obtain ⟨-, rfl⟩ := Connecting.lookup_cases stepped
    exact absurd after before
  | connect r =>
    rcases Connecting.connect_cases stepped with ⟨-, rfl⟩ | ⟨-, rfl⟩ <;> exact absurd after before
  | arm a =>
    obtain ⟨-, around, armed, rfl⟩ := Connecting.arm_cases stepped
    obtain ⟨-, rfl | ⟨-, -, rfl⟩⟩ := Suspension.arm_cases armed <;> exact absurd after before
  | register fault =>
    obtain ⟨-, ⟨table, -, rfl⟩ | ⟨table, progress, table', called, committed, rfl⟩⟩ :=
      Connecting.register_cases stepped
    · cases suspended
    · have same : table'.scheduled = s.around.table.scheduled :=
        Traced.scheduled_register called committed
      exact absurd (same ▸ after) before
  | resume =>
    obtain ⟨-, -, ⟨e, -, rfl⟩ | ⟨-, rfl⟩⟩ := Connecting.resume_cases stepped <;> cases suspended
  | sockError r =>
    obtain ⟨-, -, ⟨e, -, rfl⟩ | ⟨error, -, rfl⟩⟩ := Connecting.sockError_cases stepped <;>
      cases suspended
  | runTimeout fault =>
    rcases Connecting.runTimeout_cases stepped with ⟨-, table, -, rfl⟩ | rfl
    · exact .inr (.inr nofun)
    · exact absurd after before
  | others segment =>
    obtain ⟨other, notTimeout, around, ran, rfl⟩ := Connecting.others_cases stepped
    rcases wakes_of_next (c := c.io) tracked.traced other ran before after with
      ⟨fault, rfl⟩ | ⟨fault, rfl⟩ | ⟨fault, operation, rfl, wakes⟩
    · exact absurd rfl (notTimeout fault)
    · exact .inr (.inl rfl)
    · cases operation with
      | report => exact .inl (decide_eq_true wakes)
      | cancelEvent | cancelAll => exact .inr (.inl rfl)
      | addEvent | delEvent => exact wakes.elim
  | settle connection =>
    cases stepped
    exact absurd after before

/-- **The step lemma.** -/
theorem Explained.next (explained : Explained c s) (tracked : Tracked c s)
    {segment : ConnectSegment} (stepped : s.next c segment = some s') : Explained c s' := by
  obtain ⟨s₁, ran, rfl⟩ := Option.map_eq_some_iff.mp stepped
  split
  next new =>
    intro suspended member
    have wakes : segment.Wakes c s₁ := wakes_of_step tracked ran suspended new.1 member
    exact ⟨segment, rfl, wakes⟩
  next old =>
    intro suspended member
    have queued : c.io.task ∈ s.around.table.scheduled := by
      by_contra absent
      exact old ⟨absent, member⟩
    have before := tracked.suspended queued
    obtain ⟨waker, recorded, wakes⟩ := explained before queued
    cases segment with
    | lookup =>
      obtain ⟨other, -⟩ := Connecting.lookup_cases ran
      cases before.symm.trans other
    | connect r =>
      rcases Connecting.connect_cases ran with ⟨other, -⟩ | ⟨other, -⟩ <;>
        cases before.symm.trans other
    | arm a =>
      obtain ⟨other, -⟩ := Connecting.arm_cases ran
      cases before.symm.trans other
    | register fault =>
      obtain ⟨other, -⟩ := Connecting.register_cases ran
      cases before.symm.trans other
    | resume =>
      obtain ⟨-, -, ⟨e, -, rfl⟩ | ⟨-, rfl⟩⟩ := Connecting.resume_cases ran <;> cases suspended
    | sockError r =>
      obtain ⟨other, -⟩ := Connecting.sockError_cases ran
      cases before.symm.trans other
    | runTimeout fault =>
      rcases Connecting.runTimeout_cases ran with ⟨-, table, -, rfl⟩ | rfl
      · exact ⟨waker, recorded, .inr (.inr nofun)⟩
      · exact ⟨waker, recorded, wakes⟩
    | others segment =>
      obtain ⟨other, -, around, moved, rfl⟩ := Connecting.others_cases ran
      exact ⟨waker, recorded, wakes.imp_right (Or.imp_right
        (join_of_stays (Suspension.stays_of_next other moved)))⟩
    | settle connection =>
      cases ran
      exact ⟨waker, recorded, wakes⟩

/-! ### Main result -/

/-- A report woke the call, from `Yield_to_Hold` to `getsockopt` and to success. -/
structure Earned (c : ConnectCall) (s : Connecting) : Prop where
  joined : s.pc = .sockError → ∃ segment ∈ s.woken, segment.writable c = true
  success : s.pc = .returned none → s.connected = true ∨
    (∃ segment ∈ s.woken, segment.writable c = true) ∧ s.soError = some (.reads none)

/-- **The step lemma**: a step that meets the condition. -/
theorem Earned.step (earned : Earned c s) (explained : Explained c s)
    {segment : ConnectSegment} (sound : Sound c s segment)
    (stepped : s.step c segment = some s') : Earned c s' := by
  cases segment with
  | lookup =>
    obtain ⟨-, rfl⟩ := Connecting.lookup_cases stepped
    rcases Connecting.afterContext_cases (s.around.context c.io) with same | same | same <;>
      exact ⟨fun pc => (by cases same.symm.trans pc), fun pc => (by cases same.symm.trans pc)⟩
  | connect r =>
    have done (zero : r = none) : (s.connects r).connected = true := by
      rw [zero]
      exact Bool.or_true _
    rcases Connecting.connect_cases stepped with ⟨-, rfl⟩ | ⟨-, rfl⟩
    · exact ⟨nofun, fun pc => .inl (done (ConnectPc.returned.inj pc))⟩
    · by_cases goesOn : r = some einprogress
      · rw [if_pos goesOn]
        exact ⟨nofun, nofun⟩
      · rw [if_neg goesOn]
        exact ⟨nofun, fun pc => .inl (done (ConnectPc.returned.inj pc))⟩
  | arm a =>
    obtain ⟨-, around, -, rfl⟩ := Connecting.arm_cases stepped
    exact ⟨nofun, nofun⟩
  | register fault =>
    obtain ⟨-, ⟨table, called, -⟩ | ⟨table, progress, table', -, -, rfl⟩⟩ :=
      Connecting.register_cases stepped
    · rw [Sound, called] at sound
      cases sound
    · exact ⟨nofun, nofun⟩
  | resume =>
    obtain ⟨before, queued, ⟨e, -, rfl⟩ | ⟨unset, rfl⟩⟩ := Connecting.resume_cases stepped
    · exact ⟨nofun, nofun⟩
    · obtain ⟨waker, recorded, report | cancels | set⟩ := explained before queued
      · exact ⟨fun _ => ⟨waker, recorded, report⟩, nofun⟩
      · have spared := sound unset
        rw [recorded] at spared
        cases cancels.symm.trans spared
      · exact absurd unset set
  | sockError r =>
    obtain ⟨before, -, ⟨e, -, rfl⟩ | ⟨error, rfl, rfl⟩⟩ := Connecting.sockError_cases stepped
    · exact ⟨nofun, nofun⟩
    · refine ⟨nofun, fun pc => .inr ⟨earned.joined before, ?_⟩⟩
      obtain rfl : error = none := ConnectPc.returned.inj pc
      rfl
  | runTimeout fault =>
    rcases Connecting.runTimeout_cases stepped with ⟨-, table, -, rfl⟩ | rfl
    · exact ⟨earned.joined, earned.success⟩
    · exact ⟨earned.joined, earned.success⟩
  | others segment =>
    obtain ⟨-, -, around, -, rfl⟩ := Connecting.others_cases stepped
    exact ⟨earned.joined, earned.success⟩
  | settle connection =>
    cases stepped
    exact ⟨earned.joined, earned.success⟩

/-- **At the end `SO_ERROR` alone decides**: whatever brought the call there, it returns `0` when that
reads `0`. -/
theorem sockError_zero (before : s.pc = .sockError) (given : s.Gives (.reads none)) :
    ∃ s', s.step c (.sockError (.reads none)) = some s' ∧ s'.pc = .returned none := by
  refine ⟨({ s with soError := some (.reads none) } : Connecting).goes (.returned none), ?_, rfl⟩
  show s.sockError _ = _
  unfold Connecting.sockError
  rw [before]
  exact if_pos given

/-! ### Runs of one call -/

/-- `connect` on a socket, with a timeout of ten milliseconds, on the fiber `7`. -/
def connectCall : ConnectCall := ⟨5, 10, 0, 7, 1⟩

/-- The connection is in progress, and the timer armed. -/
def connectTen : List ConnectSegment :=
  [.others (.reopen 1), .others (.setCtx (socketCtx noTimeout)), .lookup,
    .connect (some einprogress), .arm 3]

/-- **Another task closes the descriptor under the call**, and it returns `0`: `cancel_all` has woken
it, and the connection is in progress until `close_f`. -/
theorem cancelled_connected :
    ∃ s, (connection connectCall).Reachable s ∧ s.pc = .returned none ∧ s.inProgress 1 = true ∧
      ¬ HonestConnect connectCall s := by
  obtain ⟨s, reached, state⟩ :=
    Machine.reachable_of_replay (m := connection connectCall) (s := .initial 100 none) ⟨_, _, rfl⟩
      (connectTen ++ [.register false, .others (.operate false (.cancelAll 5)), .resume,
        .sockError (.reads none), .others (.close false)])
      (fun s => s.pc = .returned none ∧ s.inProgress 1 = true ∧ s.connected = false ∧
        s.woken = some (.others (.operate false (.cancelAll 5)))) (by decide +kernel)
  obtain ⟨returned, inProgress, unconnected, cancelled⟩ := of_decide_eq_true state
  refine ⟨s, reached, returned, inProgress, fun honest => ?_⟩
  rcases honest.success returned with connected | ⟨⟨segment, woken, report⟩, -⟩
  · cases unconnected.symm.trans connected
  · cases cancelled.symm.trans woken
    cases report

end Sylar.Hook
