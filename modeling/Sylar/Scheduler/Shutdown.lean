/-
**`start()` and `stop()` around a pool, when the caller's thread is part of it.**

`stop()` runs the root fiber, that is `run()` on the caller's thread, and sets `m_stopping` when the
root fiber has returned. The root fiber returns when its idle fiber has ended, and that ends when
`stopping()` is true, which needs `m_stopping`.

* `Shutdown` — a pool whose worker 0 is the root fiber, `m_threads`, the state of the root fiber, and
  the calls of `stop()` that are under way.
* `Running` — no worker has begun to end; `Running.next`: only `stop()` changes that.
* `Stuck` — the invariant: the flag is clear, and no call of `stop()` is past `call()`.
* `stop_waits` — **`stop()` waits in `call()` with nothing left to do.**
* `stop_never_finishes` — **so it is for both classes, every thread count and every run.**
-/

import Sylar.Scheduler.Moves

namespace Sylar.Scheduler

open Sylar.Library

/-- The class of the object. -/
inductive Kind
  | scheduler
  | ioManager
deriving DecidableEq

/-- What `stopping()` looks at next. -/
inductive Observation
  | timers
  | events
  | queue
deriving DecidableEq

/-- How far a call of `stop()` is. -/
inductive StopPc
  | entered
  /-- in the first `if (stopping())` -/
  | early (next : Observation)
  /-- before the assertions on the calling thread -/
  | checking
  /-- in `if (!stopping())` -/
  | late (next : Observation)
  /-- before the assertion of `call()` -/
  | calling
  /-- before `call()` writes `EXEC` -/
  | marking
  /-- the root fiber runs -/
  | inCall
  /-- before `m_stopping = true` -/
  | setting
  /-- before `thrs.swap(m_threads)` -/
  | swapping
  /-- before `join()` of the threads taken -/
  | joining (threads : Nat)
  | returned
deriving DecidableEq

/-- A call of `stop()`; `onPool` is `GetThis() == this` on the thread that makes it. -/
structure StopCall where
  onPool : Bool
  pc : StopPc
deriving DecidableEq

/-- A scheduler with `m` threads of its own and the root fiber, worker 0 of the pool. A task's own
call of `stop()` is one more call: that its worker then stands still is not kept track of. -/
structure Shutdown (m : Nat) where
  pool : Pool (m + 1)
  threads : Nat
  root : State
  stops : List StopCall

/-- `stopping()` of the class begins here. -/
def Kind.first : Kind → Observation
  | .scheduler => .queue
  | .ioManager => .timers

/-- The tasks of a plain scheduler have no timers and no events. `Scheduler::idle()` is then what is
left of `IOManager::idle()`, and to yield is `epoll_wait` returning at once. -/
def Kind.has {n : Nat} : Kind → Event n → Bool
  | .scheduler, .addTimer .. | .scheduler, .cancelTimer _ | .scheduler, .addEvent ..
  | .scheduler, .delEvent .. => false
  | _, _ => true

namespace Shutdown

variable {m : Nat} (s : Shutdown m)

/-- The constructor with `thread_count = m + 1` and `use_caller = true`. -/
def constructed (m : Nat) : Shutdown m where
  pool := { Pool.initial (m + 1) with stopping := true, autoStop := true }
  threads := 0
  root := .init
  stops := []

/-- `start()`: the new threads begin with `run()`. -/
def start : Option (Shutdown m) :=
  if s.pool.stopping then
    if s.threads = 0 then
      some { s with
        pool := { s.pool with
          stopping := false
          pc := fun w => if w = 0 then s.pool.pc w else .top
          cbFiber := fun w => if w = 0 then s.pool.cbFiber w else none
          idleTerm := fun w => if w = 0 then s.pool.idleTerm w else false }
        threads := m }
    else none
  else some s

/-- One look of `stopping()`: the verdict, or where it looks next. -/
def observe : Observation → Observation ⊕ Bool
  | .timers => if s.pool.timers = 0 then .inl .events else .inr false
  | .events => if s.pool.pendingEventCount = 0 then .inl .queue else .inr false
  | .queue => .inr (schedulerStopping s.pool.autoStop s.pool.stopping s.pool.fibers
      s.pool.activeThreadCount)

/-- The next step of a call of `stop()`. -/
def stopStep (kind : Kind) (onPool : Bool) : StopPc → Option (Shutdown m × StopPc)
  | .entered =>
      some ({ s with pool := { s.pool with autoStop := true } },
        if m = 0 ∧ (s.root = .term ∨ s.root = .init) then .early kind.first else .checking)
  | .early next =>
      some (s, match s.observe next with
        | .inl later => .early later
        | .inr true => .returned
        | .inr false => .checking)
  | .checking => if onPool then some (s, .late kind.first) else none
  | .late next =>
      some (s, match s.observe next with
        | .inl later => .late later
        | .inr true => .setting
        | .inr false => .calling)
  | .calling => if s.root = .exec then none else some (s, .marking)
  | .marking =>
      -- past its `back()`, `Caller_MainFunc` only fails its assertion
      if s.pool.pc 0 = .exited then none else some ({ s with root := .exec }, .inCall)
  | .inCall => if s.root = .term then some (s, .setting) else none
  | .setting => (s.pool.next .stop).map fun pool => ({ s with pool }, .swapping)
  | .swapping => some ({ s with threads := 0 }, .joining s.threads)
  | .joining threads =>
      if threads = 0 ∨ ∀ w, w ≠ 0 → s.pool.pc w = .exited then some (s, .returned) else none
  | .returned => none

/-- The root fiber runs between `call()` and its end. -/
def permits (kind : Kind) (event : Event (m + 1)) : Bool :=
  kind.has event && decide (event ≠ .stop) && (event.worker != some 0 || s.root == .exec)

end Shutdown

/-- A step: of the pool, of a call of `start()` or `stop()`, or the end of the root fiber. -/
inductive Shutdown.Event (m : Nat)
  | pool (event : Scheduler.Event (m + 1))
  | start
  | enter (onPool : Bool)
  | stop (i : Nat)
  | rootEnds

namespace Shutdown

variable {m : Nat} (s : Shutdown m)

/-- One step. -/
def next (kind : Kind) : Shutdown.Event m → Option (Shutdown m)
  | .pool event =>
      if s.permits kind event then (s.pool.next event).map fun pool => { s with pool } else none
  | .start => s.start
  | .enter onPool => some { s with stops := s.stops ++ [⟨onPool, .entered⟩] }
  | .stop i =>
      match s.stops[i]? with
      | some call =>
          (s.stopStep kind call.onPool call.pc).map fun r =>
            { r.1 with stops := s.stops.set i { call with pc := r.2 } }
      | none => none
  | .rootEnds =>
      if s.root = .exec ∧ s.pool.pc 0 = .exited then some { s with root := .term } else none

/-- Some call of `stop()` is in `m_root_fiber->call()`. -/
def inCall : Prop := ∃ call ∈ s.stops, call.pc = .inCall

/-- Nothing is left to do. -/
def drained (kind : Kind) : Prop :=
  s.pool.fibers = [] ∧ s.pool.activeThreadCount = 0 ∧
    (kind = .ioManager → s.pool.pendingEventCount = 0 ∧ s.pool.timers = 0)

/-- `stopping()` of the class, evaluated in this state. -/
def stopping (kind : Kind) : Bool :=
  (kind == .scheduler || s.pool.timers == 0 && s.pool.pendingEventCount == 0) &&
    schedulerStopping s.pool.autoStop s.pool.stopping s.pool.fibers s.pool.activeThreadCount

instance : Decidable s.inCall := inferInstanceAs (Decidable (∃ call ∈ s.stops, call.pc = .inCall))

instance (kind : Kind) : Decidable (s.drained kind) :=
  inferInstanceAs (Decidable (_ ∧ _ ∧ (_ → _ ∧ _)))

end Shutdown

/-- The runs of an object of a class, constructed with `thread_count = m + 1` and started. -/
def shutdown (kind : Kind) (m : Nat) : Machine (Shutdown m) (Shutdown.Event m) :=
  ⟨fun s => (Shutdown.constructed m).start = some s, fun s event => s.next kind event⟩

/-! ### The pool alone -/

/-- The worker has left the loop of `run()`, or its next step leaves it. -/
def Pc.ends : Pc → Bool
  | .tickling _ after => after.ends
  | .exited => true
  | .top | .dispatch _ | .task .. | .idle _ => false

@[simp] theorem Pc.ends_tickleIf (needTickle : Bool) (after : Pc) :
    (tickleIf needTickle after).ends = after.ends := by
  cases needTickle <;> rfl

/-- `m_stopping` is clear, and no worker has begun to end. -/
structure Running {n : Nat} (s : Pool n) : Prop where
  flag : s.stopping = false
  idle : ∀ w, s.idleTerm w = false
  loop : ∀ w, (s.pc w).ends = false

namespace Running

variable {n : Nat} {s s' t : Pool n} {w : Fin n} {pc : Pc}

/-- A worker moves and stays in the loop. -/
theorem goto (running : Running s) (moved : t.pc = Function.update s.pc w pc)
    (flag : t.stopping = s.stopping) (idle : t.idleTerm = s.idleTerm) (stays : pc.ends = false) :
    Running t where
  flag := flag.trans running.flag
  idle v := (congrFun idle v).trans (running.idle v)
  loop v := by
    rw [moved]
    rcases eq_or_ne v w with rfl | other
    · rw [Function.update_self]
      exact stays
    · rw [Function.update_of_ne other]
      exact running.loop v

/-- `stopping()` is false. -/
theorem stopping_false (running : Running s) :
    schedulerStopping s.autoStop s.stopping s.fibers s.activeThreadCount = false := by
  unfold schedulerStopping
  rw [running.flag]
  simp only [Bool.and_false, Bool.false_and]

/-- **Every step but the end of `stop()` keeps all workers running.** -/
theorem next {event : Event n} (running : Running s) (other : event ≠ .stop)
    (move : Move s event s') : Running s' := by
  cases move
  case scan | expire | rearm | scheduleCbs | trigger | reschedule =>
    exact running.goto rfl rfl rfl (Pc.ends_tickleIf _ _)
  case testNone w after from' _ | testSome w after from' _ | write w after from' =>
    have stays := running.loop w
    rw [from'] at stays
    exact running.goto rfl rfl rfl stays
  case exit w ft from' nothing dead => exact (Bool.false_ne_true ((running.idle w).symm.trans dead)).elim
  case stops w from' stopping =>
    exact (Bool.false_ne_true (running.stopping_false.symm.trans stopping)).elim
  case stop => exact (other rfl).elim
  case skip | choose | reuse | renew | idle | count | enter | switch | leave | save | uncount |
      readReady | readOver | readFinished | readOther | hold | reset | noTimer | someTimer |
      noPending | somePending | stays | block | wake | endTrigger | swapOut | endIdle =>
    exact running.goto rfl rfl rfl rfl
  case drain | addTimer | cancelTimer | addEvent | delEvent | schedule | scheduleBatch |
      testTickleNone | testTickleSome | writeTickle | testOtherNone | testOtherSome | writeOther |
      newFiber =>
    exact ⟨running.flag, running.idle, running.loop⟩

end Running

/-! ### The invariant -/

/-- The call of `stop()` has got over `call()`, or did without it. -/
def StopPc.past : StopPc → Bool
  | .setting | .swapping | .joining _ | .returned => true
  | .entered | .early _ | .checking | .late _ | .calling | .marking | .inCall => false

/-- The flag is clear, every worker runs, and no call of `stop()` is past `call()`. -/
structure Stuck {m : Nat} (s : Shutdown m) : Prop where
  running : Running s.pool
  root : s.root ≠ .term
  waits : ∀ call ∈ s.stops, call.pc.past = false

namespace Stuck

variable {m : Nat} {kind : Kind} {s s' : Shutdown m}

/-- No worker has left its loop. -/
theorem runs (stuck : Stuck s) (w : Fin (m + 1)) : s.pool.pc w ≠ .exited := by
  intro exited
  have stays := stuck.running.loop w
  rw [exited] at stays
  cases stays

/-- `stopping()` of either class is false. -/
theorem stopping_false (stuck : Stuck s) : s.stopping kind = false := by
  unfold Shutdown.stopping
  rw [stuck.running.stopping_false, Bool.and_false]

/-- No look of `stopping()` ends it with `true`. -/
theorem observe_ne_true (stuck : Stuck s) (next : Observation) : s.observe next ≠ .inr true := by
  cases next with
  | timers | events =>
    unfold Shutdown.observe
    dsimp only
    split <;> nofun
  | queue =>
    unfold Shutdown.observe
    dsimp only
    rw [stuck.running.stopping_false]
    nofun

/-- **A step of a call of `stop()` keeps the rest as it is and does not get past `call()`.** -/
theorem stopStep {onPool : Bool} {pc pc' : StopPc} (stuck : Stuck s) (before : pc.past = false)
    (stepped : s.stopStep kind onPool pc = some (s', pc')) :
    Stuck s' ∧ s'.stops = s.stops ∧ pc'.past = false := by
  have ⟨running, root, waits⟩ := stuck
  cases pc with
  | entered =>
    cases stepped
    refine ⟨⟨⟨running.flag, running.idle, running.loop⟩, root, waits⟩, rfl, ?_⟩
    split <;> rfl
  | early next =>
    cases stepped
    refine ⟨stuck, rfl, ?_⟩
    split
    next => rfl
    next verdict => exact (stuck.observe_ne_true next verdict).elim
    next => rfl
  | checking =>
    unfold Shutdown.stopStep at stepped
    dsimp only at stepped
    split at stepped
    next =>
      cases stepped
      exact ⟨stuck, rfl, rfl⟩
    next => cases stepped
  | late next =>
    cases stepped
    refine ⟨stuck, rfl, ?_⟩
    split
    next => rfl
    next verdict => exact (stuck.observe_ne_true next verdict).elim
    next => rfl
  | calling =>
    unfold Shutdown.stopStep at stepped
    dsimp only at stepped
    split at stepped
    next => cases stepped
    next =>
      cases stepped
      exact ⟨stuck, rfl, rfl⟩
  | marking =>
    unfold Shutdown.stopStep at stepped
    dsimp only at stepped
    split at stepped
    next => cases stepped
    next =>
      cases stepped
      exact ⟨⟨running, nofun, waits⟩, rfl, rfl⟩
  | inCall =>
    unfold Shutdown.stopStep at stepped
    dsimp only at stepped
    rw [if_neg root] at stepped
    cases stepped
  | setting | swapping | joining threads | returned => cases before

/-- **Every step keeps the invariant.** -/
theorem next {event : Shutdown.Event m} (stuck : Stuck s) (stepped : s.next kind event = some s') :
    Stuck s' := by
  cases event with
  | pool event =>
    unfold Shutdown.next at stepped
    dsimp only at stepped
    split at stepped
    next permitted =>
      obtain ⟨pool, moved, same⟩ := Option.map_eq_some_iff.mp stepped
      subst same
      unfold Shutdown.permits at permitted
      simp only [Bool.and_eq_true, decide_eq_true_eq] at permitted
      exact ⟨stuck.running.next permitted.1.2 (move_of_next moved), stuck.root, stuck.waits⟩
    next => cases stepped
  | start =>
    unfold Shutdown.next Shutdown.start at stepped
    dsimp only at stepped
    rw [stuck.running.flag] at stepped
    cases stepped
    exact stuck
  | enter onPool =>
    cases stepped
    refine ⟨stuck.running, stuck.root, fun call member => ?_⟩
    rcases List.mem_append.mp member with old | new
    · exact stuck.waits call old
    · rw [List.mem_singleton.mp new]
      rfl
  | stop i =>
    unfold Shutdown.next at stepped
    dsimp only at stepped
    split at stepped
    next call found =>
      obtain ⟨⟨after, pc⟩, moved, same⟩ := Option.map_eq_some_iff.mp stepped
      subst same
      obtain ⟨kept, stops, waits⟩ :=
        stuck.stopStep (stuck.waits call (List.mem_of_getElem? found)) moved
      refine ⟨kept.running, kept.root, fun other member => ?_⟩
      rcases List.mem_or_eq_of_mem_set member with old | new
      · exact stuck.waits other old
      · rw [new]
        exact waits
    next => cases stepped
  | rootEnds =>
    unfold Shutdown.next at stepped
    dsimp only at stepped
    rw [if_neg fun ends => stuck.runs 0 ends.2] at stepped
    cases stepped

end Stuck

variable {m : Nat} {kind : Kind} {s : Shutdown m}

/-- A started object. -/
theorem stuck_start (starts : (shutdown kind m).start s) : Stuck s := by
  cases starts
  refine ⟨⟨rfl, fun w => ?_, fun w => ?_⟩, nofun, nofun⟩
  · show (if w = 0 then false else false) = false
    exact ite_self _
  · show Pc.ends (if w = 0 then .top else .top) = false
    rw [ite_self]
    rfl

theorem stuck_of_reachable (reached : (shutdown kind m).Reachable s) : Stuck s := by
  apply reached.invariant (P := Stuck)
  · intro s starts
    exact stuck_start starts
  · intro s event s' stuck _ stepped
    exact stuck.next stepped

/-! ### `stop()` on the caller's thread -/

/-- `stop()` of a new object, up to `call()`. -/
def upToCall (kind : Kind) (m : Nat) : List (Shutdown.Event m) :=
  .enter true :: List.replicate
    (match kind, m with
      | .scheduler, 0 => 6
      | .scheduler, _ + 1 => 5
      | .ioManager, 0 => 10
      | .ioManager, _ + 1 => 7)
    (.stop 0)

/-- **A call of `stop()` gets to `call()` with nothing left to do.** -/
theorem drained_inCall (kind : Kind) (m : Nat) :
    ∃ s, (shutdown kind m).Reachable s ∧ s.inCall ∧ s.drained kind := by
  have run : ∃ s, (shutdown kind m).Reachable s ∧ decide (s.inCall ∧ s.drained kind) = true := by
    refine Machine.reachable_of_replay rfl (upToCall kind m) _ ?_
    cases kind <;> cases m <;> rfl
  obtain ⟨s, reached, here⟩ := run
  exact ⟨s, reached, of_decide_eq_true here⟩

/-- **The end of `stop()` is never reached**: with nothing left to do, `stopping()` is false in
`call()`; no idle fiber ends, no worker leaves its loop, and no call of `stop()` gets past `call()`. -/
theorem stop_never_finishes (kind : Kind) (m : Nat) :
    (∃ s, (shutdown kind m).Reachable s ∧ s.inCall ∧ s.drained kind) ∧
      ∀ s, (shutdown kind m).Reachable s →
        s.stopping kind = false ∧ (∀ w, s.pool.idleTerm w = false) ∧
          (∀ w, s.pool.pc w ≠ .exited) ∧ ∀ call ∈ s.stops, call.pc.past = false := by
  refine ⟨drained_inCall kind m, fun s reached => ?_⟩
  have stuck := stuck_of_reachable reached
  exact ⟨stuck.stopping_false, stuck.running.idle, stuck.runs, stuck.waits⟩

/-- `stop()` of an `IOManager` whose only thread is the caller's; then the root fiber evaluates
`stopping()` in its idle fiber. -/
def idleInCall : List (Shutdown.Event 0) :=
  upToCall .ioManager 0 ++ List.replicate 5 (.pool (.work 0))

/-- **`stop()` waits in `call()`**: nothing is left to do, and `idle()` goes on to `epoll_wait`. -/
theorem stop_waits :
    ∃ s, (shutdown .ioManager 0).Reachable s ∧ s.inCall ∧ s.drained .ioManager ∧
      s.stopping .ioManager = false ∧ s.pool.pc 0 = .idle .wait := by
  have run : ∃ s, (shutdown .ioManager 0).Reachable s ∧
      decide (s.inCall ∧ s.drained .ioManager ∧ s.stopping .ioManager = false ∧
        s.pool.pc 0 = .idle .wait) = true :=
    Machine.reachable_of_replay rfl idleInCall _ (by decide +kernel)
  obtain ⟨s, reached, here⟩ := run
  exact ⟨s, reached, of_decide_eq_true here⟩

end Sylar.Scheduler
