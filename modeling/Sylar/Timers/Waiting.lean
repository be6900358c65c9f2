/-
**The timeout of `epoll_wait` in `IOManager::idle()`.**

An iteration of `idle()` asks `stopping(next_timeout)`, which reads `get_next_timeout` once, and
calls `epoll_wait` until it is not interrupted. The loop caps `next_timeout` each time round; the
line that would read it again is commented out.

* `stopping`, `waitLoop`, `waits` — the iteration up to the return of `epoll_wait`, at any clock
  readings.
* `mem_waitLoop` — **every round has the timeout of the first**, between 0 and 5000.
* `waits_inTime_iff` — **when no call sleeps past the earliest timer**; `wait_past_timer` — a timer
  that is due in 100 ms, and a call for another 100 ms after an interruption at 60.
-/

import Sylar.Timers.Invariant

namespace Sylar.Timers

open Sylar.Library

/-- `MAX_TIMEOUT`, in milliseconds. -/
def maxTimeout : UInt64 := 5000

/-- `IOManager::stopping(uint64_t &timeout)`: what it writes to `timeout`, and its answer.
`schedulerStops` is the answer of `Scheduler::stopping()`. -/
def stopping (m : TimerManager) (now pendingEventCount : UInt64) (schedulerStops : Bool) :
    UInt64 × Bool :=
  let timeout := getNextTimeout m now
  (timeout, timeout == ~~~0 && pendingEventCount == 0 && schedulerStops)

/-- `next_timeout` before a call of `epoll_wait`. -/
def capTimeout (nextTimeout : UInt64) : UInt64 :=
  if nextTimeout = ~~~0 then maxTimeout
  else if maxTimeout > nextTimeout then nextTimeout else maxTimeout

/-- A call of `epoll_wait`, and the clock when it is made. -/
structure Wait where
  clock : UInt64
  timeout : Int
deriving DecidableEq

/-- `(int) next_timeout`. -/
def intTimeout (nextTimeout : UInt64) : Int := (nextTimeout.toBitVec.setWidth 32).toInt

/-- The loop around `epoll_wait`, called at the given clock readings: `EINTR` each time but the
last. -/
def waitLoop : UInt64 → List UInt64 → List Wait
  | _, [] => []
  | nextTimeout, clock :: later =>
      let nextTimeout := capTimeout nextTimeout
      { clock, timeout := intTimeout nextTimeout } :: waitLoop nextTimeout later

/-- The calls of `epoll_wait` in an iteration of `idle()` that begins at `now`, with interruptions
after which the clock reads `retries`. -/
def waits (m : TimerManager) (now pendingEventCount : UInt64) (schedulerStops : Bool)
    (retries : List UInt64) : List Wait :=
  let asked := stopping m now pendingEventCount schedulerStops
  if asked.2 then [] else waitLoop asked.1 (now :: retries)

/-- The least `m_next`. -/
def firstDue (m : TimerManager) : Option Nat := (m.timers.map fun a => (m.timer a).next.toNat).min?

/-- **A call that does not sleep past the earliest timer.** -/
def Wait.InTime (m : TimerManager) (w : Wait) : Prop :=
  0 ≤ w.timeout ∧ w.timeout ≤ 5000 ∧
    ∀ least ∈ firstDue m, w.timeout ≤ max 0 ((least : Int) - w.clock.toNat)

instance (m : TimerManager) (w : Wait) : Decidable (w.InTime m) :=
  inferInstanceAs (Decidable (_ ∧ _ ∧ ∀ least ∈ firstDue m, _))

/-! ### The loop -/

theorem capTimeout_toNat (t : UInt64) : (capTimeout t).toNat = min 5000 t.toNat := by
  have five : maxTimeout.toNat = 5000 := rfl
  unfold capTimeout
  split
  next none =>
    rw [five, none]
    decide
  next =>
    split
    next less =>
      rw [gt_iff_lt, UInt64.lt_iff_toNat_lt] at less
      omega
    next notLess =>
      rw [gt_iff_lt, UInt64.lt_iff_toNat_lt] at notLess
      omega

/-- The conversion to `int` loses nothing. -/
theorem intTimeout_capTimeout (t : UInt64) :
    intTimeout (capTimeout t) = ((min 5000 t.toNat : Nat) : Int) := by
  have small := capTimeout_toNat t
  unfold intTimeout
  rw [BitVec.toInt_eq_toNat_of_lt, BitVec.toNat_setWidth, UInt64.toNat_toBitVec,
    Nat.mod_eq_of_lt (by omega), small]
  rw [BitVec.toNat_setWidth, UInt64.toNat_toBitVec]
  omega

/-- **Every round has the timeout of the first.** -/
theorem mem_waitLoop {t : UInt64} {clocks : List UInt64} {w : Wait} :
    w ∈ waitLoop t clocks ↔ w.clock ∈ clocks ∧ w.timeout = ((min 5000 t.toNat : Nat) : Int) := by
  induction clocks generalizing t with
  | nil => simp [waitLoop]
  | cons clock later ih =>
    have same : min 5000 (capTimeout t).toNat = min 5000 t.toNat := by
      rw [capTimeout_toNat]
      omega
    simp only [waitLoop, List.mem_cons, ih, same, intTimeout_capTimeout]
    constructor
    · rintro (rfl | ⟨after, timeout⟩)
      · exact ⟨.inl rfl, rfl⟩
      · exact ⟨.inr after, timeout⟩
    · rintro ⟨rfl | after, timeout⟩
      · exact .inl (timeout ▸ rfl)
      · exact .inr ⟨after, timeout⟩

/-! ### When no call sleeps past the earliest timer -/

/-- The interruption leaves the loop in time: the earliest timer was due at the top of the
iteration, or the clock has not gone on, or the earliest timer is still at least 5000 ms away. -/
def Harmless (m : TimerManager) (now clock : UInt64) : Prop :=
  ∀ least ∈ firstDue m, least ≤ now.toNat ∨ clock ≤ now ∨ clock.toNat + 5000 ≤ least

instance (m : TimerManager) (now clock : UInt64) : Decidable (Harmless m now clock) :=
  inferInstanceAs (Decidable (∀ least ∈ firstDue m, _))

/-- `get_next_timeout` is the distance to the earliest timer, at the reading it was asked at. -/
theorem getNextTimeout_of_firstDue {m : TimerManager} (sorted : m.Sorted) {least : Nat}
    (first : least ∈ firstDue m) (now : UInt64) :
    (getNextTimeout m now).toNat = least - now.toNat := by
  have content : (m.timers.map fun a => (m.timer a).next.toNat).min? = some least := first
  rw [getNextTimeout_toNat sorted, content]

theorem inTime_iff {m : TimerManager} (sorted : m.Sorted) (now : UInt64) {w : Wait}
    (timeout : w.timeout = ((min 5000 (getNextTimeout m now).toNat : Nat) : Int)) :
    w.InTime m ↔ Harmless m now w.clock := by
  have range : 0 ≤ w.timeout ∧ w.timeout ≤ 5000 := by omega
  unfold Wait.InTime Harmless
  rw [← and_assoc, and_iff_right range]
  refine forall₂_congr fun least first => ?_
  have asked := getNextTimeout_of_firstDue sorted first now
  rw [UInt64.le_iff_toNat_le]
  omega

/-- **No call of `epoll_wait` sleeps past the earliest timer** if and only if `idle()` stops
instead, or each interruption is harmless. -/
theorem waits_inTime_iff (m : TimerManager) (sorted : m.Sorted) (now pendingEventCount : UInt64)
    (schedulerStops : Bool) (retries : List UInt64) :
    (∀ w ∈ waits m now pendingEventCount schedulerStops retries, w.InTime m) ↔
      (stopping m now pendingEventCount schedulerStops).2 = true ∨
        ∀ clock ∈ retries, Harmless m now clock := by
  cases answer : (stopping m now pendingEventCount schedulerStops).2 with
  | true => simp [waits, answer]
  | false =>
    have first : Harmless m now now := fun least _ => .inr (.inl (UInt64.le_refl now))
    rw [waits, answer, if_neg Bool.false_ne_true, or_iff_right Bool.false_ne_true]
    constructor
    · intro inTime clock member
      have called := inTime ⟨clock, ((min 5000 (getNextTimeout m now).toNat : Nat) : Int)⟩
        (mem_waitLoop.mpr ⟨List.mem_cons_of_mem now member, rfl⟩)
      exact (inTime_iff sorted now rfl).mp called
    · intro harmless w member
      obtain ⟨called, timeout⟩ := mem_waitLoop.mp member
      refine (inTime_iff sorted now timeout).mpr ?_
      rcases List.mem_cons.mp called with same | retried
      · rw [same]
        exact first
      · exact harmless w.clock retried

/-- A timer made at 0 that is due at 100. -/
def dueAtHundred : TimerManager := (addTimer empty 7 0 100 (some 1) false).1

theorem dueAtHundred_sorted : dueAtHundred.Sorted :=
  (placed_empty.addTimer (by decide) 0 100 (some 1) false).sorted

/-- Two interruptions within the millisecond of the first call. -/
theorem waits_inTime_atOnce :
    waits dueAtHundred 0 0 false [0, 0] = [⟨0, 100⟩, ⟨0, 100⟩, ⟨0, 100⟩] ∧
      ∀ w ∈ waits dueAtHundred 0 0 false [0, 0], w.InTime dueAtHundred := by
  have harmless : Harmless dueAtHundred 0 0 := by decide
  refine ⟨by decide, (waits_inTime_iff dueAtHundred dueAtHundred_sorted 0 0 false [0, 0]).mpr ?_⟩
  exact .inr (List.forall_mem_cons.mpr ⟨harmless, List.forall_mem_singleton.mpr harmless⟩)

/-- An interruption at 60, and a wait for 100 ms from there. -/
theorem wait_past_timer :
    waits dueAtHundred 0 0 false [60] = [⟨0, 100⟩, ⟨60, 100⟩] ∧
      ¬ ∀ w ∈ waits dueAtHundred 0 0 false [60], w.InTime dueAtHundred := by
  decide

end Sylar.Timers
