/-
**The timer manager: `timer.cc` as functions on its state.**

A `Timer` object lives at an address and is reached through it, as through `Timer::ptr`;
`m_timers` is a `std::set<Timer::ptr, Timer::Comparator>`, kept here as its in-order traversal. The
comparator reads `m_next` through the pointer, so the key of an element is a *mutable* field of the
object: every set operation below takes the heap it reads.

* `comparator`, `before` — `Timer::Comparator::operator()`; a strict total order of the addresses
  for any contents of the heap (`before_strictOrder`).
* `cancel`, `refresh`, `reset`, `addTimer`, `getNextTimeout` — one call each, under the write lock
  (`getNextTimeout`: the read lock).
* `expiredTimers` — the batch `list_expired_cbs` takes out of the set; `handOut` and `finishExpired`
  are the two halves of one iteration of its loop, `listExpiredCbs` the whole call.
* `finishExpired_timer`, `mem_timers_finishExpired` — what an iteration writes, and what it arms.

Clock readings are arguments: nothing is assumed of them, not even that they grow.
-/

import Sylar.Fiber
import Sylar.Library.OrderedSet
import Mathlib.Logic.Function.Basic

namespace Sylar.Timers

open Sylar.Library

/-- Where a `Timer` object lives. -/
abbrev Address := Nat

/-- A `Timer`: `m_recurring`, `m_ms`, `m_next`, `m_cb` (`none` is the empty function). -/
structure Timer where
  recurring : Bool := false
  ms : UInt64 := 0
  next : UInt64 := 0
  cb : Option Callback := none
deriving DecidableEq

/-- What the pointers point to. -/
abbrev Heap := Address → Timer

/-- `Timer::Comparator::operator()`; `none` is the null pointer. -/
def comparator (heap : Heap) : Option Address → Option Address → Bool
  | none, none => false
  | none, some _ => true
  | some _, none => false
  | some lhs, some rhs =>
      if (heap lhs).next < (heap rhs).next then true
      else if (heap rhs).next < (heap lhs).next then false
      else decide (lhs < rhs)

/-- The comparator on pointers that are not null. -/
def before (heap : Heap) (a b : Address) : Bool := comparator heap (some a) (some b)

/-- A `TimerManager`, with the objects it points to and the addresses in use. -/
structure TimerManager where
  timer : Heap
  timers : List Address
  created : List Address

/-- `TimerManager()`: no timers. -/
def empty : TimerManager := ⟨fun _ => {}, [], []⟩

/-- Change one object. -/
def TimerManager.write (m : TimerManager) (a : Address) (t : Timer) : TimerManager :=
  { m with timer := Function.update m.timer a t }

/-- `TimerManager::add_timer(Timer::ptr, WriteLock&)`: insert, and whether
`on_timer_insert_at_front` is called. The lock is released in here. -/
def insertTimer (m : TimerManager) (a : Address) : TimerManager × Bool :=
  let timers := OrderedSet.insert (before m.timer) a m.timers
  ({ m with timers }, timers.head? == some a)

/-- `TimerManager::add_timer(ms, cb, recurring)`, the new object being at `a`. -/
def addTimer (m : TimerManager) (a : Address) (now ms : UInt64) (cb : Option Callback)
    (recurring : Bool) : TimerManager × Bool :=
  let made := m.write a { recurring, ms, next := now + ms, cb }
  insertTimer { made with created := a :: made.created } a

/-- `m_timers.find(shared_from_this())`. -/
def findTimer (m : TimerManager) (a : Address) : Option Address :=
  OrderedSet.find (before m.timer) a m.timers

/-- `m_timers.erase(it)`. -/
def eraseTimer (m : TimerManager) (it : Address) : TimerManager :=
  { m with timers := m.timers.erase it }

/-- `Timer::cancel`. -/
def cancel (m : TimerManager) (a : Address) : TimerManager × Bool :=
  match (m.timer a).cb with
  | none => (m, false)
  | some _ =>
      let silent := m.write a { m.timer a with cb := none }
      match findTimer silent a with
      | some it => (eraseTimer silent it, true)
      | none => (silent, true)

/-- `Timer::refresh`. -/
def refresh (m : TimerManager) (a : Address) (now : UInt64) : TimerManager × Bool :=
  match (m.timer a).cb with
  | none => (m, false)
  | some _ =>
      match findTimer m a with
      | none => (m, false)
      | some it =>
          let out := eraseTimer m it
          let moved := out.write a { out.timer a with next := now + (out.timer a).ms }
          ((insertTimer moved a).1, true)

/-- `Timer::reset`. -/
def reset (m : TimerManager) (a : Address) (now ms : UInt64) (fromNow : Bool) :
    TimerManager × Bool :=
  if ms = (m.timer a).ms ∧ fromNow = false then (m, true)
  else
    match findTimer m a with
    | none => (m, false)
    | some it =>
        let out := eraseTimer m it
        let next := if fromNow then now + ms else (out.timer a).next - (out.timer a).ms + ms
        let moved := out.write a { out.timer a with next, ms }
        ((insertTimer moved a).1, true)

/-- `TimerManager::get_next_timeout`. -/
def getNextTimeout (m : TimerManager) (now : UInt64) : UInt64 :=
  match m.timers with
  | [] => ~~~0
  | next :: _ => if (m.timer next).next ≤ now then 0 else (m.timer next).next - now

/-- What `list_expired_cbs` takes out of a set it found not empty, and what it leaves. The probe
`Timer(now_ms)` is an object too, at the address `probe`. -/
def expiredTimers (m : TimerManager) (now : UInt64) (probe : Address) :
    List Address × List Address :=
  match m.timers with
  | [] => ([], [])
  | first :: others =>
      if now < (m.timer first).next then ([], first :: others)
      else
        let heap := Function.update m.timer probe { next := now }
        match OrderedSet.upToBound (before heap) probe (first :: others) with
        | [] => ([first], others)
        | expired => (expired, OrderedSet.aboveBound (before heap) probe (first :: others))

/-- `cbs.push_back(timer->m_cb)`: what is pushed. -/
def handOut (m : TimerManager) (a : Address) : Option Callback := (m.timer a).cb

/-- The rest of an iteration: a recurring timer is armed again, another one loses its callback. -/
def finishExpired (m : TimerManager) (now : UInt64) (a : Address) : TimerManager :=
  if (m.timer a).recurring then
    (insertTimer (m.write a { m.timer a with next := now + (m.timer a).ms }) a).1
  else m.write a { m.timer a with cb := none }

/-- The loop of `list_expired_cbs` over the timers it has taken out. -/
def expireAll (now : UInt64) :
    List Address → TimerManager → TimerManager × List (Option Callback)
  | [], m => (m, [])
  | a :: rest, m =>
      let later := expireAll now rest (finishExpired m now a)
      (later.1, handOut m a :: later.2)

/-- `TimerManager::list_expired_cbs`, with nothing in between: the new state and `cbs`. -/
def listExpiredCbs (m : TimerManager) (now : UInt64) (probe : Address) :
    TimerManager × List (Option Callback) :=
  let batch := expiredTimers m now probe
  expireAll now batch.1 { m with timers := batch.2 }

/-! ### The comparator -/

theorem before_iff {heap : Heap} {a b : Nat} :
    before heap a b = true ↔
      (heap a).next < (heap b).next ∨ ((heap a).next = (heap b).next ∧ a < b) := by
  unfold before comparator
  simp only [UInt64.lt_iff_toNat_lt, ← UInt64.toNat_inj]
  split
  next less => simp only [less, true_or]
  next notLess =>
    split
    next greater =>
      simp only [Bool.false_eq_true, false_iff]
      omega
    next notGreater =>
      rw [decide_eq_true_eq]
      change a < b ↔ _
      omega

theorem before_eq_false_iff {heap : Heap} {a b : Nat} :
    before heap a b = false ↔
      (heap b).next < (heap a).next ∨ ((heap a).next = (heap b).next ∧ b ≤ a) := by
  rw [← Bool.not_eq_true, before_iff]
  simp only [UInt64.lt_iff_toNat_lt, ← UInt64.toNat_inj]
  omega

/-- What comes before is due no later. -/
theorem next_le_of_before {heap : Heap} {a b : Nat} (less : before heap a b = true) :
    (heap a).next ≤ (heap b).next := by
  rcases before_iff.mp less with earlier | ⟨same, _⟩
  · exact UInt64.le_of_lt earlier
  · exact UInt64.le_of_eq same

/-- **The comparator is a strict total order of the addresses, whatever the heap holds.** -/
theorem before_strictOrder (heap : Heap) : OrderedSet.StrictOrder (before heap) where
  irrefl a := by simp [before_eq_false_iff]
  trans {a b c} first second := by
    rw [before_iff] at *
    simp only [UInt64.lt_iff_toNat_lt, ← UInt64.toNat_inj] at *
    omega
  total {a b} first second := by
    rw [before_eq_false_iff] at *
    simp only [UInt64.lt_iff_toNat_lt, ← UInt64.toNat_inj] at *
    refine Nat.le_antisymm ?_ ?_ <;> omega

/-- The comparator reads nothing of an element but its `m_next`. -/
theorem before_congr {heap heap' : Heap} {a b : Address} (sameA : (heap' a).next = (heap a).next)
    (sameB : (heap' b).next = (heap b).next) : before heap' a b = before heap a b := by
  simp only [before, comparator, sameA, sameB]

/-! ### What each piece leaves alone -/

@[simp] theorem write_timers (m : TimerManager) (a : Address) (t : Timer) :
    (m.write a t).timers = m.timers := rfl

@[simp] theorem write_timer_self (m : TimerManager) (a : Address) (t : Timer) :
    (m.write a t).timer a = t := by
  simp [TimerManager.write]

theorem write_timer_of_ne {m : TimerManager} {a b : Address} (other : b ≠ a) (t : Timer) :
    (m.write a t).timer b = m.timer b := by
  simp [TimerManager.write, other]

@[simp] theorem insertTimer_timer (m : TimerManager) (a : Address) :
    (insertTimer m a).1.timer = m.timer := rfl

@[simp] theorem mem_insertTimer {m : TimerManager} {a b : Address} :
    b ∈ (insertTimer m a).1.timers ↔ b = a ∨ b ∈ m.timers :=
  OrderedSet.mem_insert (before_strictOrder _)

@[simp] theorem eraseTimer_timer (m : TimerManager) (it : Address) :
    (eraseTimer m it).timer = m.timer := rfl

/-- What an iteration of the expiry loop writes. -/
def finished (t : Timer) (now : UInt64) : Timer :=
  if t.recurring then { t with next := now + t.ms } else { t with cb := none }

@[simp] theorem finished_recurring (t : Timer) (now : UInt64) :
    (finished t now).recurring = t.recurring := by
  unfold finished
  split <;> rfl

theorem finishExpired_timer (m : TimerManager) (now : UInt64) (a : Address) :
    (finishExpired m now a).timer = Function.update m.timer a (finished (m.timer a) now) := by
  unfold finishExpired finished
  split <;> rfl

/-- It changes no object but its own. -/
theorem finishExpired_timer_of_ne {m : TimerManager} {now : UInt64} {a b : Address}
    (other : b ≠ a) : (finishExpired m now a).timer b = m.timer b := by
  rw [finishExpired_timer, Function.update_of_ne other]

/-- Whether a timer is recurring never changes. -/
@[simp] theorem finishExpired_recurring (m : TimerManager) (now : UInt64) (a b : Address) :
    ((finishExpired m now a).timer b).recurring = (m.timer b).recurring := by
  by_cases same : b = a
  · subst same
    rw [finishExpired_timer, Function.update_self, finished_recurring]
  · rw [finishExpired_timer_of_ne same]

/-- The set gains at most the timer itself, and only if it is recurring. -/
theorem mem_timers_finishExpired {m : TimerManager} {now : UInt64} {a b : Address} :
    b ∈ (finishExpired m now a).timers ↔
      b ∈ m.timers ∨ b = a ∧ (m.timer b).recurring = true := by
  unfold finishExpired
  split
  next recurring =>
    rw [mem_insertTimer, write_timers, or_comm]
    exact or_congr_right ⟨fun same => ⟨same, same ▸ recurring⟩, And.left⟩
  next oneShot =>
    rw [write_timers]
    exact (or_iff_left fun ⟨same, recurring⟩ => oneShot (same ▸ recurring)).symm

@[simp] theorem finishExpired_created (m : TimerManager) (now : UInt64) (a : Address) :
    (finishExpired m now a).created = m.created := by
  unfold finishExpired
  split <;> rfl

end Sylar.Timers
