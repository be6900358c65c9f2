/-
**How long the hooked `sleep` and `usleep` sleep.**

Both arm a timer whose callback schedules the calling fiber, and suspend the fiber. Nobody else has
the timer: the `Timer::ptr` is dropped. Its period is computed in 32 bits, by a multiplication that
wraps around and by a division that rounds down, before it becomes a `uint64_t`.

* `Undisturbed` — **the timer keeps its due time until it expires**, whatever is called on others.
* `sleepsLong_period` — so it is handed out after its period at the earliest, and may be right then.
* `sleeps_long_iff` — **a call sleeps as long as asked exactly when its period is not cut short**;
  `short_usleep`.
-/

import Mathlib.Algebra.Group.Int.Defs
import Sylar.Timers.Early

namespace Sylar.Hook

open Sylar.Library
open Sylar.Timers (Address HandedOut Ledger TimerManager Tracks expiredTimers ledger ledgerStep)

/-- A call on a thread with hooks. -/
inductive SleepCall
  | sleep (seconds : UInt32)
  | usleep (useconds : UInt32)
deriving DecidableEq

namespace SleepCall

/-- The period: `seconds * 1000` and `useconds / 1000`, as `uint64_t`. -/
def period : SleepCall → UInt64
  | .sleep seconds => (seconds * 1000).toUInt64
  | .usleep useconds => (useconds / 1000).toUInt64

/-- What is asked for, in microseconds. -/
def asked : SleepCall → Nat
  | .sleep seconds => seconds.toNat * 1000000
  | .usleep useconds => useconds.toNat

/-- **The condition**: the milliseconds fit 32 bits, and the microseconds are whole milliseconds. -/
def Uncut : SleepCall → Prop
  | .sleep seconds => seconds.toNat * 1000 < 2 ^ 32
  | .usleep useconds => useconds.toNat % 1000 = 0

instance : DecidablePred Uncut
  | .sleep seconds => inferInstanceAs (Decidable (seconds.toNat * 1000 < 2 ^ 32))
  | .usleep useconds => inferInstanceAs (Decidable (useconds.toNat % 1000 = 0))

/-- `add_timer`, at the clock reading `t`; `schedules` is the closure. -/
def timer (call : SleepCall) (a : Address) (t : UInt64) (schedules : Callback) : Timers.Call :=
  .addTimer a t call.period (some schedules) false

end SleepCall

/-- The calls on the manager afterwards, with none on the timer of the call. -/
def asleep (a : Address) (s : Ledger) : Machine Ledger Timers.Call where
  start later := later = s
  step later call := if call.handle = some a then none else ledgerStep later call

/-- `list_expired_cbs` is a call of no timer. -/
theorem asleep_listExpiredCbs {a : Address} {s later : Ledger} (now : UInt64) (probe : Address) :
    (asleep a s).step later (.listExpiredCbs now probe) =
      ledgerStep later (.listExpiredCbs now probe) := by
  simp [asleep, Timers.Call.handle]

/-- **It sleeps long enough**: the callback is handed out `asked` microseconds after `t` or later. -/
def SleepsLong (a : Address) (t : UInt64) (asked : Nat) (s : Ledger) : Prop :=
  ∀ later, (asleep a s).Reachable later → ∀ h ∈ later.handed, h.timer = a →
    (asked : Int) ≤ (h.now.toNat - t.toNat) * 1000

/-! ### The timer of the call -/

section Asleep

variable {s s' later : Ledger} {a : Address} {t ms : UInt64} {exact : Int}

/-- **Nobody else has the timer**: it is not recurring, and its due time is the one it was made with,
also in what was handed out. -/
structure Undisturbed (a : Address) (exact : Int) (s : Ledger) : Prop where
  tracks : Tracks s
  oneShot : (s.manager.timer a).recurring = false
  due : s.due a = exact
  handed : ∀ h ∈ s.handed, h.timer = a → h.due = exact

/-- **The step lemma.** -/
theorem Undisturbed.step (undisturbed : Undisturbed a exact s) {call : Timers.Call}
    (other : call.handle ≠ some a) (stepped : ledgerStep s call = some s') :
    Undisturbed a exact s' := by
  have tracks := undisturbed.tracks
  have after := tracks.step stepped
  obtain ⟨manager, ran, rfl⟩ := Option.map_eq_some_iff.mp stepped
  have kept : (manager.timer a).recurring = (s.manager.timer a).recurring ∧
      Timers.dueSet s call a = none := by
    cases handle : call.handle with
    | some b =>
      have distinct : a ≠ b := fun same => other (same ▸ handle)
      refine ⟨?_, Tracks.dueSet_other handle distinct⟩
      rw [((Timers.effect_of_step tracks.placed ran handle).other tracks.placed distinct).1]
    | none =>
      cases call with
      | listExpiredCbs now probe =>
        obtain ⟨-, same⟩ := Option.ite_none_left_eq_some.mp ran
        cases same
        refine ⟨Timers.listExpiredCbs_recurring .., if_neg fun again => ?_⟩
        exact Bool.false_ne_true (undisturbed.oneShot.symm.trans again.2)
      | addTimer | cancel | refresh | reset => cases handle
  refine ⟨after, kept.1.trans undisturbed.oneShot,
    (Timers.dueAfter_of_none kept.2).trans undisturbed.due, fun h member same => ?_⟩
  rcases List.mem_append.mp member with before | handed
  · exact undisturbed.handed h before same
  · rw [(Timers.mem_handedBy handed).2, same]
    exact undisturbed.due

theorem undisturbed_asleep (undisturbed : Undisturbed a exact s)
    (reached : (asleep a s).Reachable later) : Undisturbed a exact later := by
  refine reached.invariant ?_ fun s call s' undisturbed _ stepped => ?_
  · rintro _ rfl
    exact undisturbed
  · obtain ⟨other, stepped⟩ := Option.ite_none_left_eq_some.mp stepped
    exact undisturbed.step other stepped

end Asleep

/-! ### When it expires -/

section Expires

variable {s s' : Ledger} {a : Address} {t ms : UInt64} {cb : Option Callback}

/-- The timer has just been made. -/
theorem undisturbed_of_added (reached : ledger.Reachable s)
    (added : ledgerStep s (.addTimer a t ms cb false) = some s') :
    Undisturbed a (t.toNat + ms.toNat) s' := by
  have after := (Tracks.reachable reached).step added
  obtain ⟨manager, ran, rfl⟩ := Option.map_eq_some_iff.mp added
  obtain ⟨fresh, same⟩ := Option.ite_none_left_eq_some.mp ran
  cases same
  refine ⟨after, ?_, Timers.dueAfter_of_some (if_pos rfl), fun h member same => ?_⟩
  · rw [Timers.addTimer, Timers.insertTimer_timer, Timers.write_timer_self]
  · rcases List.mem_append.mp member with before | handed
    · exact absurd (same ▸ Tracks.created_of_handed reached h before) fresh
    · cases handed

/-- It is in the set, with its due time in `m_next`. -/
theorem armed_of_added (added : ledgerStep s (.addTimer a t ms cb false) = some s') :
    a ∈ s'.manager.timers ∧ (s'.manager.timer a).next = t + ms := by
  obtain ⟨manager, ran, rfl⟩ := Option.map_eq_some_iff.mp added
  obtain ⟨-, same⟩ := Option.ite_none_left_eq_some.mp ran
  cases same
  refine ⟨Timers.mem_insertTimer.mpr (.inl rfl), ?_⟩
  rw [Timers.addTimer, Timers.insertTimer_timer, Timers.write_timer_self]

/-- An address above all in use. -/
theorem exists_above (created : List Address) : ∃ probe : Address, ∀ b ∈ created, b < probe := by
  induction created with
  | nil => exact ⟨0, nofun⟩
  | cons first rest ih =>
    obtain ⟨probe, above⟩ := ih
    refine ⟨max probe (first + 1), List.forall_mem_cons.mpr ⟨?_, fun b member => ?_⟩⟩
    · exact Nat.le_max_right probe (first + 1)
    · exact Nat.lt_of_lt_of_le (above b member) (Nat.le_max_left probe (first + 1))

/-- **It may expire at its due time**, at the call that finds the probe above all timers. -/
theorem handed_when_due (tracks : Tracks s) (inside : a ∈ s.manager.timers) :
    ∃ later, (asleep a s).Reachable later ∧
      ∃ h ∈ later.handed, h.timer = a ∧ h.now = (s.manager.timer a).next := by
  obtain ⟨probe, above⟩ := exists_above s.manager.created
  have known : ∀ b ∈ s.manager.timers, b ∈ s.manager.created := fun b inside =>
    tracks.placed.known b (.inr inside)
  have fresh : probe ∉ s.manager.created := fun used => Nat.lt_irrefl _ (above probe used)
  let now := (s.manager.timer a).next
  have batch : (expiredTimers s.manager now probe).1 = Timers.due s.manager now :=
    (Timers.expiredTimers_eq_due_iff tracks.placed.sorted fun used => fresh (known probe used)).mpr
      (.inl fun b inside _ => above b (known b inside))
  have taken : a ∈ (expiredTimers s.manager now probe).1 :=
    batch ▸ Timers.mem_due.mpr ⟨inside, UInt64.le_refl _⟩
  have ran : Timers.step s.manager (.listExpiredCbs now probe) =
      some (Timers.listExpiredCbs s.manager now probe).1 := if_neg fresh
  have handedOut : { timer := a, cb := (s.manager.timer a).cb, now, due := s.due a } ∈
      Timers.handedBy s (.listExpiredCbs now probe) := List.mem_map.mpr ⟨a, taken, rfl⟩
  have stepped : (asleep a s).step s (.listExpiredCbs now probe) =
      some ⟨(Timers.listExpiredCbs s.manager now probe).1,
        Timers.dueAfter s (.listExpiredCbs now probe),
        s.handed ++ Timers.handedBy s (.listExpiredCbs now probe)⟩ := by
    rw [asleep_listExpiredCbs, ledgerStep, ran]
    rfl
  exact ⟨_, .step (.start rfl) trivial stepped, _, List.mem_append_right _ handedOut, rfl, rfl⟩

/-- **It sleeps for its period**, not longer. -/
theorem sleepsLong_period (reached : ledger.Reachable s) (early : t.toNat + ms.toNat < 2 ^ 64)
    (added : ledgerStep s (.addTimer a t ms cb false) = some s') (asked : Nat) :
    SleepsLong a t asked s' ↔ asked ≤ ms.toNat * 1000 := by
  have undisturbed := undisturbed_of_added reached added
  obtain ⟨inside, next⟩ := armed_of_added added
  constructor
  · intro long
    obtain ⟨later, ran, h, member, same, now⟩ := handed_when_due undisturbed.tracks inside
    have enough := long later ran h member same
    rw [now, next, UInt64.toNat_add, Nat.mod_eq_of_lt early] at enough
    omega
  · intro enough later ran h member same
    have held := undisturbed_asleep undisturbed ran
    have due := held.handed h member same
    have onTime := (held.tracks.handed h member).mpr (by omega)
    omega

end Expires

/-! ### Main result -/

/-- A period in milliseconds is as long as asked when it is not cut short. -/
theorem asked_le_period (call : SleepCall) :
    call.asked ≤ call.period.toNat * 1000 ↔ call.Uncut := by
  cases call with
  | sleep seconds =>
    have wraps : (SleepCall.sleep seconds).period.toNat = seconds.toNat * 1000 % 2 ^ 32 := by
      show (seconds * 1000).toUInt64.toNat = _
      rw [UInt32.toNat_toUInt64, UInt32.toNat_mul]
      rfl
    show seconds.toNat * 1000000 ≤ _ ↔ seconds.toNat * 1000 < 2 ^ 32
    rw [wraps]
    omega
  | usleep useconds =>
    have rounds : (SleepCall.usleep useconds).period.toNat = useconds.toNat / 1000 := by
      show (useconds / 1000).toUInt64.toNat = _
      rw [UInt32.toNat_toUInt64, UInt32.toNat_div]
      rfl
    show useconds.toNat ≤ _ ↔ useconds.toNat % 1000 = 0
    rw [rounds]
    omega

/-- **A call sleeps as long as asked** if and only if its milliseconds fit 32 bits and its
microseconds are whole milliseconds: after any calls on the manager, and whatever is called on other
timers. -/
theorem sleeps_long_iff (call : SleepCall) {s s' : Ledger} (reached : ledger.Reachable s)
    {a : Address} {t : UInt64} {schedules : Callback} (early : t.toNat < 2 ^ 63)
    (added : ledgerStep s (call.timer a t schedules) = some s') :
    SleepsLong a t call.asked s' ↔ call.Uncut := by
  have small : call.period.toNat < 2 ^ 32 := by
    cases call with
    | sleep seconds => exact (seconds * 1000).toNat_lt
    | usleep useconds => exact (useconds / 1000).toNat_lt
  rw [sleepsLong_period reached (by omega) added, asked_le_period]

/-- `sleep(2)`, the first call on the manager. -/
theorem sleeps_long_iff_seconds : ∃ s,
    ledgerStep ⟨Timers.empty, fun _ => 0, []⟩ ((SleepCall.sleep 2).timer 7 100 1) = some s ∧
      s.manager.timers = [7] ∧ SleepsLong 7 100 2000000 s := by
  obtain ⟨s, added, armed⟩ := Option.map_eq_some_iff.mp
    (show (ledgerStep ⟨Timers.empty, fun _ => 0, []⟩ ((SleepCall.sleep 2).timer 7 100 1)).map
      (·.manager.timers) = some [7] by decide)
  exact ⟨s, added, armed,
    (sleeps_long_iff (.sleep 2) (.start rfl) (by decide) added).mpr (by decide)⟩

/-- **`usleep(1500)` is over after a millisecond.** -/
theorem short_usleep : ∃ s later, ledger.Reachable s ∧
    ledgerStep ⟨Timers.empty, fun _ => 0, []⟩ ((SleepCall.usleep 1500).timer 7 100 1) = some s ∧
    (asleep 7 s).Reachable later ∧ later.handed.map (fun h => (h.timer, h.now)) = [(7, 101)] ∧
    ¬ SleepsLong 7 100 (SleepCall.usleep 1500).asked s := by
  obtain ⟨s, added, run⟩ := Option.bind_eq_some_iff.mp
    (show ((ledgerStep ⟨Timers.empty, fun _ => 0, []⟩ ((SleepCall.usleep 1500).timer 7 100 1)).bind
      fun s => (ledgerStep s (.listExpiredCbs 101 9)).map fun s =>
        s.handed.map fun h => (h.timer, h.now)) = some [(7, 101)] by decide)
  obtain ⟨later, stepped, handed⟩ := Option.map_eq_some_iff.mp run
  have ran : (asleep 7 s).Reachable later :=
    .step (.start rfl) trivial ((asleep_listExpiredCbs 101 9).trans stepped)
  have reached : ledger.Reachable s :=
    .step (e := (SleepCall.usleep 1500).timer 7 100 1) (.start rfl) trivial added
  refine ⟨s, later, reached, added, ran, handed, fun long => ?_⟩
  obtain ⟨h, member, same⟩ := List.mem_map.mp (handed ▸ List.mem_singleton_self (7, (101 : UInt64)))
  obtain ⟨timer, now⟩ := Prod.mk.inj same
  have enough := long later ran h member timer
  rw [now] at enough
  exact absurd enough (by decide)

end Sylar.Hook
