/-
**Whether a timer fires early: `m_next` against the due time in unbounded arithmetic.**

`m_next` is computed by additions and a subtraction of `uint64_t`s that nothing checks. A `Ledger`
runs the calls on the manager and keeps, beside it, the due time of every timer in `ℤ`, and what
`list_expired_cbs` has handed out, with the clock reading and the due time it was handed out at.

* `dueSet` — the due time a call sets; `Fits` — it is below `2 ^ 64`.
* `Keeps t exact` — `m_next` is the exact due time modulo `2 ^ 64`, which is no less than the
  period; `Tracks.step` — **every call keeps that**, wrapped around or not.
* `onTime_iff` — **in every run a timer is handed out on time exactly when its due time is below
  `2 ^ 64`**.
* `no_timer_fires_early` — **in every run whose due times fit, no timer fires early**;
  `timer_fires_early` — one made for the longest period fires in the millisecond it was made.
-/

import Sylar.Timers.Due
import Mathlib.Algebra.Group.Int.Defs

namespace Sylar.Timers

open Sylar.Library

/-- A callback handed out: whose it is, at which clock reading, and the exact due time. -/
structure HandedOut where
  timer : Address
  cb : Option Callback
  now : UInt64
  due : Int

/-- The manager, the exact due times, and what has been handed out. -/
structure Ledger where
  manager : TimerManager
  due : Address → Int
  handed : List HandedOut

/-- The due time a call sets, in exact arithmetic. -/
def dueSet (s : Ledger) : Call → Address → Option Int
  | .addTimer a now ms _ _, b => if b = a then some (now.toNat + ms.toNat) else none
  | .cancel _, _ => none
  | .refresh a now, b =>
      if b = a ∧ (refresh s.manager a now).2 = true then
        some (now.toNat + (s.manager.timer a).ms.toNat)
      else none
  | .reset a now ms fromNow, b =>
      if b = a ∧ (reset s.manager a now ms fromNow).2 = true then
        some (if fromNow then now.toNat + ms.toNat
          else s.due a - (s.manager.timer a).ms.toNat + ms.toNat)
      else none
  | .listExpiredCbs now probe, b =>
      if b ∈ (expiredTimers s.manager now probe).1 ∧ (s.manager.timer b).recurring = true then
        some (now.toNat + (s.manager.timer b).ms.toNat)
      else none

/-- The exact due times after a call. -/
def dueAfter (s : Ledger) (c : Call) (b : Address) : Int := (dueSet s c b).getD (s.due b)

/-- What a call hands out. -/
def handedBy (s : Ledger) : Call → List HandedOut
  | .listExpiredCbs now probe =>
      (expiredTimers s.manager now probe).1.map fun a =>
        { timer := a, cb := (s.manager.timer a).cb, now, due := s.due a }
  | _ => []

/-- One call, with the exact due times beside it. -/
def ledgerStep (s : Ledger) (c : Call) : Option Ledger :=
  (step s.manager c).map fun manager =>
    { manager, due := dueAfter s c, handed := s.handed ++ handedBy s c }

/-- Runs of calls on a new manager, with the exact due times. -/
def ledger : Machine Ledger Call := ⟨fun s => s = ⟨empty, fun _ => 0, []⟩, ledgerStep⟩

/-- The due time the call sets, if any, is a `uint64_t`. -/
def Fits (s : Ledger) (c : Call) : Prop := ∀ b exact, dueSet s c b = some exact → exact < 2 ^ 64

/-- Only the timer of the call and those in the set have their due times set. -/
theorem mem_of_dueSet {s : Ledger} {c : Call} {b : Address} {exact : Int}
    (set : dueSet s c b = some exact) : b ∈ c.handle.toList ++ s.manager.timers := by
  cases c with
  | listExpiredCbs now probe =>
    obtain ⟨⟨taken, -⟩, -⟩ := Option.ite_none_right_eq_some.mp set
    exact List.mem_append_right _ (mem_timers_of_expired taken)
  | addTimer a =>
    obtain ⟨rfl, -⟩ := Option.ite_none_right_eq_some.mp set
    exact List.mem_append_left _ List.mem_cons_self
  | refresh a | reset a =>
    obtain ⟨⟨rfl, -⟩, -⟩ := Option.ite_none_right_eq_some.mp set
    exact List.mem_append_left _ List.mem_cons_self
  | cancel => cases set

instance (s : Ledger) (c : Call) : Decidable (Fits s c) :=
  decidable_of_iff
    (∀ b ∈ c.handle.toList ++ s.manager.timers, ∀ exact ∈ dueSet s c b, exact < 2 ^ 64)
    ⟨fun fits b exact set => fits b (mem_of_dueSet set) exact set,
      fun fits b _ exact set => fits b exact set⟩

/-- No timer has been handed out before it was due. -/
def Ledger.OnTime (s : Ledger) : Prop := ∀ h ∈ s.handed, h.due ≤ h.now.toNat

instance (s : Ledger) : Decidable s.OnTime :=
  inferInstanceAs (Decidable (∀ h ∈ s.handed, h.due ≤ h.now.toNat))

/-- What is recorded as handed out is what `list_expired_cbs` puts into `cbs`. -/
theorem handedBy_listExpiredCbs {s : Ledger} (sorted : s.manager.Sorted) (now : UInt64)
    (probe : Address) :
    (handedBy s (.listExpiredCbs now probe)).map (·.cb) =
      (listExpiredCbs s.manager now probe).2 := by
  rw [listExpiredCbs_cbs sorted, handedBy, List.map_map]
  rfl

/-- What a call hands out are timers of the set, with their due times. -/
theorem mem_handedBy {s : Ledger} {c : Call} {h : HandedOut} (member : h ∈ handedBy s c) :
    h.timer ∈ s.manager.timers ∧ h.due = s.due h.timer := by
  cases c with
  | listExpiredCbs now probe =>
    obtain ⟨a, taken, rfl⟩ := List.mem_map.mp member
    exact ⟨mem_timers_of_expired taken, rfl⟩
  | addTimer | cancel | refresh | reset => cases member

/-! ### `m_next` is the due time modulo `2 ^ 64` -/

/-- What an object knows of its exact due time. -/
structure Keeps (t : Timer) (exact : Int) : Prop where
  wraps : (t.next.toNat : Int) = exact % 2 ^ 64
  period : (t.ms.toNat : Int) ≤ exact

/-- The due time counted from a clock reading. -/
theorem Keeps.of_now {t : Timer} {now : UInt64} (next : t.next = now + t.ms) :
    Keeps t (now.toNat + t.ms.toNat) := by
  refine ⟨?_, Int.le_add_of_nonneg_left (Int.natCast_nonneg _)⟩
  rw [next, UInt64.toNat_add]
  rfl

/-- The due time counted from where the old period began. -/
theorem Keeps.resetNext {t : Timer} {exact : Int} (keeps : Keeps t exact) (now ms : UInt64) :
    Keeps { t with next := resetNext t now ms false, ms }
      (exact - t.ms.toNat + ms.toNat) := by
  have wraps := keeps.wraps
  have period := keeps.period
  have small := t.ms.toNat_lt
  refine ⟨?_, ?_⟩
  · simp only [Timers.resetNext, Bool.false_eq_true, if_false, UInt64.toNat_add, UInt64.toNat_sub]
    omega
  · show (ms.toNat : Int) ≤ _
    omega

/-- **On time, exactly when the due time is a `uint64_t`**: if it is not, no clock reading is as
late. -/
theorem Keeps.onTime_iff {t : Timer} {exact : Int} (keeps : Keeps t exact) {now : UInt64}
    (isDue : t.next ≤ now) : exact ≤ now.toNat ↔ exact < 2 ^ 64 := by
  have wraps := keeps.wraps
  have period := keeps.period
  have reading := now.toNat_lt
  rw [UInt64.le_iff_toNat_le] at isDue
  constructor
  · intro onTime
    omega
  · intro fits
    rw [Int.emod_eq_of_lt (by omega) fits] at wraps
    omega

/-- The invariant: the set is in order, the timers in it know their due times, and what has been
handed out was on time exactly when its due time was a `uint64_t`. -/
structure Tracks (s : Ledger) : Prop where
  placed : Placed s.manager []
  keeps : ∀ a ∈ s.manager.timers, Keeps (s.manager.timer a) (s.due a)
  handed : ∀ h ∈ s.handed, h.due ≤ h.now.toNat ↔ h.due < 2 ^ 64

theorem dueAfter_of_none {s : Ledger} {c : Call} {b : Address} (none : dueSet s c b = none) :
    dueAfter s c b = s.due b := by
  rw [dueAfter, none, Option.getD_none]

theorem dueAfter_of_some {s : Ledger} {c : Call} {b : Address} {exact : Int}
    (some : dueSet s c b = some exact) : dueAfter s c b = exact := by
  rw [dueAfter, some, Option.getD_some]

namespace Tracks

variable {s : Ledger}

/-- A call on a timer sets the due time of no other. -/
theorem dueSet_other {c : Call} {a b : Address} (handle : c.handle = some a) (other : b ≠ a) :
    dueSet s c b = none := by
  cases c <;> simp_all [dueSet, Call.handle]

/-- **What one call does to the timer it is made on.** -/
theorem keeps_self (tracks : Tracks s) {c : Call} {a : Address} {manager : TimerManager}
    (stepped : step s.manager c = some manager) (handle : c.handle = some a)
    (inside : a ∈ manager.timers) : Keeps (manager.timer a) (dueAfter s c a) := by
  cases c with
  | addTimer b now ms cb recurring =>
    cases handle
    obtain ⟨-, same⟩ := Option.ite_none_left_eq_some.mp stepped
    cases same
    have set : dueSet s (.addTimer a now ms cb recurring) a = some (now.toNat + ms.toNat) :=
      if_pos rfl
    rw [dueAfter_of_some set, addTimer, insertTimer_timer, write_timer_self]
    exact .of_now (t := { recurring, ms, next := now + ms, cb }) rfl
  | cancel b =>
    cases handle
    obtain ⟨-, same⟩ := Option.ite_none_right_eq_some.mp stepped
    cases same
    rw [cancel_eq tracks.placed.sorted] at inside ⊢
    split at inside
    next silent =>
      rw [if_pos silent]
      exact tracks.keeps a inside
    next => exact absurd rfl (tracks.placed.sorted.mem_disarm.mp inside).1
  | refresh b now =>
    cases handle
    obtain ⟨-, same⟩ := Option.ite_none_right_eq_some.mp stepped
    cases same
    have closed := refresh_eq tracks.placed.sorted a now
    split at closed
    next =>
      have set : dueSet s (.refresh a now) a = none := if_neg (by simp [closed])
      rw [closed] at inside ⊢
      rw [dueAfter_of_none set]
      exact tracks.keeps a inside
    next =>
      have set : dueSet s (.refresh a now) a =
          some (now.toNat + (s.manager.timer a).ms.toNat) := if_pos ⟨rfl, by rw [closed]⟩
      rw [closed, dueAfter_of_some set, rekey_timer, Function.update_self]
      exact .of_now (t := { s.manager.timer a with next := now + (s.manager.timer a).ms }) rfl
  | reset b now ms fromNow =>
    cases handle
    obtain ⟨-, same⟩ := Option.ite_none_right_eq_some.mp stepped
    cases same
    have closed := reset_eq tracks.placed.sorted a now ms fromNow
    have set (done : (reset s.manager a now ms fromNow).2 = true) :=
      dueAfter_of_some (s := s) (c := .reset a now ms fromNow) (b := a) (if_pos ⟨rfl, done⟩)
    split at closed
    next shortcut =>
      -- the period is the same: neither the object nor the due time changes
      obtain ⟨rfl, rfl⟩ := shortcut
      rw [set (by rw [closed]), closed, if_neg Bool.false_ne_true, Int.sub_add_cancel]
      rw [closed] at inside
      exact tracks.keeps a inside
    next =>
      split at closed
      next outside =>
        rw [closed] at inside
        exact absurd inside outside
      next held =>
        rw [set (by rw [closed]), closed, rekey_timer, Function.update_self]
        cases fromNow with
        | true => exact .of_now (t := { s.manager.timer a with next := now + ms, ms }) rfl
        | false => exact (tracks.keeps a (not_not.mp held)).resetNext now ms
  | listExpiredCbs now probe => cases handle

/-- **What `list_expired_cbs` does to a timer**: in the batch, it is armed again at the reading it
was found due at; else it is left alone. -/
theorem keeps_listExpiredCbs (tracks : Tracks s) {now : UInt64} {probe b : Address}
    (inside : b ∈ (listExpiredCbs s.manager now probe).1.timers) :
    Keeps ((listExpiredCbs s.manager now probe).1.timer b)
      (dueAfter s (.listExpiredCbs now probe) b) := by
  have distinct := tracks.placed.sorted.nodup_expiredTimers now probe
  rcases mem_timers_expireAll.mp inside with left | ⟨taken, recurring⟩
  · have out : b ∉ (expiredTimers s.manager now probe).1 := fun taken => distinct.2.2 taken left
    have set : dueSet s (.listExpiredCbs now probe) b = none := if_neg fun again => out again.1
    rw [dueAfter_of_none set, listExpiredCbs, expireAll_timer_of_not_mem out]
    exact tracks.keeps b (mem_timers_of_left left)
  · have set : dueSet s (.listExpiredCbs now probe) b =
        some (now.toNat + (s.manager.timer b).ms.toNat) := if_pos ⟨taken, recurring⟩
    rw [dueAfter_of_some set, listExpiredCbs, expireAll_timer_of_mem distinct.1 taken, finished]
    simp only [if_pos recurring]
    exact .of_now (t := { s.manager.timer b with next := now + (s.manager.timer b).ms }) rfl

/-- **What is handed out is on time exactly when its due time is a `uint64_t`.** -/
theorem handedBy_onTime_iff (tracks : Tracks s) {c : Call} {manager : TimerManager}
    (stepped : step s.manager c = some manager) {h : HandedOut} (member : h ∈ handedBy s c) :
    h.due ≤ h.now.toNat ↔ h.due < 2 ^ 64 := by
  cases c with
  | listExpiredCbs now probe =>
    obtain ⟨fresh, -⟩ := Option.ite_none_left_eq_some.mp stepped
    obtain ⟨a, taken, rfl⟩ := List.mem_map.mp member
    have inside : a ∈ s.manager.timers := mem_timers_of_expired taken
    have outside : probe ∉ s.manager.timers := fun held =>
      fresh (tracks.placed.known probe (.inr held))
    exact (tracks.keeps a inside).onTime_iff (expiredTimers_due outside taken)
  | addTimer | cancel | refresh | reset => cases member

/-- **Every call keeps the invariant.** -/
theorem step (tracks : Tracks s) {c : Call} {s' : Ledger} (stepped : ledgerStep s c = some s') :
    Tracks s' := by
  obtain ⟨manager, ran, rfl⟩ := Option.map_eq_some_iff.mp stepped
  refine ⟨tracks.placed.step ran, fun b inside => ?_, fun h member => ?_⟩
  · cases handle : c.handle with
    | none =>
      cases c with
      | listExpiredCbs now probe =>
        obtain ⟨-, same⟩ := Option.ite_none_left_eq_some.mp ran
        cases same
        exact tracks.keeps_listExpiredCbs inside
      | addTimer | cancel | refresh | reset => cases handle
    | some a =>
      rcases eq_or_ne b a with rfl | other
      · exact tracks.keeps_self ran handle inside
      · obtain ⟨same, still⟩ := (effect_of_step tracks.placed ran handle).other tracks.placed other
        show Keeps (manager.timer b) (dueAfter s c b)
        rw [dueAfter_of_none (dueSet_other handle other), same]
        exact tracks.keeps b (still.mp inside)
  · rcases List.mem_append.mp member with before | now
    · exact tracks.handed h before
    · exact tracks.handedBy_onTime_iff ran now

theorem reachable (reached : ledger.Reachable s) : Tracks s := by
  refine reached.invariant ?_ fun _ _ _ tracks _ stepped => tracks.step stepped
  rintro _ rfl
  exact ⟨placed_empty, fun a inside => absurd inside List.not_mem_nil,
    fun h member => absurd member List.not_mem_nil⟩

/-- **Only timers that were made are handed out.** -/
theorem created_of_handed (reached : ledger.Reachable s) :
    ∀ h ∈ s.handed, h.timer ∈ s.manager.created := by
  have both : Tracks s ∧ ∀ h ∈ s.handed, h.timer ∈ s.manager.created := by
    refine reached.invariant (P := fun s => Tracks s ∧ ∀ h ∈ s.handed, h.timer ∈ s.manager.created)
      ?_ fun s c s' ⟨tracks, known⟩ _ stepped => ⟨tracks.step stepped, fun h member => ?_⟩
    · rintro _ rfl
      exact ⟨Tracks.reachable (.start rfl), fun h member => by cases member⟩
    · obtain ⟨manager, ran, rfl⟩ := Option.map_eq_some_iff.mp stepped
      have kept : s.manager.created ⊆ manager.created := created_of_step tracks.placed ran
      rcases List.mem_append.mp member with before | handed
      · exact kept (known h before)
      · exact kept (tracks.placed.known h.timer (.inr (mem_handedBy handed).1))
  exact both.2

end Tracks

/-- **In every run a timer is handed out on time exactly when its due time is a `uint64_t`.** -/
theorem onTime_iff (s : Ledger) (reached : ledger.Reachable s) :
    s.OnTime ↔ ∀ h ∈ s.handed, h.due < 2 ^ 64 :=
  forall₂_congr (Tracks.reachable reached).handed

/-! ### Runs whose due times fit -/

/-- In a run whose due times fit, those of the timers and of what was handed out do. -/
theorem due_lt_of_fits {s : Ledger} (reached : ledger.ReachableWhen Fits s) :
    (∀ a, s.due a < 2 ^ 64) ∧ ∀ h ∈ s.handed, h.due < 2 ^ 64 := by
  refine reached.invariant (P := fun s => (∀ a, s.due a < 2 ^ 64) ∧ ∀ h ∈ s.handed, h.due < 2 ^ 64)
    ?_ fun s c s' ⟨small, handed⟩ fits stepped => ?_
  · rintro _ rfl
    exact ⟨fun a => by simp, fun h member => by cases member⟩
  · obtain ⟨manager, -, rfl⟩ := Option.map_eq_some_iff.mp stepped
    refine ⟨fun a => ?_, fun h member => ?_⟩
    · show dueAfter s c a < 2 ^ 64
      cases set : dueSet s c a with
      | none => exact dueAfter_of_none set ▸ small a
      | some exact => exact dueAfter_of_some set ▸ fits a exact set
    · rcases List.mem_append.mp member with before | now
      · exact handed h before
      · rw [(mem_handedBy now).2]
        exact small h.timer

/-- **No timer fires early, in any run whose due times fit.** -/
theorem no_timer_fires_early (s : Ledger) (reached : ledger.ReachableWhen Fits s) : s.OnTime :=
  (onTime_iff s reached.reachable).mpr (due_lt_of_fits reached).2

/-- A recurring timer, reset to twice its period, that is due at 20 and armed again. -/
theorem no_timer_fires_early_reset :
    ∃ s, ledger.ReachableWhen Fits s ∧
      s.handed.map (fun h => (h.timer, h.now, h.due)) = [(7, 20, 20)] ∧ s.due 7 = 40 ∧
      s.OnTime := by
  have run : ∃ s, ledger.ReachableWhen Fits s ∧ decide (s.handed.map (fun h =>
      (h.timer, h.now, h.due)) = [(7, 20, 20)] ∧ s.due 7 = 40) = true :=
    Machine.reachableWhen_of_replay rfl
      [.addTimer 7 0 10 (some 1) true, .reset 7 5 20 false, .listExpiredCbs 20 9] _ (by decide)
  obtain ⟨s, reached, check⟩ := run
  obtain ⟨handed, due⟩ := of_decide_eq_true check
  exact ⟨s, reached, handed, due, no_timer_fires_early s reached⟩

/-- A timer for the longest period there is, made at 10 and handed out at 10. -/
theorem timer_fires_early : ∃ s, ledger.Reachable s ∧ ¬ s.OnTime := by
  obtain ⟨s, reached, early⟩ := Machine.reachable_of_replay (m := ledger) rfl
    [.addTimer 7 10 0xFFFFFFFFFFFFFFFF (some 1) false, .listExpiredCbs 10 9]
    (fun s => !decide s.OnTime) (by decide)
  exact ⟨s, reached, by simpa using early⟩

end Sylar.Timers
