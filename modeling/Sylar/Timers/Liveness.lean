/-
**What a handle tells of its timer.**

`cancel()`, `refresh()` and `reset()` each answer whether the timer was armed. They find out in three
ways: by `m_cb`, by a lookup in the set, and `reset()` not at all if it is asked for the period the
timer has, not counted from now.

* `Truthful` — the answer is right, and an operation that answers no has done nothing.
* `truthful_iff` — **when it is, in every reachable state**.
-/

import Sylar.Timers.Invariant

namespace Sylar.Timers

open Sylar.Library

/-- An operation of a handle, with the clock reading it makes. -/
inductive Asked
  | cancel
  | refresh (now : UInt64)
  | reset (now ms : UInt64) (fromNow : Bool)
deriving DecidableEq

/-- The operation of the handle `a`. -/
def Asked.run (m : TimerManager) (a : Address) : Asked → TimerManager × Bool
  | .cancel => Timers.cancel m a
  | .refresh now => Timers.refresh m a now
  | .reset now ms fromNow => Timers.reset m a now ms fromNow

/-- **The answer is whether the timer is armed**, and an operation that answers no has done nothing. -/
def Truthful (m : TimerManager) (a : Address) (asked : Asked) : Prop :=
  ((asked.run m a).2 = true ↔ a ∈ m.timers) ∧ ((asked.run m a).2 = false → (asked.run m a).1 = m)

namespace Truthful

variable {m : TimerManager} {a : Address} {asked : Asked}

/-- It answers no, and has done nothing. -/
theorem of_refused (ran : asked.run m a = (m, false)) (out : a ∉ m.timers) : Truthful m a asked := by
  unfold Truthful
  rw [ran]
  exact ⟨iff_of_false Bool.false_ne_true out, fun _ => rfl⟩

/-- It answers yes. -/
theorem of_granted {m' : TimerManager} (ran : asked.run m a = (m', true)) (inside : a ∈ m.timers) :
    Truthful m a asked := by
  unfold Truthful
  rw [ran]
  exact ⟨iff_of_true rfl inside, fun no => by cases no⟩

theorem cancel (sound : Sound m []) (a : Address) : Truthful m a .cancel := by
  have armed : (m.timer a).cb ≠ none ↔ a ∈ m.timers := by simpa using sound.armed a
  by_cases silent : (m.timer a).cb = none
  · refine of_refused ?_ (mt armed.mpr (not_not.mpr silent))
    exact (cancel_eq sound.sorted a).trans (if_pos silent)
  · have ran : Asked.run m a .cancel = (disarm m a, true) :=
      (cancel_eq sound.sorted a).trans (if_neg silent)
    exact of_granted ran (armed.mp silent)

theorem refresh (sound : Sound m []) (a : Address) (now : UInt64) :
    Truthful m a (.refresh now) := by
  have armed : (m.timer a).cb ≠ none ↔ a ∈ m.timers := by simpa using sound.armed a
  have ran := refresh_eq sound.sorted a now
  by_cases inside : a ∈ m.timers
  · rw [if_neg (by simp [armed.mpr inside, inside])] at ran
    exact of_granted ran inside
  · rw [if_pos (.inr inside)] at ran
    exact of_refused ran inside

/-- **`reset` answers right unless it does not look.** -/
theorem reset_iff (sound : Sound m []) (a : Address) (now ms : UInt64) (fromNow : Bool) :
    Truthful m a (.reset now ms fromNow) ↔
      (ms = (m.timer a).ms ∧ fromNow = false → a ∈ m.timers) := by
  have ran := reset_eq sound.sorted a now ms fromNow
  by_cases shortcut : ms = (m.timer a).ms ∧ fromNow = false
  · rw [if_pos shortcut] at ran
    rw [forall_prop_of_true shortcut]
    refine ⟨fun truthful => truthful.1.mp ?_, of_granted ran⟩
    exact congrArg Prod.snd ran
  · rw [if_neg shortcut] at ran
    refine iff_of_true ?_ fun holds => absurd holds shortcut
    by_cases inside : a ∈ m.timers
    · rw [if_neg (not_not.mpr inside)] at ran
      exact of_granted ran inside
    · rw [if_pos inside] at ran
      exact of_refused ran inside

end Truthful

/-- **A handle tells the truth in every reachable state**, except when `reset()` is asked, not from
now, for the period of a timer that is not armed. -/
theorem truthful_iff {m : TimerManager}
    (reached : atomicCalls.ReachableWhen (fun _ c => c.Callable) m) (a : Address) (asked : Asked) :
    Truthful m a asked ↔
      ¬ ∃ now, asked = .reset now (m.timer a).ms false ∧ a ∉ m.timers := by
  have sound := Sound.reachable reached
  cases asked with
  | cancel => exact iff_of_true (.cancel sound a) (by simp)
  | refresh now => exact iff_of_true (.refresh sound a now) (by simp)
  | reset now ms fromNow =>
    rw [Truthful.reset_iff sound]
    constructor
    · rintro looks ⟨later, same, out⟩
      cases same
      exact out (looks ⟨rfl, rfl⟩)
    · rintro not ⟨rfl, rfl⟩
      by_contra out
      exact not ⟨now, rfl, out⟩

/-- A timer that was armed and cancelled. -/
def cancelledOnce : List Call := [.addTimer 3 0 10 (some 1) false, .cancel 3]

/-- It tells that it cannot be refreshed. -/
theorem truthful_cancelled : ∃ m, atomicCalls.replay empty cancelledOnce = some m ∧
    Truthful m 3 (.refresh 5) := by
  refine ⟨_, rfl, (truthful_iff ?_ 3 (.refresh 5)).mpr (by simp)⟩
  exact Machine.ReachableWhen.replayWhen (.start rfl)
    (show atomicCalls.replayWhen (fun _ c => c.Callable) empty cancelledOnce = some _ from rfl)

/-- It tells that it was reset, and stays out of the set. -/
theorem reset_of_cancelled : ∃ m, atomicCalls.ReachableWhen (fun _ c => c.Callable) m ∧
    3 ∈ m.created ∧ (Asked.run m 3 (.reset 5 10 false)).2 = true ∧ 3 ∉ m.timers ∧
      ¬ Truthful m 3 (.reset 5 10 false) := by
  refine ⟨_, Machine.ReachableWhen.replayWhen (.start rfl)
    (show atomicCalls.replayWhen (fun _ c => c.Callable) empty cancelledOnce = some _ from rfl),
    by decide, by decide, by decide, fun truthful => ?_⟩
  exact absurd (truthful.1.mp (by decide)) (by decide)

end Sylar.Timers
