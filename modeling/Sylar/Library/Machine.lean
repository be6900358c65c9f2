/-
**Guarded machines: runs, invariants, and runs that keep to a condition.**

A `Machine` is a set of start states and a guarded step: `step s e` is `none` when the event `e` is
not enabled in `s`, or when the program stops on it (a failed assertion, a null dereference).

* `ReachableWhen ok` — the states reached by runs whose every step meets `ok`, a condition on the
  event and on the state before it. `Reachable` puts no condition.
* `ReachableWhen.invariant` — **the induction, once**: what holds at the start and is kept by every
  step that meets the condition holds in every state reached.
* `replay`, `replayWhen` — a run given by its events, computed. `reachable_of_replay` turns a
  computed run into a reachable state, so that a failing run is checked by evaluation.
-/

import Mathlib.Algebra.GroupWithZero.Nat
import Mathlib.Data.Option.Basic

namespace Sylar.Library

/-- Start states and a guarded step; `none` is "not enabled, or the program stops here". -/
structure Machine (σ ε : Type) where
  start : σ → Prop
  step : σ → ε → Option σ

namespace Machine

variable {σ ε : Type}

/-- The states reached by runs whose every step meets `ok`. -/
inductive ReachableWhen (m : Machine σ ε) (ok : σ → ε → Prop) : σ → Prop
  | start {s : σ} : m.start s → ReachableWhen m ok s
  | step {s s' : σ} {e : ε} :
      ReachableWhen m ok s → ok s e → m.step s e = some s' → ReachableWhen m ok s'

/-- The states reached by any run. -/
abbrev Reachable (m : Machine σ ε) : σ → Prop := m.ReachableWhen fun _ _ => True

variable {m : Machine σ ε} {ok : σ → ε → Prop}

/-- **The invariant rule.** -/
theorem ReachableWhen.invariant {P : σ → Prop} (initial : ∀ s, m.start s → P s)
    (preserved : ∀ s e s', P s → ok s e → m.step s e = some s' → P s')
    {s : σ} (reached : m.ReachableWhen ok s) : P s := by
  induction reached with
  | start begins => exact initial _ begins
  | step _ meets stepped ih => exact preserved _ _ _ ih meets stepped

/-- A weaker condition allows more runs. -/
theorem ReachableWhen.mono {weaker : σ → ε → Prop} (weakens : ∀ s e, ok s e → weaker s e)
    {s : σ} (reached : m.ReachableWhen ok s) : m.ReachableWhen weaker s := by
  induction reached with
  | start begins => exact .start begins
  | step _ meets stepped ih => exact .step ih (weakens _ _ meets) stepped

/-- Every state reached under a condition is reached without it. -/
theorem ReachableWhen.reachable {s : σ} (reached : m.ReachableWhen ok s) : m.Reachable s :=
  reached.mono fun _ _ _ => trivial

/-! ### Computed runs -/

/-- The numerals of `Fin 1` and `Fin 2`, for machines of one and of two parties. -/
instance oneParty : NeZero 1 := ⟨Nat.one_ne_zero⟩

instance twoParties : NeZero 2 := ⟨Nat.succ_ne_zero 1⟩

/-- The state after the given events, if every one of them is enabled. -/
def replay (m : Machine σ ε) : σ → List ε → Option σ
  | s, [] => some s
  | s, e :: rest => (m.step s e).bind fun s' => m.replay s' rest

/-- The same, keeping to a condition that is decided along the way. -/
def replayWhen (m : Machine σ ε) (ok : σ → ε → Prop) [∀ s e, Decidable (ok s e)] :
    σ → List ε → Option σ
  | s, [] => some s
  | s, e :: rest => if ok s e then (m.step s e).bind fun s' => m.replayWhen ok s' rest else none

theorem ReachableWhen.replayWhen [∀ s e, Decidable (ok s e)] :
    ∀ {events : List ε} {s s' : σ}, m.ReachableWhen ok s →
      m.replayWhen ok s events = some s' → m.ReachableWhen ok s'
  | [], s, s', reached, same => by
      cases same
      exact reached
  | e :: rest, s, s', reached, same => by
      simp only [Machine.replayWhen] at same
      split at same
      next meets =>
        obtain ⟨middle, stepped, later⟩ := Option.bind_eq_some_iff.mp same
        exact (ReachableWhen.step reached meets stepped).replayWhen later
      next => cases same

theorem ReachableWhen.replay :
    ∀ {events : List ε} {s s' : σ}, m.Reachable s → m.replay s events = some s' → m.Reachable s'
  | [], s, s', reached, same => by
      cases same
      exact reached
  | e :: rest, s, s', reached, same => by
      obtain ⟨middle, stepped, later⟩ := Option.bind_eq_some_iff.mp same
      exact (ReachableWhen.step reached trivial stepped).replay later

/-- **A computed run reaches a state with a decided property.** -/
theorem reachable_of_replay {s : σ} (begins : m.start s) (events : List ε) (p : σ → Bool)
    (check : (m.replay s events).map p = some true) : ∃ s', m.Reachable s' ∧ p s' = true := by
  obtain ⟨s', ran, holds⟩ := Option.map_eq_some_iff.mp check
  exact ⟨s', ReachableWhen.replay (.start begins) ran, holds⟩

/-- The same for a run that keeps to a condition. -/
theorem reachableWhen_of_replay [∀ s e, Decidable (ok s e)] {s : σ} (begins : m.start s)
    (events : List ε) (p : σ → Bool) (check : (m.replayWhen ok s events).map p = some true) :
    ∃ s', m.ReachableWhen ok s' ∧ p s' = true := by
  obtain ⟨s', ran, holds⟩ := Option.map_eq_some_iff.mp check
  exact ⟨s', ReachableWhen.replayWhen (.start begins) ran, holds⟩

end Machine

end Sylar.Library
