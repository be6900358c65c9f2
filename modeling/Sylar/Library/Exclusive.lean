/-
**Holding: a family whose members each hold at most one thing.**

`Exclusive hold` says that nothing is held twice. It is kept when a member lets go, and when it
takes what nobody holds (`Exclusive.update`).
-/

import Mathlib.Logic.Function.Basic
import Mathlib.Data.Option.Basic

namespace Sylar.Library

variable {ι α : Type}

/-- No two members of the family hold the same. -/
def Exclusive (hold : ι → Option α) : Prop := ∀ i j a, hold i = some a → hold j = some a → i = j

/-- **A member keeps what it holds, lets go of it, or takes what nobody holds.** -/
theorem Exclusive.update [DecidableEq ι] {hold : ι → Option α} (exclusive : Exclusive hold) {i : ι}
    {now : Option α} (taken : ∀ a, now = some a → hold i = some a ∨ ∀ j, hold j ≠ some a) :
    Exclusive (Function.update hold i now) := by
  -- whoever else holds what `i` holds now contradicts either the old family or `taken`
  have alone : ∀ j a, j ≠ i → now = some a → hold j ≠ some a := by
    intro j a other holds held
    rcases taken a holds with before | free
    · exact other (exclusive j i a held before)
    · exact free j held
  intro j k a first second
  rcases eq_or_ne j i with rfl | other
  · rcases eq_or_ne k j with rfl | different
    · rfl
    · rw [Function.update_self] at first
      rw [Function.update_of_ne different] at second
      exact absurd second (alone k a different first)
  · rw [Function.update_of_ne other] at first
    rcases eq_or_ne k i with rfl | different
    · rw [Function.update_self] at second
      exact absurd first (alone j a other second)
    · rw [Function.update_of_ne different] at second
      exact exclusive j k a first second

end Sylar.Library
