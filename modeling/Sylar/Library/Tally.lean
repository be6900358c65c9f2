/-
**Counting the members of a family with a property.**

A program that counts the threads at certain places keeps a counter in step with where the threads
are. `tally p f` is that number; `tally_update` is how it changes when one member moves,
`tally_eq_zero_iff` is what a zero says, and `two_le_tally` bounds it from below.
-/

import Mathlib.Algebra.BigOperators.Group.Finset.Basic
import Mathlib.Algebra.Order.BigOperators.Group.Finset
import Mathlib.Algebra.Order.Group.Nat

namespace Sylar.Library

variable {ι α : Type} [Fintype ι]

/-- How many members of the family have the property. -/
def tally (p : α → Bool) (f : ι → α) : Nat := ∑ i, (p (f i)).toNat

/-- **One member moves.** -/
theorem tally_update [DecidableEq ι] (p : α → Bool) (f : ι → α) (i : ι) (a : α) :
    tally p (Function.update f i a) + (p (f i)).toNat = tally p f + (p a).toNat := by
  have same : ∀ j ∈ Finset.univ.erase i, (p (Function.update f i a j)).toNat = (p (f j)).toNat := by
    intro j member
    rw [Function.update_of_ne (Finset.ne_of_mem_erase member)]
  unfold tally
  rw [← Finset.add_sum_erase _ _ (Finset.mem_univ i), ← Finset.add_sum_erase _
    (fun j => (p (f j)).toNat) (Finset.mem_univ i), Finset.sum_congr rfl same,
    Function.update_self]
  omega

/-- Nobody is counted. -/
theorem tally_eq_zero_iff {p : α → Bool} {f : ι → α} : tally p f = 0 ↔ ∀ i, p (f i) = false := by
  unfold tally
  rw [Finset.sum_eq_zero_iff]
  refine ⟨fun none i => ?_, fun none i _ => by rw [none i]; rfl⟩
  have zero := none i (Finset.mem_univ i)
  cases value : p (f i)
  · rfl
  · rw [value] at zero
    cases zero

/-- Somebody is counted. -/
theorem tally_pos {p : α → Bool} {f : ι → α} {i : ι} (counted : p (f i) = true) :
    0 < tally p f := by
  refine Nat.pos_of_ne_zero fun zero => ?_
  rw [tally_eq_zero_iff.mp zero i] at counted
  cases counted

/-- Two are counted. -/
theorem two_le_tally {p : α → Bool} {f : ι → α} {i j : ι} (different : i ≠ j)
    (first : p (f i) = true) (second : p (f j) = true) : 2 ≤ tally p f := by
  classical
  have pair : (p (f i)).toNat + (p (f j)).toNat ≤ tally p f := by
    unfold tally
    rw [← Finset.sum_pair (f := fun l => (p (f l)).toNat) different]
    exact Finset.sum_le_sum_of_subset (Finset.subset_univ _)
  rw [first, second] at pair
  exact pair

end Sylar.Library
