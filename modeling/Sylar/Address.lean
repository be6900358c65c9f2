/-
**The comparison of addresses: `address.cc`.**

`operator<` compares as many bytes as both addresses have, and after them the lengths; `operator==`
compares the lengths first. An address is the bytes that `getAddr()` points to, `getAddrLen()` of
them, so that both read no byte beyond the end.

* `memcmp` — the bytes as unsigned numbers, up to the first two that differ.
* `Address.key` — the bytes as numbers: lists of numbers are in lexicographic order.
* `lt_iff`, `eq_iff` — **`operator<` and `operator==` are those of the keys.**
* `compares_consistently` — **so `operator<` is a strict total order that agrees with `operator==`.**
-/

import Mathlib.Data.List.Lex
import Mathlib.Data.UInt
import Mathlib.Order.Lattice.Nat

namespace Sylar.Net

/-! ### The operators -/

/-- `std::memcmp` of `count` bytes: the difference of the first two that differ. -/
def memcmp : List UInt8 → List UInt8 → Nat → Int
  | a :: as, b :: bs, count + 1 => if a = b then memcmp as bs count else a.toNat - b.toNat
  | _, _, _ => 0

/-- `Address`: the bytes at `getAddr()`. Their number is a `socklen_t`. -/
structure Address where
  addr : List UInt8
  short : addr.length < 2 ^ 32

namespace Address

variable (a rhs : Address)

/-- `getAddrLen()`. -/
def getAddrLen : UInt32 := UInt32.ofNat a.addr.length

/-- `operator<`. -/
def lt : Bool :=
  let count := min a.getAddrLen rhs.getAddrLen
  let result := memcmp a.addr rhs.addr count.toNat
  if result < 0 then true
  else if result > 0 then false
  else if a.getAddrLen < rhs.getAddrLen then true
  else false

/-- `operator==`. -/
def eq : Bool :=
  a.getAddrLen == rhs.getAddrLen && memcmp a.addr rhs.addr a.getAddrLen.toNat == 0

/-- `operator!=`. -/
def ne : Bool := !(a.eq rhs)

/-- The bytes, as numbers. -/
def key : List Nat := a.addr.map UInt8.toNat

end Address

/-! ### `memcmp` and the lexicographic order -/

/-- Bytes are numbers. -/
theorem map_toNat_injective : Function.Injective (List.map UInt8.toNat) :=
  List.map_injective_iff.mpr fun _ _ => UInt8.toNat_inj.mp

/-- **The common bytes, and then the lengths, are the lexicographic order.** The induction is on both
lists: an equal first byte is dropped from them and from the count. -/
theorem memcmp_lt_iff (as bs : List UInt8) :
    memcmp as bs (min as.length bs.length) < 0 ∨
        memcmp as bs (min as.length bs.length) = 0 ∧ as.length < bs.length ↔
      as.map UInt8.toNat < bs.map UInt8.toNat := by
  induction as generalizing bs with
  | nil =>
    cases bs with
    | nil => simp [memcmp]
    | cons b bs => simp [memcmp]
  | cons a as ih =>
    cases bs with
    | nil => simp [memcmp]
    | cons b bs =>
      rw [List.length_cons, List.length_cons, Nat.succ_min_succ, memcmp, List.map_cons, List.map_cons,
        List.cons_lt_cons_iff]
      by_cases same : a = b
      · subst same
        rw [if_pos rfl, Nat.add_lt_add_iff_right, ih bs]
        simp
      · have differ : a.toNat ≠ b.toNat := fun equal => same (UInt8.toNat_inj.mp equal)
        rw [if_neg same]
        constructor
        · rintro (less | ⟨zero, -⟩)
          · exact .inl (by omega)
          · exact absurd zero (by omega)
        · rintro (less | ⟨equal, -⟩)
          · exact .inl (by omega)
          · exact absurd equal differ

/-- **The common bytes are equal** when `memcmp` is zero. -/
theorem memcmp_eq_zero_iff (as bs : List UInt8) (same : as.length = bs.length) :
    memcmp as bs as.length = 0 ↔ as = bs := by
  induction as generalizing bs with
  | nil =>
    obtain rfl : bs = [] := List.length_eq_zero_iff.mp same.symm
    simp [memcmp]
  | cons a as ih =>
    cases bs with
    | nil => cases same
    | cons b bs =>
      rw [List.length_cons, memcmp]
      by_cases first : a = b
      · subst first
        rw [if_pos rfl, ih bs (Nat.succ.inj same)]
        simp
      · have differ : a.toNat ≠ b.toNat := fun equal => first (UInt8.toNat_inj.mp equal)
        rw [if_neg first]
        constructor
        · intro zero
          exact absurd zero (by omega)
        · intro equal
          exact absurd (List.cons.inj equal).1 first

/-! ### The operators on the keys -/

namespace Address

variable {a b : Address}

/-- The length of an address is not cut off. -/
@[simp] theorem toNat_getAddrLen (a : Address) : a.getAddrLen.toNat = a.addr.length :=
  UInt32.toNat_ofNat_of_lt' a.short

theorem getAddrLen_lt_iff : a.getAddrLen < b.getAddrLen ↔ a.addr.length < b.addr.length := by
  rw [UInt32.lt_iff_toNat_lt, toNat_getAddrLen, toNat_getAddrLen]

/-- `std::min` of the lengths. -/
theorem toNat_min : (min a.getAddrLen b.getAddrLen).toNat = min a.addr.length b.addr.length := by
  show (if a.getAddrLen ≤ b.getAddrLen then a.getAddrLen else b.getAddrLen).toNat = _
  split
  next le =>
    rw [UInt32.le_iff_toNat_le, toNat_getAddrLen, toNat_getAddrLen] at le
    rw [toNat_getAddrLen, Nat.min_eq_left le]
  next notLe =>
    rw [UInt32.le_iff_toNat_le, toNat_getAddrLen, toNat_getAddrLen] at notLe
    rw [toNat_getAddrLen, Nat.min_eq_right (Nat.le_of_not_le notLe)]

/-- **`operator<` is the order of the keys.** -/
theorem lt_iff : a.lt b = true ↔ a.key < b.key := by
  rw [key, key, ← memcmp_lt_iff, ← getAddrLen_lt_iff, ← toNat_min]
  unfold lt
  dsimp only
  split
  next less => exact iff_of_true rfl (.inl less)
  next notLess =>
    split
    next more =>
      refine iff_of_false Bool.false_ne_true ?_
      rintro (less | ⟨zero, -⟩)
      · exact notLess less
      · omega
    next notMore =>
      have zero : memcmp a.addr b.addr (min a.getAddrLen b.getAddrLen).toNat = 0 := by omega
      split
      next shorter => exact iff_of_true rfl (.inr ⟨zero, shorter⟩)
      next longer =>
        refine iff_of_false Bool.false_ne_true ?_
        rintro (less | ⟨-, shorter⟩)
        · exact notLess less
        · exact longer shorter

/-- **`operator==` is equality of the keys.** -/
theorem eq_iff : a.eq b = true ↔ a.key = b.key := by
  rw [key, key, map_toNat_injective.eq_iff, eq, Bool.and_eq_true, beq_iff_eq, beq_iff_eq,
    ← UInt32.toNat_inj, toNat_getAddrLen, toNat_getAddrLen]
  constructor
  · rintro ⟨same, zero⟩
    exact (memcmp_eq_zero_iff a.addr b.addr same).mp zero
  · intro equal
    have same := congrArg List.length equal
    exact ⟨same, (memcmp_eq_zero_iff a.addr b.addr same).mpr equal⟩

end Address

/-! ### Main result -/

/-- Just one of three. -/
def ExactlyOne (p q r : Prop) : Prop := (p ∧ ¬ q ∧ ¬ r) ∨ (¬ p ∧ q ∧ ¬ r) ∨ (¬ p ∧ ¬ q ∧ r)

/-- **What is asked of the operators**, at three addresses. -/
structure ComparesConsistently (a b c : Address) : Prop where
  trichotomy : ExactlyOne (a.lt b = true) (a.eq b = true) (b.lt a = true)
  trans : a.lt b = true → b.lt c = true → a.lt c = true
  negation : a.ne b = !(a.eq b)

/-- **`operator<` is a strict total order that agrees with `operator==`**, on addresses of any
lengths. -/
theorem compares_consistently (a b c : Address) : ComparesConsistently a b c := by
  refine ⟨?_, ?_, rfl⟩
  · unfold ExactlyOne
    rw [Address.lt_iff, Address.eq_iff, Address.lt_iff]
    rcases lt_trichotomy a.key b.key with less | equal | more
    · exact .inl ⟨less, less.ne, less.asymm⟩
    · exact .inr (.inl ⟨equal.not_lt, equal, equal.not_gt⟩)
    · exact .inr (.inr ⟨more.asymm, more.ne', more⟩)
  · rw [Address.lt_iff, Address.lt_iff, Address.lt_iff]
    exact lt_trans

/-- A prefix comes first, whatever follows. -/
example : Address.lt ⟨[2, 0], by decide⟩ ⟨[2, 0, 255], by decide⟩ = true ∧
    Address.lt ⟨[2, 0, 255], by decide⟩ ⟨[2, 1], by decide⟩ = true := by decide

end Sylar.Net
