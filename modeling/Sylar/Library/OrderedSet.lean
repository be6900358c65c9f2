/-
**Ordered sets: strictly sorted lists under a comparator.**

The in-order traversal of a search tree that is ordered by a comparator `lt`, with the operations
such a container offers: `insert` (no second element equivalent to one inside), `find` (the first
element not less than the argument, unless the argument is less than it) and the elements up to an
upper bound. They look at the elements through `lt` only, so on a list that is not sorted they go
wrong as the container does.

* `IsSet` — strictly sorted. `IsSet.insert`, `IsSet.erase` keep it.
* `find_eq_some_iff` — **in a set, `find a` finds `a` and nothing else.**
* `mem_insert` — `insert a` adds `a`; `mem_insert_of_comparable` — also when different elements may
  be equivalent, if nothing inside is equivalent to it.
* `upToBound_append_aboveBound`, `mem_upToBound` — the upper bound splits a set.
* `IsSet.takeWhile_eq_filter` — a part that is closed downwards is at the beginning.
* `IsSet.congr` — a set stays one when the comparator changes off its elements.
-/

import Mathlib.Data.List.Basic
import Mathlib.Data.List.Nodup
import Mathlib.Data.List.TakeWhile

namespace Sylar.Library.OrderedSet

variable {α : Type}

/-- A strict total order, as a comparator decides it. -/
structure StrictOrder (lt : α → α → Bool) : Prop where
  irrefl : ∀ a, lt a a = false
  trans : ∀ {a b c}, lt a b = true → lt b c = true → lt a c = true
  total : ∀ {a b}, lt a b = false → lt b a = false → a = b

/-- The list is strictly sorted. -/
def IsSet (lt : α → α → Bool) (l : List α) : Prop := l.Pairwise fun a b => lt a b = true

/-- Insert unless an equivalent element is inside. -/
def insert (lt : α → α → Bool) (a : α) : List α → List α
  | [] => [a]
  | b :: l => if lt a b then a :: b :: l else if lt b a then b :: insert lt a l else b :: l

/-- The first element not less than `a`, unless `a` is less than it. -/
def find (lt : α → α → Bool) (a : α) : List α → Option α
  | [] => none
  | b :: l => if lt b a then find lt a l else if lt a b then none else some b

/-- The elements before the upper bound of `a`: those before the first that `a` is less than. -/
def upToBound (lt : α → α → Bool) (a : α) (l : List α) : List α := l.takeWhile fun b => !lt a b

/-- The elements from the upper bound of `a` on. -/
def aboveBound (lt : α → α → Bool) (a : α) (l : List α) : List α := l.dropWhile fun b => !lt a b

variable {lt : α → α → Bool}

namespace StrictOrder

theorem ne (order : StrictOrder lt) {a b : α} (less : lt a b = true) : a ≠ b := by
  rintro rfl
  rw [order.irrefl] at less
  cases less

end StrictOrder

/-! ### Membership -/

theorem mem_of_mem_insert {a b : α} {l : List α} (member : b ∈ insert lt a l) :
    b = a ∨ b ∈ l := by
  induction l with
  | nil => simpa [insert] using member
  | cons c l ih =>
    unfold insert at member
    split at member
    next => exact List.mem_cons.mp member
    next =>
      split at member
      next =>
        rcases List.mem_cons.mp member with rfl | later
        · exact Or.inr List.mem_cons_self
        · exact (ih later).imp_right (List.mem_cons_of_mem c)
      next => exact Or.inr member

/-- What is inserted is there unless an equivalent element is, and what was there stays. -/
theorem mem_insert_of_comparable {a b : α} {l : List α}
    (comparable : ∀ c ∈ l, lt a c = true ∨ lt c a = true) :
    b ∈ insert lt a l ↔ b = a ∨ b ∈ l := by
  refine ⟨mem_of_mem_insert, fun member => ?_⟩
  induction l with
  | nil => simpa [insert] using member
  | cons c l ih =>
    unfold insert
    split
    next => exact List.mem_cons.mpr member
    next notBefore =>
      have after : lt c a = true :=
        (comparable c List.mem_cons_self).resolve_left notBefore
      rw [if_pos after, List.mem_cons]
      have later := ih fun d inside => comparable d (List.mem_cons_of_mem c inside)
      rcases member with rfl | inside
      · exact Or.inr (later (Or.inl rfl))
      · exact (List.mem_cons.mp inside).imp_right fun inside => later (Or.inr inside)

theorem mem_insert (order : StrictOrder lt) {a b : α} {l : List α} :
    b ∈ insert lt a l ↔ b = a ∨ b ∈ l := by
  induction l with
  | nil => simp [insert]
  | cons c l ih =>
    unfold insert
    split
    next => simp
    next notBefore =>
      split
      next =>
        rw [List.mem_cons, ih, List.mem_cons]
        tauto
      next notAfter =>
        have same : a = c := order.total (by simpa using notBefore) (by simpa using notAfter)
        rw [same, List.mem_cons]
        tauto

/-- A new element makes the set larger by one. -/
theorem length_insert (order : StrictOrder lt) {a : α} {l : List α} (outside : a ∉ l) :
    (insert lt a l).length = l.length + 1 := by
  induction l with
  | nil => rfl
  | cons c l ih =>
    rw [List.mem_cons, not_or] at outside
    obtain ⟨other, outside⟩ := outside
    unfold insert
    split
    next => rfl
    next notBefore =>
      split
      next => rw [List.length_cons, ih outside, List.length_cons]
      next notAfter =>
        exact absurd (order.total (by simpa using notBefore) (by simpa using notAfter)) other

theorem mem_of_find {a b : α} {l : List α} (found : find lt a l = some b) : b ∈ l := by
  induction l with
  | nil => cases found
  | cons c l ih =>
    unfold find at found
    split at found
    next => exact List.mem_cons_of_mem _ (ih found)
    next =>
      split at found
      next => cases found
      next =>
        cases found
        exact List.mem_cons_self

theorem eq_of_find (order : StrictOrder lt) {a b : α} {l : List α}
    (found : find lt a l = some b) : b = a := by
  induction l with
  | nil => cases found
  | cons c l ih =>
    unfold find at found
    split at found
    next => exact ih found
    next notBefore =>
      split at found
      next => cases found
      next notAfter =>
        cases found
        exact order.total (by simpa using notBefore) (by simpa using notAfter)

/-- **In a set, `find a` finds `a` and nothing else.** -/
theorem find_eq_some_iff (order : StrictOrder lt) {a b : α} {l : List α} (sorted : IsSet lt l) :
    find lt a l = some b ↔ b = a ∧ a ∈ l := by
  constructor
  · intro found
    have same := eq_of_find order found
    exact ⟨same, same ▸ mem_of_find found⟩
  · rintro ⟨rfl, inside⟩
    induction l with
    | nil => cases inside
    | cons c l ih =>
      obtain ⟨least, rest⟩ := List.pairwise_cons.mp sorted
      rcases List.mem_cons.mp inside with rfl | later
      · simp [find, order.irrefl]
      · simp [find, least _ later, ih rest later]

/-! ### The operations keep the order -/

theorem IsSet.nodup (order : StrictOrder lt) {l : List α} (sorted : IsSet lt l) : l.Nodup :=
  List.Pairwise.imp (fun less => order.ne less) sorted

/-- Inserting keeps the order, also when different elements may be equivalent. -/
theorem IsSet.insert_of_trans {a : α} {l : List α} (sorted : IsSet lt l)
    (trans : ∀ {a b c}, lt a b = true → lt b c = true → lt a c = true) :
    IsSet lt (OrderedSet.insert lt a l) := by
  induction l with
  | nil => exact List.pairwise_singleton _ _
  | cons c l ih =>
    obtain ⟨least, rest⟩ := List.pairwise_cons.mp sorted
    unfold OrderedSet.insert
    split
    next before =>
      refine List.pairwise_cons.mpr ⟨fun d member => ?_, sorted⟩
      rcases List.mem_cons.mp member with rfl | later
      · exact before
      · exact trans before (least d later)
    next =>
      split
      next after =>
        refine List.pairwise_cons.mpr ⟨fun d member => ?_, ih rest⟩
        rcases mem_of_mem_insert member with rfl | later
        · exact after
        · exact least d later
      next => exact sorted

theorem IsSet.insert (order : StrictOrder lt) {a : α} {l : List α} (sorted : IsSet lt l) :
    IsSet lt (OrderedSet.insert lt a l) := insert_of_trans sorted order.trans

theorem IsSet.erase [DecidableEq α] {a : α} {l : List α} (sorted : IsSet lt l) :
    IsSet lt (l.erase a) :=
  List.Pairwise.sublist List.erase_sublist sorted

theorem mem_erase_iff [DecidableEq α] (order : StrictOrder lt) {a b : α} {l : List α}
    (sorted : IsSet lt l) : b ∈ l.erase a ↔ b ≠ a ∧ b ∈ l :=
  (sorted.nodup order).mem_erase_iff

/-- **A set stays one when the comparator changes off its elements.** -/
theorem IsSet.congr {lt' : α → α → Bool} {l : List α} (sorted : IsSet lt l)
    (same : ∀ a ∈ l, ∀ b ∈ l, lt' a b = lt a b) : IsSet lt' l :=
  sorted.imp_of_mem fun {a b} memA memB less => (same a memA b memB).trans less

/-! ### The upper bound -/

theorem upToBound_append_aboveBound (a : α) (l : List α) :
    upToBound lt a l ++ aboveBound lt a l = l := List.takeWhile_append_dropWhile

theorem mem_upToBound {a b : α} {l : List α} (member : b ∈ upToBound lt a l) :
    lt a b = false ∧ b ∈ l := by
  have passed := List.mem_takeWhile_imp member
  exact ⟨by simpa using passed, (List.takeWhile_sublist _).subset member⟩

/-- **A part of a set that is closed downwards is at its beginning.** -/
theorem IsSet.takeWhile_eq_filter {p : α → Bool} {l : List α} (sorted : IsSet lt l)
    (closed : ∀ a ∈ l, ∀ b ∈ l, lt a b = true → p b = true → p a = true) :
    l.takeWhile p = l.filter p := by
  induction l with
  | nil => rfl
  | cons a l ih =>
    obtain ⟨least, rest⟩ := List.pairwise_cons.mp sorted
    cases inside : p a with
    | true =>
      have later := ih rest fun b memB c memC =>
        closed b (List.mem_cons_of_mem a memB) c (List.mem_cons_of_mem a memC)
      rw [List.takeWhile_cons_of_pos inside, List.filter_cons_of_pos inside, later]
    | false =>
      have beyond : l.filter p = [] := by
        refine List.filter_eq_nil_iff.mpr fun b member holds => ?_
        rw [closed a List.mem_cons_self b (List.mem_cons_of_mem a member) (least b member) holds]
          at inside
        cases inside
      rw [List.takeWhile_cons_of_neg (by simp [inside]), List.filter_cons_of_neg (by simp [inside]),
        beyond]

end Sylar.Library.OrderedSet
