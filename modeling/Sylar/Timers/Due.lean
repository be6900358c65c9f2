/-
**What is due, and what `list_expired_cbs` takes.**

The batch is cut off at the upper bound of a probe with `m_next = now_ms`. The order of the set breaks
ties by address, so of the timers due exactly at `now_ms` the batch has those at addresses below the
probe's; if that leaves it empty, it has the first timer alone.

* `due` — the timers due; `prefix_due` — the batch is the first of them.
* `expiredTimers_eq_due_iff` — **when it is all of them**.
* `expireAll_eq_map`, `mem_timers_expireAll`, `expireAll_timer_of_mem` — what the loop does with a
  batch: it hands out its callbacks, arms the recurring timers again and silences the others.
* `expires_of_batch` — a call that takes all that is due does what it should;
  `expires_due_iff` — **`list_expired_cbs` does what it should exactly when the batch is what is due**.
-/

import Sylar.Timers.Handles

namespace Sylar.Timers

open Sylar.Library

/-- The timers that are due, as the set has them. -/
def due (m : TimerManager) (now : UInt64) : List Address :=
  m.timers.filter fun a => (m.timer a).next ≤ now

theorem mem_due {m : TimerManager} {now : UInt64} {a : Address} :
    a ∈ due m now ↔ a ∈ m.timers ∧ (m.timer a).next ≤ now := by
  simp [due]

/-! ### The batch -/

section Batch

variable {m : TimerManager} {now : UInt64} {probe : Address}

/-- The timers before the upper bound of the probe. -/
def belowProbe (m : TimerManager) (now : UInt64) (probe : Address) : List Address :=
  OrderedSet.upToBound (before (Function.update m.timer probe { next := now })) probe m.timers

theorem before_probe {a : Address} (other : a ≠ probe) :
    before (Function.update m.timer probe { next := now }) probe a = false ↔
      (m.timer a).next < now ∨ (m.timer a).next = now ∧ a < probe := by
  rw [before_eq_false_iff, Function.update_self, Function.update_of_ne other]
  refine or_congr_right (and_congr eq_comm ?_)
  exact ⟨fun least => Nat.lt_of_le_of_ne least other, Nat.le_of_lt⟩

/-- **What the batch is**: nothing, if nothing is due; what is before the bound; or, if that is
nothing, the first timer. -/
theorem expiredTimers_cases (m : TimerManager) (now : UInt64) (probe : Address) :
    (expiredTimers m now probe).1 = [] ∧ (∀ a ∈ m.timers.head?, now < (m.timer a).next) ∨
    ∃ a ∈ m.timers.head?, (m.timer a).next ≤ now ∧
      (belowProbe m now probe = [] ∧ (expiredTimers m now probe).1 = [a] ∨
        belowProbe m now probe ≠ [] ∧ (expiredTimers m now probe).1 = belowProbe m now probe) := by
  unfold expiredTimers belowProbe
  cases content : m.timers with
  | nil => exact .inl (by simp)
  | cons first others =>
    by_cases later : now < (m.timer first).next
    · simp only [if_pos later]
      refine .inl ⟨trivial, fun a member => ?_⟩
      obtain rfl := Option.some.inj member
      exact later
    · simp only [if_neg later]
      refine .inr ⟨first, rfl, UInt64.not_lt.mp later, ?_⟩
      cases bound : OrderedSet.upToBound (before (Function.update m.timer probe { next := now }))
          probe (first :: others) with
      | nil => exact .inl ⟨rfl, rfl⟩
      | cons a rest => exact .inr ⟨List.cons_ne_nil a rest, rfl⟩

/-- **The batch is the first of what is due.** -/
theorem prefix_due (fresh : probe ∉ m.timers) : (expiredTimers m now probe).1 <+: due m now := by
  have all : (expiredTimers m now probe).1.filter (fun a => (m.timer a).next ≤ now) =
      (expiredTimers m now probe).1 :=
    List.filter_eq_self.mpr fun a member => decide_eq_true (expiredTimers_due fresh member)
  refine ⟨(expiredTimers m now probe).2.filter fun a => (m.timer a).next ≤ now, ?_⟩
  rw [due, ← expiredTimers_append m now probe, List.filter_append, all]

/-- If the first timer is not due, none is. -/
theorem due_eq_nil (sorted : m.Sorted) (later : ∀ a ∈ m.timers.head?, now < (m.timer a).next) :
    due m now = [] := by
  refine List.filter_eq_nil_iff.mpr fun a inside nowDue => ?_
  obtain ⟨first, others, content⟩ := List.exists_cons_of_ne_nil (List.ne_nil_of_mem inside)
  have firstLater : now < (m.timer first).next := later first (by rw [content]; rfl)
  have notEarlier := sorted.next_head_le content inside
  have isDue : (m.timer a).next ≤ now := of_decide_eq_true nowDue
  exact UInt64.not_le.mpr firstLater (UInt64.le_trans notEarlier isDue)

/-- If the timers due right now are below the probe, what is before the bound is due. -/
theorem belowProbe_eq_due (sorted : m.Sorted) (fresh : probe ∉ m.timers)
    (below : ∀ a ∈ m.timers, (m.timer a).next = now → a < probe) :
    belowProbe m now probe = due m now := by
  have cut : ∀ a ∈ m.timers,
      (!before (Function.update m.timer probe { next := now }) probe a) =
        decide ((m.timer a).next ≤ now) := by
    intro a inside
    rw [Bool.eq_iff_iff, Bool.not_eq_true', before_probe (ne_of_mem_of_not_mem inside fresh),
      decide_eq_true_iff, UInt64.le_iff_lt_or_eq]
    exact or_congr_right ⟨And.left, fun same => ⟨same, below a inside same⟩⟩
  unfold belowProbe OrderedSet.upToBound due
  rw [OrderedSet.IsSet.takeWhile_eq_filter sorted, List.filter_congr cut]
  intro a insideA b insideB less passed
  rw [cut b insideB, decide_eq_true_iff] at passed
  rw [cut a insideA, decide_eq_true_iff]
  exact UInt64.le_trans (next_le_of_before less) passed

/-- **When the batch is all that is due**: the timers due right now are at addresses below the
probe's, or no more than one timer is due. -/
theorem expiredTimers_eq_due_iff (sorted : m.Sorted) (fresh : probe ∉ m.timers) :
    (expiredTimers m now probe).1 = due m now ↔
      (∀ a ∈ m.timers, (m.timer a).next = now → a < probe) ∨ (due m now).length ≤ 1 := by
  rcases expiredTimers_cases m now probe with ⟨batch, later⟩ |
    ⟨first, head, firstDue, ⟨bound, batch⟩ | ⟨bound, batch⟩⟩
  · -- nothing is due
    have nothing := due_eq_nil sorted later
    rw [batch, nothing]
    exact iff_of_true rfl (.inr (Nat.zero_le 1))
  · -- the first timer alone
    have firstIn : first ∈ due m now := mem_due.mpr ⟨List.mem_of_head? head, firstDue⟩
    have one : (due m now).length ≤ 1 ↔ [first] = due m now := by
      constructor
      · intro few
        exact (batch ▸ prefix_due fresh : [first] <+: due m now).eq_of_length
          (Nat.le_antisymm (List.length_pos_of_mem firstIn) few)
      · intro all
        rw [← all]
        exact Nat.le_refl 1
    rw [batch, ← one]
    refine ⟨.inr, fun holds => holds.elim (fun below => ?_) id⟩
    rw [← belowProbe_eq_due sorted fresh below, bound] at firstIn
    cases firstIn
  · -- what is before the bound
    rw [batch]
    constructor
    · intro all
      refine .inl fun a inside same => ?_
      have member : a ∈ belowProbe m now probe :=
        all ▸ mem_due.mpr ⟨inside, UInt64.le_of_eq same⟩
      have below := (before_probe (ne_of_mem_of_not_mem inside fresh)).mp
        (OrderedSet.mem_upToBound member).1
      rcases below with less | ⟨_, below⟩
      · exact absurd (same ▸ less) (UInt64.lt_irrefl now)
      · exact below
    · rintro (below | few)
      · exact belowProbe_eq_due sorted fresh below
      · have firstOf : belowProbe m now probe <+: due m now := batch ▸ prefix_due fresh
        exact firstOf.eq_of_length (Nat.le_antisymm firstOf.length_le
          (Nat.le_trans few (List.length_pos_iff.mpr bound)))

end Batch

/-! ### The loop -/

section Loop

variable {m : TimerManager} {now : UInt64} {batch : List Address} {a b : Address}

/-- **The loop hands out the callbacks of the batch**, in order. -/
theorem expireAll_eq_map (distinct : batch.Nodup) :
    (expireAll now batch m).2 = batch.map fun a => (m.timer a).cb := by
  induction batch generalizing m with
  | nil => rfl
  | cons a rest ih =>
    obtain ⟨apart, distinct⟩ := List.nodup_cons.mp distinct
    show handOut m a :: (expireAll now rest (finishExpired m now a)).2 = _
    rw [ih distinct, List.map_cons]
    congr 1
    refine List.map_congr_left fun b member => ?_
    rw [finishExpired_timer_of_ne (ne_of_mem_of_not_mem member apart)]

/-- **It arms the recurring timers again**, and no other. -/
theorem mem_timers_expireAll :
    b ∈ (expireAll now batch m).1.timers ↔
      b ∈ m.timers ∨ b ∈ batch ∧ (m.timer b).recurring = true := by
  induction batch generalizing m with
  | nil => simp [expireAll]
  | cons a rest ih =>
    refine (ih (m := finishExpired m now a)).trans ?_
    rw [mem_timers_finishExpired, finishExpired_recurring, List.mem_cons]
    tauto

/-- **What it writes.** -/
theorem expireAll_timer_of_mem (distinct : batch.Nodup) (member : b ∈ batch) :
    (expireAll now batch m).1.timer b = finished (m.timer b) now := by
  induction batch generalizing m with
  | nil => cases member
  | cons a rest ih =>
    obtain ⟨apart, distinct⟩ := List.nodup_cons.mp distinct
    show (expireAll now rest (finishExpired m now a)).1.timer b = _
    rcases List.mem_cons.mp member with rfl | later
    · rw [expireAll_timer_of_not_mem apart, finishExpired_timer, Function.update_self]
    · rw [ih distinct later, finishExpired_timer_of_ne (ne_of_mem_of_not_mem later apart)]

end Loop

/-! ### The whole call -/

/-- **What `list_expired_cbs` should do**: hand out the callbacks of what is due, in the order of
`m_next`; take the one-shot timers out, without their callbacks, and arm the recurring ones again;
leave alone what is not due. -/
structure Expires (m m' : TimerManager) (cbs : List (Option Callback)) (now : UInt64) : Prop where
  handed : ∃ order : List Address, order.Perm (due m now) ∧
    (order.Pairwise fun a b => (m.timer a).next ≤ (m.timer b).next) ∧
    cbs = order.map fun a => (m.timer a).cb
  oneShot : ∀ a ∈ due m now, (m.timer a).recurring = false →
    a ∉ m'.timers ∧ (m'.timer a).cb = none
  recurring : ∀ a ∈ due m now, (m.timer a).recurring = true →
    a ∈ m'.timers ∧ (m'.timer a).next = now + (m.timer a).ms
  later : ∀ a ∈ m.timers, now < (m.timer a).next → a ∈ m'.timers ∧ m'.timer a = m.timer a

section Expires

variable {m : TimerManager} {now : UInt64} {probe : Address}

theorem listExpiredCbs_cbs (sorted : m.Sorted) :
    (listExpiredCbs m now probe).2 = (expiredTimers m now probe).1.map fun a => (m.timer a).cb :=
  expireAll_eq_map (sorted.nodup_expiredTimers now probe).1

/-- A call that hands out what it should has taken everything that is due. -/
theorem Expires.batch {m' : TimerManager} (sorted : m.Sorted) (fresh : probe ∉ m.timers)
    (expires : Expires m m' (listExpiredCbs m now probe).2 now) :
    (expiredTimers m now probe).1 = due m now := by
  obtain ⟨order, perm, _, handed⟩ := expires.handed
  have lengths := congrArg List.length ((listExpiredCbs_cbs sorted).symm.trans handed)
  rw [List.length_map, List.length_map, perm.length_eq] at lengths
  exact (prefix_due fresh).eq_of_length lengths

/-- **A call that takes everything that is due does what it should.** -/
theorem expires_of_batch (sorted : m.Sorted) (all : (expiredTimers m now probe).1 = due m now) :
    Expires m (listExpiredCbs m now probe).1 (listExpiredCbs m now probe).2 now := by
  have split := expiredTimers_append m now probe
  obtain ⟨distinct, _, apart⟩ := sorted.nodup_expiredTimers now probe
  have taken : ∀ a ∈ due m now, a ∉ (expiredTimers m now probe).2 ∧
      (listExpiredCbs m now probe).1.timer a = finished (m.timer a) now := fun a isDue =>
    ⟨fun left => apart (all ▸ isDue) left, expireAll_timer_of_mem distinct (all ▸ isDue)⟩
  have inside : ∀ {a}, a ∈ (listExpiredCbs m now probe).1.timers ↔
      a ∈ (expiredTimers m now probe).2 ∨ a ∈ due m now ∧ (m.timer a).recurring = true := by
    intro a
    rw [← all]
    exact mem_timers_expireAll
  refine ⟨⟨due m now, .refl _, ?_, all ▸ listExpiredCbs_cbs sorted⟩, fun a isDue oneShot => ?_,
    fun a isDue recurring => ?_, fun a member notDue => ?_⟩
  · -- a set is in the order of `m_next`
    exact (List.Pairwise.filter _ sorted).imp next_le_of_before
  · obtain ⟨out, written⟩ := taken a isDue
    rw [inside, written, finished, if_neg (by simp [oneShot])]
    exact ⟨fun held => held.elim out fun armed => by simp [oneShot] at armed, rfl⟩
  · rw [inside, (taken a isDue).2, finished, if_pos recurring]
    exact ⟨.inr ⟨isDue, recurring⟩, rfl⟩
  · have out : a ∉ (expiredTimers m now probe).1 := by
      rw [all, mem_due, not_and]
      exact fun _ => UInt64.not_le.mpr notDue
    have left : a ∈ (expiredTimers m now probe).2 :=
      (List.mem_append.mp (split ▸ member)).resolve_left out
    exact ⟨inside.mpr (.inl left), expireAll_timer_of_not_mem out⟩

end Expires

/-- **`list_expired_cbs` expires exactly the due timers** if and only if the timers due right now are
at addresses below the probe's, or no more than one timer is due. -/
theorem expires_due_iff (m : TimerManager) (sorted : m.Sorted) (now : UInt64) (probe : Address)
    (fresh : probe ∉ m.timers) :
    Expires m (listExpiredCbs m now probe).1 (listExpiredCbs m now probe).2 now ↔
      (∀ a ∈ m.timers, (m.timer a).next = now → a < probe) ∨ (due m now).length ≤ 1 := by
  rw [← expiredTimers_eq_due_iff sorted fresh]
  exact ⟨Expires.batch sorted fresh, expires_of_batch sorted⟩

/-- Two one-shot timers, at the addresses 3 and 7, due at 10. -/
def dueTogether : TimerManager where
  timer a := { next := 10, cb := some a }
  timers := [3, 7]
  created := [7, 3]

theorem dueTogether_sorted : dueTogether.Sorted := by
  unfold TimerManager.Sorted OrderedSet.IsSet
  decide

/-- The probe is at a higher address than both, and both expire. -/
theorem expires_due_above :
    Expires dueTogether (listExpiredCbs dueTogether 10 9).1 [some 3, some 7] 10 :=
  (expires_due_iff dueTogether dueTogether_sorted 10 9 (by decide)).mpr (.inl (by decide))

/-- The probe is between the two, and one of the callbacks is not handed out. -/
theorem due_timer_missed : (listExpiredCbs dueTogether 10 5).2 = [some 3] ∧
    ¬ Expires dueTogether (listExpiredCbs dueTogether 10 5).1 [some 3] 10 := by
  refine ⟨by decide, fun expires => ?_⟩
  obtain ⟨order, perm, _, handed⟩ := expires.handed
  have lengths := congrArg List.length handed
  rw [List.length_map, perm.length_eq] at lengths
  exact absurd lengths (by decide)

end Sylar.Timers
