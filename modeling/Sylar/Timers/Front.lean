/-
**What `on_timer_insert_at_front` announces.**

The inner `add_timer` is where a timer gets into the set: for a new one, from `refresh` and `reset`,
and in the loop of `list_expired_cbs`. It compares what `insert` returned with `begin()`, and calls
`on_timer_insert_at_front` after it has unlocked.

* `refreshInsert`, `resetInsert`, `rearmInsert` — what the inner `add_timer` returns to each of its
  callers, if they reach it; `refresh_eq_insert`, `reset_eq_insert`, `finishExpired_eq_insert` — the
  callers, by it.
* `insertions` — the insertions of a call, in order, with the set before the operation and after.
* `least_of_lowered` — only what is inserted first can lower the earliest `m_next`.
* `front_announced` — **every insertion is announced exactly when it is at the front, so that every
  lowering of the earliest `m_next` is**, by one operation or by a whole call.
-/

import Sylar.Timers.Due
import Mathlib.Algebra.Order.Monoid.Unbundled.WithTop
import Mathlib.Order.Lattice.Nat

namespace Sylar.Timers

open Sylar.Library

/-! ### The callers of the inner `add_timer` -/

/-- What `refresh` gets from the inner `add_timer`: the new state, and whether it has called
`on_timer_insert_at_front`. -/
def refreshInsert (m : TimerManager) (a : Address) (now : UInt64) : Option (TimerManager × Bool) :=
  match (m.timer a).cb with
  | none => none
  | some _ =>
      (findTimer m a).map fun it =>
        let out := eraseTimer m it
        insertTimer (out.write a { out.timer a with next := now + (out.timer a).ms }) a

/-- What `reset` gets. -/
def resetInsert (m : TimerManager) (a : Address) (now ms : UInt64) (fromNow : Bool) :
    Option (TimerManager × Bool) :=
  if ms = (m.timer a).ms ∧ fromNow = false then none
  else
    (findTimer m a).map fun it =>
      let out := eraseTimer m it
      let next := if fromNow then now + ms else (out.timer a).next - (out.timer a).ms + ms
      insertTimer (out.write a { out.timer a with next, ms }) a

/-- What an iteration of the expiry loop gets. -/
def rearmInsert (m : TimerManager) (now : UInt64) (a : Address) : Option (TimerManager × Bool) :=
  if (m.timer a).recurring then
    some (insertTimer (m.write a { m.timer a with next := now + (m.timer a).ms }) a)
  else none

theorem refresh_eq_insert (m : TimerManager) (a : Address) (now : UInt64) :
    refresh m a now =
      ((refreshInsert m a now).elim (m, false) fun inserted => (inserted.1, true)) := by
  unfold refresh refreshInsert
  cases (m.timer a).cb with
  | none => rfl
  | some cb => cases findTimer m a <;> rfl

theorem reset_eq_insert (m : TimerManager) (a : Address) (now ms : UInt64) (fromNow : Bool)
    (moves : ¬ (ms = (m.timer a).ms ∧ fromNow = false)) :
    reset m a now ms fromNow =
      ((resetInsert m a now ms fromNow).elim (m, false) fun inserted => (inserted.1, true)) := by
  unfold reset resetInsert
  rw [if_neg moves, if_neg moves]
  cases findTimer m a <;> rfl

theorem finishExpired_eq_insert (m : TimerManager) (now : UInt64) (a : Address) :
    finishExpired m now a =
      ((rearmInsert m now a).elim (m.write a { m.timer a with cb := none }) fun inserted =>
        inserted.1) := by
  unfold finishExpired rearmInsert
  split <;> rfl

/-! ### The insertions of a call -/

/-- A timer (re)inserted: what the operation found, what the inner `add_timer` made of it, and
whether it has called `on_timer_insert_at_front`. -/
structure Insertion where
  found : TimerManager
  timer : Address
  made : TimerManager
  front : Bool

/-- The insertion of an operation that has reached the inner `add_timer`. -/
def insertion (m : TimerManager) (a : Address) (inserted : Option (TimerManager × Bool)) :
    List Insertion :=
  inserted.toList.map fun inserted => ⟨m, a, inserted.1, inserted.2⟩

/-- The insertions of the expiry loop. -/
def expireInsertions (now : UInt64) : List Address → TimerManager → List Insertion
  | [], _ => []
  | a :: rest, m =>
      insertion m a (rearmInsert m now a) ++ expireInsertions now rest (finishExpired m now a)

/-- The insertions of a call. -/
def insertions (m : TimerManager) : Call → List Insertion
  | .addTimer a now ms cb recurring => insertion m a (some (addTimer m a now ms cb recurring))
  | .cancel _ => []
  | .refresh a now => insertion m a (refreshInsert m a now)
  | .reset a now ms fromNow => insertion m a (resetInsert m a now ms fromNow)
  | .listExpiredCbs now probe =>
      expireInsertions now (expiredTimers m now probe).1
        { m with timers := (expiredTimers m now probe).2 }

/-- The least element of the set. -/
def Least (m : TimerManager) (a : Address) : Prop :=
  a ∈ m.timers ∧ ∀ b ∈ m.timers, b ≠ a → before m.timer a b = true

/-- The least `m_next`; no timers count as infinite. -/
def earliest (m : TimerManager) : WithTop Nat :=
  (m.timers.map fun a => ((m.timer a).next.toNat : WithTop Nat)).foldr min ⊤

/-- What an insertion should announce. -/
structure Insertion.Announced (i : Insertion) : Prop where
  front : i.front = true ↔ Least i.made i.timer
  lowered : earliest i.made < earliest i.found → i.front = true

/-! ### The least element -/

section Least

variable {m m' : TimerManager} {a : Address}

theorem le_earliest_iff {bound : WithTop Nat} :
    bound ≤ earliest m ↔ ∀ a ∈ m.timers, bound ≤ ((m.timer a).next.toNat : WithTop Nat) := by
  unfold earliest
  induction m.timers with
  | nil => simp
  | cons a l ih => simp [ih]

theorem earliest_le (inside : a ∈ m.timers) :
    earliest m ≤ ((m.timer a).next.toNat : WithTop Nat) :=
  le_earliest_iff.mp le_rfl a inside

/-- A part of a set has no earlier timer. -/
theorem earliest_mono (part : ∀ a ∈ m'.timers, a ∈ m.timers ∧ m'.timer a = m.timer a) :
    earliest m ≤ earliest m' := by
  refine le_earliest_iff.mpr fun a inside => ?_
  rw [(part a inside).2]
  exact earliest_le (part a inside).1

/-- The first of a set is its least element. -/
theorem TimerManager.Sorted.head?_eq_some_iff (sorted : m.Sorted) :
    m.timers.head? = some a ↔ Least m a := by
  unfold TimerManager.Sorted at sorted
  cases content : m.timers with
  | nil => simp [Least, content]
  | cons first others =>
    rw [content] at sorted
    have least := (List.pairwise_cons.mp sorted).1
    rw [List.head?_cons, Option.some.injEq]
    constructor
    · rintro rfl
      refine ⟨content ▸ List.mem_cons_self, fun b inside other => least b ?_⟩
      exact (List.mem_cons.mp (content ▸ inside)).resolve_left other
    · rintro ⟨inside, least'⟩
      by_contra other
      have after := (List.mem_cons.mp (content ▸ inside)).resolve_left (Ne.symm other)
      have one := least a after
      have two := least' first (content ▸ List.mem_cons_self) other
      exact Bool.false_ne_true (((before_strictOrder _).irrefl a).symm.trans
        ((before_strictOrder _).trans two one))

/-- **What lowers the earliest `m_next` is at the front**: of the others none is earlier than
before. -/
theorem least_of_lowered (sorted : m'.Sorted)
    (others : ∀ b ∈ m'.timers, b ≠ a → b ∈ m.timers ∧ m'.timer b = m.timer b)
    (lowered : earliest m' < earliest m) : Least m' a := by
  rw [← sorted.head?_eq_some_iff]
  cases content : m'.timers with
  | nil =>
    have infinite : earliest m' = ⊤ := by simp [earliest, content]
    exact absurd lowered (infinite ▸ not_top_lt)
  | cons first rest =>
    have firstIn : first ∈ m'.timers := content ▸ List.mem_cons_self
    refine congrArg some (by_contra fun other => ?_)
    -- the first is an old timer: no later than the earliest before
    obtain ⟨old, same⟩ := others first firstIn other
    refine absurd lowered (not_lt.mpr ((earliest_le old).trans (le_earliest_iff.mpr ?_)))
    intro b inside
    rw [← same]
    exact WithTop.coe_le_coe.mpr (UInt64.le_iff_toNat_le.mp (sorted.next_head_le content inside))

end Least

/-! ### Every insertion -/

section Announced

variable {m : TimerManager} {a : Address}

/-- Putting a timer into a set that has the others. -/
theorem insertTimer_announced {out : TimerManager} (sorted : out.Sorted)
    (others : ∀ b ∈ out.timers, b ≠ a → b ∈ m.timers ∧ out.timer b = m.timer b) :
    Insertion.Announced ⟨m, a, (insertTimer out a).1, (insertTimer out a).2⟩ := by
  have madeSorted := sorted.insertTimer a
  have front : (insertTimer out a).2 = true ↔ Least (insertTimer out a).1 a := by
    rw [← madeSorted.head?_eq_some_iff]
    exact beq_iff_eq
  refine ⟨front, fun lowered => front.mpr (least_of_lowered madeSorted ?_ lowered)⟩
  intro b inside other
  exact others b ((mem_insertTimer.mp inside).resolve_left other) other

theorem insertion_announced {inserted : Option (TimerManager × Bool)} {i : Insertion}
    (announced : ∀ made front, inserted = some (made, front) →
      Insertion.Announced ⟨m, a, made, front⟩)
    (member : i ∈ insertion m a inserted) : i.Announced := by
  obtain ⟨⟨made, front⟩, same, rfl⟩ := List.mem_map.mp member
  exact announced made front (Option.mem_toList.mp same)

/-- A timer taken out, written and put back. -/
theorem rekey_announced (sorted : m.Sorted) (t : Timer) :
    Insertion.Announced ⟨m, a, (insertTimer ((eraseTimer m a).write a t) a).1,
      (insertTimer ((eraseTimer m a).write a t) a).2⟩ := by
  have out : a ∉ (eraseTimer m a).timers := fun inside => (sorted.mem_eraseTimer.mp inside).1 rfl
  refine insertTimer_announced ((sorted.eraseTimer a).write out t) fun b inside other => ?_
  exact ⟨(sorted.mem_eraseTimer.mp inside).2, write_timer_of_ne other t⟩

theorem findTimer_some (sorted : m.Sorted) {it : Address} (found : findTimer m a = some it) :
    it = a := by
  rw [sorted.findTimer_eq] at found
  exact (Option.some.inj (Option.ite_none_right_eq_some.mp found).2).symm

theorem refreshInsert_announced (sorted : m.Sorted) {now : UInt64} {i : Insertion}
    (member : i ∈ insertion m a (refreshInsert m a now)) : i.Announced := by
  refine insertion_announced (fun made front inserted => ?_) member
  unfold refreshInsert at inserted
  split at inserted
  · cases inserted
  · obtain ⟨it, found, same⟩ := Option.map_eq_some_iff.mp inserted
    obtain rfl := findTimer_some sorted found
    cases same
    exact rekey_announced sorted _

theorem resetInsert_announced (sorted : m.Sorted) {now ms : UInt64} {fromNow : Bool}
    {i : Insertion} (member : i ∈ insertion m a (resetInsert m a now ms fromNow)) :
    i.Announced := by
  refine insertion_announced (fun made front inserted => ?_) member
  obtain ⟨-, inserted⟩ := Option.ite_none_left_eq_some.mp inserted
  obtain ⟨it, found, same⟩ := Option.map_eq_some_iff.mp inserted
  obtain rfl := findTimer_some sorted found
  cases same
  exact rekey_announced sorted _

theorem rearmInsert_announced {rest : List Address} (placed : Placed m (a :: rest)) {now : UInt64}
    {i : Insertion} (member : i ∈ insertion m a (rearmInsert m now a)) : i.Announced := by
  refine insertion_announced (fun made front inserted => ?_) member
  obtain ⟨-, same⟩ := Option.ite_none_right_eq_some.mp inserted
  cases same
  have out : a ∉ m.timers := placed.out a List.mem_cons_self
  refine insertTimer_announced (placed.sorted.write out _) fun b inside other => ?_
  exact ⟨inside, write_timer_of_ne other _⟩

theorem addTimer_announced (placed : Placed m []) (fresh : a ∉ m.created) {now ms : UInt64}
    {cb : Option Callback} {recurring : Bool} {i : Insertion}
    (member : i ∈ insertion m a (some (addTimer m a now ms cb recurring))) : i.Announced := by
  refine insertion_announced (fun made front inserted => ?_) member
  cases inserted
  have out : a ∉ m.timers := fun inside => fresh (placed.known a (.inr inside))
  refine insertTimer_announced (placed.sorted.write out _) fun b inside other => ?_
  exact ⟨inside, write_timer_of_ne other _⟩

end Announced

/-! ### Whole calls -/

/-- What a call that lowers the earliest `m_next` should do. -/
def Announces (m m' : TimerManager) (made : List Insertion) : Prop :=
  earliest m' < earliest m → ∃ i ∈ made, i.front = true

section Calls

variable {m m' : TimerManager} {a : Address}

/-- An operation that inserts, if it does, and leaves what the inner `add_timer` made. -/
theorem announces_insertion {inserted : Option (TimerManager × Bool)}
    (announced : ∀ i ∈ insertion m a inserted, i.Announced)
    (stays : inserted = none → earliest m ≤ earliest m')
    (leaves : ∀ made front, inserted = some (made, front) → m' = made) :
    Announces m m' (insertion m a inserted) := by
  intro lowered
  cases inserted with
  | none => exact absurd lowered (not_lt.mpr (stays rfl))
  | some inserted =>
    have member : (⟨m, a, inserted.1, inserted.2⟩ : Insertion) ∈ insertion m a (some inserted) :=
      List.mem_singleton_self _
    refine ⟨_, member, (announced _ member).lowered ?_⟩
    rw [← leaves inserted.1 inserted.2 rfl]
    exact lowered

theorem finishExpired_announces {rest : List Address} (placed : Placed m (a :: rest))
    (now : UInt64) :
    Announces m (finishExpired m now a) (insertion m a (rearmInsert m now a)) := by
  refine announces_insertion (fun i member => rearmInsert_announced placed member)
    (fun oneShot => ?_) fun made front inserted => ?_
  · rw [finishExpired_eq_insert, oneShot]
    refine earliest_mono fun b inside => ⟨inside, write_timer_of_ne ?_ _⟩
    exact ne_of_mem_of_not_mem inside (placed.out a List.mem_cons_self)
  · rw [finishExpired_eq_insert, inserted]
    rfl

/-- **The expiry loop**, by induction on the batch: an iteration that lowers the earliest `m_next`
announces it. -/
theorem expireInsertions_announced {batch : List Address} (placed : Placed m batch) (now : UInt64) :
    (∀ i ∈ expireInsertions now batch m, i.Announced) ∧
      Announces m (expireAll now batch m).1 (expireInsertions now batch m) := by
  induction batch generalizing m with
  | nil =>
    exact ⟨fun i member => absurd member List.not_mem_nil,
      fun lowered => absurd lowered (lt_irrefl _)⟩
  | cons a rest ih =>
    obtain ⟨later, laterAnnounces⟩ := ih (placed.finishExpired now)
    refine ⟨fun i member => ?_, fun lowered => ?_⟩
    · rcases List.mem_append.mp member with here | after
      · exact rearmInsert_announced placed here
      · exact later i after
    · rcases lt_or_ge (earliest (finishExpired m now a)) (earliest m) with less | notLess
      · obtain ⟨i, member, front⟩ := finishExpired_announces placed now less
        exact ⟨i, List.mem_append_left _ member, front⟩
      · obtain ⟨i, member, front⟩ := laterAnnounces (lowered.trans_le notLess)
        exact ⟨i, List.mem_append_right _ member, front⟩

end Calls

/-- **Every insertion of a call is announced exactly when it is at the front**, and a call that
lowers the earliest `m_next` announces an insertion. -/
theorem front_announced (m m' : TimerManager) (reached : atomicCalls.Reachable m) (c : Call)
    (stepped : step m c = some m') :
    (∀ i ∈ insertions m c, i.Announced) ∧ Announces m m' (insertions m c) := by
  have placed : Placed m [] :=
    reached.invariant (fun _ begins => begins ▸ placed_empty) fun _ _ _ placed _ stepped =>
      placed.step stepped
  cases c with
  | addTimer a now ms cb recurring =>
    obtain ⟨fresh, same⟩ := Option.ite_none_left_eq_some.mp stepped
    have announced : ∀ i ∈ insertions m (.addTimer a now ms cb recurring), i.Announced :=
      fun i member => addTimer_announced placed fresh member
    refine ⟨announced, announces_insertion announced (fun none => by cases none) ?_⟩
    intro made front inserted
    cases inserted
    exact (Option.some.inj same).symm
  | cancel a =>
    obtain ⟨-, same⟩ := Option.ite_none_right_eq_some.mp stepped
    refine ⟨fun i member => absurd member List.not_mem_nil,
      fun lowered => absurd lowered (not_lt.mpr ?_)⟩
    rw [← Option.some.inj same, cancel_eq placed.sorted]
    split
    · exact le_rfl
    · refine earliest_mono fun b inside => ?_
      obtain ⟨other, held⟩ := placed.sorted.mem_disarm.mp inside
      exact ⟨held, by rw [disarm_timer, Function.update_of_ne other]⟩
  | refresh a now =>
    obtain ⟨-, same⟩ := Option.ite_none_right_eq_some.mp stepped
    have announced : ∀ i ∈ insertions m (.refresh a now), i.Announced :=
      fun i member => refreshInsert_announced placed.sorted member
    rw [← Option.some.inj same, refresh_eq_insert]
    refine ⟨announced, announces_insertion announced (fun none => ?_) fun made front inserted => ?_⟩
    · rw [none]
      exact le_rfl
    · rw [inserted]
      rfl
  | reset a now ms fromNow =>
    obtain ⟨-, same⟩ := Option.ite_none_right_eq_some.mp stepped
    have announced : ∀ i ∈ insertions m (.reset a now ms fromNow), i.Announced :=
      fun i member => resetInsert_announced placed.sorted member
    refine ⟨announced, announces_insertion announced (fun none => ?_) fun made front inserted => ?_⟩
    · rw [← Option.some.inj same]
      by_cases shortcut : ms = (m.timer a).ms ∧ fromNow = false
      · rw [reset, if_pos shortcut]
      · rw [reset_eq_insert m a now ms fromNow shortcut, none]
        exact le_rfl
    · obtain ⟨moves, -⟩ := Option.ite_none_left_eq_some.mp inserted
      rw [← Option.some.inj same, reset_eq_insert m a now ms fromNow moves, inserted]
      rfl
  | listExpiredCbs now probe =>
    obtain ⟨-, same⟩ := Option.ite_none_left_eq_some.mp stepped
    obtain ⟨each, whole⟩ := expireInsertions_announced (placed.extract now probe) now
    refine ⟨each, fun lowered => whole ?_⟩
    rw [← Option.some.inj same] at lowered
    refine lowered.trans_le (earliest_mono fun b left => ⟨?_, rfl⟩)
    exact mem_timers_of_left left

/-- A refresh whose `m_next` wraps around, and takes the timer to the front. -/
theorem front_announced_wrapped :
    ∃ m m', atomicCalls.Reachable m ∧ step m (.refresh 7 0xFFFFFFFFFFFFFFFF) = some m' ∧
      m.timers = [3, 7] ∧ m'.timers = [7, 3] ∧ (m'.timer 7).next = 9 ∧
      ((∀ i ∈ insertions m (.refresh 7 0xFFFFFFFFFFFFFFFF), i.Announced) ∧
        Announces m m' (insertions m (.refresh 7 0xFFFFFFFFFFFFFFFF))) := by
  have reached : atomicCalls.Reachable _ := Machine.ReachableWhen.replay (.start rfl)
    (show atomicCalls.replay empty [.addTimer 7 90 10 (some 1) false,
      .addTimer 3 0 20 (some 2) false] = some _ from rfl)
  exact ⟨_, _, reached, rfl, by decide, by decide, by decide,
    front_announced _ _ reached (.refresh 7 0xFFFFFFFFFFFFFFFF) rfl⟩

end Sylar.Timers
