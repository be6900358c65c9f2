/-
**The representation invariant of the timer set.**

The set is keyed by a field that `refresh`, `reset` and the re-arming of a recurring timer change,
and whether a timer is armed is recorded twice, by `m_cb` and by membership. Every operation takes
the timer out of the set before it writes `m_next`; that is what the lemmas here turn on.

* `cancel_eq`, `refresh_eq`, `reset_eq` — each call in closed form, on a sorted set.
* `expiredTimers_append`, `expiredTimers_due` — the batch is a prefix of the set, and due.
* `Placed m batch` — the set is in order, with `batch` taken out and not finished.
* `Sound m batch` — the invariant with `batch` taken out and not finished: what the expiry loop
  keeps (`Sound.finishExpired`), and with an empty batch what every call keeps (`Sound.step`).
* `timer_set_represents` — **the result**: in every reachable state the set is strictly sorted by
  `(m_next, address)`, it holds exactly the timers whose `m_cb` is not empty, `find` finds exactly
  those, and `get_next_timeout` is the distance to the least `m_next`.
-/

import Sylar.Library.Machine
import Sylar.Timers.Manager
import Mathlib.Algebra.Group.Nat.Defs
import Mathlib.Data.List.MinMax

namespace Sylar.Timers

open Sylar.Library

/-! ### A sorted set -/

/-- The set is sorted by what the objects hold now. -/
def TimerManager.Sorted (m : TimerManager) : Prop := OrderedSet.IsSet (before m.timer) m.timers

namespace TimerManager.Sorted

variable {m : TimerManager}

/-- Writing an object that is not in the set cannot break the order. -/
theorem write (sorted : m.Sorted) {a : Address} (out : a ∉ m.timers) (t : Timer) :
    (m.write a t).Sorted := by
  refine OrderedSet.IsSet.congr sorted fun b memB c memC => before_congr ?_ ?_
  · rw [write_timer_of_ne (ne_of_mem_of_not_mem memB out)]
  · rw [write_timer_of_ne (ne_of_mem_of_not_mem memC out)]

/-- Writing anything but `m_next` cannot break it either. -/
theorem write_sameNext (sorted : m.Sorted) {a : Address} {t : Timer}
    (same : t.next = (m.timer a).next) : (m.write a t).Sorted := by
  have keeps : ∀ b, ((m.write a t).timer b).next = (m.timer b).next := by
    intro b
    by_cases self : b = a
    · rw [self, write_timer_self, same]
    · rw [write_timer_of_ne self]
  exact OrderedSet.IsSet.congr sorted fun b _ c _ => before_congr (keeps b) (keeps c)

theorem insertTimer (sorted : m.Sorted) (a : Address) : (insertTimer m a).1.Sorted :=
  OrderedSet.IsSet.insert (before_strictOrder _) sorted

theorem eraseTimer (sorted : m.Sorted) (a : Address) : (eraseTimer m a).Sorted :=
  OrderedSet.IsSet.erase sorted

theorem finishExpired (sorted : m.Sorted) {a : Address} (out : a ∉ m.timers) (now : UInt64) :
    (finishExpired m now a).Sorted := by
  unfold Timers.finishExpired
  split
  · exact (sorted.write out _).insertTimer a
  · exact sorted.write out _

theorem mem_eraseTimer (sorted : m.Sorted) {a b : Address} :
    b ∈ (Timers.eraseTimer m a).timers ↔ b ≠ a ∧ b ∈ m.timers :=
  OrderedSet.mem_erase_iff (before_strictOrder _) sorted

/-- **`find(shared_from_this())` in a sorted set.** -/
theorem findTimer_eq (sorted : m.Sorted) (a : Address) :
    findTimer m a = if a ∈ m.timers then some a else none := by
  unfold findTimer
  split
  next inside => exact (OrderedSet.find_eq_some_iff (before_strictOrder _) sorted).mpr ⟨rfl, inside⟩
  next outside =>
    cases found : OrderedSet.find (before m.timer) a m.timers with
    | none => rfl
    | some b =>
      exact absurd ((OrderedSet.find_eq_some_iff (before_strictOrder _) sorted).mp found).2 outside

end TimerManager.Sorted

/-! ### The calls in closed form -/

/-- Take a timer out, write it, and put it back. -/
def rekey (m : TimerManager) (a : Address) (t : Timer) : TimerManager :=
  (insertTimer ((eraseTimer m a).write a t) a).1

/-- Take a timer out and empty its callback. -/
def disarm (m : TimerManager) (a : Address) : TimerManager :=
  eraseTimer (m.write a { m.timer a with cb := none }) a

theorem cancel_eq {m : TimerManager} (sorted : m.Sorted) (a : Address) :
    cancel m a = if (m.timer a).cb = none then (m, false) else (disarm m a, true) := by
  unfold cancel
  cases armed : (m.timer a).cb with
  | none => simp
  | some cb =>
    have silentSorted : (m.write a { m.timer a with cb := none }).Sorted :=
      sorted.write_sameNext rfl
    simp only [silentSorted.findTimer_eq, write_timers, disarm]
    by_cases inside : a ∈ m.timers
    · simp [inside]
    · simp only [inside, if_false, eraseTimer, write_timers, not_false_eq_true,
        List.erase_of_not_mem]
      rfl

theorem refresh_eq {m : TimerManager} (sorted : m.Sorted) (a : Address) (now : UInt64) :
    refresh m a now =
      if (m.timer a).cb = none ∨ a ∉ m.timers then (m, false)
      else (rekey m a { m.timer a with next := now + (m.timer a).ms }, true) := by
  unfold refresh
  cases armed : (m.timer a).cb with
  | none => simp
  | some cb =>
    by_cases inside : a ∈ m.timers
    · simp [sorted.findTimer_eq, inside, rekey]
    · simp [sorted.findTimer_eq, inside]

/-- The due time `Timer::reset` computes. -/
def resetNext (t : Timer) (now ms : UInt64) (fromNow : Bool) : UInt64 :=
  if fromNow then now + ms else t.next - t.ms + ms

theorem reset_eq {m : TimerManager} (sorted : m.Sorted) (a : Address) (now ms : UInt64)
    (fromNow : Bool) :
    reset m a now ms fromNow =
      if ms = (m.timer a).ms ∧ fromNow = false then (m, true)
      else if a ∉ m.timers then (m, false)
      else (rekey m a { m.timer a with next := resetNext (m.timer a) now ms fromNow, ms }, true) := by
  unfold reset
  split
  next => rfl
  next =>
    by_cases inside : a ∈ m.timers
    · simp [sorted.findTimer_eq, inside, rekey, resetNext]
    · simp [sorted.findTimer_eq, inside]

namespace TimerManager.Sorted

variable {m : TimerManager}

theorem rekey (sorted : m.Sorted) (a : Address) (t : Timer) : (rekey m a t).Sorted := by
  refine insertTimer (write (sorted.eraseTimer a) ?_ t) a
  exact fun inside => (sorted.mem_eraseTimer.mp inside).1 rfl

theorem mem_rekey (sorted : m.Sorted) {a b : Address} {t : Timer} :
    b ∈ (Timers.rekey m a t).timers ↔ b = a ∨ b ∈ m.timers := by
  unfold Timers.rekey
  rw [mem_insertTimer, write_timers, sorted.mem_eraseTimer]
  tauto

theorem disarm (sorted : m.Sorted) (a : Address) : (disarm m a).Sorted := by
  refine eraseTimer (m := m.write a { m.timer a with cb := none }) ?_ a
  exact sorted.write_sameNext rfl

theorem mem_disarm (sorted : m.Sorted) {a b : Address} :
    b ∈ (Timers.disarm m a).timers ↔ b ≠ a ∧ b ∈ m.timers := by
  have silentSorted : (m.write a { m.timer a with cb := none }).Sorted := sorted.write_sameNext rfl
  exact silentSorted.mem_eraseTimer

end TimerManager.Sorted

@[simp] theorem rekey_timer (m : TimerManager) (a : Address) (t : Timer) :
    (rekey m a t).timer = Function.update m.timer a t := rfl

@[simp] theorem disarm_timer (m : TimerManager) (a : Address) :
    (disarm m a).timer = Function.update m.timer a { m.timer a with cb := none } := rfl

/-! ### The batch of `list_expired_cbs` -/

/-- **The batch is a prefix of the set**, the rest stays. -/
theorem expiredTimers_append (m : TimerManager) (now : UInt64) (probe : Address) :
    (expiredTimers m now probe).1 ++ (expiredTimers m now probe).2 = m.timers := by
  unfold expiredTimers
  cases m.timers with
  | nil => rfl
  | cons first others =>
    simp only
    split
    next => rfl
    next =>
      split
      next => rfl
      next expired _ => exact OrderedSet.upToBound_append_aboveBound _ _

/-- A batch is of the set. -/
theorem mem_timers_of_expired {m : TimerManager} {now : UInt64} {probe a : Address}
    (taken : a ∈ (expiredTimers m now probe).1) : a ∈ m.timers :=
  expiredTimers_append m now probe ▸ List.mem_append_left _ taken

/-- So is what is left. -/
theorem mem_timers_of_left {m : TimerManager} {now : UInt64} {probe a : Address}
    (left : a ∈ (expiredTimers m now probe).2) : a ∈ m.timers :=
  expiredTimers_append m now probe ▸ List.mem_append_right _ left

namespace TimerManager.Sorted

variable {m : TimerManager}

/-- The first timer of a set is due no later than another. -/
theorem next_head_le (sorted : m.Sorted) {first : Address} {others : List Address}
    (content : m.timers = first :: others) {a : Address} (inside : a ∈ m.timers) :
    (m.timer first).next ≤ (m.timer a).next := by
  unfold TimerManager.Sorted at sorted
  rw [content] at sorted inside
  rcases List.mem_cons.mp inside with rfl | after
  · exact UInt64.le_refl _
  · exact next_le_of_before ((List.pairwise_cons.mp sorted).1 a after)

/-- The batch and what is left share no timer. -/
theorem nodup_expiredTimers (sorted : m.Sorted) (now : UInt64) (probe : Address) :
    (expiredTimers m now probe).1.Nodup ∧ (expiredTimers m now probe).2.Nodup ∧
      (expiredTimers m now probe).1.Disjoint (expiredTimers m now probe).2 := by
  rw [← List.nodup_append', expiredTimers_append]
  exact OrderedSet.IsSet.nodup (before_strictOrder _) sorted

end TimerManager.Sorted

/-- **Every timer of the batch is due.** -/
theorem expiredTimers_due {m : TimerManager} {now : UInt64} {probe : Address}
    (fresh : probe ∉ m.timers) {a : Address} (member : a ∈ (expiredTimers m now probe).1) :
    (m.timer a).next ≤ now := by
  unfold expiredTimers at member
  cases content : m.timers with
  | nil =>
    rw [content] at member
    cases member
  | cons first others =>
    simp only [content] at member
    split at member
    next => cases member
    next due =>
      split at member
      next =>
        rw [List.mem_singleton.mp member]
        exact UInt64.not_lt.mp due
      next =>
        obtain ⟨notAbove, inside⟩ := OrderedSet.mem_upToBound member
        have other : a ≠ probe := ne_of_mem_of_not_mem inside (content ▸ fresh)
        rw [before_eq_false_iff, Function.update_self, Function.update_of_ne other] at notAbove
        rcases notAbove with less | ⟨same, _⟩
        · exact UInt64.le_of_lt less
        · exact UInt64.le_of_eq same.symm

/-! ### The set and the addresses -/

/-- **The set is in order**, with `batch` taken out of it and not finished. -/
structure Placed (m : TimerManager) (batch : List Address) : Prop where
  sorted : m.Sorted
  distinct : batch.Nodup
  out : ∀ a ∈ batch, a ∉ m.timers
  known : ∀ a, a ∈ batch ∨ a ∈ m.timers → a ∈ m.created

theorem placed_empty : Placed empty [] where
  sorted := List.Pairwise.nil
  distinct := List.nodup_nil
  out a member := by cases member
  known a member := by simp [empty] at member

namespace Placed

variable {m : TimerManager}

/-- With nothing taken out. -/
theorem of_sorted (sorted : m.Sorted) (known : ∀ a ∈ m.timers, a ∈ m.created) : Placed m [] where
  sorted
  distinct := List.nodup_nil
  out _ := nofun
  known a member := by
    rcases member with member | inside
    · cases member
    · exact known a inside

theorem addTimer (placed : Placed m []) {a : Address} (fresh : a ∉ m.created) (now ms : UInt64)
    (cb : Option Callback) (recurring : Bool) :
    Placed (addTimer m a now ms cb recurring).1 [] := by
  have outside : a ∉ m.timers := fun inside => fresh (placed.known a (Or.inr inside))
  refine of_sorted ?_ fun b inside => ?_
  · exact TimerManager.Sorted.insertTimer
      (m := { m.write a { recurring, ms, next := now + ms, cb } with
        created := a :: m.created }) (placed.sorted.write outside _) a
  · rcases mem_insertTimer.mp inside with rfl | old
    · exact List.mem_cons_self
    · exact List.mem_cons_of_mem _ (placed.known b (Or.inr old))

theorem disarm (placed : Placed m []) (a : Address) : Placed (disarm m a) [] :=
  of_sorted (placed.sorted.disarm a) fun b inside =>
    placed.known b (Or.inr (placed.sorted.mem_disarm.mp inside).2)

theorem rekey (placed : Placed m []) {a : Address} (inside : a ∈ m.timers) (t : Timer) :
    Placed (rekey m a t) [] := by
  refine of_sorted (placed.sorted.rekey a t) fun b member => ?_
  rcases placed.sorted.mem_rekey.mp member with rfl | old
  · exact placed.known b (Or.inr inside)
  · exact placed.known b (Or.inr old)

theorem cancel (placed : Placed m []) (a : Address) : Placed (cancel m a).1 [] := by
  rw [cancel_eq placed.sorted]
  split
  · exact placed
  · exact placed.disarm a

theorem refresh (placed : Placed m []) (a : Address) (now : UInt64) :
    Placed (refresh m a now).1 [] := by
  rw [refresh_eq placed.sorted]
  split
  next => exact placed
  next armed =>
    rw [not_or, not_not] at armed
    exact placed.rekey armed.2 _

theorem reset (placed : Placed m []) (a : Address) (now ms : UInt64) (fromNow : Bool) :
    Placed (reset m a now ms fromNow).1 [] := by
  rw [reset_eq placed.sorted]
  split
  next => exact placed
  next =>
    split
    next => exact placed
    next inside => exact placed.rekey (not_not.mp inside) _

/-- Taking the batch out of the set. -/
theorem extract (placed : Placed m []) (now : UInt64) (probe : Address) :
    Placed { m with timers := (expiredTimers m now probe).2 } (expiredTimers m now probe).1 := by
  have split := expiredTimers_append m now probe
  have nodup := placed.sorted.nodup_expiredTimers now probe
  refine ⟨?_, nodup.1, fun a member inside => nodup.2.2 member inside, fun a member => ?_⟩
  · refine List.Pairwise.sublist ?_ placed.sorted
    exact split ▸ List.sublist_append_right _ _
  · rw [← List.mem_append, split] at member
    exact placed.known a (Or.inr member)

/-- **One iteration of the expiry loop** finishes the first timer of the batch. -/
theorem finishExpired {a : Address} {rest : List Address} (placed : Placed m (a :: rest))
    (now : UInt64) : Placed (finishExpired m now a) rest := by
  obtain ⟨apart, distinct⟩ := List.nodup_cons.mp placed.distinct
  have outside : a ∉ m.timers := placed.out a List.mem_cons_self
  refine ⟨placed.sorted.finishExpired outside now, distinct, fun b member inside => ?_,
    fun b member => ?_⟩
  · rcases mem_timers_finishExpired.mp inside with old | ⟨rfl, _⟩
    · exact placed.out b (List.mem_cons_of_mem _ member) old
    · exact apart member
  · rw [finishExpired_created]
    rcases member with member | inside
    · exact placed.known b (Or.inl (List.mem_cons_of_mem _ member))
    · rcases mem_timers_finishExpired.mp inside with old | ⟨rfl, _⟩
      · exact placed.known b (Or.inr old)
      · exact placed.known b (Or.inl List.mem_cons_self)

/-- The loop, by induction on the batch. -/
theorem expireAll {now : UInt64} {batch : List Address} (placed : Placed m batch) :
    Placed (expireAll now batch m).1 [] := by
  induction batch generalizing m with
  | nil => exact placed
  | cons a rest ih => exact ih (placed.finishExpired now)

theorem listExpiredCbs (placed : Placed m []) (now : UInt64) (probe : Address) :
    Placed (listExpiredCbs m now probe).1 [] := (placed.extract now probe).expireAll

end Placed

/-! ### The invariant -/

/-- **The invariant, with `batch` taken out of the set and not finished.** -/
structure Sound (m : TimerManager) (batch : List Address) : Prop where
  sorted : m.Sorted
  armed : ∀ a, (m.timer a).cb ≠ none ↔ a ∈ batch ∨ a ∈ m.timers
  distinct : batch.Nodup
  out : ∀ a ∈ batch, a ∉ m.timers
  known : ∀ a, a ∈ batch ∨ a ∈ m.timers → a ∈ m.created

namespace Sound

variable {m : TimerManager}

/-- The set is in order. -/
theorem placed {batch : List Address} (sound : Sound m batch) : Placed m batch :=
  ⟨sound.sorted, sound.distinct, sound.out, sound.known⟩

/-- The set is in order, and the armed timers are in it or in the batch. -/
theorem of_placed {batch : List Address} (placed : Placed m batch)
    (armed : ∀ a, (m.timer a).cb ≠ none ↔ a ∈ batch ∨ a ∈ m.timers) : Sound m batch :=
  ⟨placed.sorted, armed, placed.distinct, placed.out, placed.known⟩

theorem addTimer (sound : Sound m []) {a : Address} (fresh : a ∉ m.created) (now ms : UInt64)
    (cb : Callback) (recurring : Bool) :
    Sound (addTimer m a now ms (some cb) recurring).1 [] := by
  refine of_placed (sound.placed.addTimer fresh now ms _ recurring) fun b => ?_
  have old := sound.armed b
  by_cases self : b = a
  · subst self
    simp [Timers.addTimer]
  · simp only [Timers.addTimer, insertTimer_timer, write_timer_of_ne self, mem_insertTimer,
      write_timers, List.not_mem_nil, false_or, self] at old ⊢
    exact old

theorem disarm (sound : Sound m []) (a : Address) : Sound (disarm m a) [] := by
  refine of_placed (sound.placed.disarm a) fun b => ?_
  rw [sound.sorted.mem_disarm, disarm_timer]
  by_cases self : b = a
  · subst self
    simp
  · simpa [self] using sound.armed b

/-- Re-keying an armed timer keeps the invariant when it keeps the callback. -/
theorem rekey (sound : Sound m []) {a : Address} (inside : a ∈ m.timers) {t : Timer}
    (keeps : t.cb = (m.timer a).cb) : Sound (rekey m a t) [] := by
  refine of_placed (sound.placed.rekey inside t) fun b => ?_
  rw [sound.sorted.mem_rekey, rekey_timer]
  by_cases self : b = a
  · subst self
    simpa [keeps, inside] using sound.armed b
  · simpa [self] using sound.armed b

theorem cancel (sound : Sound m []) (a : Address) : Sound (cancel m a).1 [] := by
  rw [cancel_eq sound.sorted]
  split
  · exact sound
  · exact sound.disarm a

theorem refresh (sound : Sound m []) (a : Address) (now : UInt64) :
    Sound (refresh m a now).1 [] := by
  rw [refresh_eq sound.sorted]
  split
  next => exact sound
  next armed =>
    rw [not_or, not_not] at armed
    exact sound.rekey armed.2 rfl

theorem reset (sound : Sound m []) (a : Address) (now ms : UInt64) (fromNow : Bool) :
    Sound (reset m a now ms fromNow).1 [] := by
  rw [reset_eq sound.sorted]
  split
  next => exact sound
  next =>
    split
    next => exact sound
    next inside => exact sound.rekey (not_not.mp inside) rfl

/-- Taking the batch out of the set. -/
theorem extract (sound : Sound m []) (now : UInt64) (probe : Address) :
    Sound { m with timers := (expiredTimers m now probe).2 } (expiredTimers m now probe).1 := by
  refine of_placed (sound.placed.extract now probe) fun a => ?_
  rw [← List.mem_append, expiredTimers_append]
  simpa using sound.armed a

/-- **One iteration of the expiry loop** finishes the first timer of the batch. -/
theorem finishExpired {a : Address} {rest : List Address} (sound : Sound m (a :: rest))
    (now : UInt64) : Sound (finishExpired m now a) rest := by
  refine of_placed (sound.placed.finishExpired now) fun b => ?_
  have apart : a ∉ rest := (List.nodup_cons.mp sound.distinct).1
  have outside : a ∉ m.timers := sound.out a List.mem_cons_self
  have armedA : (m.timer a).cb ≠ none := (sound.armed a).mpr (Or.inl List.mem_cons_self)
  rw [mem_timers_finishExpired, finishExpired_timer]
  by_cases self : b = a
  · subst self
    rw [Function.update_self, finished]
    split
    next recurring => simp [armedA, recurring]
    next oneShot => simp [apart, outside, oneShot]
  · have armed := sound.armed b
    rw [List.mem_cons, or_iff_right self] at armed
    rw [Function.update_of_ne self, armed]
    simp [self]

/-- The loop, by induction on the batch. -/
theorem expireAll {now : UInt64} {batch : List Address} (sound : Sound m batch) :
    Sound (expireAll now batch m).1 [] := by
  induction batch generalizing m with
  | nil => exact sound
  | cons a rest ih => exact ih (sound.finishExpired now)

theorem listExpiredCbs (sound : Sound m []) (now : UInt64) (probe : Address) :
    Sound (listExpiredCbs m now probe).1 [] := (sound.extract now probe).expireAll

end Sound

theorem sound_empty : Sound empty [] :=
  .of_placed placed_empty fun a => by simp [empty]

/-! ### Runs of atomic calls -/

/-- A call, with the clock readings it makes and the addresses the allocator gives it. -/
inductive Call
  | addTimer (a : Address) (now ms : UInt64) (cb : Option Callback) (recurring : Bool)
  | cancel (a : Address)
  | refresh (a : Address) (now : UInt64)
  | reset (a : Address) (now ms : UInt64) (fromNow : Bool)
  | listExpiredCbs (now : UInt64) (probe : Address)
deriving DecidableEq

/-- One call. A new object gets an address not in use; a handle is one of an object made before. -/
def step (m : TimerManager) : Call → Option TimerManager
  | .addTimer a now ms cb recurring =>
      if a ∈ m.created then none else some (addTimer m a now ms cb recurring).1
  | .cancel a => if a ∈ m.created then some (cancel m a).1 else none
  | .refresh a now => if a ∈ m.created then some (refresh m a now).1 else none
  | .reset a now ms fromNow => if a ∈ m.created then some (reset m a now ms fromNow).1 else none
  | .listExpiredCbs now probe =>
      if probe ∈ m.created then none else some (listExpiredCbs m now probe).1

/-- Runs of calls on a new manager, one after another. -/
def atomicCalls : Machine TimerManager Call := ⟨fun m => m = empty, step⟩

/-- The condition on a run: `add_timer` is given a callback. -/
def Call.Callable : Call → Prop
  | .addTimer _ _ _ cb _ => cb ≠ none
  | _ => True

instance : DecidablePred Call.Callable
  | .addTimer _ _ _ cb _ => inferInstanceAs (Decidable (cb ≠ none))
  | .cancel _ | .refresh _ _ | .reset _ _ _ _ | .listExpiredCbs _ _ => isTrue trivial

/-- **Every call keeps the invariant.** -/
theorem Sound.step {m m' : TimerManager} {c : Call} (sound : Sound m []) (callable : c.Callable)
    (stepped : step m c = some m') : Sound m' [] := by
  cases c with
  | addTimer a now ms cb recurring =>
    obtain ⟨fresh, same⟩ := Option.ite_none_left_eq_some.mp stepped
    obtain ⟨cb, rfl⟩ := Option.ne_none_iff_exists'.mp callable
    exact Option.some.inj same ▸ sound.addTimer fresh now ms cb recurring
  | cancel a =>
    obtain ⟨-, same⟩ := Option.ite_none_right_eq_some.mp stepped
    exact Option.some.inj same ▸ sound.cancel a
  | refresh a now =>
    obtain ⟨-, same⟩ := Option.ite_none_right_eq_some.mp stepped
    exact Option.some.inj same ▸ sound.refresh a now
  | reset a now ms fromNow =>
    obtain ⟨-, same⟩ := Option.ite_none_right_eq_some.mp stepped
    exact Option.some.inj same ▸ sound.reset a now ms fromNow
  | listExpiredCbs now probe =>
    obtain ⟨-, same⟩ := Option.ite_none_left_eq_some.mp stepped
    exact Option.some.inj same ▸ sound.listExpiredCbs now probe

theorem Sound.reachable {m : TimerManager}
    (reached : atomicCalls.ReachableWhen (fun _ c => c.Callable) m) : Sound m [] :=
  reached.invariant (fun _ begins => begins ▸ sound_empty) fun _ _ _ sound callable stepped =>
    sound.step callable stepped

/-! ### What the invariant says of the set -/

/-- **What the set is to its users**: sorted, exactly the armed timers, found by `find`, and
`get_next_timeout` the distance to the earliest of them (`~0ull` when there is none). -/
structure Represents (m : TimerManager) : Prop where
  sorted : m.timers.Pairwise fun a b =>
    (m.timer a).next < (m.timer b).next ∨ ((m.timer a).next = (m.timer b).next ∧ a < b)
  once : m.timers.Nodup
  armed : ∀ a, a ∈ m.timers ↔ (m.timer a).cb ≠ none
  lookup : ∀ a, findTimer m a = if a ∈ m.timers then some a else none
  timeout : ∀ now, (getNextTimeout m now).toNat =
    match (m.timers.map fun a => (m.timer a).next.toNat).min? with
    | none => 2 ^ 64 - 1
    | some least => least - now.toNat

/-- In a sorted set the first timer has the least due time. -/
theorem TimerManager.Sorted.min_next {m : TimerManager} (sorted : m.Sorted) {first : Address}
    {others : List Address} (content : m.timers = first :: others) :
    (m.timers.map fun a => (m.timer a).next.toNat).min? = some (m.timer first).next.toNat := by
  rw [content, List.map_cons, List.min?_eq_some_iff]
  refine ⟨List.mem_cons_self, fun time member => ?_⟩
  rw [← List.map_cons (f := fun a => (m.timer a).next.toNat), ← content] at member
  obtain ⟨a, inside, rfl⟩ := List.mem_map.mp member
  exact UInt64.le_iff_toNat_le.mp (sorted.next_head_le content inside)

theorem getNextTimeout_toNat {m : TimerManager} (sorted : m.Sorted) (now : UInt64) :
    (getNextTimeout m now).toNat =
      match (m.timers.map fun a => (m.timer a).next.toNat).min? with
      | none => 2 ^ 64 - 1
      | some least => least - now.toNat := by
  cases content : m.timers with
  | nil =>
    simp only [getNextTimeout, content, List.map_nil, List.min?_nil]
    decide
  | cons first others =>
    rw [← content, sorted.min_next content]
    simp only [getNextTimeout, content]
    split
    next due =>
      rw [UInt64.le_iff_toNat_le] at due
      simp only [UInt64.toNat_zero]
      omega
    next later =>
      rw [UInt64.le_iff_toNat_le] at later
      refine UInt64.toNat_sub_of_le _ _ (UInt64.le_iff_toNat_le.mpr ?_)
      omega

/-- **The timer set represents the armed timers, in every reachable state.** -/
theorem timer_set_represents (m : TimerManager)
    (reached : atomicCalls.ReachableWhen (fun _ c => c.Callable) m) : Represents m := by
  have sound := Sound.reachable reached
  refine ⟨?_, OrderedSet.IsSet.nodup (before_strictOrder _) sound.sorted, fun a => ?_,
    sound.sorted.findTimer_eq, getNextTimeout_toNat sound.sorted⟩
  · exact List.Pairwise.imp (fun less => before_iff.mp less) sound.sorted
  · simpa using (sound.armed a).symm

/-- Two timers share a due time, and the recurring one is armed again. -/
def sharedDueCalls : List Call :=
  [.addTimer 7 0 10 (some 1) true, .addTimer 3 0 10 (some 2) false,
    .addTimer 4 5 20 (some 3) false, .listExpiredCbs 10 9, .refresh 4 12]

theorem timer_set_represents_sharedDue :
    ∃ m, atomicCalls.replay empty sharedDueCalls = some m ∧ m.timers = [7, 4] ∧ Represents m := by
  refine ⟨_, rfl, by decide, timer_set_represents _ ?_⟩
  exact Machine.ReachableWhen.replayWhen (.start rfl)
    (show atomicCalls.replayWhen (fun _ c => c.Callable) empty sharedDueCalls = some _ from rfl)

end Sylar.Timers
