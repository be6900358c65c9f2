/-
**How many timers are armed, step by step.**

A list that a thread in `list_expired_cbs` is filling has a place for every timer of its batch, and
the set grows again by the recurring ones among them.

* `getNextTimeout_eq_max_iff` — when `get_next_timeout` says that there is none.
* `Expiry.rearms` — how many timers a thread has still to arm again.
* `lockedLoop_locked`, `writeSection_locked` — the write section: the part of the batch that it does
  ends with the first recurring timer, or is all of it.
* `request_armed` — a call by another thread arms one timer more, one less, or as many.
-/

import Sylar.Timers.Reactors

namespace Sylar.Timers

open Sylar.Library

variable {n : Nat}

/-! ### The size of the set -/

theorem length_insertTimer {m : TimerManager} {a : Address} (outside : a ∉ m.timers) :
    (insertTimer m a).1.timers.length = m.timers.length + 1 :=
  OrderedSet.length_insert (before_strictOrder m.timer) outside

/-- An iteration arms a recurring timer. -/
theorem length_finishExpired {m : TimerManager} {a : Address} (outside : a ∉ m.timers)
    (now : UInt64) : (finishExpired m now a).timers.length =
      m.timers.length + (m.timer a).recurring.toNat := by
  unfold finishExpired
  split
  next again =>
    rw [again]
    exact length_insertTimer (m := m.write a { m.timer a with next := now + (m.timer a).ms })
      outside
  next once =>
    rw [Bool.eq_false_iff.mpr once]
    rfl

theorem length_rekey {m : TimerManager} (sorted : m.Sorted) {a : Address} (inside : a ∈ m.timers)
    (t : Timer) : (rekey m a t).timers.length = m.timers.length := by
  have outside : a ∉ ((eraseTimer m a).write a t).timers := fun member =>
    ((OrderedSet.mem_erase_iff (before_strictOrder m.timer) sorted).mp member).1 rfl
  unfold rekey
  rw [length_insertTimer outside]
  show (m.timers.erase a).length + 1 = _
  rw [List.length_erase_of_mem inside]
  exact Nat.sub_add_cancel (List.length_pos_of_mem inside)

/-- **At a clock reading that is not 0, an infinite timeout says that no timer is armed.** -/
theorem getNextTimeout_eq_max_iff {m : TimerManager} {now : UInt64} (reads : now ≠ 0) :
    getNextTimeout m now = ~~~0 ↔ m.timers = [] := by
  unfold getNextTimeout
  cases m.timers with
  | nil => simp
  | cons first rest =>
    simp only [reduceCtorEq, iff_false]
    split
    next => decide
    next later =>
      intro same
      have far := congrArg UInt64.toNat same
      rw [UInt64.toNat_sub_of_le _ _ (UInt64.le_of_lt (UInt64.not_le.mp later))] at far
      have bound := (m.timer first).next.toNat_lt
      have positive : now.toNat ≠ 0 := fun zero => reads (UInt64.toNat_inj.mp zero)
      have full : (~~~0 : UInt64).toNat = 2 ^ 64 - 1 := rfl
      omega

/-- A thread with nothing in hand has nothing to push. -/
theorem Pc.toPush_of_hand {pc : Pc} (nothing : pc.hand = []) : pc.toPush = [] :=
  List.subset_nil.mp (nothing ▸ pc.toPush_subset_hand)

/-! ### The write section -/

namespace Expiry

/-- The timer is armed again when its turn comes. -/
def again (s : Expiry n) (x : Extracted) : Bool := (s.manager.timer x.timer).recurring

/-- How many timers the thread has still to arm again. -/
def rearms (s : Expiry n) (e : Fin n) : Nat := (s.pc e).hand.countP s.again

/-- **What the lock covers**: `done` goes through the loop, and a timer of it is armed again only if
it is the last one. -/
structure Locked (s : Expiry n) (e : Fin n) (now : UInt64) (done rest : List Extracted)
    (s' : Expiry n) : Prop where
  pc : s'.pc = Function.update s.pc e (resume now rest)
  handed : ∃ new, s'.handed = s.handed ++ new ∧ new.length = done.length
  armed : s'.manager.timers.length = s.manager.timers.length + done.countP s.again
  one : done.countP s.again ≤ 1
  stops : done.countP s.again = 0 → rest = []

end Expiry

theorem lockedLoop_locked {e : Fin n} {now : UInt64} :
    ∀ {batch : List Extracted} {s : Expiry n}, Owned s → s.pc e = resume now batch →
      ∃ done rest, batch = done ++ rest ∧ s.Locked e now done rest (Expiry.lockedLoop e now batch s)
  | [], s, _, head => by
    refine ⟨[], [], rfl, ?_, ⟨[], (List.append_nil _).symm, rfl⟩, rfl, Nat.zero_le _, fun _ => rfl⟩
    rw [← head, Function.update_eq_self]
    rfl
  | x :: rest, s, owned, head => by
    have outside : x.timer ∉ s.manager.timers :=
      owned.out e x (by rw [head]; exact List.mem_cons_self)
    let after := (s.push e now x rest).finish e now x rest
    have pc : after.pc = Function.update s.pc e (resume now rest) := Function.update_idem ..
    have armed : after.manager.timers.length = s.manager.timers.length + (s.again x).toNat :=
      length_finishExpired outside now
    unfold Expiry.lockedLoop
    split
    next again =>
      have one : [x].countP s.again = 1 := List.countP_singleton.trans (if_pos again)
      refine ⟨[x], rest, rfl, pc, ⟨_, rfl, rfl⟩, ?_, one.le, fun none => ?_⟩
      · rw [one, armed, show s.again x = true from again]
        rfl
      · rw [one] at none
        cases none
    next once =>
      have once : s.again x = false := Bool.eq_false_iff.mpr once
      have kinds : after.again = s.again := funext fun y => finishExpired_recurring _ _ _ _
      have ownedAfter : Owned after := (owned.push head).finish (Function.update_self _ _ _)
      obtain ⟨done, left, rfl, locked⟩ :=
        lockedLoop_locked ownedAfter (pc ▸ Function.update_self _ _ _)
      have count : (x :: done).countP s.again = done.countP after.again := by
        rw [List.countP_cons_of_neg (Bool.eq_false_iff.mp once), kinds]
      refine ⟨x :: done, left, rfl, ?_, ?_, ?_, count ▸ locked.one, count ▸ locked.stops⟩
      · rw [locked.pc, pc, Function.update_idem]
      · obtain ⟨new, handed, length⟩ := locked.handed
        exact ⟨_ :: new, by rw [handed]; exact List.append_assoc .., by simp [length]⟩
      · rw [locked.armed, armed, count, once]
        rfl

/-- **The write section**: a batch goes out of the set, and through the locked part of the loop. -/
theorem writeSection_locked {s : Expiry n} (owned : Owned s) (e : Fin n) (now : UInt64)
    {probe : Address} (fresh : probe ∉ s.manager.created) :
    ∃ done rest, (done ++ rest).length + (s.extract e now probe).manager.timers.length =
        s.manager.timers.length ∧
      (s.extract e now probe).Locked e now done rest (s.writeSection e now probe) := by
  have head : (s.extract e now probe).pc e = resume now (s.extracted now probe) :=
    Function.update_self ..
  obtain ⟨done, rest, batch, locked⟩ := lockedLoop_locked (owned.extract fresh) head
  refine ⟨done, rest, ?_, locked⟩
  have length : (s.extracted now probe).length = (expiredTimers s.manager now probe).1.length := by
    rw [← List.length_map Extracted.timer, Expiry.extracted, map_timer_numbered]
  rw [← batch, length, ← expiredTimers_append s.manager now probe, List.length_append]
  rfl

/-! ### The calls of other threads -/

/-- A call inserts at most once. -/
theorem countP_insertions_le {m : TimerManager} {c : Call}
    (asked : ∀ now probe, c ≠ .listExpiredCbs now probe) :
    (insertions m c).countP (·.front) ≤ 1 := by
  have once (a : Address) (inserted : Option (TimerManager × Bool)) :
      (insertion m a inserted).countP (·.front) ≤ 1 :=
    List.countP_le_length.trans (by cases inserted <;> simp [insertion])
  cases c with
  | addTimer | refresh | reset => exact once _ _
  | cancel => exact Nat.zero_le 1
  | listExpiredCbs now probe => exact absurd rfl (asked now probe)

/-- **A call arms one timer more, or as many; or it cancels one.** -/
theorem request_armed {s s' : Expiry n} {c : Call} (owned : Owned s)
    (asked : ∀ now probe, c ≠ .listExpiredCbs now probe) (requested : s.request c = some s') :
    s'.manager.timers.length = s.manager.timers.length + 1 ∨
      s'.manager.timers.length = s.manager.timers.length ∨
      s'.manager.timers.length + 1 = s.manager.timers.length ∧ insertions s.manager c = [] := by
  rcases request_cases owned.sorted asked requested with
    ⟨a, now, ms, cb, recurring, fresh, rfl⟩ | ⟨a, rfl, -, -, rfl⟩ | ⟨a, t, inside, -, -, rfl⟩ | rfl
  · exact .inl (length_insertTimer (m := { s.manager.write a { recurring, ms, next := now + ms, cb }
      with created := a :: s.manager.created }) fun inside => fresh (owned.known a inside))
  · by_cases inside : a ∈ s.manager.timers
    · refine .inr (.inr ⟨?_, rfl⟩)
      show (s.manager.timers.erase a).length + 1 = _
      rw [List.length_erase_of_mem inside]
      exact Nat.sub_add_cancel (List.length_pos_of_mem inside)
    · exact .inr (.inl (congrArg List.length (List.erase_of_not_mem inside)))
  · exact .inr (.inl (length_rekey owned.sorted inside t))
  · exact .inr (.inl rfl)

/-! ### The second half of an iteration -/

section Finish

variable {s : Expiry n} {e : Fin n} {now : UInt64} {x : Extracted} {rest : List Extracted}

theorem finish_again : (s.finish e now x rest).again = s.again :=
  funext fun _ => finishExpired_recurring _ _ _ _

theorem rearms_finish : (s.finish e now x rest).rearms e = rest.countP s.again := by
  have here : (s.finish e now x rest).pc e = resume now rest := Function.update_self ..
  unfold Expiry.rearms
  rw [here, hand_resume, finish_again]

theorem rearms_of_pushed (head : s.pc e = .pushed now x rest) :
    s.rearms e = rest.countP s.again + (s.again x).toNat := by
  unfold Expiry.rearms
  rw [head]
  show (x :: rest).countP _ = _
  rw [List.countP_cons]
  cases s.again x <;> rfl

/-- Nothing is pushed. -/
theorem toPush_finish (head : s.pc e = .pushed now x rest) :
    ((s.finish e now x rest).pc e).toPush = (s.pc e).toPush := by
  have here : (s.finish e now x rest).pc e = resume now rest := Function.update_self ..
  rw [here, toPush_resume, head]
  rfl

/-- **A timer that is armed again** is one more in the set. -/
theorem armed_finish (owned : Owned s) (head : s.pc e = .pushed now x rest) :
    (s.finish e now x rest).manager.timers.length =
      s.manager.timers.length + (s.again x).toNat :=
  length_finishExpired (owned.out e x (by rw [head]; exact List.mem_cons_self)) now

/-- One that is not is not inserted. -/
theorem inserts_finish_eq_nil (head : s.pc e = .pushed now x rest) (once : s.again x = false) :
    s.inserts (.finish e) = [] := by
  have kind : (s.manager.timer x.timer).recurring = false := once
  simp only [Expiry.inserts, head]
  unfold rearmInsert
  rw [if_neg (Bool.eq_false_iff.mp kind)]
  rfl

end Finish

/-! ### What a step leaves alone -/

/-- A timer that was made keeps its kind. -/
theorem recurring_of_next {s s' : Expiry n} (owned : Owned s) {event : Event n}
    (stepped : s.next event = some s') {a : Address} (made : a ∈ s.manager.created) :
    (s'.manager.timer a).recurring = (s.manager.timer a).recurring := by
  cases Expiry.move_of_next stepped with
  | call | test | push => rfl
  | finish | iterate => exact finishExpired_recurring _ _ _ _
  | writeSection seen fresh =>
    refine lockedLoop_keeps (P := fun t =>
      (t.manager.timer a).recurring = (s.manager.timer a).recurring) (fun _ _ _ same _ => same)
      (fun _ _ _ same _ => (finishExpired_recurring _ _ _ _).trans same) _ _ rfl
      (Function.update_self _ _ _)
  | request asked requested =>
    rcases request_cases owned.sorted asked requested with
      ⟨b, now, ms, cb, recurring, fresh, rfl⟩ | ⟨b, -, -, -, rfl⟩ | ⟨b, t, -, -, kind, rfl⟩ | rfl
    · exact congrArg Timer.recurring (write_timer_of_ne (ne_of_mem_of_not_mem made fresh) _)
    · rw [disarm_timer]
      by_cases self : a = b
      · subst self
        rw [Function.update_self]
      · rw [Function.update_of_ne self]
    · rw [rekey_timer]
      by_cases self : a = b
      · subst self
        rw [Function.update_self, kind]
      · rw [Function.update_of_ne self]
    · rfl

/-- The other threads stay where they are. -/
theorem pc_of_next {s s' : Expiry n} {event : Event n} (stepped : s.next event = some s')
    {e : Fin n} (other : event.thread ≠ some e) : s'.pc e = s.pc e := by
  have stays (t : Expiry n) {e' : Fin n} (mine : event.thread = some e') (pc : Pc) :
      Function.update t.pc e' pc e = t.pc e :=
    Function.update_of_ne (fun same => other (mine.trans (congrArg some same.symm))) _ _
  cases Expiry.move_of_next stepped with
  | call | test | push | finish => exact stays s rfl _
  | @iterate e' now x rest head => exact (stays (s.push e' now x rest) rfl _).trans (stays s rfl _)
  | writeSection seen fresh =>
    exact lockedLoop_keeps (P := fun t => t.pc e = s.pc e)
      (fun t _ _ same _ => (stays t rfl _).trans same)
      (fun t _ _ same _ => (stays t rfl _).trans same) _ _ (stays s rfl _)
      (Function.update_self _ _ _)
  | request asked requested =>
    obtain ⟨m, -, rfl⟩ := Option.map_eq_some_iff.mp requested
    rfl

/-- **And so does what they have still to arm again.** -/
theorem rearms_of_next {s s' : Expiry n} (owned : Owned s) {event : Event n}
    (stepped : s.next event = some s') {e : Fin n} (other : event.thread ≠ some e) :
    s'.rearms e = s.rearms e := by
  unfold Expiry.rearms
  rw [pc_of_next stepped other]
  refine List.countP_congr fun x member => ?_
  unfold Expiry.again
  rw [recurring_of_next owned stepped (owned.knownHand member)]

end Sylar.Timers
