/-
**Is a cancellation final?**

`Timer::cancel` empties `m_cb` and takes the timer out of the set. A timer of a running expiry loop
is in no set, and the loop does not look at `m_cb` before it pushes it or arms the timer again: what
`cancel` did to such a timer does not last.

* `cancelled_timer_rearmed` — a run in which a cancelled timer is pushed, armed again, and due again.
* `Pc.pending` — what an expiry loop has still to push, or to arm again.
* **`cancel_final`** — as long as no pending timer is cancelled, every cancellation is final.
-/

import Sylar.Timers.Expiry

namespace Sylar.Timers

open Sylar.Library

variable {n : Nat}

/-- **Cancellation is final**: a timer whose `cancel()` returned true is not in the set, and nothing
is pushed for it afterwards. -/
def CancelFinal (s : Expiry n) : Prop :=
  (∀ a ∈ s.cancelled, a ∉ s.manager.timers) ∧ ∀ h ∈ s.handed, h.late = false

instance (s : Expiry n) : Decidable (CancelFinal s) := inferInstanceAs (Decidable (_ ∧ _))

/-! ### A cancellation that does not last -/

/-- Two recurring timers are due. The lock is released when the first is armed again; the second is
cancelled after that, and the loop goes on. -/
def cancelInLoop : List (Event 1) :=
  [.request (.addTimer 3 0 10 (some 1) true), .request (.addTimer 7 0 10 (some 2) true),
    .call 0 10, .test 0, .writeSection 0 9, .request (.cancel 7), .push 0, .finish 0]

/-- The cancelled timer is handed out as an empty callback, and back in the set. -/
theorem cancelled_timer_rearmed :
    ∃ s, (expiry 1).Reachable s ∧ 7 ∈ s.cancelled ∧ 7 ∈ s.manager.timers ∧
      (∃ h ∈ s.handed, h.timer = 7 ∧ h.late = true) ∧ ¬ CancelFinal s := by
  refine ⟨_, Machine.ReachableWhen.replay (.start rfl)
    (show (expiry 1).replay (Expiry.initial 1) cancelInLoop = some _ from rfl), ?_⟩
  decide

/-! ### What must not be cancelled -/

/-- The timers a thread has still to push, or has pushed and has still to arm again. -/
def Pc.pending (heap : Heap) : Pc → List Address
  | .looping _ rest => rest.map Extracted.timer
  | .pushed _ x rest =>
      if (heap x.timer).recurring then x.timer :: rest.map Extracted.timer
      else rest.map Extracted.timer
  | _ => []

/-- A `cancel()` that takes effect finds its timer in no expiry loop. -/
def settledCancel (s : Expiry n) : Event n → Prop
  | .request (.cancel a) =>
      (s.manager.timer a).cb = none ∨ ∀ e, a ∉ (s.pc e).pending s.manager.timer
  | _ => True

instance (s : Expiry n) : DecidablePred (settledCancel s)
  | .request (.cancel _) => inferInstanceAs (Decidable (_ ∨ _))
  | .request (.addTimer ..) | .request (.refresh ..) | .request (.reset ..)
  | .request (.listExpiredCbs ..) | .call .. | .test _ | .writeSection .. | .push _ | .finish _
  | .iterate _ => isTrue trivial

@[simp] theorem pending_resume (heap : Heap) (now : UInt64) (rest : List Extracted) :
    (resume now rest).pending heap = rest.map Extracted.timer := by cases rest <;> rfl

/-- What is pending is in a hand. -/
theorem Pc.pending_subset (heap : Heap) (pc : Pc) :
    pc.pending heap ⊆ pc.hand.map Extracted.timer := by
  cases pc with
  | pushed now x rest =>
    simp only [Pc.pending, Pc.hand, List.map_cons]
    split
    · exact List.Subset.refl _
    · exact List.subset_cons_self _ _
  | looping now rest => exact List.Subset.refl _
  | _ => exact List.nil_subset _

/-- Only the kinds of the timers in the hand matter. -/
theorem Pc.pending_congr {heap heap' : Heap} {pc : Pc}
    (kind : ∀ x ∈ pc.hand, (heap' x.timer).recurring = (heap x.timer).recurring) :
    pc.pending heap' = pc.pending heap := by
  cases pc with
  | pushed now x rest =>
    simp only [Pc.pending, kind x List.mem_cons_self]
  | _ => rfl

/-! ### The invariant -/

/-- **A cancelled timer is silent, out of the set, and pending nowhere.** -/
structure Final (s : Expiry n) : Prop extends Owned s where
  madeCancelled : ∀ a ∈ s.cancelled, a ∈ s.manager.created
  silent : ∀ a ∈ s.cancelled, (s.manager.timer a).cb = none
  outCancelled : ∀ a ∈ s.cancelled, a ∉ s.manager.timers
  settled : ∀ a ∈ s.cancelled, ∀ e, a ∉ (s.pc e).pending s.manager.timer
  early : ∀ h ∈ s.handed, h.late = false

namespace Final

theorem initial (n : Nat) : Final (Expiry.initial n) where
  toOwned := Owned.initial n
  madeCancelled a member := by cases member
  silent a member := by cases member
  outCancelled a member := by cases member
  settled a member := by cases member
  early h member := by cases member

variable {s s' : Expiry n}

/-- Moving a thread to a place where nothing is pending. -/
theorem setPc (final : Final s) (e : Fin n) {pc : Pc} (nothing : pc.hand = []) :
    Final { s with pc := Function.update s.pc e pc } := by
  have noPush : pc.toPush = [] := List.eq_nil_of_subset_nil (nothing ▸ pc.toPush_subset_hand)
  have noPending : pc.pending s.manager.timer = [] := by
    refine List.eq_nil_of_subset_nil ?_
    have within := pc.pending_subset s.manager.timer
    rwa [nothing] at within
  refine { final with
    toOwned := final.toOwned.setPc e (nothing ▸ List.nil_sublist _) (noPush ▸ List.nil_subset _)
    settled := fun a member f inside => ?_ }
  by_cases self : f = e
  · subst self
    simp only [Function.update_self, noPending] at inside
    cases inside
  · simp only [Function.update_of_ne self] at inside
    exact final.settled a member f inside

/-- Nothing that is pushed has been cancelled. -/
theorem push (final : Final s) {e : Fin n} {now : UInt64} {x : Extracted} {rest : List Extracted}
    (head : s.pc e = .looping now (x :: rest)) : Final (s.push e now x rest) := by
  have live : x.timer ∉ s.cancelled := by
    intro member
    refine final.settled x.timer member e ?_
    rw [head]
    exact List.mem_cons_self
  refine { final with
    toOwned := final.toOwned.push head
    settled := fun a member f inside => ?_
    early := fun h member => ?_ }
  · by_cases self : f = e
    · subst self
      refine final.settled a member f ?_
      simp only [Expiry.push, Function.update_self] at inside
      rw [head]
      exact Pc.pending_subset _ (Pc.pushed now x rest) inside
    · simp only [Expiry.push, Function.update_of_ne self] at inside
      exact final.settled a member f inside
  · rcases List.mem_append.mp member with old | new
    · exact final.early h old
    · rw [List.mem_singleton.mp new]
      exact decide_eq_false live

/-- What is armed again has not been cancelled. -/
theorem finish (final : Final s) {e : Fin n} {now : UInt64} {x : Extracted}
    {rest : List Extracted} (head : s.pc e = .pushed now x rest) :
    Final (s.finish e now x rest) := by
  have pendingE := fun a member => final.settled a member e
  rw [head] at pendingE
  refine { final with
    toOwned := final.toOwned.finish head
    madeCancelled := fun a member => ?_
    silent := fun a member => ?_
    outCancelled := fun a member inside => ?_
    settled := fun a member f inside => ?_ }
  · simpa [Expiry.finish] using final.madeCancelled a member
  · by_cases self : a = x.timer
    · subst self
      simp only [Expiry.finish, finishExpired_timer, Function.update_self, finished]
      split
      · exact final.silent _ member
      · rfl
    · simp only [Expiry.finish, finishExpired_timer_of_ne self]
      exact final.silent a member
  · rcases mem_timers_finishExpired.mp inside with old | ⟨rfl, again⟩
    · exact final.outCancelled a member old
    · refine pendingE _ member ?_
      simp [Pc.pending, again]
  · simp only [Expiry.finish] at inside
    rw [Pc.pending_congr fun y _ => finishExpired_recurring s.manager now x.timer y.timer] at inside
    by_cases self : f = e
    · subst self
      rw [Function.update_self, pending_resume] at inside
      refine pendingE a member ?_
      simp only [Pc.pending]
      split
      · exact List.mem_cons_of_mem _ inside
      · exact inside
    · rw [Function.update_of_ne self] at inside
      exact final.settled a member f inside

/-- No cancelled timer is in a batch. -/
theorem extract (final : Final s) {e : Fin n} {now : UInt64} {probe : Address}
    (fresh : probe ∉ s.manager.created) : Final (s.extract e now probe) := by
  refine { final with
    toOwned := final.toOwned.extract fresh
    outCancelled := fun a member inside => final.outCancelled a member ?_
    settled := fun a member f inside => ?_ }
  · exact mem_timers_of_left inside
  · by_cases self : f = e
    · subst self
      simp only [Expiry.extract, Function.update_self, pending_resume, Expiry.extracted,
        map_timer_numbered] at inside
      exact final.outCancelled a member (mem_timers_of_expired inside)
    · simp only [Expiry.extract, Function.update_of_ne self] at inside
      exact final.settled a member f inside

/-- A change of the manager that leaves the cancelled timers alone. -/
theorem setManager (final : Final s) {m : TimerManager} (owned : Owned { s with manager := m })
    (grows : s.manager.created ⊆ m.created)
    (alone : ∀ a ∈ s.cancelled, (m.timer a).cb = none ∧ a ∉ m.timers)
    (kind : ∀ a ∈ s.manager.created, (m.timer a).recurring = (s.manager.timer a).recurring) :
    Final { s with manager := m } where
  toOwned := owned
  madeCancelled a member := grows (final.madeCancelled a member)
  silent a member := (alone a member).1
  outCancelled a member := (alone a member).2
  settled a member e inside := by
    rw [Pc.pending_congr fun x memX => kind x.timer (final.toOwned.knownHand memX)] at inside
    exact final.settled a member e inside
  early := final.early

/-- **A call of another thread**, a `cancel()` only of a timer that is not pending. -/
theorem request (final : Final s) {c : Call} (asked : ∀ now probe, c ≠ .listExpiredCbs now probe)
    (settles : settledCancel s (.request c)) (requested : s.request c = some s') : Final s' := by
  have owned := final.toOwned.request asked requested
  rcases request_cases final.sorted asked requested with
    ⟨a, now, ms, cb, recurring, fresh, rfl⟩ | ⟨a, rfl, armed, made, rfl⟩ |
      ⟨a, t, inside, -, kind, rfl⟩ | rfl
  · have other : ∀ b ∈ s.manager.created, b ≠ a := fun b => (ne_of_mem_of_not_mem · fresh)
    refine final.setManager owned (List.subset_cons_self _ _) (fun b member => ⟨?_, ?_⟩)
      fun b made => ?_
    · have past := other b (final.madeCancelled b member)
      simpa [addTimer, write_timer_of_ne past] using final.silent b member
    · intro inside
      rcases mem_insertTimer.mp inside with rfl | old
      · exact fresh (final.madeCancelled b member)
      · exact final.outCancelled b member old
    · exact congrArg Timer.recurring (write_timer_of_ne (other b made) _)
  · have kind : ∀ b, ((disarm s.manager a).timer b).recurring = (s.manager.timer b).recurring := by
      intro b
      rw [disarm_timer]
      by_cases self : b = a
      · subst self
        simp
      · rw [Function.update_of_ne self]
    have nowhere : ∀ e, a ∉ (s.pc e).pending s.manager.timer :=
      settles.resolve_left armed
    refine
      { toOwned := owned
        madeCancelled := fun b member => ?_
        silent := fun b member => ?_
        outCancelled := fun b member inside => ?_
        settled := fun b member e inside => ?_
        early := final.early }
    · rcases List.mem_cons.mp member with rfl | old
      · exact made
      · exact final.madeCancelled b old
    · by_cases self : b = a
      · subst self
        simp
      · simp only [disarm_timer, Function.update_of_ne self]
        exact final.silent b (List.mem_of_ne_of_mem self member)
    · obtain ⟨other, inside⟩ := final.sorted.mem_disarm.mp inside
      exact final.outCancelled b (List.mem_of_ne_of_mem other member) inside
    · rw [Pc.pending_congr fun x _ => kind x.timer] at inside
      rcases List.mem_cons.mp member with rfl | old
      · exact nowhere e inside
      · exact final.settled b old e inside
  · have other : ∀ b ∈ s.cancelled, b ≠ a := fun b member same =>
      final.outCancelled b member (same ▸ inside)
    refine final.setManager owned (List.Subset.refl _) (fun b member => ⟨?_, fun within => ?_⟩)
      fun b _ => ?_
    · rw [rekey_timer, Function.update_of_ne (other b member)]
      exact final.silent b member
    · rcases final.sorted.mem_rekey.mp within with same | old
      · exact other b member same
      · exact final.outCancelled b member old
    · rw [rekey_timer]
      by_cases self : b = a
      · subst self
        simp [kind]
      · rw [Function.update_of_ne self]
  · exact final

/-- **Every step that meets the condition keeps the invariant.** -/
theorem next (final : Final s) {event : Event n} (settles : settledCancel s event)
    (stepped : s.next event = some s') : Final s' := by
  cases Expiry.move_of_next stepped with
  | call out => exact final.setPc _ rfl
  | test called =>
    refine final.setPc _ ?_
    split <;> rfl
  | writeSection _ fresh =>
    exact lockedLoop_keeps (fun _ _ _ final head => final.push head)
      (fun _ _ _ final head => final.finish head) _ _ (final.extract fresh)
      (Function.update_self _ _ _)
  | push head => exact final.push head
  | finish head => exact final.finish head
  | iterate head => exact (final.push head).finish (Function.update_self _ _ _)
  | request asked requested => exact final.request asked settles requested

end Final

/-- **Cancellation is final in every run that cancels no pending timer**, for any number of threads
in `list_expired_cbs`. -/
theorem cancel_final (n : Nat) (s : Expiry n)
    (reached : (expiry n).ReachableWhen settledCancel s) : CancelFinal s := by
  have final : Final s :=
    reached.invariant (fun _ begins => begins ▸ Final.initial n) fun _ _ _ final settles stepped =>
      final.next settles stepped
  exact ⟨final.outCancelled, final.early⟩

/-- The first timer of the loop is armed again before it is cancelled; the second is cancelled after
its turn. -/
def cancelAfterTurn : List (Event 1) :=
  [.request (.addTimer 3 0 10 (some 1) true), .request (.addTimer 7 0 10 (some 2) true),
    .call 0 10, .test 0, .writeSection 0 9, .request (.cancel 3), .push 0, .finish 0,
    .request (.cancel 7)]

theorem cancel_final_afterTurn :
    ∃ s, (expiry 1).replay (Expiry.initial 1) cancelAfterTurn = some s ∧ s.cancelled = [7, 3] ∧
      CancelFinal s := by
  refine ⟨_, rfl, by decide, cancel_final 1 _ ?_⟩
  exact Machine.ReachableWhen.replayWhen (.start rfl)
    (show (expiry 1).replayWhen settledCancel (Expiry.initial 1) cancelAfterTurn = some _ from rfl)

end Sylar.Timers
