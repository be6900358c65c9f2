/-
**The first timer of a set that has become empty.**

`list_expired_cbs` tests that the set is not empty under the read lock, and looks at
`*m_timers.begin()` under the write lock. A thread between the two (`Pc.seen`) relies on a set that
other threads may change.

* `Empties` — **the steps that empty a set**: the cancellation of its only timer, and a write section
  that takes all timers and arms none again (`Drains`).
* `timers_eq_nil_iff` — no other step does, and these always do.
* `Spares` — the condition: no step of another thread empties the set while a thread is between the
  two.
* `begin_not_end` — **in runs that keep to it, a write section finds the set not empty**.
-/

import Sylar.Timers.Due
import Sylar.Timers.Expiry

namespace Sylar.Timers

open Sylar.Library

variable {n : Nat}

/-! ### Steps that empty the set -/

/-- A write section takes all timers, and arms none again: none is recurring, all are due, and those
due right now are at addresses below the probe's or there is no more than one. -/
def Drains (m : TimerManager) (now : UInt64) (probe : Address) : Prop :=
  (∀ a ∈ m.timers, (m.timer a).recurring = false ∧ (m.timer a).next ≤ now) ∧
    ((∀ a ∈ m.timers, (m.timer a).next = now → a < probe) ∨ m.timers.length ≤ 1)

instance (m : TimerManager) (now : UInt64) (probe : Address) : Decidable (Drains m now probe) :=
  inferInstanceAs (Decidable ((∀ a ∈ m.timers, _ ∧ _) ∧ ((∀ a ∈ m.timers, _ → _) ∨ _)))

/-- The clock as a thread between the two sections has read it. -/
def Pc.reading : Pc → Option UInt64
  | .seen now => some now
  | _ => none

theorem Pc.reading_eq_some {pc : Pc} {now : UInt64} : pc.reading = some now ↔ pc = .seen now := by
  cases pc <;> simp [Pc.reading]

/-- **The steps that empty a set.** -/
def Empties (s : Expiry n) : Event n → Prop
  | .request (.cancel a) => s.manager.timers = [a] ∧ (s.manager.timer a).cb ≠ none
  | .writeSection e probe => ∃ now, s.pc e = .seen now ∧ Drains s.manager now probe
  | _ => False

instance (s : Expiry n) (event : Event n) : Decidable (Empties s event) :=
  match event with
  | .request (.cancel _) => inferInstanceAs (Decidable (_ ∧ _))
  | .writeSection e probe =>
      decidable_of_iff (∃ now ∈ (s.pc e).reading, Drains s.manager now probe)
        (exists_congr fun _ => and_congr_left' Pc.reading_eq_some)
  | .request (.addTimer ..) | .request (.refresh ..) | .request (.reset ..)
  | .request (.listExpiredCbs ..) | .call .. | .test _ | .push _ | .finish _ | .iterate _ =>
      isFalse id

/-- A thread is between the two sections, and the step is not its write section. -/
def Awaited (s : Expiry n) (event : Event n) : Prop :=
  ∃ e now, s.pc e = .seen now ∧ ∀ probe, event ≠ .writeSection e probe

/-- The thread whose write section it is. -/
def Event.writer : Event n → Option (Fin n)
  | .writeSection e _ => some e
  | _ => none

theorem Event.writer_ne_some {event : Event n} {e : Fin n} :
    event.writer ≠ some e ↔ ∀ probe, event ≠ .writeSection e probe := by
  cases event <;> simp [Event.writer]

instance (s : Expiry n) (event : Event n) : Decidable (Awaited s event) :=
  decidable_of_iff (∃ e, (s.pc e).reading.isSome = true ∧ event.writer ≠ some e) <|
    exists_congr fun e => by
      rw [Option.isSome_iff_exists, exists_and_right]
      refine and_congr (exists_congr fun _ => Pc.reading_eq_some) ?_
      exact Event.writer_ne_some

/-- **The condition**: no step of another thread empties the set while a thread is between the two
sections. -/
def Spares (s : Expiry n) (event : Event n) : Prop := Awaited s event → ¬ Empties s event

instance (s : Expiry n) (event : Event n) : Decidable (Spares s event) :=
  inferInstanceAs (Decidable (_ → _))

/-- **When the batch is the whole set.** -/
theorem expiredTimers_eq_timers_iff {m : TimerManager} (sorted : m.Sorted) {now : UInt64}
    {probe : Address} (fresh : probe ∉ m.timers) :
    (expiredTimers m now probe).1 = m.timers ↔
      (∀ a ∈ m.timers, (m.timer a).next ≤ now) ∧
        ((∀ a ∈ m.timers, (m.timer a).next = now → a < probe) ∨ m.timers.length ≤ 1) := by
  have whole : (∀ a ∈ m.timers, (m.timer a).next ≤ now) ↔ due m now = m.timers := by
    rw [due, List.filter_eq_self]
    exact forall₂_congr fun a _ => decide_eq_true_iff.symm
  have batch : (expiredTimers m now probe).1 = due m now ↔ _ := expiredTimers_eq_due_iff sorted fresh
  constructor
  · intro all
    have isDue : ∀ a ∈ m.timers, (m.timer a).next ≤ now := fun a inside =>
      expiredTimers_due fresh (all ▸ inside)
    have same := whole.mp isDue
    rw [same] at batch
    exact ⟨isDue, batch.mp all⟩
  · rintro ⟨isDue, cut⟩
    have same := whole.mp isDue
    rw [same] at batch
    exact batch.mpr cut

/-- The loop under the lock leaves the set empty if it was and no timer of the batch is recurring. -/
theorem lockedLoop_timers_eq_nil (e : Fin n) (now : UInt64) (batch : List Extracted)
    (s : Expiry n) :
    (Expiry.lockedLoop e now batch s).manager.timers = [] ↔
      s.manager.timers = [] ∧ ∀ x ∈ batch, (s.manager.timer x.timer).recurring = false := by
  induction batch generalizing s with
  | nil => simp [Expiry.lockedLoop]
  | cons x rest ih =>
    have armed := @mem_timers_finishExpired s.manager now x.timer
    unfold Expiry.lockedLoop
    rw [List.forall_mem_cons]
    split
    next recurring =>
      refine iff_of_false (fun empty => ?_) fun both => by simp [recurring] at both
      have inside : x.timer ∈ (finishExpired s.manager now x.timer).timers :=
        armed.mpr (.inr ⟨rfl, recurring⟩)
      rw [show (finishExpired s.manager now x.timer).timers = [] from empty] at inside
      cases inside
    next oneShot =>
      rw [ih]
      have same : (finishExpired s.manager now x.timer).timers = s.manager.timers := by
        unfold finishExpired
        rw [if_neg oneShot, write_timers]
      show (finishExpired s.manager now x.timer).timers = [] ∧ (∀ y ∈ rest,
        ((finishExpired s.manager now x.timer).timer y.timer).recurring = false) ↔ _
      simp only [same, finishExpired_recurring, Bool.eq_false_iff.mpr oneShot, true_and]

/-- **What a write section leaves.** -/
theorem writeSection_timers_eq_nil {s : Expiry n} (sorted : s.manager.Sorted) (e : Fin n)
    {now : UInt64} {probe : Address} (fresh : probe ∉ s.manager.timers) :
    (s.writeSection e now probe).manager.timers = [] ↔ Drains s.manager now probe := by
  have split := expiredTimers_append s.manager now probe
  have rest : (expiredTimers s.manager now probe).2 = [] ↔
      (expiredTimers s.manager now probe).1 = s.manager.timers := by
    constructor
    · intro none
      rwa [none, List.append_nil] at split
    · intro all
      rw [all] at split
      exact List.append_right_eq_self.mp split
  have kinds : (∀ x ∈ s.extracted now probe, (s.manager.timer x.timer).recurring = false) ↔
      ∀ a ∈ (expiredTimers s.manager now probe).1, (s.manager.timer a).recurring = false := by
    rw [← map_timer_numbered s.removals.length (expiredTimers s.manager now probe).1,
      List.forall_mem_map]
    rfl
  unfold Expiry.writeSection
  rw [lockedLoop_timers_eq_nil]
  show (expiredTimers s.manager now probe).2 = [] ∧
    (∀ x ∈ s.extracted now probe, (s.manager.timer x.timer).recurring = false) ↔ _
  rw [rest, kinds, Drains]
  constructor
  · rintro ⟨all, once⟩
    obtain ⟨isDue, cut⟩ := (expiredTimers_eq_timers_iff sorted fresh).mp all
    exact ⟨fun a inside => ⟨once a (all ▸ inside), isDue a inside⟩, cut⟩
  · rintro ⟨each, cut⟩
    have all := (expiredTimers_eq_timers_iff sorted fresh).mpr ⟨fun a inside => (each a inside).2, cut⟩
    exact ⟨all, fun a inside => (each a (all ▸ inside)).1⟩

/-- **What a call leaves.** -/
theorem step_timers_eq_nil {m m' : TimerManager} (sorted : m.Sorted) (nonempty : m.timers ≠ [])
    {c : Call} (asked : ∀ now probe, c ≠ .listExpiredCbs now probe) (stepped : step m c = some m') :
    m'.timers = [] ↔ ∃ a, c = .cancel a ∧ m.timers = [a] ∧ (m.timer a).cb ≠ none := by
  have kept : ∀ {a}, a ∈ m'.timers → m'.timers ≠ [] := fun inside => List.ne_nil_of_mem inside
  cases c with
  | addTimer a now ms cb recurring =>
    obtain ⟨-, same⟩ := Option.ite_none_left_eq_some.mp stepped
    cases same
    exact iff_of_false (kept (mem_insertTimer.mpr (.inl rfl))) (by simp)
  | cancel a =>
    obtain ⟨-, same⟩ := Option.ite_none_right_eq_some.mp stepped
    cases same
    rw [cancel_eq sorted]
    split
    next silent => exact iff_of_false nonempty (by simp [silent])
    next armed =>
      show m.timers.erase a = [] ↔ _
      simp [List.erase_eq_nil_iff, nonempty, armed]
  | refresh a now =>
    obtain ⟨-, same⟩ := Option.ite_none_right_eq_some.mp stepped
    cases same
    refine iff_of_false ?_ (by simp)
    rw [refresh_eq sorted]
    split
    next => exact nonempty
    next => exact List.ne_nil_of_mem (sorted.mem_rekey.mpr (.inl rfl))
  | reset a now ms fromNow =>
    obtain ⟨-, same⟩ := Option.ite_none_right_eq_some.mp stepped
    cases same
    refine iff_of_false ?_ (by simp)
    rw [reset_eq sorted]
    split
    next => exact nonempty
    next =>
      split
      next => exact nonempty
      next => exact List.ne_nil_of_mem (sorted.mem_rekey.mpr (.inl rfl))
  | listExpiredCbs now probe => exact absurd rfl (asked now probe)

/-! ### Steps -/

section Step

variable {s s' : Expiry n} {event : Event n}

/-- **No other step empties a set, and these do.** -/
theorem timers_eq_nil_iff (owned : Owned s) (nonempty : s.manager.timers ≠ [])
    (stepped : s.next event = some s') : s'.manager.timers = [] ↔ Empties s event := by
  -- an iteration takes nothing out
  have armed : ∀ {now a}, (finishExpired s.manager now a).timers = [] ↔ False := by
    intro now a
    obtain ⟨first, inside⟩ := List.exists_mem_of_ne_nil _ nonempty
    exact iff_false_intro (List.ne_nil_of_mem (mem_timers_finishExpired.mpr (.inl inside)))
  cases Expiry.move_of_next stepped with
  | call _ => exact iff_of_false nonempty id
  | test _ => exact iff_of_false nonempty id
  | @writeSection e now probe seen unused =>
    have fresh : probe ∉ s.manager.timers := fun inside => unused (owned.known probe inside)
    refine (writeSection_timers_eq_nil owned.sorted e fresh).trans ?_
    constructor
    · exact fun drains => ⟨now, seen, drains⟩
    · rintro ⟨now', seen', drains⟩
      obtain rfl := Pc.seen.inj (seen.symm.trans seen')
      exact drains
  | push _ => exact iff_of_false nonempty id
  | finish _ => exact armed
  | iterate _ => exact armed
  | @request c _ asked requested =>
    obtain ⟨m', called, rfl⟩ := Option.map_eq_some_iff.mp requested
    refine (step_timers_eq_nil owned.sorted nonempty asked called).trans ?_
    cases c <;> simp [Empties]

theorem resume_ne_seen (now later : UInt64) (rest : List Extracted) :
    resume now rest ≠ .seen later := by
  cases rest <;> simp [resume]

/-- The write section moves its own thread only, and to the loop or to the end. -/
theorem writeSection_pc (s : Expiry n) (e : Fin n) (now : UInt64) (probe : Address) :
    (∀ f, f ≠ e → (s.writeSection e now probe).pc f = s.pc f) ∧
      ∀ later, (s.writeSection e now probe).pc e ≠ .seen later := by
  refine lockedLoop_keeps (P := fun t : Expiry n =>
    (∀ f, f ≠ e → t.pc f = s.pc f) ∧ ∀ later, t.pc e ≠ .seen later)
    (fun t x rest holds _ => ?_) (fun t x rest holds _ => ?_) _ _ ?_ (Function.update_self ..)
  · refine ⟨fun f other => ?_, fun later => ?_⟩
    · exact (Function.update_of_ne other _ _).trans (holds.1 f other)
    · show Function.update t.pc e (.pushed now x rest) e ≠ _
      simp
  · refine ⟨fun f other => ?_, fun later => ?_⟩
    · exact (Function.update_of_ne other _ _).trans (holds.1 f other)
    · show Function.update t.pc e (resume now rest) e ≠ _
      rw [Function.update_self]
      exact resume_ne_seen now later rest
  · refine ⟨fun f other => Function.update_of_ne other _ _, fun later => ?_⟩
    show Function.update s.pc e (resume now _) e ≠ _
    rw [Function.update_self]
    exact resume_ne_seen now later _

/-- **How a thread is between the two sections**: it was before, and the step is not its write
section; or it has just found the set not empty. -/
theorem seen_cases {e : Fin n} {now : UInt64} (stepped : s.next event = some s')
    (seen : s'.pc e = .seen now) :
    (s.pc e = .seen now ∧ ∀ probe, event ≠ .writeSection e probe) ∨ s'.manager.timers ≠ [] := by
  -- a thread that is moved elsewhere is another one
  have moved : ∀ {f : Fin n} {pc : Pc}, Function.update s.pc f pc e = .seen now →
      (∀ later, pc ≠ .seen later) → s.pc e = .seen now := by
    intro f pc here elsewhere
    by_cases same : e = f
    · subst same
      rw [Function.update_self] at here
      exact absurd here (elsewhere now)
    · rwa [Function.update_of_ne same] at here
  cases Expiry.move_of_next stepped with
  | call _ => exact .inl ⟨moved seen (by simp), by simp⟩
  | test _ =>
    by_cases empty : s.manager.timers = []
    · simp only [if_pos empty] at seen
      exact .inl ⟨moved seen (by simp), by simp⟩
    · exact .inr empty
  | @writeSection f later probe _ _ =>
    obtain ⟨others, own⟩ := writeSection_pc s f later probe
    by_cases same : e = f
    · subst same
      exact absurd seen (own now)
    · rw [others e same] at seen
      exact .inl ⟨seen, fun _ called => same (Event.writeSection.inj called).1.symm⟩
  | push _ => exact .inl ⟨moved seen (by simp), by simp⟩
  | @finish f later x rest _ =>
    exact .inl ⟨moved seen fun other => resume_ne_seen later other rest, by simp⟩
  | @iterate f later x rest _ =>
    have after : Function.update (Function.update s.pc f (.pushed later x rest)) f
        (resume later rest) e = .seen now := seen
    rw [Function.update_idem] at after
    exact .inl ⟨moved after fun other => resume_ne_seen later other rest, by simp⟩
  | request _ requested =>
    obtain ⟨m', _, rfl⟩ := Option.map_eq_some_iff.mp requested
    exact .inl ⟨seen, by simp⟩

/-- A thread between the two sections finds the set not empty. -/
def FindsTimers (s : Expiry n) : Prop := ∀ e now, s.pc e = .seen now → s.manager.timers ≠ []

/-- **A step keeps a set for the threads between the two sections exactly when it meets the
condition.** -/
theorem findsTimers_iff_spares (owned : Owned s) (finds : FindsTimers s)
    (stepped : s.next event = some s') : FindsTimers s' ↔ Spares s event := by
  constructor
  · rintro finds' ⟨e, now, seen, others⟩ empties
    have empty := (timers_eq_nil_iff owned (finds e now seen) stepped).mpr empties
    refine finds' e now ?_ empty
    -- the step is of another thread
    cases Expiry.move_of_next stepped with
    | @writeSection f later probe _ _ =>
      have other : e ≠ f := fun same => others probe (same ▸ rfl)
      exact ((writeSection_pc s f later probe).1 e other).trans seen
    | request _ requested =>
      obtain ⟨m', _, rfl⟩ := Option.map_eq_some_iff.mp requested
      exact seen
    | _ => exact empties.elim
  · intro spares e now seen
    rcases seen_cases stepped seen with ⟨before, others⟩ | nonempty
    · exact mt (timers_eq_nil_iff owned (finds e now before) stepped).mp
        (spares ⟨e, now, before, others⟩)
    · exact nonempty

end Step

/-! ### Runs -/

/-- **`*m_timers.begin()` is evaluated on a set that is not empty**, in runs that keep to the
condition: whenever a thread's write section comes. -/
theorem begin_not_end {s : Expiry n} (reached : (expiry n).ReachableWhen Spares s) {e : Fin n}
    {probe : Address} (comes : (s.next (.writeSection e probe)).isSome = true) :
    s.manager.timers ≠ [] := by
  have holds : Owned s ∧ FindsTimers s := by
    refine reached.invariant (P := fun s : Expiry n => Owned s ∧ FindsTimers s) ?_ ?_
    · rintro _ rfl
      exact ⟨Owned.initial n, fun e now seen => by cases seen⟩
    · rintro s event s' ⟨owned, finds⟩ spares stepped
      exact ⟨owned.next stepped, (findsTimers_iff_spares owned finds stepped).mpr spares⟩
  simp only [Expiry.next] at comes
  split at comes
  next now seen => exact holds.2 e now seen
  next => cases comes

/-- Two threads test a set of two timers, and the second one takes the timer that is due. -/
def testedTwice : List (Event 2) :=
  [.request (.addTimer 3 0 10 (some 1) false), .request (.addTimer 5 0 100 (some 2) false),
    .call 0 10, .test 0, .call 1 10, .test 1, .writeSection 1 9]

/-- The other thread's write section comes between the two sections of the first one, and leaves a
timer. -/
theorem begin_not_end_between : ∃ s, (expiry 2).ReachableWhen Spares s ∧ s.pc 0 = .seen 10 ∧
    s.removals.map Removal.timer = [3] ∧ s.manager.timers ≠ [] := by
  have run : ∃ s, (expiry 2).ReachableWhen Spares s ∧
      decide (s.pc 0 = .seen 10 ∧ s.removals.map Removal.timer = [3] ∧
        (s.next (.writeSection 0 9)).isSome = true) = true :=
    Machine.reachableWhen_of_replay rfl testedTwice _ (by decide)
  obtain ⟨s, reached, check⟩ := run
  obtain ⟨seen, taken, comes⟩ := of_decide_eq_true check
  exact ⟨s, reached, seen, taken, begin_not_end reached comes⟩

/-- A thread tests a set of one timer. -/
def testedOnce : List (Event 1) :=
  [.request (.addTimer 3 0 10 (some 1) false), .call 0 10, .test 0]

/-- `cancel()` of the only timer comes between them, and the write section evaluates `begin()` of an
empty set. -/
theorem begin_of_empty : ∃ s, (expiry 1).Reachable s ∧ s.pc 0 = .seen 10 ∧ s.manager.timers = [] ∧
    (s.next (.writeSection 0 9)).isSome = true := by
  obtain ⟨s, reached, checked⟩ := Machine.reachable_of_replay (m := expiry 1) (s := Expiry.initial 1)
    rfl (testedOnce ++ [.request (.cancel 3)])
    (fun s => decide (s.pc 0 = .seen 10 ∧ s.manager.timers = [] ∧
      (s.next (.writeSection 0 9)).isSome = true)) (by decide)
  exact ⟨s, reached, of_decide_eq_true checked⟩

end Sylar.Timers
