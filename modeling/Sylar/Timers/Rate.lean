/-
**How often a timer can fire.**

A timer that is handed out and armed again is due its period after the reading it was handed out at,
and no call brings that closer except by a shorter period: `refresh` counts from a later reading, and
`reset` without `from_now` from where the period began.

* `Paced` — a run with its latest clock reading, and every firing with the period at that time.
* `Forward` — the condition: readings do not go back, and due times are below `2 ^ 64`.
* `Spaced` — what calls keep: a timer in the set is due no earlier than its period after any of its
  firings.
* `recurring_rate` — **two firings of a timer are at least its period apart, so `n + 1` firings take
  at least `n` of its shortest period**.
-/

import Sylar.Timers.Early

namespace Sylar.Timers

open Sylar.Library

/-- A firing: the timer, the clock reading, and the period at that time. -/
structure Firing where
  timer : Address
  now : UInt64
  ms : UInt64
deriving DecidableEq

/-- A ledger, the latest clock reading, and what has fired. -/
structure Paced where
  ledger : Ledger
  clock : UInt64
  fired : List Firing

/-- The clock reading of a call. -/
def Call.reading : Call → Option UInt64
  | .addTimer _ now _ _ _ | .refresh _ now | .reset _ now _ _ | .listExpiredCbs now _ => some now
  | .cancel _ => none

/-- What fires in a call. -/
def firedBy (m : TimerManager) : Call → List Firing
  | .listExpiredCbs now probe =>
      (expiredTimers m now probe).1.map fun a => { timer := a, now, ms := (m.timer a).ms }
  | _ => []

/-- One call. -/
def pacedStep (s : Paced) (c : Call) : Option Paced :=
  (ledgerStep s.ledger c).map fun ledger =>
    { ledger, clock := c.reading.getD s.clock, fired := s.fired ++ firedBy s.ledger.manager c }

/-- Runs of calls on a new manager. -/
def paced : Machine Paced Call := ⟨fun s => s = ⟨⟨empty, fun _ => 0, []⟩, 0, []⟩, pacedStep⟩

/-- Clock readings do not go back, and the due times they set are `uint64_t`s. -/
def Forward (s : Paced) (c : Call) : Prop :=
  (∀ now ∈ c.reading, s.clock ≤ now) ∧ Fits s.ledger c

instance (s : Paced) (c : Call) : Decidable (Forward s c) :=
  @instDecidableAnd _ _ (Option.decidableForallMem _) inferInstance

/-- At least the later one's period apart, if they are of one timer. -/
def Firing.Apart (h later : Firing) : Prop :=
  h.timer = later.timer → h.now.toNat + later.ms.toNat ≤ later.now.toNat

/-- **The invariant.** -/
structure Spaced (s : Paced) : Prop where
  reached : ledger.ReachableWhen Fits s.ledger
  past : ∀ h ∈ s.fired, h.now ≤ s.clock
  known : ∀ h ∈ s.fired, h.timer ∈ s.ledger.manager.created
  due : ∀ h ∈ s.fired, h.timer ∈ s.ledger.manager.timers →
    (h.now.toNat + (s.ledger.manager.timer h.timer).ms.toNat : Int) ≤ s.ledger.due h.timer
  apart : s.fired.Pairwise Firing.Apart

namespace Spaced

variable {s s' : Paced} {c : Call} {manager : TimerManager}

/-- **A call on a timer that has fired** brings it no closer to its firings than its period. -/
theorem due_self (spaced : Spaced s) {h : Firing} (fired : h ∈ s.fired)
    (stepped : step s.ledger.manager c = some manager) (forward : ∀ now ∈ c.reading, s.clock ≤ now)
    (handle : c.handle = some h.timer) (inside : h.timer ∈ manager.timers) :
    (h.now.toNat + (manager.timer h.timer).ms.toNat : Int) ≤ dueAfter s.ledger c h.timer := by
  have tracks := Tracks.reachable spaced.reached.reachable
  have sorted := tracks.placed.sorted
  -- from a reading, which is not before the firing
  have counted {now ms : UInt64} (reading : now ∈ c.reading) :
      (h.now.toNat + ms.toNat : Int) ≤ now.toNat + ms.toNat := by
    have late := UInt64.le_iff_toNat_le.mp (UInt64.le_trans (spaced.past h fired)
      (forward now reading))
    omega
  cases c with
  | addTimer b now ms cb recurring =>
    cases handle
    obtain ⟨fresh, -⟩ := Option.ite_none_left_eq_some.mp stepped
    exact absurd (spaced.known h fired) fresh
  | cancel b =>
    cases handle
    obtain ⟨-, same⟩ := Option.ite_none_right_eq_some.mp stepped
    cases same
    rw [cancel_eq sorted] at inside ⊢
    split at inside
    next silent =>
      rw [if_pos silent]
      exact spaced.due h fired inside
    next => exact absurd rfl (sorted.mem_disarm.mp inside).1
  | refresh b now =>
    cases handle
    obtain ⟨-, same⟩ := Option.ite_none_right_eq_some.mp stepped
    cases same
    have closed := refresh_eq sorted h.timer now
    split at closed
    next =>
      have set : dueSet s.ledger (.refresh h.timer now) h.timer = none := if_neg (by simp [closed])
      rw [closed] at inside ⊢
      rw [dueAfter_of_none set]
      exact spaced.due h fired inside
    next =>
      have set : dueSet s.ledger (.refresh h.timer now) h.timer =
          some (now.toNat + (s.ledger.manager.timer h.timer).ms.toNat) :=
        if_pos ⟨rfl, by rw [closed]⟩
      rw [closed, dueAfter_of_some set, rekey_timer, Function.update_self]
      exact counted rfl
  | reset b now ms fromNow =>
    cases handle
    obtain ⟨-, same⟩ := Option.ite_none_right_eq_some.mp stepped
    cases same
    have closed := reset_eq sorted h.timer now ms fromNow
    have set (done : (reset s.ledger.manager h.timer now ms fromNow).2 = true) :=
      dueAfter_of_some (s := s.ledger) (c := .reset h.timer now ms fromNow) (b := h.timer)
        (if_pos ⟨rfl, done⟩)
    split at closed
    next shortcut =>
      obtain ⟨rfl, rfl⟩ := shortcut
      rw [set (by rw [closed]), closed, if_neg Bool.false_ne_true, Int.sub_add_cancel]
      rw [closed] at inside
      exact spaced.due h fired inside
    next =>
      split at closed
      next outside =>
        rw [closed] at inside
        exact absurd inside outside
      next held =>
        rw [set (by rw [closed]), closed, rekey_timer, Function.update_self]
        have before := spaced.due h fired (not_not.mp held)
        cases fromNow with
        | true => exact counted rfl
        | false =>
          show (h.now.toNat + ms.toNat : Int) ≤ s.ledger.due h.timer - _ + ms.toNat
          omega
  | listExpiredCbs now probe => cases handle

/-- **What fires fires at least its period after any earlier firing.** -/
theorem apart_firedBy (spaced : Spaced s) (forward : Forward s c)
    (stepped : step s.ledger.manager c = some manager) {h later : Firing} (fired : h ∈ s.fired)
    (fires : later ∈ firedBy s.ledger.manager c) : h.Apart later := by
  intro same
  have tracks := Tracks.reachable spaced.reached.reachable
  cases c with
  | listExpiredCbs now probe =>
    obtain ⟨a, taken, rfl⟩ := List.mem_map.mp fires
    have inside : a ∈ s.ledger.manager.timers := mem_timers_of_expired taken
    have before := spaced.due h fired (same ▸ inside)
    have handed : (⟨a, (s.ledger.manager.timer a).cb, now, s.ledger.due a⟩ : HandedOut) ∈
        handedBy s.ledger (.listExpiredCbs now probe) := List.mem_map_of_mem taken
    have onTime := (tracks.handedBy_onTime_iff stepped handed).mpr
      ((due_lt_of_fits spaced.reached).1 a)
    have same : h.timer = a := same
    rw [same] at before
    show h.now.toNat + (s.ledger.manager.timer a).ms.toNat ≤ now.toNat
    have onTime : s.ledger.due a ≤ now.toNat := onTime
    omega
  | addTimer | cancel | refresh | reset => cases fires

/-- **After `list_expired_cbs`** a timer of the batch is due its period after the reading. -/
theorem due_listExpiredCbs (spaced : Spaced s) {now : UInt64} {probe : Address} {h : Firing}
    (fired : h ∈ s.fired ++ firedBy s.ledger.manager (.listExpiredCbs now probe))
    (forward : s.clock ≤ now)
    (inside : h.timer ∈ (listExpiredCbs s.ledger.manager now probe).1.timers) :
    (h.now.toNat + ((listExpiredCbs s.ledger.manager now probe).1.timer h.timer).ms.toNat : Int) ≤
      dueAfter s.ledger (.listExpiredCbs now probe) h.timer := by
  have tracks := Tracks.reachable spaced.reached.reachable
  have distinct := tracks.placed.sorted.nodup_expiredTimers now probe
  have notLate : h.now ≤ now := by
    rcases List.mem_append.mp fired with before | fires
    · exact UInt64.le_trans (spaced.past h before) forward
    · obtain ⟨a, -, rfl⟩ := List.mem_map.mp fires
      exact UInt64.le_refl now
  rcases mem_timers_expireAll.mp inside with left | ⟨taken, recurring⟩
  · have out : h.timer ∉ (expiredTimers s.ledger.manager now probe).1 := fun taken =>
      distinct.2.2 taken left
    have set : dueSet s.ledger (.listExpiredCbs now probe) h.timer = none :=
      if_neg fun again => out again.1
    have before : h ∈ s.fired := (List.mem_append.mp fired).resolve_right fun fires => by
      obtain ⟨a, taken, rfl⟩ := List.mem_map.mp fires
      exact out taken
    rw [dueAfter_of_none set, listExpiredCbs, expireAll_timer_of_not_mem out]
    exact spaced.due h before (mem_timers_of_left left)
  · have set : dueSet s.ledger (.listExpiredCbs now probe) h.timer =
        some (now.toNat + (s.ledger.manager.timer h.timer).ms.toNat) := if_pos ⟨taken, recurring⟩
    rw [dueAfter_of_some set, listExpiredCbs, expireAll_timer_of_mem distinct.1 taken, finished]
    simp only [if_pos recurring]
    have late := UInt64.le_iff_toNat_le.mp notLate
    omega

/-- **Every call keeps the invariant.** -/
theorem step (spaced : Spaced s) (forward : Forward s c) (stepped : pacedStep s c = some s') :
    Spaced s' := by
  have tracks := Tracks.reachable spaced.reached.reachable
  obtain ⟨ledger', ledgerRan, rfl⟩ := Option.map_eq_some_iff.mp stepped
  have reached := Machine.ReachableWhen.step spaced.reached forward.2 ledgerRan
  obtain ⟨manager, ran, rfl⟩ := Option.map_eq_some_iff.mp ledgerRan
  have later : ∀ h ∈ s.fired, h.now ≤ c.reading.getD s.clock := by
    intro h fired
    cases reading : c.reading with
    | none => exact spaced.past h fired
    | some now => exact UInt64.le_trans (spaced.past h fired) (forward.1 now reading)
  refine ⟨reached, fun h fired => ?_, fun h fired => ?_, fun h fired inside => ?_, ?_⟩
  · rcases List.mem_append.mp fired with before | fires
    · exact later h before
    · cases c with
      | listExpiredCbs now probe =>
        obtain ⟨a, -, rfl⟩ := List.mem_map.mp fires
        exact UInt64.le_refl now
      | addTimer | cancel | refresh | reset => cases fires
  · have kept : s.ledger.manager.created ⊆ manager.created := created_of_step tracks.placed ran
    rcases List.mem_append.mp fired with before | fires
    · exact kept (spaced.known h before)
    · cases c with
      | listExpiredCbs now probe =>
        obtain ⟨a, taken, rfl⟩ := List.mem_map.mp fires
        exact kept (tracks.placed.known a (.inr (mem_timers_of_expired taken)))
      | addTimer | cancel | refresh | reset => cases fires
  · cases handle : c.handle with
    | none =>
      cases c with
      | listExpiredCbs now probe =>
        obtain ⟨-, same⟩ := Option.ite_none_left_eq_some.mp ran
        cases same
        exact spaced.due_listExpiredCbs fired (forward.1 now rfl) inside
      | addTimer | cancel | refresh | reset => cases handle
    | some a =>
      have before : h ∈ s.fired := (List.mem_append.mp fired).resolve_right fun fires => by
        cases c with
        | listExpiredCbs => cases handle
        | addTimer | cancel | refresh | reset => cases fires
      rcases eq_or_ne h.timer a with rfl | other
      · exact spaced.due_self before ran forward.1 handle inside
      · obtain ⟨same, still⟩ := (effect_of_step tracks.placed ran handle).other tracks.placed other
        show (_ + ((manager.timer h.timer).ms.toNat : Int)) ≤ dueAfter s.ledger c h.timer
        rw [dueAfter_of_none (Tracks.dueSet_other handle other), same]
        exact spaced.due h before (still.mp inside)
  · refine List.pairwise_append.mpr ⟨spaced.apart, ?_, fun h fired later fires =>
      spaced.apart_firedBy forward ran fired fires⟩
    cases c with
    | listExpiredCbs now probe =>
      -- the batch has every timer once
      have distinct := (tracks.placed.sorted.nodup_expiredTimers now probe).1
      exact List.pairwise_map.mpr (distinct.imp fun differ same => absurd same differ)
    | addTimer | cancel | refresh | reset => exact .nil

/-- **Every reachable state.** -/
theorem reachable (reached : paced.ReachableWhen Forward s) : Spaced s := by
  refine reached.invariant (fun s begins => ?_) fun s c s' spaced forward stepped =>
    spaced.step forward stepped
  cases begins
  exact ⟨.start rfl, nofun, nofun, nofun, .nil⟩

end Spaced

/-- **Readings that are a period apart**: the first and the last of them. -/
theorem spaced_span {α : Type} {reading : α → Nat} {p : Nat} :
    ∀ {items : List α}, items.Pairwise (fun a b => reading a + p ≤ reading b) →
      ∀ first ∈ items.head?, ∀ last ∈ items.getLast?,
        reading first + (items.length - 1) * p ≤ reading last
  | [], _, first, head, _, _ => by cases head
  | [a], _, first, head, last, tail => by
    cases head
    cases tail
    simp
  | a :: b :: rest, apart, first, head, last, tail => by
    cases head
    obtain ⟨before, later⟩ := List.pairwise_cons.mp apart
    have step := before b List.mem_cons_self
    have span := spaced_span later b rfl last (by simpa using tail)
    simp only [List.length_cons, Nat.add_sub_cancel] at span ⊢
    rw [Nat.add_mul, Nat.one_mul]
    omega

/-- **How often a timer can fire**: at least its period lies between two firings, so `n + 1` of them
take at least `n` times the shortest. -/
theorem recurring_rate {s : Paced} (reached : paced.ReachableWhen Forward s) (a : Address) (p : Nat)
    (period : ∀ h ∈ s.fired, h.timer = a → p ≤ h.ms.toNat) :
    let firings := s.fired.filter (·.timer = a)
    firings.Pairwise (fun h later => h.now.toNat + later.ms.toNat ≤ later.now.toNat) ∧
      ∀ first ∈ firings.head?, ∀ last ∈ firings.getLast?,
        first.now.toNat + (firings.length - 1) * p ≤ last.now.toNat := by
  intro firings
  have own {h : Firing} (member : h ∈ firings) : h ∈ s.fired ∧ h.timer = a := by
    obtain ⟨fired, same⟩ := List.mem_filter.mp member
    exact ⟨fired, of_decide_eq_true same⟩
  have apart := (Spaced.reachable reached).apart.filter (·.timer = a)
  have gaps : firings.Pairwise fun h later => h.now.toNat + later.ms.toNat ≤ later.now.toNat :=
    apart.imp_of_mem fun first later gap => gap ((own first).2.trans (own later).2.symm)
  refine ⟨gaps, spaced_span (gaps.imp_of_mem fun {h later} _ member gap => ?_)⟩
  have long := period later (own member).1 (own member).2
  omega

/-- A recurring timer that fires late, is reset to half its period, and fires twice more. -/
theorem recurring_rate_reset :
    ∃ s, paced.ReachableWhen Forward s ∧ s.fired.map (·.now) = [25, 35, 50] ∧
      (s.fired.filter (·.timer = 7)).Pairwise fun h later =>
        h.now.toNat + later.ms.toNat ≤ later.now.toNat := by
  have run : ∃ s, paced.ReachableWhen Forward s ∧ decide (s.fired.map (·.now) = [25, 35, 50] ∧
      ∀ h ∈ s.fired, h.timer = 7 → 10 ≤ h.ms.toNat) = true :=
    Machine.reachableWhen_of_replay rfl
      [.addTimer 7 0 20 (some 1) true, .listExpiredCbs 25 9, .reset 7 30 10 false,
        .listExpiredCbs 35 9, .listExpiredCbs 50 9] _ (by decide)
  obtain ⟨s, reached, check⟩ := run
  obtain ⟨readings, period⟩ := of_decide_eq_true check
  exact ⟨s, reached, readings, (recurring_rate reached 7 10 period).1⟩

end Sylar.Timers
