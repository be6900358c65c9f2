/-
**Reports that are out of date.**

`epoll_wait` hands out a report when a descriptor is ready for a registered event. Before `idle()`
takes the lock of its `FdContext`, other threads may have registered events on the descriptor and
unregistered others. `idle()` passes over a report of which no event is registered any more; of
another it triggers *all* events, also those that are not.

* `Handled` — what the processing of a report should do.
* `Current` — **the condition**: `epoll_ctl` fails, or the report names none of the registered events,
  or registered events only.
* `reportCommit_isSome` — which triggers run through; `reportCommit_counts` — what they count.
* `handled_iff_current` — one report; **`idle_triggers_registered_iff`** — whatever other threads did
  since `epoll_wait` returned.
-/

import Sylar.EventTable.Race

namespace Sylar.EventTable

open Sylar.Library IOManager

/-! ### The masks -/

/-- The test for an error or a hangup. -/
def Mask.hangs (report : Mask) : Bool := report &&& (epollErr ||| epollHup) != 0

theorem Mask.or_and (a b c : Mask) : (a ||| b) &&& c = (a &&& c) ||| (b &&& c) := by
  apply UInt32.toBitVec_inj.mp
  simp only [UInt32.toBitVec_and, UInt32.toBitVec_or]
  ext i
  simp [Bool.and_or_distrib_right]

theorem Mask.has_or (a b : Mask) (event : Event) :
    (a ||| b).has event = (a.has event || b.has event) := by
  rw [Bool.eq_iff_iff]
  simp only [Mask.has, Mask.or_and, bne_iff_ne, ne_eq, UInt32.or_eq_zero_iff, Bool.or_eq_true]
  exact not_and_or

theorem Mask.has_ite (p : Prop) [Decidable p] (event asked : Event) :
    (if p then event.bit else 0 : Mask).has asked = (decide p && decide (asked = event)) := by
  by_cases holds : p
  · rw [if_pos holds, decide_eq_true holds]
    cases event <;> cases asked <;> rfl
  · rw [if_neg holds, decide_eq_false holds]
    cases asked <;> rfl

/-- The mask that `idle()` builds bit by bit. -/
theorem Mask.has_rebuilt (mask : Mask) (event : Event) :
    ((if mask &&& epollIn ≠ 0 then Event.read.bit else 0) |||
      (if mask &&& epollOut ≠ 0 then Event.write.bit else 0)).has event = mask.has event := by
  rw [Mask.has_or, Mask.has_ite, Mask.has_ite, decide_not, decide_not]
  cases event with
  | read =>
    simp only [Mask.has, Event.bit, bne, reduceCtorEq, decide_false, decide_true, Bool.and_true,
      Bool.and_false, Bool.or_false]
    rfl
  | write =>
    simp only [Mask.has, Event.bit, bne, reduceCtorEq, decide_false, decide_true, Bool.and_true,
      Bool.and_false, Bool.false_or]
    rfl

/-- **What a report is taken to name**: what it names, and all registered events if it hangs. -/
theorem realEvents_has {events : Mask} (known : Known events) (report : Mask) (event : Event) :
    (realEvents events report).has event =
      (report.has event || (report.hangs && events.has event)) := by
  have within : ((epollIn ||| epollOut) &&& events).has event = events.has event := by
    rcases known with rfl | rfl | rfl | rfl <;> cases event <;> rfl
  unfold realEvents
  rw [Mask.has_rebuilt]
  by_cases hangs : report &&& (epollErr ||| epollHup) = 0
  · have not : report.hangs = false := bne_eq_false_iff_eq.mpr hangs
    rw [if_neg (not_not.mpr hangs), not]
    simp
  · have yes : report.hangs = true := bne_iff_ne.mpr hangs
    rw [if_pos hangs, Mask.has_or, within, yes]
    simp

/-- Two sets of events have none in common. -/
theorem Known.and_eq_zero {mask other : Mask} (known : Known mask) (known' : Known other) :
    mask &&& other = 0 ↔ ∀ event, mask.has event = true → other.has event = false := by
  constructor
  · intro apart event
    rcases known with rfl | rfl | rfl | rfl <;> rcases known' with rfl | rfl | rfl | rfl <;>
      cases event <;> revert apart <;> decide
  · intro apart
    have read := apart .read
    have write := apart .write
    clear apart
    rcases known with rfl | rfl | rfl | rfl <;> rcases known' with rfl | rfl | rfl | rfl <;>
      revert read write <;> decide

/-! ### One report -/

/-- **What the processing of a report should do**: it calls `triggerEvent` for registered events only
(with a scheduler, so that it runs through), clears no bit of another descriptor, and counts one
less for each bit it clears. -/
def Handled (m : IOManager) (fd : Nat) (report : Mask) (fault : Bool) : Prop :=
  (∀ m₁ real, m.reportCtl fd report fault = some (m₁, some real) →
    ∀ event, real.has event = true → (m.eventsOf fd).has event = true) ∧
  ∃ m', perform m fault (.report fd report) = some m' ∧
    (∀ i, i ≠ fd → m'.eventsOf i = m.eventsOf i) ∧
    m'.pendingEventCount.toNat + (m.eventsOf fd).count =
      m.pendingEventCount.toNat + (m'.eventsOf fd).count

/-- **The condition**: `epoll_ctl` fails; or the report names no registered event; or it names
registered events only, and those it is taken to name have a scheduler. -/
def Current (m : IOManager) (fd : Nat) (report : Mask) (fault : Bool) : Prop :=
  (fault = true ∨ m.interest fd = none) ∨
  (∀ event, (m.eventsOf fd).has event = true → report.has event = false ∧ report.hangs = false) ∨
  ((∀ event, report.has event = true → (m.eventsOf fd).has event = true) ∧
    ∀ event, (m.eventsOf fd).has event = true → (report.has event = true ∨ report.hangs = true) →
      (m.slotOf fd event).scheduler ≠ none)

section Commit

variable {m m' : IOManager} {l : Ledger} {fd : Nat} {event : Event}

/-- **Which triggers run through.** -/
theorem trigger_isSome : (m.trigger fd event).isSome = true ↔
    (m.eventsOf fd).has event = true ∧ (m.slotOf fd event).scheduler ≠ none := by
  unfold trigger eventsOf slotOf
  cases found : m.fdContexts[fd]? with
  | none => cases event <;> simp
  | some ctx =>
    simp only [Option.bind_eq_bind, Option.bind_some]
    unfold FdContext.triggerEvent
    by_cases set : ctx.events.has event = true
    · rw [if_pos set]
      simp only [FdContext.getContext_withEvents]
      cases scheduler : (ctx.getContext event).scheduler with
      | none => simp
      | some _ => cases (ctx.getContext event).cb <;> simp [set]
    · simp [set]

/-- A trigger leaves the other slots. -/
theorem trigger_slotOf (triggered : m.trigger fd event = some m') {asked : Event}
    (other : asked ≠ event) : m'.slotOf fd asked = m.slotOf fd asked := by
  obtain ⟨ctx, ctx', task, found, fired, rfl⟩ := trigger_cases triggered
  obtain ⟨_, slot, rfl⟩ := FdContext.triggerEvent_cases fired
  rw [slotOf_set found, if_neg fun both => other both.2]

/-- **A trigger clears one bit, and counts one less.** -/
theorem trigger_counts (books : Books m l) (triggered : m.trigger fd event = some m') :
    m'.pendingEventCount.toNat + (m.eventsOf fd).count =
      m.pendingEventCount.toNat + (m'.eventsOf fd).count := by
  obtain ⟨set, _⟩ := trigger_isSome.mp (Option.isSome_iff_exists.mpr ⟨m', triggered⟩)
  have cleared := (books.trigger triggered).2 fd
  rw [if_pos rfl] at cleared
  obtain ⟨ctx, ctx', task, found, fired, rfl⟩ := trigger_cases triggered
  have here : ctx.events.count ≤ registeredBits m.fdContexts := registered_le found
  have one := (books.known fd).count_diff set
  rw [cleared]
  show (m.pendingEventCount - 1).toNat + _ = _
  rw [← eventsOf_eq found, ← books.counted] at here
  rw [toNat_sub_one (by omega)]
  omega

theorem triggerIf_isSome {mask : Mask} : (m.triggerIf fd mask event).isSome = true ↔
    (mask.has event = true →
      (m.eventsOf fd).has event = true ∧ (m.slotOf fd event).scheduler ≠ none) := by
  unfold triggerIf
  split
  next has => rw [trigger_isSome, forall_prop_of_true has]
  next absent => simp [absent]

theorem triggerIf_slotOf {mask : Mask} (triggered : m.triggerIf fd mask event = some m')
    {asked : Event} (other : asked ≠ event) : m'.slotOf fd asked = m.slotOf fd asked := by
  unfold triggerIf at triggered
  split at triggered
  next => exact trigger_slotOf triggered other
  next => exact Option.some.inj triggered ▸ rfl

theorem triggerIf_counts (books : Books m l) {mask : Mask}
    (triggered : m.triggerIf fd mask event = some m') :
    m'.pendingEventCount.toNat + (m.eventsOf fd).count =
      m.pendingEventCount.toNat + (m'.eventsOf fd).count := by
  unfold triggerIf at triggered
  split at triggered
  next => exact trigger_counts books triggered
  next => exact Option.some.inj triggered ▸ rfl

/-- **Which reports run through**: all their events are registered and have a scheduler. -/
theorem reportCommit_isSome (books : Books m l) {real : Mask} :
    (m.reportCommit fd real).isSome = true ↔ ∀ event, real.has event = true →
      (m.eventsOf fd).has event = true ∧ (m.slotOf fd event).scheduler ≠ none := by
  -- the trigger of `READ` changes nothing that the trigger of `WRITE` reads
  have apart : ∀ {m₁}, m.triggerIf fd real .read = some m₁ →
      ((m₁.eventsOf fd).has .write = (m.eventsOf fd).has .write ∧
        m₁.slotOf fd .write = m.slotOf fd .write) := by
    intro m₁ first
    have cleared := (books.triggerIf first).2 fd
    rw [if_pos rfl] at cleared
    rw [cleared, (books.known fd).has_write_without]
    exact ⟨rfl, triggerIf_slotOf first (by decide)⟩
  unfold reportCommit
  constructor
  · intro runs
    obtain ⟨m', committed⟩ := Option.isSome_iff_exists.mp runs
    obtain ⟨m₁, first, second⟩ := Option.bind_eq_some_iff.mp committed
    obtain ⟨sameEvents, sameSlot⟩ := apart first
    have read := triggerIf_isSome.mp (Option.isSome_iff_exists.mpr ⟨m₁, first⟩)
    have write := triggerIf_isSome.mp (Option.isSome_iff_exists.mpr ⟨m', second⟩)
    rw [sameEvents, sameSlot] at write
    intro event
    cases event with
    | read => exact read
    | write => exact write
  · intro names
    obtain ⟨m₁, first⟩ := Option.isSome_iff_exists.mp (triggerIf_isSome.mpr (names .read))
    obtain ⟨sameEvents, sameSlot⟩ := apart first
    have write := names .write
    rw [← sameEvents, ← sameSlot] at write
    rw [first]
    exact triggerIf_isSome.mpr write

/-- **What a report clears and counts.** -/
theorem reportCommit_counts (books : Books m l) {real : Mask}
    (committed : m.reportCommit fd real = some m') :
    (∀ i, i ≠ fd → m'.eventsOf i = m.eventsOf i) ∧
      m'.pendingEventCount.toNat + (m.eventsOf fd).count =
        m.pendingEventCount.toNat + (m'.eventsOf fd).count := by
  obtain ⟨m₁, first, second⟩ := Option.bind_eq_some_iff.mp committed
  obtain ⟨books₁, changed₁⟩ := books.triggerIf first
  have changed := (books₁.triggerIf second).2
  refine ⟨fun i other => ?_, ?_⟩
  · rw [changed, if_neg other, changed₁, if_neg other]
  · have counts₁ := triggerIf_counts books first
    have counts := triggerIf_counts books₁ second
    omega

end Commit

/-- When the `epoll_ctl` of `idle()` fails. -/
theorem epollCtl_eq_none {interest : Interest} {fd : Nat} {left events : Mask} {fault : Bool} :
    epollCtl interest (if left ≠ 0 then .mod else .del) fd events fault = none ↔
      fault = true ∨ interest fd = none := by
  unfold epollCtl
  by_cases empty : left = 0
  · rw [if_neg (not_not.mpr empty)]
    cases fault <;> cases interest fd <;> simp
  · rw [if_pos empty]
    cases fault <;> cases interest fd <;> simp

section Report

variable {m : IOManager} {l : Ledger} {fd : Nat} {report : Mask} {fault : Bool}

/-- A report that triggers nothing. -/
theorem handled_of_passed (passed : m.reportCtl fd report fault = some (m, none)) :
    Handled m fd report fault := by
  refine ⟨fun m₁ real called => ?_, m, ?_, fun _ _ => rfl, rfl⟩
  · rw [passed] at called
    cases called
  · simp [perform, ctl, passed]

/-- **A report that triggers `real`** is handled as it should be if all of it is registered and has a
scheduler. -/
theorem handled_iff_of_called (books : Books m l) {interest : Interest} {real : Mask}
    (called : m.reportCtl fd report fault = some ({ m with interest }, some real)) :
    Handled m fd report fault ↔ ∀ event, real.has event = true →
      (m.eventsOf fd).has event = true ∧ (m.slotOf fd event).scheduler ≠ none := by
  have performed : perform m fault (.report fd report) =
      reportCommit { m with interest } fd real := by
    simp [perform, ctl, called, commit]
  have runs : (reportCommit { m with interest } fd real).isSome = true ↔
      ∀ event, real.has event = true →
        (m.eventsOf fd).has event = true ∧ (m.slotOf fd event).scheduler ≠ none :=
    reportCommit_isSome (books.withInterest interest)
  constructor
  · rintro ⟨_, m', ran, _⟩
    rw [performed] at ran
    exact runs.mp (Option.isSome_iff_exists.mpr ⟨m', ran⟩)
  · intro names
    obtain ⟨m', committed⟩ := Option.isSome_iff_exists.mp (runs.mpr names)
    have counts := reportCommit_counts (books.withInterest interest) committed
    refine ⟨fun m₁ real same event has => ?_, m', performed.trans committed, counts⟩
    rw [called] at same
    cases same
    exact (names event has).1

/-- What a report is taken to name and what is registered have no event in common. -/
theorem and_realEvents_eq_zero {events : Mask} (known : Known events) :
    events &&& realEvents events report = 0 ↔
      ∀ event, events.has event = true → report.has event = false ∧ report.hangs = false := by
  rw [known.and_eq_zero (known_realEvents _ _)]
  refine forall₂_congr fun event set => ?_
  rw [realEvents_has known, set, Bool.and_true, Bool.or_eq_false_iff]

/-- **The condition, on what the report is taken to name**, if it names a registered event and
`epoll_ctl` does not fail. -/
theorem current_iff (known : Known (m.eventsOf fd))
    (common : m.eventsOf fd &&& realEvents (m.eventsOf fd) report ≠ 0)
    (told : ¬ (fault = true ∨ m.interest fd = none)) :
    Current m fd report fault ↔ ∀ event, (realEvents (m.eventsOf fd) report).has event = true →
      (m.eventsOf fd).has event = true ∧ (m.slotOf fd event).scheduler ≠ none := by
  have named := realEvents_has known report
  constructor
  · rintro (fails | none | ⟨registered, schedulers⟩) event reported
    · exact absurd fails told
    · exact absurd ((and_realEvents_eq_zero known).mpr none) common
    · rw [named, Bool.or_eq_true, Bool.and_eq_true] at reported
      have set : (m.eventsOf fd).has event = true := reported.elim (registered event) And.right
      exact ⟨set, schedulers event set (reported.imp_right And.left)⟩
  · intro names
    refine .inr (.inr ⟨fun event reported => (names event ?_).1, fun event set asked =>
      (names event ?_).2⟩)
    · rw [named, reported, Bool.true_or]
    · rw [named, set, Bool.and_true, Bool.or_eq_true]
      exact asked

/-- **A report is handled as it should be exactly when it is current.** -/
theorem handled_iff_current (books : Books m l) (there : fd < m.fdContexts.length) (report : Mask)
    (fault : Bool) : Handled m fd report fault ↔ Current m fd report fault := by
  have found : m.fdContexts[fd]? = some m.fdContexts[fd] := List.getElem?_eq_getElem there
  have sameEvents := eventsOf_eq found
  have known : Known (m.eventsOf fd) := books.known fd
  by_cases apart : m.eventsOf fd &&& realEvents (m.eventsOf fd) report = 0
  · refine iff_of_true (handled_of_passed ?_) (.inr (.inl ((and_realEvents_eq_zero known).mp apart)))
    rw [sameEvents] at apart
    simp [reportCtl, found, apart]
  · cases told : epollCtl m.interest
      (if m.eventsOf fd &&& ~~~realEvents (m.eventsOf fd) report ≠ 0 then .mod else .del) fd
      (epollEt ||| (m.eventsOf fd &&& ~~~realEvents (m.eventsOf fd) report)) fault with
    | none =>
      refine iff_of_true (handled_of_passed ?_) (.inl (epollCtl_eq_none.mp told))
      rw [sameEvents] at apart told
      simp only [reportCtl, found, Option.bind_eq_bind, Option.bind_some, if_neg apart, told]
    | some interest =>
      have called : m.reportCtl fd report fault =
          some ({ m with interest }, some (realEvents (m.eventsOf fd) report)) := by
        rw [sameEvents] at apart told ⊢
        simp only [reportCtl, found, Option.bind_eq_bind, Option.bind_some, if_neg apart, told]
      rw [handled_iff_of_called books called, current_iff known apart fun fails => ?_]
      rw [epollCtl_eq_none.mpr fails] at told
      cases told

end Report

/-! ### Runs -/

/-- The table, and the reports that idle threads have from `epoll_wait` and have not processed. -/
structure Polling where
  manager : IOManager
  reports : List (Nat × Mask)

/-- `epoll_wait` hands out a report; a thread calls an operation on a descriptor; `idle()` processes a
report. -/
inductive Poll
  | wait (fd : Nat) (report : Mask)
  | call (fault : Bool) (operation : Operation)
  | process (i : Nat) (fault : Bool)

/-- An operation that is called: any but the processing of a report. -/
def Operation.isCall : Operation → Bool
  | .report .. => false
  | _ => true

/-- One step. The kernel reports of a descriptor what it was asked for, an error or a hangup. -/
def Polling.step (s : Polling) : Poll → Option Polling
  | .wait fd report =>
      if fd < 2 ^ 31 ∧ fd < s.manager.fdContexts.length ∧
          s.manager.interest fd = some (epollEt ||| s.manager.eventsOf fd) ∧
          report &&& ~~~(s.manager.eventsOf fd ||| epollErr ||| epollHup) = 0 then
        some { s with reports := s.reports ++ [(fd, report)] }
      else none
  | .call fault operation =>
      if operation.isCall ∧ operation.fd < 2 ^ 31 then
        (perform s.manager fault operation).map fun manager => { s with manager }
      else none
  | .process i fault => do
      let (fd, report) ← s.reports[i]?
      let manager ← perform s.manager fault (.report fd report)
      some { manager, reports := s.reports.eraseIdx i }

def polling : Machine Polling Poll := ⟨fun s => s = ⟨IOManager.initial, []⟩, Polling.step⟩

section Operations

variable {m m' : IOManager} {fault : Bool} {operation : Operation}

theorem length_trigger {fd : Nat} {event : Event} (triggered : m.trigger fd event = some m') :
    m'.fdContexts.length = m.fdContexts.length := by
  obtain ⟨_, _, _, _, _, rfl⟩ := trigger_cases triggered
  exact List.length_set

theorem length_triggerIf {fd : Nat} {event : Event} {mask : Mask}
    (triggered : m.triggerIf fd mask event = some m') :
    m'.fdContexts.length = m.fdContexts.length := by
  unfold triggerIf at triggered
  split at triggered
  next => exact length_trigger triggered
  next => exact Option.some.inj triggered ▸ rfl

theorem length_commit {p : Progress} (committed : commit m p = some m') :
    m'.fdContexts.length = m.fdContexts.length := by
  cases p with
  | adding fd event cb caller =>
    obtain ⟨_, _, _, rfl⟩ := addEventCommit_cases committed
    exact List.length_set
  | deleting fd event newEvent =>
    obtain ⟨_, _, rfl⟩ := delEventCommit_cases committed
    exact List.length_set
  | cancelling fd event => exact length_trigger committed
  | cancellingAll fd =>
    obtain ⟨_, _, _, _, -, first, -, second, -, -⟩ := cancelAllCommit_cases committed
    exact (length_triggerIf second).trans (length_triggerIf first)
  | reporting fd real =>
    obtain ⟨_, first, second⟩ := Option.bind_eq_some_iff.mp committed
    exact (length_triggerIf second).trans (length_triggerIf first)

theorem Operation.length_le_table (operation : Operation) (contexts : List FdContext) :
    contexts.length ≤ (operation.table contexts).length := by
  cases operation with
  | addEvent fd event cb caller => exact length_le_growLoop fd (fd + 1) contexts
  | delEvent | cancelEvent | cancelAll | report => exact Nat.le_refl _

/-- **Up to `epoll_ctl`** the table does not shrink, and what a `del_event` is about to commit is fresh. -/
theorem fresh_of_ctl {progress : Option Progress}
    (called : ctl m fault operation = some (m', progress)) :
    m.fdContexts.length ≤ m'.fdContexts.length ∧ ∀ p ∈ progress, FreshMask m' p := by
  have longer := operation.length_le_table m.fdContexts
  rcases ctl_cases called with ⟨rfl, rfl⟩ | ⟨ctx, p, op, mask, interest, rfl, found, asks, -, rfl⟩
  · exact ⟨longer, fun p member => by cases member⟩
  · refine ⟨longer, ?_⟩
    rintro p ⟨⟩
    have here := eventsOf_eq found
    cases asks with
    | deleting set =>
      dsimp only [Operation.fd] at here
      show (IOManager.eventsOf _ _).has _ = true ∧ _ = IOManager.eventsOf _ _ &&& _
      rw [here]
      exact ⟨set, rfl⟩
    | adding | cancelling | cancellingAll | reporting => trivial

/-- **An atomic operation keeps the books**, and the table does not shrink. -/
theorem Books.perform {l : Ledger} (books : Books m l) (int : operation.fd < 2 ^ 31)
    (performed : perform m fault operation = some m') :
    (∃ l', Books m' l') ∧ m.fdContexts.length ≤ m'.fdContexts.length := by
  obtain ⟨⟨m₁, progress⟩, called, performed⟩ := Option.bind_eq_some_iff.mp performed
  obtain ⟨books₁, _, prepared⟩ := books.ctl int called
  obtain ⟨longer, fresh⟩ := fresh_of_ctl called
  cases progress with
  | none =>
    cases performed
    exact ⟨⟨l, books₁⟩, longer⟩
  | some p =>
    exact ⟨⟨_, (books₁.commit (fresh p rfl) (prepared p rfl).2.2 performed).1⟩,
      Nat.le_trans longer (Nat.le_of_eq (length_commit performed).symm)⟩

end Operations

/-- The books are in order, and reports are of descriptors in the table. -/
def Polling.Ordered (s : Polling) : Prop :=
  (∃ l, Books s.manager l) ∧
    ∀ p ∈ s.reports, p.1 < 2 ^ 31 ∧ p.1 < s.manager.fdContexts.length

theorem Polling.Ordered.step {s s' : Polling} {e : Poll} (ordered : s.Ordered)
    (stepped : s.step e = some s') : s'.Ordered := by
  obtain ⟨⟨l, books⟩, inTable⟩ := ordered
  cases e with
  | wait fd report =>
    obtain ⟨⟨int, there, _⟩, same⟩ := Option.ite_none_right_eq_some.mp stepped
    cases same
    refine ⟨⟨l, books⟩, fun p member => ?_⟩
    rcases List.mem_append.mp member with before | new
    · exact inTable p before
    · rw [List.mem_singleton.mp new]
      exact ⟨int, there⟩
  | call fault operation =>
    obtain ⟨⟨_, int⟩, called⟩ := Option.ite_none_right_eq_some.mp stepped
    obtain ⟨manager, performed, rfl⟩ := Option.map_eq_some_iff.mp called
    obtain ⟨kept, longer⟩ := books.perform int performed
    exact ⟨kept, fun p member => (inTable p member).imp_right fun there =>
      Nat.lt_of_lt_of_le there longer⟩
  | process i fault =>
    obtain ⟨⟨fd, report⟩, held, stepped⟩ := Option.bind_eq_some_iff.mp stepped
    obtain ⟨manager, performed, same⟩ := Option.bind_eq_some_iff.mp stepped
    cases same
    have int : (Operation.report fd report).fd < 2 ^ 31 :=
      (inTable _ (List.mem_of_getElem? held)).1
    obtain ⟨kept, longer⟩ := books.perform int performed
    exact ⟨kept, fun p member => (inTable p (List.mem_of_mem_eraseIdx member)).imp_right fun there =>
      Nat.lt_of_lt_of_le there longer⟩

/-- **`idle()` triggers registered events, and counts them, exactly when the report is current**: in
every reachable state, for every report that a thread has, whatever others did since it got it. -/
theorem idle_triggers_registered_iff {s : Polling} (reached : polling.Reachable s) {fd : Nat}
    {report : Mask} (held : (fd, report) ∈ s.reports) (fault : Bool) :
    Handled s.manager fd report fault ↔ Current s.manager fd report fault := by
  have ordered : s.Ordered := by
    refine reached.invariant (P := Polling.Ordered) ?_ fun s e s' ordered _ => ordered.step
    rintro _ rfl
    exact ⟨⟨_, Books.initial⟩, fun p member => by cases member⟩
  obtain ⟨⟨l, books⟩, inTable⟩ := ordered
  exact handled_iff_current books (inTable _ held).2 report fault

/-- Both events are registered and reported, and then `WRITE` is unregistered or not. -/
def reported (between : List Poll) : List Poll :=
  [.call false (.addEvent 5 .read (some 1) ⟨some 0, 7, .exec⟩),
    .call false (.addEvent 5 .write (some 2) ⟨some 0, 7, .exec⟩), .wait 5 5] ++ between

theorem idle_triggers_registered_both : ∃ s : Polling, polling.Reachable s ∧ s.reports = [(5, 5)] ∧
    s.manager.pendingEventCount = 2 ∧ Handled s.manager 5 5 false := by
  have ran : ∃ s, polling.Reachable s ∧ decide (s.reports = [(5, 5)] ∧
      s.manager.pendingEventCount = 2 ∧ s.manager.eventsOf 5 = 5 ∧
      (s.manager.slotOf 5 .read).scheduler ≠ none ∧
      (s.manager.slotOf 5 .write).scheduler ≠ none) = true :=
    Machine.reachable_of_replay rfl (reported []) _ (by decide)
  obtain ⟨s, reached, checked⟩ := ran
  obtain ⟨held, counted, both, read, write⟩ := of_decide_eq_true checked
  have current : Current s.manager 5 5 false := by
    refine .inr (.inr ⟨fun event reported => both ▸ reported, fun event _ _ => ?_⟩)
    cases event with
    | read => exact read
    | write => exact write
  exact ⟨s, reached, held, counted,
    (idle_triggers_registered_iff reached (held ▸ List.mem_singleton_self _) false).mpr current⟩

/-- `del_event(WRITE)` between `epoll_wait` and the lock: `idle()` triggers `WRITE` all the same, and
the assertion fails. -/
theorem stale_report_fails : ∃ s : Polling, polling.Reachable s ∧ s.reports = [(5, 5)] ∧
    (s.manager.eventsOf 5).has .write = false ∧ ¬ Handled s.manager 5 5 false := by
  have ran : ∃ s, polling.Reachable s ∧ decide (s.reports = [(5, 5)] ∧
      (s.manager.eventsOf 5).has .write = false ∧
      (perform s.manager false (.report 5 5)).isNone = true) = true :=
    Machine.reachable_of_replay rfl (reported [.call false (.delEvent 5 .write)]) _ (by decide)
  obtain ⟨s, reached, checked⟩ := ran
  obtain ⟨held, gone, fails⟩ := of_decide_eq_true checked
  refine ⟨s, reached, held, gone, fun ⟨_, m', performed, _⟩ => ?_⟩
  rw [performed] at fails
  cases fails

end Sylar.EventTable
