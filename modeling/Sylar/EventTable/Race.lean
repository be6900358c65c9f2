/-
**Operations on one descriptor at the same time.**

`add_event` and `idle()` take the lock of the `FdContext` (`MutexType::Lock lock2(...)`). `del_event`,
`cancel_event` and `cancel_all` say `MutexType lock2(...)`: a *copy* of the mutex, which locks
nothing. So they can come between the two parts of any other operation.

The state carries a ledger, which the code has not: the registrations that were made, and which of
them have been ended. `Kept` is what is wanted of it.

* `overwritten_registration` — a run in which a `del_event` writes a stale `m_events` over a
  registration made in between.
* `Books` — the invariant of the table and the ledger; `Books.register` and `Books.unregister` are
  the two ways it changes.
* **`registrations_kept`** — as long as no `del_event` commits a stale mask, nothing is lost or
  ended twice.
* `stale_delete_breaks` — and a `del_event` that commits one always breaks it.
-/

import Sylar.EventTable.Invariant

namespace Sylar.EventTable

open Sylar.Library

/-- A registration made by a successful `add_event`. -/
structure Registration where
  fd : Nat
  event : Event
  slot : EventContext
deriving DecidableEq

/-- The registrations made, the last one for each event, and the ones ended, one entry for each time
a registration was ended. -/
structure Ledger where
  made : List Registration
  current : Nat → Event → Option Nat
  ended : List Nat

namespace Ledger

/-- A registration is made. -/
def enter (l : Ledger) (r : Registration) : Ledger where
  made := l.made ++ [r]
  current fd event := if fd = r.fd ∧ event = r.event then some l.made.length else l.current fd event
  ended := l.ended

/-- The registration of an event is ended. -/
def close (l : Ledger) (fd : Nat) (event : Event) : Ledger :=
  { l with ended := (l.current fd event).toList ++ l.ended }

/-- The same if the event is in a mask. -/
def closeIf (l : Ledger) (fd : Nat) (mask : Mask) (event : Event) : Ledger :=
  if mask.has event then l.close fd event else l

/-- Ending the registration that is open. -/
theorem ended_close {l : Ledger} {fd : Nat} {event : Event} {id : Nat}
    (current : l.current fd event = some id) : (l.close fd event).ended = id :: l.ended := by
  rw [close, current]
  rfl

end Ledger

/-- What a commit enters in the ledger. -/
def settle (m : IOManager) (l : Ledger) : Progress → Ledger
  | .adding fd event cb caller => l.enter ⟨fd, event, caller.continuation cb⟩
  | .deleting fd event _ => l.close fd event
  | .cancelling fd event => l.close fd event
  | .cancellingAll fd => (l.closeIf fd (m.eventsOf fd) .read).closeIf fd (m.eventsOf fd) .write
  | .reporting fd real => (l.closeIf fd real .read).closeIf fd real .write

/-- The descriptor of an operation in progress. -/
def Progress.fd : Progress → Nat
  | .adding fd _ _ _ | .deleting fd _ _ | .cancelling fd _ | .cancellingAll fd | .reporting fd _ => fd

/-- Whether the body holds `fd_ctx->m_mutex`, and not a copy. -/
def Operation.holdsMutex : Operation → Bool
  | .addEvent .. | .report .. => true
  | .delEvent .. | .cancelEvent .. | .cancelAll _ => false

/-- The same for an operation in progress. -/
def Progress.holdsMutex : Progress → Bool
  | .adding .. | .reporting .. => true
  | .deleting .. | .cancelling .. | .cancellingAll _ => false

/-- The event table, what each of `n` threads has in progress, and the ledger. -/
structure Race (n : Nat) where
  manager : IOManager
  running : Fin n → Option Progress
  ledger : Ledger

/-- A new table, and no thread in an operation. -/
def Race.initial (n : Nat) : Race n :=
  ⟨IOManager.initial, fun _ => none, [], fun _ _ => none, []⟩

/-- A step: the first part of an operation, or its commit. -/
inductive Step (n : Nat)
  | begin (t : Fin n) (fault : Bool) (operation : Operation)
  | commit (t : Fin n)

variable {n : Nat}

namespace Race

/-- Some operation in progress holds the mutex of a descriptor. -/
def locked (s : Race n) (fd : Nat) : Prop :=
  ∃ t, (s.running t).any fun p => p.holdsMutex && p.fd == fd

instance (s : Race n) (fd : Nat) : Decidable (s.locked fd) :=
  inferInstanceAs (Decidable (∃ _, _))

/-- One step. A body that takes the mutex waits for it; the descriptor is an `int`. -/
def next (s : Race n) : Step n → Option (Race n)
  | .begin t fault operation =>
      if s.running t = none ∧ operation.fd < 2 ^ 31 ∧
          (operation.holdsMutex = true → ¬ s.locked operation.fd) then
        (ctl s.manager fault operation).map fun result =>
          { s with manager := result.1, running := Function.update s.running t result.2 }
      else none
  | .commit t => do
      let p ← s.running t
      let manager ← commit s.manager p
      some { manager, running := Function.update s.running t none
             ledger := settle s.manager s.ledger p }

/-- No operation is in progress. -/
def quiet (s : Race n) : Prop := ∀ t, s.running t = none

instance (s : Race n) : Decidable s.quiet := inferInstanceAs (Decidable (∀ _, _))

end Race

/-- `n` threads on a new event table. -/
def race (n : Nat) : Machine (Race n) (Step n) := ⟨fun s => s = Race.initial n, Race.next⟩

/-- **No registration is lost, none is ended twice**: the counter is the number of registered bits;
a registration that was not ended is the only one of its event, its bit is set and its continuation
is in the slot. -/
structure Kept (s : Race n) : Prop where
  counted : s.manager.pendingEventCount.toNat = registeredBits s.manager.fdContexts
  once : s.ledger.ended.Nodup
  inPlace : ∀ (id : Nat) (r : Registration), s.ledger.made[id]? = some r → id ∉ s.ledger.ended →
    (s.manager.eventsOf r.fd).has r.event = true ∧ s.manager.slotOf r.fd r.event = r.slot
  apart : ∀ (id id' : Nat) (r r' : Registration), s.ledger.made[id]? = some r →
    s.ledger.made[id']? = some r' → id ∉ s.ledger.ended → id' ∉ s.ledger.ended →
    r.fd = r'.fd → r.event = r'.event → id = id'

/-! ### A registration that is lost -/

/-- `del_event(READ)` computes `NONE` while `add_event(WRITE)` is past its `epoll_ctl`, and commits
it last. -/
def staleDelete : List (Step 2) :=
  [.begin 0 false (.addEvent 5 .read (some 1) ⟨some 0, 7, .exec⟩), .commit 0,
    .begin 0 false (.addEvent 5 .write (some 2) ⟨some 0, 7, .exec⟩),
    .begin 1 false (.delEvent 5 .read), .commit 0, .commit 1]

/-- The second registration was never ended, but its bit is gone; the counter still counts it. -/
theorem overwritten_registration :
    ∃ s, (race 2).Reachable s ∧ s.quiet ∧ s.ledger.made[1]? = some ⟨5, .write, ⟨some 0, none, some 2⟩⟩ ∧
      1 ∉ s.ledger.ended ∧ (s.manager.eventsOf 5).has .write = false ∧
      s.manager.pendingEventCount = 1 ∧ ¬ Kept s := by
  refine ⟨_, Machine.ReachableWhen.replay (.start rfl)
    (show (race 2).replay (Race.initial 2) staleDelete = some _ from rfl), by decide, by decide,
    by decide, by decide, by decide, fun kept => ?_⟩
  have lost := (kept.inPlace 1 ⟨5, .write, ⟨some 0, none, some 2⟩⟩ (by decide) (by decide)).1
  revert lost
  decide

/-! ### The invariant of the table and the ledger -/

/-- **The table and the ledger agree**: a set bit stands for the last registration of its event,
which is open; every other registration is closed. -/
structure Books (m : IOManager) (l : Ledger) : Prop where
  known : ∀ fd, Known (m.eventsOf fd)
  counted : m.pendingEventCount.toNat = registeredBits m.fdContexts
  size : SizeOk m.fdContexts
  stands : ∀ fd event, (m.eventsOf fd).has event = true → ∃ id, l.current fd event = some id ∧
    id ∉ l.ended ∧ l.made[id]? = some ⟨fd, event, m.slotOf fd event⟩
  unended : ∀ (id : Nat) (r : Registration), l.made[id]? = some r → id ∉ l.ended →
    l.current r.fd r.event = some id ∧ (m.eventsOf r.fd).has r.event = true
  points : ∀ (fd : Nat) (event : Event) (id : Nat), l.current fd event = some id →
    ∃ slot, l.made[id]? = some ⟨fd, event, slot⟩
  once : l.ended.Nodup
  past : ∀ id ∈ l.ended, id < l.made.length

namespace Books

theorem initial : Books IOManager.initial ⟨[], fun _ _ => none, []⟩ where
  known fd := by
    unfold IOManager.eventsOf
    split
    next ctx found => exact (consistent_initial.formed fd ctx found).known
    next => exact Or.inl rfl
  counted := consistent_initial.counted
  size := by decide
  stands fd event set := by
    exfalso
    have empty : IOManager.initial.eventsOf fd = 0 := by
      have none := consistent_initial.interested fd
      by_contra some
      rw [interestIn, if_neg some] at none
      cases none
    rw [empty] at set
    cases event <;> cases set
  unended id r found := by cases found
  points fd event id current := by cases current
  once := List.nodup_nil
  past id member := by cases member

variable {m m' : IOManager} {l : Ledger} {fd : Nat} {event : Event}

/-- The kernel's list is not in the books. -/
theorem withInterest (books : Books m l) (interest : Interest) : Books { m with interest } l where
  known := books.known
  counted := books.counted
  size := books.size
  stands := books.stands
  unended := books.unended
  points := books.points
  once := books.once
  past := books.past

/-- A larger table has the same books. -/
theorem grow (books : Books m l) {fd : Nat} (int : fd < 2 ^ 31) :
    Books { m with fdContexts := grow fd m.fdContexts } l where
  known i := by
    rw [IOManager.eventsOf_grow]
    exact books.known i
  counted := by
    show m.pendingEventCount.toNat = registeredBits (EventTable.grow fd m.fdContexts)
    rw [registeredBits_grow, books.counted]
  size := books.size.grow int
  stands i event set := by
    rw [IOManager.eventsOf_grow] at set
    rw [IOManager.slotOf_grow]
    exact books.stands i event set
  unended id r found fresh := by
    rw [IOManager.eventsOf_grow]
    exact books.unended id r found fresh
  points := books.points
  once := books.once
  past := books.past

theorem table (books : Books m l) {operation : Operation} (int : operation.fd < 2 ^ 31) :
    Books { m with fdContexts := operation.table m.fdContexts } l := by
  cases operation with
  | addEvent fd event cb caller => exact books.grow int
  | delEvent | cancelEvent | cancelAll | report => exact books

/-- **An event is registered**, and entered. -/
theorem register (books : Books m l) {ctx : FdContext} (found : m.fdContexts[fd]? = some ctx)
    (clear : ctx.events.has event = false) (slot : EventContext) :
    Books { m with
      fdContexts := m.fdContexts.set fd
        (({ ctx with events := ctx.events ||| event.bit } : FdContext).setContext event slot)
      pendingEventCount := m.pendingEventCount + 1
      scheduled := m.scheduled } (l.enter ⟨fd, event, slot⟩) := by
  have known : Known ctx.events := IOManager.eventsOf_eq found ▸ books.known fd
  have clear' : (m.eventsOf fd).has event = false := by rwa [IOManager.eventsOf_eq found]
  have hasAfter : ∀ i asked, (if i = fd then ctx.events ||| event.bit else m.eventsOf i).has asked =
      ((m.eventsOf i).has asked || decide (i = fd ∧ asked = event)) := by
    intro i asked
    split_ifs with self
    · rw [self, known.has_or, IOManager.eventsOf_eq found]
      simp
    · simp [self]
  -- the bit was clear, so the event's last registration is not open
  have notOpen : ∀ (id : Nat) (r : Registration), l.made[id]? = some r → id ∉ l.ended →
      ¬ (r.fd = fd ∧ r.event = event) := by
    rintro id r entered fresh ⟨sameFd, sameEvent⟩
    have set := (books.unended id r entered fresh).2
    rw [sameFd, sameEvent, clear'] at set
    cases set
  refine
    { known := fun i => ?_
      counted := ?_
      size := by rw [SizeOk, List.length_set]; exact books.size
      stands := fun i asked set => ?_
      unended := fun id r entered fresh => ?_
      points := fun i asked id current => ?_
      once := books.once
      past := fun id member => ?_ }
  · rw [IOManager.eventsOf_set found, FdContext.setContext_events]
    split_ifs
    · exact known.or event
    · exact books.known i
  · have small := books.size.registeredBits_lt
    have bits := registeredBits_set found
      (({ ctx with events := ctx.events ||| event.bit } : FdContext).setContext event slot)
    have one := known.count_or clear
    show (m.pendingEventCount + 1).toNat = registeredBits (m.fdContexts.set fd _)
    rw [← books.counted] at small
    rw [toNat_add_one small, books.counted]
    simp only [FdContext.registered, FdContext.setContext_events] at bits
    omega
  · rw [IOManager.eventsOf_set found, FdContext.setContext_events, hasAfter] at set
    rw [IOManager.slotOf_set found]
    by_cases self : i = fd ∧ asked = event
    · obtain ⟨rfl, rfl⟩ := self
      refine ⟨l.made.length, by simp [Ledger.enter], fun member => ?_, by simp [Ledger.enter]⟩
      exact absurd (books.past _ member) (Nat.lt_irrefl _)
    · rw [decide_eq_false self, Bool.or_false] at set
      obtain ⟨id, current, fresh, entered⟩ := books.stands i asked set
      refine ⟨id, by simp [Ledger.enter, self, current], fresh, ?_⟩
      rw [if_neg self]
      exact (List.getElem?_append_left (List.getElem?_eq_some_iff.mp entered).1).trans entered
  · rw [IOManager.eventsOf_set found, FdContext.setContext_events, hasAfter]
    rcases Nat.lt_or_ge id l.made.length with old | new
    · have entered : l.made[id]? = some r := by
        rwa [Ledger.enter, List.getElem?_append_left old] at entered
      obtain ⟨current, set⟩ := books.unended id r entered fresh
      exact ⟨by simp [Ledger.enter, notOpen id r entered fresh, current], by simp [set]⟩
    · rw [Ledger.enter, List.getElem?_append_right new, List.getElem?_singleton] at entered
      obtain ⟨zero, same⟩ := Option.ite_none_right_eq_some.mp entered
      cases same
      have last : id = l.made.length := by omega
      exact ⟨by simp [Ledger.enter, last], by simp⟩
  · by_cases self : i = fd ∧ asked = event
    · obtain ⟨rfl, rfl⟩ := self
      simp only [Ledger.enter, and_self, if_true, Option.some.injEq] at current
      exact ⟨slot, by simp [Ledger.enter, ← current]⟩
    · simp only [Ledger.enter, self, if_false] at current
      obtain ⟨slot', entered⟩ := books.points i asked id current
      exact ⟨slot',
        (List.getElem?_append_left (List.getElem?_eq_some_iff.mp entered).1).trans entered⟩
  · show id < (l.made ++ [_]).length
    rw [List.length_append]
    exact Nat.lt_of_lt_of_le (books.past id member) (Nat.le_add_right _ _)

/-- **An event is unregistered**, and its registration ended. -/
theorem unregister (books : Books m l) {ctx : FdContext} (found : m.fdContexts[fd]? = some ctx)
    (set : ctx.events.has event = true) (slot : EventContext) (scheduled : List Scheduled) :
    Books { m with
      fdContexts := m.fdContexts.set fd
        (({ ctx with events := ctx.events &&& ~~~event.bit } : FdContext).setContext event slot)
      pendingEventCount := m.pendingEventCount - 1
      scheduled := scheduled } (l.close fd event) := by
  have known : Known ctx.events := IOManager.eventsOf_eq found ▸ books.known fd
  have set' : (m.eventsOf fd).has event = true := by rwa [IOManager.eventsOf_eq found]
  have hasAfter : ∀ i asked,
      (if i = fd then ctx.events &&& ~~~event.bit else m.eventsOf i).has asked =
        ((m.eventsOf i).has asked && !decide (i = fd ∧ asked = event)) := by
    intro i asked
    split_ifs with self
    · rw [self, known.has_diff, IOManager.eventsOf_eq found]
      simp
    · simp [self]
  obtain ⟨id, current, fresh, entered⟩ := books.stands fd event set'
  have closed := Ledger.ended_close current
  refine
    { known := fun i => ?_
      counted := ?_
      size := by rw [SizeOk, List.length_set]; exact books.size
      stands := fun i asked remains => ?_
      unended := fun id' r entered' fresh' => ?_
      points := books.points
      once := by rw [closed]; exact List.nodup_cons.mpr ⟨fresh, books.once⟩
      past := fun id' member => ?_ }
  · rw [IOManager.eventsOf_set found, FdContext.setContext_events]
    split_ifs
    · exact known.diff event
    · exact books.known i
  · have here : ctx.events.count ≤ registeredBits m.fdContexts := registered_le found
    have bits := registeredBits_set found
      (({ ctx with events := ctx.events &&& ~~~event.bit } : FdContext).setContext event slot)
    have one := known.count_diff set
    show (m.pendingEventCount - 1).toNat = registeredBits (m.fdContexts.set fd _)
    rw [toNat_sub_one (by rw [books.counted]; omega), books.counted]
    simp only [FdContext.registered, FdContext.setContext_events] at bits
    omega
  · rw [IOManager.eventsOf_set found, FdContext.setContext_events, hasAfter, Bool.and_eq_true,
      Bool.not_eq_true', decide_eq_false_iff_not] at remains
    obtain ⟨id', current', freshBefore, entered'⟩ := books.stands i asked remains.1
    rw [IOManager.slotOf_set found, if_neg remains.2, closed]
    refine ⟨id', current', fun member => ?_, entered'⟩
    rcases List.mem_cons.mp member with rfl | before
    · rw [entered] at entered'
      cases entered'
      exact remains.2 ⟨rfl, rfl⟩
    · exact freshBefore before
  · rw [closed, List.mem_cons, not_or] at fresh'
    obtain ⟨current', remains⟩ := books.unended id' r entered' fresh'.2
    refine ⟨current', ?_⟩
    rw [IOManager.eventsOf_set found, FdContext.setContext_events, hasAfter, remains, Bool.true_and,
      Bool.not_eq_true', decide_eq_false_iff_not]
    rintro ⟨sameFd, sameEvent⟩
    rw [sameFd, sameEvent, current] at current'
    exact fresh'.1 (Option.some.inj current').symm
  · rw [closed] at member
    rcases List.mem_cons.mp member with rfl | before
    · exact (List.getElem?_eq_some_iff.mp entered).1
    · exact books.past id' before

/-- `triggerEvent` ends a registration. -/
theorem trigger (books : Books m l) (triggered : m.trigger fd event = some m') :
    Books m' (l.close fd event) ∧
      ∀ i, m'.eventsOf i = if i = fd then m.eventsOf fd &&& ~~~event.bit else m.eventsOf i := by
  obtain ⟨ctx, ctx', task, found, fired, rfl⟩ := IOManager.trigger_cases triggered
  obtain ⟨set, slot, rfl⟩ := FdContext.triggerEvent_cases fired
  refine ⟨books.unregister found set slot _, fun i => ?_⟩
  rw [IOManager.eventsOf_set found, FdContext.setContext_events, IOManager.eventsOf_eq found]

/-- The same if the event is in a mask. -/
theorem triggerIf (books : Books m l) {mask : Mask}
    (triggered : m.triggerIf fd mask event = some m') :
    Books m' (l.closeIf fd mask event) ∧
      ∀ i, m'.eventsOf i = if i = fd then (m.eventsOf fd).without mask event else m.eventsOf i := by
  unfold IOManager.triggerIf at triggered
  unfold Ledger.closeIf Mask.without
  split at triggered
  next has =>
    simp only [if_pos has]
    exact books.trigger triggered
  next absent =>
    cases triggered
    refine ⟨by rwa [if_neg absent], fun i => ?_⟩
    rw [if_neg absent]
    split_ifs with self
    · rw [self]
    · rfl

end Books

/-! ### Runs without a stale commit -/

/-- **The mask of a `del_event` is fresh**: its event is still registered, and `new_event` is still
the other registered events. -/
def FreshMask (m : IOManager) : Progress → Prop
  | .deleting fd event newEvent =>
      (m.eventsOf fd).has event = true ∧ newEvent = m.eventsOf fd &&& ~~~event.bit
  | _ => True

instance (m : IOManager) : DecidablePred (FreshMask m)
  | .deleting .. => inferInstanceAs (Decidable (_ ∧ _))
  | .adding .. | .cancelling .. | .cancellingAll _ | .reporting .. => isTrue trivial

/-- The condition on a step: no `del_event` commits a stale mask. -/
def commitsFresh (s : Race n) : Step n → Prop
  | .commit t => ∀ p ∈ s.running t, FreshMask s.manager p
  | .begin .. => True

instance (s : Race n) : DecidablePred (commitsFresh s)
  | .begin .. => isTrue trivial
  | .commit t => inferInstanceAs (Decidable (∀ p ∈ s.running t, FreshMask s.manager p))

/-- What the first part of an operation leaves to its commit: `add_event` a bit that is clear,
`del_event` a set of events without its own. -/
def Prepared (m : IOManager) : Progress → Prop
  | .adding fd event _ _ => (m.eventsOf fd).has event = false
  | .deleting _ event newEvent => Known newEvent ∧ newEvent.has event = false
  | _ => True

/-- **A commit keeps the books**, and sets no bit but the one of an `add_event`. -/
theorem Books.commit {m m' : IOManager} {l : Ledger} {p : Progress} (books : Books m l)
    (fresh : FreshMask m p) (prepared : Prepared m p) (committed : commit m p = some m') :
    Books m' (settle m l p) ∧ ∀ i event, (m'.eventsOf i).has event = true →
      (m.eventsOf i).has event = true ∨ ∃ cb caller, p = .adding i event cb caller := by
  cases p with
  | adding fd event cb caller =>
    obtain ⟨ctx, found, -, rfl⟩ := IOManager.addEventCommit_cases committed
    have known : Known ctx.events := IOManager.eventsOf_eq found ▸ books.known fd
    refine ⟨books.register found (IOManager.eventsOf_eq found ▸ prepared) _, fun i asked has => ?_⟩
    rw [IOManager.eventsOf_set found, FdContext.setContext_events] at has
    split_ifs at has with self
    · rw [known.has_or, Bool.or_eq_true, decide_eq_true_eq] at has
      rcases has with before | rfl
      · exact Or.inl (by rwa [self, IOManager.eventsOf_eq found])
      · exact Or.inr ⟨cb, caller, by rw [self]⟩
    · exact Or.inl has
  | deleting fd event newEvent =>
    obtain ⟨set, rfl⟩ := fresh
    obtain ⟨ctx, found, rfl⟩ := IOManager.delEventCommit_cases committed
    have known := books.known fd
    rw [IOManager.eventsOf_eq found] at set known ⊢
    refine ⟨books.unregister found set {} m.scheduled, fun i asked has => Or.inl ?_⟩
    rw [IOManager.eventsOf_set found, FdContext.setContext_events] at has
    split_ifs at has with self
    · rw [self, IOManager.eventsOf_eq found]
      exact known.has_of_has_diff has
    · exact has
  | cancelling fd event =>
    obtain ⟨after, changed⟩ := books.trigger committed
    refine ⟨after, fun i asked has => Or.inl ?_⟩
    rw [changed] at has
    split_ifs at has with self
    · rw [self]
      exact (books.known fd).has_of_has_diff has
    · exact has
  | cancellingAll fd =>
    obtain ⟨ctx, m₁, ctx₁, _, found, first, found₁, second, -, -⟩ :=
      IOManager.cancelAllCommit_cases committed
    obtain ⟨books₁, changed₁⟩ := books.triggerIf first
    obtain ⟨after, changed⟩ := books₁.triggerIf second
    -- the second test reads `WRITE` as the first call left it: as it was
    have sameWrite : ctx₁.events.has .write = (m.eventsOf fd).has .write := by
      rw [← IOManager.eventsOf_eq found₁, changed₁, if_pos rfl,
        (books.known fd).has_write_without]
    refine ⟨?_, fun i asked has => Or.inl ?_⟩
    · rw [← IOManager.eventsOf_eq found] at after
      unfold settle
      rwa [Ledger.closeIf, sameWrite] at after
    · rw [changed] at has
      split_ifs at has with self
      · rw [changed₁, if_pos rfl] at has
        rw [self]
        exact (books.known fd).has_of_has_without
          (((books.known fd).without _ _).has_of_has_without has)
      · rwa [changed₁, if_neg self] at has
  | reporting fd real =>
    obtain ⟨m₁, first, second⟩ := Option.bind_eq_some_iff.mp committed
    obtain ⟨books₁, changed₁⟩ := books.triggerIf first
    obtain ⟨after, changed⟩ := books₁.triggerIf second
    refine ⟨after, fun i asked has => Or.inl ?_⟩
    rw [changed] at has
    split_ifs at has with self
    · rw [changed₁, if_pos rfl] at has
      rw [self]
      exact (books.known fd).has_of_has_without
        (((books.known fd).without _ _).has_of_has_without has)
    · rwa [changed₁, if_neg self] at has

/-- **The first part of an operation leaves the books alone.** -/
theorem Books.ctl {m m' : IOManager} {l : Ledger} {fault : Bool} {operation : Operation}
    {progress : Option Progress} (books : Books m l) (int : operation.fd < 2 ^ 31)
    (called : ctl m fault operation = some (m', progress)) :
    Books m' l ∧ (∀ i, m'.eventsOf i = m.eventsOf i) ∧
      ∀ p ∈ progress, p.fd = operation.fd ∧ p.holdsMutex = operation.holdsMutex ∧
        Prepared m' p := by
  have after := books.table int
  rcases ctl_cases called with ⟨rfl, rfl⟩ | ⟨ctx, p, op, mask, interest, rfl, found, asks, -, rfl⟩
  · exact ⟨after, m.eventsOf_table operation, fun p member => by cases member⟩
  · refine ⟨after.withInterest interest, m.eventsOf_table operation, ?_⟩
    rintro p ⟨⟩
    have here := IOManager.eventsOf_eq found
    have known : Known ctx.events := here ▸ after.known operation.fd
    cases asks with
    | adding clear =>
      refine ⟨rfl, rfl, ?_⟩
      show (IOManager.eventsOf _ _).has _ = false
      exact here ▸ clear
    | deleting set =>
      refine ⟨rfl, rfl, known.diff _, ?_⟩
      rw [known.has_diff]
      simp
    | cancelling | cancellingAll | reporting => exact ⟨rfl, rfl, trivial⟩

/-- **The invariant of the threads**: books in order, one holder of a mutex at a time, and every
commit prepared. -/
structure Sound (s : Race n) : Prop where
  books : Books s.manager s.ledger
  exclusive : ∀ (t u : Fin n) (p q : Progress), s.running t = some p → s.running u = some q →
    p.fd = q.fd → p.holdsMutex = true → q.holdsMutex = true → t = u
  prepared : ∀ (t : Fin n) (p : Progress), s.running t = some p → Prepared s.manager p

namespace Sound

theorem initial (n : Nat) : Sound (Race.initial n) where
  books := Books.initial
  exclusive _ _ _ _ running := by cases running
  prepared _ _ running := by cases running

variable {s s' : Race n}

/-- An operation begins. -/
theorem begin (sound : Sound s) {t : Fin n} {fault : Bool} {operation : Operation}
    (stepped : s.next (.begin t fault operation) = some s') : Sound s' := by
  obtain ⟨⟨idle, int, waits⟩, called⟩ := Option.ite_none_right_eq_some.mp stepped
  obtain ⟨⟨m', progress⟩, began, rfl⟩ := Option.map_eq_some_iff.mp called
  obtain ⟨books, sameEvents, started⟩ := sound.books.ctl int began
  -- the others hold no mutex that the new operation holds
  have apart : ∀ (u : Fin n) (p q : Progress), progress = some p → s.running u = some q →
      p.fd = q.fd → p.holdsMutex = true → q.holdsMutex = true → False := by
    intro u p q new old same holds holds'
    obtain ⟨sameFd, sameMutex, -⟩ := started p new
    refine waits (sameMutex ▸ holds) ⟨u, ?_⟩
    rw [old, Option.any_some, holds', ← same, sameFd]
    simp
  refine ⟨books, fun u v p q first second same holds holds' => ?_, fun u p running => ?_⟩
  · dsimp only at first second
    by_cases selfU : u = t <;> by_cases selfV : v = t
    · rw [selfU, selfV]
    · rw [selfU, Function.update_self] at first
      rw [Function.update_of_ne selfV] at second
      exact (apart v p q first second same holds holds').elim
    · rw [selfV, Function.update_self] at second
      rw [Function.update_of_ne selfU] at first
      exact (apart u q p second first same.symm holds' holds).elim
    · rw [Function.update_of_ne selfU] at first
      rw [Function.update_of_ne selfV] at second
      exact sound.exclusive u v p q first second same holds holds'
  · dsimp only at running
    by_cases self : u = t
    · rw [self, Function.update_self] at running
      exact (started p running).2.2
    · rw [Function.update_of_ne self] at running
      have before := sound.prepared u p running
      cases p with
      | adding fd event cb caller =>
        show (m'.eventsOf fd).has event = false
        rwa [sameEvents]
      | deleting fd event newEvent => exact before
      | _ => trivial

/-- An operation commits, and no stale mask. -/
theorem commit (sound : Sound s) {t : Fin n} (fresh : commitsFresh s (.commit t))
    (stepped : s.next (.commit t) = some s') : Sound s' := by
  obtain ⟨p, running, stepped⟩ := Option.bind_eq_some_iff.mp stepped
  obtain ⟨m', committed, same⟩ := Option.bind_eq_some_iff.mp stepped
  cases same
  obtain ⟨books, shrinks⟩ :=
    sound.books.commit (fresh p running) (sound.prepared t p running) committed
  have others : ∀ (u : Fin n) (q : Progress), Function.update s.running t none u = some q →
      u ≠ t ∧ s.running u = some q := by
    intro u q running'
    by_cases self : u = t
    · rw [self, Function.update_self] at running'
      cases running'
    · rw [Function.update_of_ne self] at running'
      exact ⟨self, running'⟩
  refine ⟨books, fun u v q r first second same => ?_, fun u q after => ?_⟩
  · exact sound.exclusive u v q r (others u q first).2 (others v r second).2 same
  · obtain ⟨other, runningU⟩ := others u q after
    have before := sound.prepared u q runningU
    cases q with
    | adding fd event cb caller =>
      show (m'.eventsOf fd).has event = false
      refine Bool.eq_false_iff.mpr fun has => ?_
      rcases shrinks fd event has with set | ⟨cb', caller', rfl⟩
      · rw [show (s.manager.eventsOf fd).has event = false from before] at set
        cases set
      · exact other (sound.exclusive u t _ _ runningU running rfl rfl rfl)
    | deleting fd event newEvent => exact before
    | _ => trivial

theorem reachable (reached : (race n).ReachableWhen commitsFresh s) : Sound s := by
  refine reached.invariant (P := Sound) ?_ ?_
  · rintro _ rfl
    exact initial n
  · intro s event s' sound fresh stepped
    cases event with
    | begin t fault operation => exact sound.begin stepped
    | commit t => exact sound.commit fresh stepped

end Sound

/-- **No registration is lost and none is ended twice, in every run that commits no stale mask**,
for any number of threads and whatever else comes between the parts of their operations. -/
theorem registrations_kept (n : Nat) (s : Race n)
    (reached : (race n).ReachableWhen commitsFresh s) : Kept s := by
  have books := (Sound.reachable reached).books
  refine ⟨books.counted, books.once, fun id r entered fresh => ?_,
    fun id id' r r' entered entered' fresh fresh' sameFd sameEvent => ?_⟩
  · obtain ⟨current, set⟩ := books.unended id r entered fresh
    obtain ⟨id', current', -, entered'⟩ := books.stands r.fd r.event set
    rw [current] at current'
    cases current'
    rw [entered] at entered'
    exact ⟨set, (congrArg Registration.slot (Option.some.inj entered')).symm⟩
  · have current := (books.unended id r entered fresh).1
    have current' := (books.unended id' r' entered' fresh').1
    rw [← sameFd, ← sameEvent, current] at current'
    exact Option.some.inj current'

/-- **A stale mask always breaks the books**: the condition leaves out no harmless commit. -/
theorem stale_delete_breaks {n : Nat} {s s' : Race n} (sound : Sound s) {t : Fin n} {fd : Nat}
    {event : Event} {newEvent : Mask} (running : s.running t = some (.deleting fd event newEvent))
    (stale : ¬ FreshMask s.manager (.deleting fd event newEvent))
    (stepped : s.next (.commit t) = some s') : ¬ Kept s' := by
  intro kept
  have books := sound.books
  obtain ⟨knownNew, without⟩ : Known newEvent ∧ newEvent.has event = false :=
    sound.prepared t _ running
  simp only [Race.next, running, Option.bind_eq_bind, Option.bind_some, commit] at stepped
  obtain ⟨m', committed, same⟩ := Option.bind_eq_some_iff.mp stepped
  cases same
  obtain ⟨ctx, found, rfl⟩ := IOManager.delEventCommit_cases committed
  have known := books.known fd
  have sameEvents := IOManager.eventsOf_eq found
  refine stale (known.eq_diff knownNew without ?_ fun asked other set => ?_)
  · -- the counter went down by one, and so did the bits
    have counted : (s.manager.pendingEventCount - 1).toNat =
        registeredBits (s.manager.fdContexts.set fd _) := kept.counted
    have bits := registeredBits_set found
      (({ ctx with events := newEvent } : FdContext).setContext event {})
    have few := registeredBits_le (s.manager.fdContexts.set fd
      (({ ctx with events := newEvent } : FdContext).setContext event {}))
    have short := books.size.2
    rw [List.length_set] at few
    have positive : 1 ≤ s.manager.pendingEventCount.toNat := by
      by_contra none
      have zero : s.manager.pendingEventCount = 0 := by
        rw [← UInt64.toNat_inj, UInt64.toNat_zero]
        omega
      rw [zero, show ((0 : UInt64) - 1).toNat = 2 ^ 64 - 1 by decide] at counted
      omega
    rw [toNat_sub_one positive, books.counted] at counted
    rw [books.counted] at positive
    simp only [FdContext.registered, FdContext.setContext_events] at bits counted
    rw [sameEvents]
    omega
  · -- the registration of another event is open, so its bit must have stayed
    obtain ⟨id, current, fresh, entered⟩ := books.stands fd asked set
    have stillOpen : id ∉ (s.ledger.close fd event).ended := by
      rw [Ledger.close, List.mem_append, not_or]
      refine ⟨fun closed => ?_, fresh⟩
      obtain ⟨slot, entered'⟩ := books.points fd event id (Option.mem_toList.mp closed)
      rw [entered] at entered'
      cases entered'
      exact other rfl
    have place := (kept.inPlace id _ entered stillOpen).1
    rw [IOManager.eventsOf_set found, if_pos rfl, FdContext.setContext_events] at place
    exact place

/-- A `cancel_event` and a `del_event` overlap on the descriptor, and do no harm. -/
def harmlessOverlap : List (Step 3) :=
  [.begin 0 false (.addEvent 5 .read (some 1) ⟨some 0, 7, .exec⟩), .commit 0,
    .begin 0 false (.addEvent 5 .write (some 2) ⟨some 0, 7, .exec⟩), .commit 0,
    .begin 1 false (.cancelEvent 5 .read), .begin 2 false (.delEvent 5 .write), .commit 2,
    .commit 1]

theorem registrations_kept_overlap :
    ∃ s, (race 3).replay (Race.initial 3) harmlessOverlap = some s ∧ s.quiet ∧
      s.ledger.ended = [0, 1] ∧ s.manager.pendingEventCount = 0 ∧ Kept s := by
  refine ⟨_, rfl, by decide, by decide, by decide, registrations_kept 3 _ ?_⟩
  exact Machine.ReachableWhen.replayWhen (.start rfl)
    (show (race 3).replayWhen commitsFresh (Race.initial 3) harmlessOverlap = some _ from rfl)

end Sylar.EventTable
