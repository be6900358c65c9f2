/-
**The event table keeps its books.**

Five entry points each recompute a mask, an `epoll_ctl` operation, the counter and a slot, in
different orders. With nothing in between they all keep four pieces of state in step:

* the counter is the number of bits set in the table, so it never underflows;
* the kernel's interest in a descriptor is `EPOLLET | m_events`, and absent for `NONE`;
* a slot is filled exactly when its bit is set, with a scheduler and one continuation.

`ctl_cases` says what the first part of any operation can do. `Midway m fd mask` is the invariant
between the two parts: the kernel has been told `mask` for `fd`, everything else is as it was.
`Midway.trigger` is the step all of `cancel_event`, `cancel_all` and `idle()` make;
**`event_table_consistent`** is the result, over every run.
-/

import Sylar.EventTable.Operations
import Sylar.Library.Machine
import Mathlib.Tactic.SplitIfs

namespace Sylar.EventTable

open Sylar.Library

/-- The events registered on a descriptor. -/
def IOManager.eventsOf (m : IOManager) (fd : Nat) : Mask :=
  match m.fdContexts[fd]? with
  | some ctx => ctx.events
  | none => 0

theorem IOManager.eventsOf_eq {m : IOManager} {fd : Nat} {ctx : FdContext}
    (found : m.fdContexts[fd]? = some ctx) : m.eventsOf fd = ctx.events := by
  rw [eventsOf, found]

/-- The slot of an event of a descriptor. -/
def IOManager.slotOf (m : IOManager) (fd : Nat) (event : Event) : EventContext :=
  match m.fdContexts[fd]? with
  | some ctx => ctx.getContext event
  | none => {}

/-- **What writing one entry does to the events.** -/
theorem IOManager.eventsOf_set {m : IOManager} {fd : Nat} {ctx : FdContext}
    (found : m.fdContexts[fd]? = some ctx) (changed : FdContext) (count : UInt64)
    (scheduled : List Scheduled) (i : Nat) :
    ({ m with
      fdContexts := m.fdContexts.set fd changed
      pendingEventCount := count
      scheduled := scheduled } : IOManager).eventsOf i =
      if i = fd then changed.events else m.eventsOf i := by
  unfold eventsOf
  split_ifs with self
  · rw [self, List.getElem?_set_self (List.getElem?_eq_some_iff.mp found).1]
  · rw [List.getElem?_set_ne (Ne.symm self)]

/-- **What a commit does to the slots**: it writes one. -/
theorem IOManager.slotOf_set {m : IOManager} {fd : Nat} {ctx : FdContext}
    (found : m.fdContexts[fd]? = some ctx) (mask : Mask) (event : Event) (slot : EventContext)
    (count : UInt64) (scheduled : List Scheduled) (i : Nat) (asked : Event) :
    ({ m with
      fdContexts := m.fdContexts.set fd
        (({ ctx with events := mask } : FdContext).setContext event slot)
      pendingEventCount := count
      scheduled := scheduled } : IOManager).slotOf i asked =
      if i = fd ∧ asked = event then slot else m.slotOf i asked := by
  unfold slotOf
  by_cases self : i = fd
  · rw [self, List.getElem?_set_self (List.getElem?_eq_some_iff.mp found).1, found]
    simp
  · rw [List.getElem?_set_ne (Ne.symm self)]
    simp [self]

/-- An entry of a grown table, or an entry that is not there, is the old one or empty. -/
theorem IOManager.getElem?_grown (m : IOManager) (fd i : Nat) :
    (grow fd m.fdContexts)[i]? = m.fdContexts[i]? ∨
      (m.fdContexts[i]? = none ∧ ∃ j, (grow fd m.fdContexts)[i]? = some { fd := j }) := by
  cases found : (grow fd m.fdContexts)[i]? with
  | none =>
    have short := length_le_growLoop fd (fd + 1) m.fdContexts
    rw [List.getElem?_eq_none_iff, grow] at found
    exact Or.inl (List.getElem?_eq_none (Nat.le_trans short found)).symm
  | some ctx =>
    rcases getElem?_grow found with old | ⟨beyond, j, rfl⟩
    · exact Or.inl old.symm
    · exact Or.inr ⟨List.getElem?_eq_none beyond, j, rfl⟩

/-- Growing registers nothing. -/
@[simp] theorem IOManager.eventsOf_grow (m : IOManager) (fd i : Nat) :
    ({ m with fdContexts := grow fd m.fdContexts } : IOManager).eventsOf i = m.eventsOf i := by
  unfold eventsOf
  rcases m.getElem?_grown fd i with same | ⟨absent, j, fresh⟩
  · rw [same]
  · rw [absent, fresh]

/-- Growing fills no slot. -/
@[simp] theorem IOManager.slotOf_grow (m : IOManager) (fd i : Nat) (event : Event) :
    ({ m with fdContexts := grow fd m.fdContexts } : IOManager).slotOf i event =
      m.slotOf i event := by
  unfold slotOf
  rcases m.getElem?_grown fd i with same | ⟨absent, j, fresh⟩
  · rw [same]
  · rw [absent, fresh]
    cases event <;> rfl

/-- **The books agree**: the table with the counter, with the kernel, and with its slots. -/
structure Consistent (m : IOManager) : Prop where
  counted : m.pendingEventCount.toNat = registeredBits m.fdContexts
  interested : ∀ fd, m.interest fd = interestIn (m.eventsOf fd)
  formed : ∀ (fd : Nat) (ctx : FdContext), m.fdContexts[fd]? = some ctx → WellFormed ctx

/-- The size of the table: an `int` can index it with room to spare. -/
def SizeOk (table : List FdContext) : Prop := 2 ≤ table.length ∧ table.length ≤ 3 * 2 ^ 30

instance (table : List FdContext) : Decidable (SizeOk table) := inferInstanceAs (Decidable (_ ∧ _))

/-- **Between the parts of an operation on `fd`**, whose `epoll_ctl` asked for `mask`. -/
structure Midway (m : IOManager) (fd : Nat) (mask : Mask) : Prop where
  counted : m.pendingEventCount.toNat = registeredBits m.fdContexts
  told : m.interest fd = interestIn mask
  others : ∀ i, i ≠ fd → m.interest i = interestIn (m.eventsOf i)
  formed : ∀ (i : Nat) (ctx : FdContext), m.fdContexts[i]? = some ctx → WellFormed ctx
  size : SizeOk m.fdContexts

/-- The counter cannot overflow. -/
theorem SizeOk.registeredBits_lt {table : List FdContext} (size : SizeOk table) :
    registeredBits table + 1 < 2 ^ 64 := by
  have few := registeredBits_le table
  have short := size.2
  omega

/-- Growing for an `int` keeps to the size. -/
theorem SizeOk.grow {table : List FdContext} (size : SizeOk table) {fd : Nat}
    (int : fd < 2 ^ 31) : SizeOk (grow fd table) :=
  ⟨Nat.le_trans size.1 (length_le_growLoop fd (fd + 1) table),
    length_growLoop_le size.2 (by omega)⟩

/-- `epoll_ctl` starts an operation. -/
theorem Consistent.midway {m : IOManager} (consistent : Consistent m) (size : SizeOk m.fdContexts)
    (fd : Nat) (mask : Mask) :
    Midway { m with interest := Function.update m.interest fd (interestIn mask) } fd mask where
  counted := consistent.counted
  told := Function.update_self _ _ _
  others i other := by
    show Function.update m.interest fd (interestIn mask) i = interestIn (m.eventsOf i)
    rw [Function.update_of_ne other, consistent.interested i]
  formed := consistent.formed
  size := size

namespace Midway

variable {m m' : IOManager} {fd : Nat} {mask : Mask}

/-- The commit ends it. -/
theorem consistent (midway : Midway m fd mask) (reached : m.eventsOf fd = mask) :
    Consistent m where
  counted := midway.counted
  interested i := by
    by_cases self : i = fd
    · rw [self, reached]
      exact midway.told
    · exact midway.others i self
  formed := midway.formed

/-- **Writing the entry of `fd`**, and counting what that changes. -/
theorem replace (midway : Midway m fd mask) {ctx changed : FdContext} (count : UInt64)
    (found : m.fdContexts[fd]? = some ctx) (formed : WellFormed changed)
    (recounted : count.toNat + ctx.registered = m.pendingEventCount.toNat + changed.registered)
    (scheduled : List Scheduled) :
    Midway { m with
      fdContexts := m.fdContexts.set fd changed
      pendingEventCount := count
      scheduled := scheduled } fd mask where
  counted := by
    have books := registeredBits_set found changed
    have before := midway.counted
    show count.toNat = registeredBits (m.fdContexts.set fd changed)
    omega
  told := midway.told
  others i other := by
    rw [IOManager.eventsOf, List.getElem?_set_ne (Ne.symm other)]
    exact midway.others i other
  formed i c inside := by
    by_cases self : i = fd
    · rw [self, List.getElem?_set_self (List.getElem?_eq_some_iff.mp found).1] at inside
      cases inside
      exact formed
    · rw [List.getElem?_set_ne (Ne.symm self)] at inside
      exact midway.formed i c inside
  size := by
    rw [SizeOk, List.length_set]
    exact midway.size

/-- Unregistering an event of `fd`. -/
theorem unregister (midway : Midway m fd mask) {ctx : FdContext} {event : Event}
    (found : m.fdContexts[fd]? = some ctx) (set : ctx.events.has event = true)
    (scheduled : List Scheduled) :
    Midway { m with
      fdContexts := m.fdContexts.set fd
        (({ ctx with events := ctx.events &&& ~~~event.bit } : FdContext).setContext event {})
      pendingEventCount := m.pendingEventCount - 1
      scheduled := scheduled } fd mask := by
  have formed := midway.formed fd ctx found
  refine midway.replace _ found (formed.unregister event) ?_ scheduled
  have bits := formed.known.count_diff set
  have positive : 1 ≤ m.pendingEventCount.toNat := by
    have here : ctx.events.count ≤ registeredBits m.fdContexts := registered_le found
    have counted := midway.counted
    omega
  rw [toNat_sub_one positive]
  simp only [FdContext.registered, FdContext.setContext_events]
  omega

/-- **`triggerEvent` and `--m_pending_event_count`.** -/
theorem trigger (midway : Midway m fd mask) {event : Event}
    (triggered : m.trigger fd event = some m') :
    Midway m' fd mask ∧ m'.eventsOf fd = m.eventsOf fd &&& ~~~event.bit := by
  obtain ⟨ctx, ctx', task, found, fired, rfl⟩ := IOManager.trigger_cases triggered
  obtain ⟨set, rfl⟩ := (midway.formed fd ctx found).triggerEvent fired
  refine ⟨midway.unregister found set _, ?_⟩
  rw [IOManager.eventsOf_eq found, IOManager.eventsOf_eq
    (List.getElem?_set_self (List.getElem?_eq_some_iff.mp found).1), FdContext.setContext_events]

/-- The same if the event is in a mask. -/
theorem triggerIf (midway : Midway m fd mask) {event : Event} {asked : Mask}
    (triggered : m.triggerIf fd asked event = some m') :
    Midway m' fd mask ∧ m'.eventsOf fd = (m.eventsOf fd).without asked event := by
  unfold IOManager.triggerIf at triggered
  unfold Mask.without
  split at triggered
  next has =>
    rw [if_pos has]
    exact midway.trigger triggered
  next absent =>
    rw [if_neg absent]
    cases triggered
    exact ⟨midway, rfl⟩

end Midway


/-! ### Whole operations -/

/-- The descriptor of an operation. -/
def Operation.fd : Operation → Nat
  | .addEvent fd _ _ _ | .delEvent fd _ | .cancelEvent fd _ | .cancelAll fd | .report fd _ => fd

/-- What is asked of an operation: its descriptor is an `int`, and `add_event` is called by a thread
of a scheduler. -/
def Operation.Valid (operation : Operation) : Prop :=
  operation.fd < 2 ^ 31 ∧
    match operation with
    | .addEvent _ _ _ caller => caller.scheduler ≠ none
    | _ => True

instance : DecidablePred Operation.Valid := fun operation =>
  match operation with
  | .addEvent .. | .delEvent .. | .cancelEvent .. | .cancelAll .. | .report .. =>
      inferInstanceAs (Decidable (_ ∧ _))

/-- The table as an operation makes it: `add_event` makes it hold the descriptor. -/
def Operation.table (contexts : List FdContext) : Operation → List FdContext
  | .addEvent fd _ _ _ => grow fd contexts
  | .delEvent .. | .cancelEvent .. | .cancelAll _ | .report .. => contexts

/-- **What an operation asks of `epoll_ctl`**, given the context it has found, and what it has in
progress when that succeeds. -/
inductive Asks (ctx : FdContext) : Operation → Progress → EpollOp → Mask → Prop
  | adding {fd : Nat} {event : Event} {cb : Option Callback} {caller : Caller}
      (clear : ctx.events.has event = false) :
      Asks ctx (.addEvent fd event cb caller) (.adding fd event cb caller)
        (if ctx.events ≠ 0 then .mod else .add) (epollEt ||| (ctx.events ||| event.bit))
  | deleting {fd : Nat} {event : Event} (set : ctx.events.has event = true) :
      Asks ctx (.delEvent fd event) (.deleting fd event (ctx.events &&& ~~~event.bit))
        (if ctx.events &&& ~~~event.bit ≠ 0 then .mod else .del)
        (epollEt ||| (ctx.events &&& ~~~event.bit))
  | cancelling {fd : Nat} {event : Event} (set : ctx.events.has event = true) :
      Asks ctx (.cancelEvent fd event) (.cancelling fd event)
        (if ctx.events &&& ~~~event.bit ≠ 0 then .mod else .del)
        (epollEt ||| (ctx.events &&& ~~~event.bit))
  | cancellingAll {fd : Nat} (registered : ctx.events ≠ 0) :
      Asks ctx (.cancelAll fd) (.cancellingAll fd) .del 0
  | reporting {fd : Nat} {report : Mask}
      (named : ctx.events &&& IOManager.realEvents ctx.events report ≠ 0) :
      Asks ctx (.report fd report) (.reporting fd (IOManager.realEvents ctx.events report))
        (if ctx.events &&& ~~~IOManager.realEvents ctx.events report ≠ 0 then .mod else .del)
        (epollEt ||| (ctx.events &&& ~~~IOManager.realEvents ctx.events report))

/-- **Up to `epoll_ctl`, any operation**: it has returned, or it is in progress and its call of
`epoll_ctl` has succeeded. -/
theorem ctl_cases {m m' : IOManager} {fault : Bool} {operation : Operation}
    {progress : Option Progress} (called : ctl m fault operation = some (m', progress)) :
    (progress = none ∧ m' = { m with fdContexts := operation.table m.fdContexts }) ∨
      ∃ ctx p op mask interest, progress = some p ∧
        m'.fdContexts[operation.fd]? = some ctx ∧ Asks ctx operation p op mask ∧
        epollCtl m.interest op operation.fd mask fault = some interest ∧
        m' = { m with fdContexts := operation.table m.fdContexts, interest } := by
  cases operation with
  | addEvent fd event cb caller =>
    obtain ⟨⟨m₁, done⟩, added, same⟩ := Option.map_eq_some_iff.mp called
    cases same
    obtain ⟨ctx, found, clear, ⟨rfl, rfl⟩ | ⟨rfl, interest, succeeded, rfl⟩⟩ :=
      IOManager.addEventCtl_cases added
    · exact .inl ⟨rfl, rfl⟩
    · exact .inr ⟨ctx, _, _, _, interest, rfl, found, .adding clear, succeeded, rfl⟩
  | delEvent fd event =>
    rcases result : m.dropEventCtl fd event fault with ⟨m₁, newEvent⟩
    simp only [ctl, result] at called
    cases called
    rcases IOManager.dropEventCtl_cases result with ⟨rfl, rfl⟩ | ⟨ctx, interest, found, set, rfl,
      succeeded, rfl⟩
    · exact .inl ⟨rfl, rfl⟩
    · exact .inr ⟨ctx, _, _, _, interest, rfl, found, .deleting set, succeeded, rfl⟩
  | cancelEvent fd event =>
    rcases result : m.dropEventCtl fd event fault with ⟨m₁, newEvent⟩
    simp only [ctl, result] at called
    cases called
    rcases IOManager.dropEventCtl_cases result with ⟨rfl, rfl⟩ | ⟨ctx, interest, found, set, rfl,
      succeeded, rfl⟩
    · exact .inl ⟨rfl, rfl⟩
    · exact .inr ⟨ctx, _, _, _, interest, rfl, found, .cancelling set, succeeded, rfl⟩
  | cancelAll fd =>
    rcases result : m.cancelAllCtl fd fault with ⟨m₁, done⟩
    simp only [ctl, result] at called
    cases called
    rcases IOManager.cancelAllCtl_cases result with ⟨rfl, rfl⟩ | ⟨ctx, interest, found, registered,
      rfl, succeeded, rfl⟩
    · exact .inl ⟨rfl, rfl⟩
    · exact .inr ⟨ctx, _, _, _, interest, rfl, found, .cancellingAll registered, succeeded, rfl⟩
  | report fd events =>
    obtain ⟨⟨m₁, real⟩, reported, same⟩ := Option.map_eq_some_iff.mp called
    cases same
    obtain ⟨ctx, found, ⟨rfl, rfl⟩ | ⟨interest, named, rfl, succeeded, rfl⟩⟩ :=
      IOManager.reportCtl_cases reported
    · exact .inl ⟨rfl, rfl⟩
    · exact .inr ⟨ctx, _, _, _, interest, rfl, found, .reporting named, succeeded, rfl⟩

/-- What `add_event` has in progress. -/
theorem progress_of_addEvent {m m' : IOManager} {fault : Bool} {fd : Nat} {event : Event}
    {cb : Option Callback} {caller : Caller} {p : Progress}
    (called : ctl m fault (.addEvent fd event cb caller) = some (m', some p)) :
    p = .adding fd event cb caller := by
  obtain ⟨ctx, p, op, mask, interest, same, -, asks, -⟩ :=
    (ctl_cases called).resolve_left fun returned => by cases returned.1
  cases same
  cases asks
  rfl

/-- An operation registers nothing before its commit. -/
@[simp] theorem IOManager.eventsOf_table (m : IOManager) (operation : Operation) (i : Nat) :
    ({ m with fdContexts := operation.table m.fdContexts } : IOManager).eventsOf i =
      m.eventsOf i := by
  cases operation with
  | addEvent fd event cb caller => exact m.eventsOf_grow fd i
  | delEvent | cancelEvent | cancelAll | report => rfl

/-- The table of an operation keeps to the size. -/
theorem SizeOk.table {contexts : List FdContext} (size : SizeOk contexts) {operation : Operation}
    (int : operation.fd < 2 ^ 31) : SizeOk (operation.table contexts) := by
  cases operation with
  | addEvent fd event cb caller => exact size.grow int
  | delEvent | cancelEvent | cancelAll | report => exact size

namespace Consistent

variable {m m' : IOManager} {fd : Nat} {event : Event} {fault : Bool}

/-- A larger table is as consistent. -/
theorem grow (consistent : Consistent m) (fd : Nat) :
    Consistent { m with fdContexts := grow fd m.fdContexts } where
  counted := by
    show m.pendingEventCount.toNat = registeredBits (EventTable.grow fd m.fdContexts)
    rw [registeredBits_grow, consistent.counted]
  interested i := by
    rw [IOManager.eventsOf_grow]
    exact consistent.interested i
  formed i ctx found := by
    rcases getElem?_grow found with old | ⟨-, j, rfl⟩
    · exact consistent.formed i ctx old
    · exact WellFormed.fresh j

theorem table (consistent : Consistent m) (operation : Operation) :
    Consistent { m with fdContexts := operation.table m.fdContexts } := by
  cases operation with
  | addEvent fd event cb caller => exact consistent.grow fd
  | delEvent | cancelEvent | cancelAll | report => exact consistent

end Consistent

/-- **What an operation in progress relies on**: the interest the kernel was told is the one the
commit will reach. -/
def InProgress (m : IOManager) : Progress → Prop
  | .adding fd event _ caller => caller.scheduler ≠ none ∧ (m.eventsOf fd).has event = false ∧
      Midway m fd (m.eventsOf fd ||| event.bit)
  | .deleting fd event newEvent => (m.eventsOf fd).has event = true ∧
      newEvent = m.eventsOf fd &&& ~~~event.bit ∧ Midway m fd newEvent
  | .cancelling fd event => Midway m fd (m.eventsOf fd &&& ~~~event.bit)
  | .cancellingAll fd => Midway m fd 0
  | .reporting fd real => Known real ∧ Known (m.eventsOf fd) ∧
      Midway m fd (m.eventsOf fd &&& ~~~real)

/-- What a report names is a set of events. -/
theorem known_realEvents (events report : Mask) : Known (IOManager.realEvents events report) := by
  have either : ∀ (p q : Prop) [Decidable p] [Decidable q],
      Known ((if p then Event.read.bit else 0) ||| (if q then Event.write.bit else 0)) := by
    intro p q _ _
    split <;> split <;> decide
  exact either _ _

section Parts

variable {m m' : IOManager} {fault : Bool}

/-- **Up to `epoll_ctl`**: an operation returns with the books in order, or is in progress. -/
theorem Consistent.ctl (consistent : Consistent m) (size : SizeOk m.fdContexts)
    {operation : Operation} (valid : operation.Valid) {progress : Option Progress}
    (called : ctl m fault operation = some (m', progress)) :
    SizeOk m'.fdContexts ∧
      match progress with
      | none => Consistent m'
      | some p => InProgress m' p := by
  have after := consistent.table operation
  have larger := size.table valid.1
  rcases ctl_cases called with ⟨rfl, rfl⟩ | ⟨ctx, p, op, mask, interest, rfl, found, asks, succeeded,
    rfl⟩
  · exact ⟨larger, after⟩
  · refine ⟨larger, ?_⟩
    have here := IOManager.eventsOf_eq found
    have current : m.interest operation.fd = interestIn ctx.events :=
      here ▸ after.interested operation.fd
    have known := (after.formed _ ctx found).known
    cases asks with
    | adding clear =>
      have told := epollCtl_raise current (known.or_ne_zero _) succeeded
      dsimp only [Operation.fd] at here told
      refine ⟨valid.2, ?_, ?_⟩
      · rwa [here]
      · rw [here, told]
        exact after.midway larger _ _
    | deleting set =>
      have told := epollCtl_lower succeeded
      dsimp only [Operation.fd] at here told
      refine ⟨?_, ?_, ?_⟩
      · rwa [here]
      · rw [here]
      · rw [told]
        exact after.midway larger _ _
    | cancelling set =>
      have told := epollCtl_lower succeeded
      dsimp only [Operation.fd] at here told
      show Midway _ _ _
      rw [here, told]
      exact after.midway larger _ _
    | cancellingAll registered =>
      show Midway _ _ 0
      rw [epollCtl_del succeeded]
      exact after.midway larger _ 0
    | reporting named =>
      have told := epollCtl_lower succeeded
      dsimp only [Operation.fd] at here told
      refine ⟨known_realEvents _ _, ?_, ?_⟩
      · rwa [here]
      · rw [here, told]
        exact after.midway larger _ _

/-- **After `epoll_ctl`**: the commit reaches what the kernel was told. -/
theorem InProgress.commit {p : Progress} (inProgress : InProgress m p)
    (committed : commit m p = some m') : Consistent m' ∧ SizeOk m'.fdContexts := by
  cases p with
  | adding fd event cb caller =>
    obtain ⟨fromWorker, clear, midway⟩ := inProgress
    obtain ⟨ctx, found, -, rfl⟩ := IOManager.addEventCommit_cases committed
    have formed := midway.formed fd ctx found
    rw [IOManager.eventsOf_eq found] at clear midway
    have after := midway.replace (m.pendingEventCount + 1) found
      (formed.register event (Caller.slotOk fromWorker cb)) ?_ m.scheduled
    · refine ⟨after.consistent ?_, after.size⟩
      rw [IOManager.eventsOf_eq (List.getElem?_set_self (List.getElem?_eq_some_iff.mp found).1),
        FdContext.setContext_events]
    · have small := midway.size.registeredBits_lt
      have bits := formed.known.count_or clear
      rw [← midway.counted] at small
      rw [toNat_add_one small]
      simp only [FdContext.registered, FdContext.setContext_events]
      omega
  | deleting fd event newEvent =>
    obtain ⟨set, rfl, midway⟩ := inProgress
    obtain ⟨ctx, found, rfl⟩ := IOManager.delEventCommit_cases committed
    rw [IOManager.eventsOf_eq found] at set midway ⊢
    have after := midway.unregister found set m.scheduled
    refine ⟨after.consistent ?_, after.size⟩
    rw [IOManager.eventsOf_eq (List.getElem?_set_self (List.getElem?_eq_some_iff.mp found).1),
      FdContext.setContext_events]
  | cancelling fd event =>
    obtain ⟨after, reached⟩ := Midway.trigger inProgress committed
    exact ⟨after.consistent reached, after.size⟩
  | cancellingAll fd =>
    obtain ⟨ctx, m₁, ctx₁, ctx₂, -, first, -, second, found₂, empty⟩ :=
      IOManager.cancelAllCommit_cases committed
    have after := ((Midway.triggerIf inProgress first).1.triggerIf second).1
    exact ⟨after.consistent ((IOManager.eventsOf_eq found₂).trans empty), after.size⟩
  | reporting fd real =>
    obtain ⟨known, knownEvents, midway⟩ := inProgress
    obtain ⟨m₁, first, second⟩ := Option.bind_eq_some_iff.mp committed
    obtain ⟨midway₁, reached₁⟩ := midway.triggerIf first
    obtain ⟨after, reached⟩ := midway₁.triggerIf second
    refine ⟨after.consistent ?_, after.size⟩
    rw [reached, reached₁, knownEvents.without_both known]

/-- **A whole operation keeps the books.** -/
theorem Consistent.perform (consistent : Consistent m) (size : SizeOk m.fdContexts)
    {operation : Operation} (valid : operation.Valid)
    (performed : perform m fault operation = some m') : Consistent m' ∧ SizeOk m'.fdContexts := by
  obtain ⟨⟨m₁, progress⟩, called, performed⟩ := Option.bind_eq_some_iff.mp performed
  obtain ⟨larger, holds⟩ := consistent.ctl size valid called
  cases progress with
  | none =>
    cases performed
    exact ⟨holds, larger⟩
  | some p => exact InProgress.commit holds performed

end Parts

/-! ### Runs -/

/-- Operations one after another on a new `IOManager`; the flag makes `epoll_ctl` fail. Nothing is
assumed of the events a report carries. -/
def atomicOperations : Machine IOManager (Bool × Operation) :=
  ⟨fun m => m = IOManager.initial, fun m (fault, operation) => perform m fault operation⟩

theorem consistent_initial : Consistent IOManager.initial where
  counted := by decide
  interested fd := by
    have empty : IOManager.initial.eventsOf fd = 0 := by
      unfold IOManager.eventsOf
      split
      next ctx found =>
        have fresh : ∀ ctx ∈ IOManager.initial.fdContexts, ctx.events = 0 := by decide
        exact fresh ctx (List.mem_of_getElem? found)
      next => rfl
    rw [empty]
    rfl
  formed fd ctx found := by
    have fresh : ∀ ctx ∈ IOManager.initial.fdContexts, ctx = { fd := ctx.fd } := by decide
    rw [fresh ctx (List.mem_of_getElem? found)]
    exact WellFormed.fresh ctx.fd

/-- **The books agree in every reachable state**: whatever the operations, their order, the failures
of `epoll_ctl` and the reports. -/
theorem event_table_consistent (m : IOManager)
    (reached : atomicOperations.ReachableWhen (fun _ call => call.2.Valid) m) : Consistent m := by
  have holds : Consistent m ∧ SizeOk m.fdContexts := by
    refine reached.invariant (P := fun m => Consistent m ∧ SizeOk m.fdContexts) ?_ ?_
    · rintro _ rfl
      exact ⟨consistent_initial, by decide⟩
    · intro m call m' holds valid performed
      exact holds.1.perform holds.2 valid performed
  exact holds.1

/-- Two events on a descriptor beyond the table, a failed `epoll_ctl`, a report of an error, and one
event registered again. -/
def errorReportCalls : List (Bool × Operation) :=
  [(false, .addEvent 40 .read (some 1) ⟨some 0, 7, .exec⟩),
    (true, .delEvent 40 .read),
    (false, .addEvent 40 .write none ⟨some 0, 8, .exec⟩),
    (false, .report 40 epollErr),
    (false, .addEvent 40 .write none ⟨some 0, 8, .exec⟩),
    (false, .cancelEvent 40 .read)]

theorem event_table_consistent_errorReport :
    ∃ m, atomicOperations.replay IOManager.initial errorReportCalls = some m ∧
      m.pendingEventCount = 1 ∧ m.interest 40 = some 0x80000004 ∧
      m.scheduled = [⟨0, .cb (some 1)⟩, ⟨0, .fiber (some 8)⟩] ∧ Consistent m := by
  refine ⟨_, rfl, by decide, by decide, by decide, event_table_consistent _ ?_⟩
  exact Machine.ReachableWhen.replayWhen (.start rfl)
    (show atomicOperations.replayWhen (fun _ call => call.2.Valid) IOManager.initial
      errorReportCalls = some _ from rfl)

end Sylar.EventTable
