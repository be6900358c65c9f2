/-
**What has been scheduled, and what the kernel knows.**

A registration ends with its continuation scheduled, or with a `del_event`, which drops it. The calls
of `schedule` are, in their order, the continuations of the registrations ended otherwise.

* `Ledger.fired` — the registrations ended otherwise, the first one first.
* `Paid` — **each of them has had its continuation scheduled, once, and nothing else has been**;
  `Paid.commit` keeps it.
* `passes_of_clear` — on a descriptor without events only `add_event` gets past its `epoll_ctl`.
* `interest_ctl`, `interest_commit` — which entry of the kernel's list an operation writes.
* `adds_of_clear` — `add_event` on such a descriptor, when the kernel does not list it.
-/

import Sylar.EventTable.Growth
import Sylar.EventTable.Race
import Sylar.EventTable.Waking
import Mathlib.Data.List.Nodup

namespace Sylar.EventTable

/-- What `schedule` is called with for a slot. -/
def EventContext.task (slot : EventContext) : Option Scheduled :=
  slot.scheduler.map fun scheduler =>
    ⟨scheduler, match slot.cb with
      | some cb => .cb (some cb)
      | none => .fiber slot.fiber⟩

/-- **`triggerEvent` schedules what is in the slot.** -/
theorem FdContext.task_of_triggerEvent {ctx ctx' : FdContext} {event : Event} {task : Scheduled}
    (triggered : ctx.triggerEvent event = some (ctx', task)) :
    (ctx.getContext event).task = some task := by
  unfold triggerEvent at triggered
  split at triggered
  next =>
    simp only [getContext_withEvents] at triggered
    split at triggered
    next => cases triggered
    next scheduler cb isScheduler isCb =>
      cases triggered
      rw [EventContext.task, isScheduler, isCb]
      rfl
    next scheduler isScheduler noCb =>
      cases triggered
      rw [EventContext.task, isScheduler, noCb]
      rfl
  next => cases triggered

/-! ### The registrations that were fired -/

/-- The registrations ended but not deleted, the first one first. -/
def Ledger.fired (l : Ledger) (deleted : List Nat) : List Nat :=
  (l.ended.filter (· ∉ deleted)).reverse

/-- What a registration is to schedule. -/
def Ledger.task (l : Ledger) (id : Nat) : Option Scheduled := l.made[id]?.bind fun r => r.slot.task

/-- The registration that a commit deletes. -/
def dropped (l : Ledger) : Progress → List Nat
  | .deleting fd event _ => (l.current fd event).toList
  | .adding .. | .cancelling .. | .cancellingAll _ | .reporting .. => []

/-- **The calls of `schedule` are those for the registrations that were fired.** -/
structure Paid (m : IOManager) (l : Ledger) (deleted : List Nat) : Prop where
  scheduled : m.scheduled.map some = (l.fired deleted).map l.task
  among : ∀ id ∈ deleted, id ∈ l.ended

namespace Paid

variable {m m' : IOManager} {l : Ledger} {deleted : List Nat} {fd : Nat} {event : Event}

/-- A registration that is made has not been fired. -/
theorem enter (paid : Paid m l deleted) (books : Books m l) (r : Registration)
    (same : m'.scheduled = m.scheduled) : Paid m' (l.enter r) deleted where
  scheduled := by
    rw [same, paid.scheduled]
    refine List.map_congr_left fun id member => ?_
    have ended : id ∈ l.ended := (List.mem_filter.mp (List.mem_reverse.mp member)).1
    rw [Ledger.task, Ledger.task, Ledger.enter, List.getElem?_append_left (books.past id ended)]
  among := paid.among

/-- **A trigger fires the registration of its event.** -/
theorem trigger (paid : Paid m l deleted) (books : Books m l)
    (triggered : m.trigger fd event = some m') : Paid m' (l.close fd event) deleted := by
  obtain ⟨ctx, ctx', task, found, fired, rfl⟩ := IOManager.trigger_cases triggered
  have set : (m.eventsOf fd).has event = true := by
    rw [IOManager.eventsOf_eq found]
    exact (FdContext.triggerEvent_cases fired).1
  obtain ⟨id, current, unended, entered⟩ := books.stands fd event set
  have kept : id ∉ deleted := fun member => unended (paid.among id member)
  have ended := Ledger.ended_close current
  have due : l.task id = some task := by
    rw [Ledger.task, entered, Option.bind_some, IOManager.slotOf_eq found,
      FdContext.task_of_triggerEvent fired]
  have last : (l.close fd event).fired deleted = l.fired deleted ++ [id] := by
    rw [Ledger.fired, ended, List.filter_cons, if_pos (decide_eq_true kept), List.reverse_cons]
    rfl
  constructor
  · show (m.scheduled ++ [task]).map some = ((l.close fd event).fired deleted).map l.task
    rw [last, List.map_append, List.map_append, paid.scheduled, List.map_singleton,
      List.map_singleton, due]
  · intro member inside
    rw [ended]
    exact List.mem_cons_of_mem _ (paid.among member inside)

/-- The same if the event is in a mask. -/
theorem triggerIf (paid : Paid m l deleted) (books : Books m l) {mask : Mask}
    (triggered : m.triggerIf fd mask event = some m') : Paid m' (l.closeIf fd mask event) deleted := by
  unfold IOManager.triggerIf at triggered
  unfold Ledger.closeIf
  split at triggered
  next has =>
    rw [if_pos has]
    exact paid.trigger books triggered
  next absent =>
    cases triggered
    rwa [if_neg absent]

/-- **A registration that is deleted is not fired.** -/
theorem delete (paid : Paid m l deleted) (books : Books m l)
    (set : (m.eventsOf fd).has event = true) (same : m'.scheduled = m.scheduled) :
    Paid m' (l.close fd event) ((l.current fd event).toList ++ deleted) := by
  obtain ⟨id, current, unended, -⟩ := books.stands fd event set
  have ended := Ledger.ended_close current
  have unfired : (l.close fd event).fired (id :: deleted) = l.fired deleted := by
    rw [Ledger.fired, ended, List.filter_cons_of_neg (by simp), Ledger.fired]
    congr 1
    refine List.filter_congr fun other member => ?_
    have apart : other ≠ id := fun here => unended (here ▸ member)
    simp [apart]
  rw [current]
  constructor
  · rw [same, paid.scheduled]
    exact (congrArg (List.map l.task) unfired).symm
  · intro other member
    rw [ended]
    rcases List.mem_cons.mp member with rfl | old
    · exact List.mem_cons_self
    · exact List.mem_cons_of_mem _ (paid.among other old)

/-- **The step lemma of a commit.** -/
theorem commit (paid : Paid m l deleted) (books : Books m l) {p : Progress} (fresh : FreshMask m p)
    (committed : EventTable.commit m p = some m') :
    Paid m' (settle m l p) (dropped l p ++ deleted) := by
  cases p with
  | adding fd event cb caller =>
    obtain ⟨ctx, -, -, rfl⟩ := IOManager.addEventCommit_cases committed
    exact paid.enter books _ rfl
  | deleting fd event newEvent =>
    obtain ⟨ctx, -, rfl⟩ := IOManager.delEventCommit_cases committed
    exact paid.delete books fresh.1 rfl
  | cancelling fd event => exact paid.trigger books committed
  | cancellingAll fd =>
    obtain ⟨ctx, m₁, ctx₁, _, found, first, found₁, second, -, -⟩ :=
      IOManager.cancelAllCommit_cases committed
    obtain ⟨books₁, changed₁⟩ := books.triggerIf first
    have after := (paid.triggerIf books first).triggerIf books₁ second
    -- `WRITE` is as the first call found it
    have sameWrite : ctx₁.events.has .write = (m.eventsOf fd).has .write := by
      rw [← IOManager.eventsOf_eq found₁, changed₁, if_pos rfl,
        (books.known fd).has_write_without]
    rw [← IOManager.eventsOf_eq found] at after
    unfold settle
    rwa [Ledger.closeIf, sameWrite] at after
  | reporting fd real =>
    obtain ⟨m₁, first, second⟩ := Option.bind_eq_some_iff.mp committed
    exact (paid.triggerIf books first).triggerIf (books.triggerIf first).1 second

/-- **A registration that ended and was not deleted was fired once.** -/
theorem count_fired (books : Books m l) {id : Nat} (ended : id ∈ l.ended) (kept : id ∉ deleted) :
    (l.fired deleted).count id = 1 := by
  rw [Ledger.fired, List.count_reverse]
  exact List.count_eq_one_of_mem (books.once.filter _)
    (List.mem_filter.mpr ⟨ended, decide_eq_true kept⟩)

end Paid

/-! ### One descriptor -/

/-- An `add_event` on a descriptor. -/
def Operation.adds (i : Nat) : Operation → Bool
  | .addEvent fd _ _ _ => fd == i
  | .delEvent .. | .cancelEvent .. | .cancelAll _ | .report .. => false

/-- The same for an operation in progress. -/
def Progress.adds (i : Nat) : Progress → Bool
  | .adding fd _ _ _ => fd == i
  | .deleting .. | .cancelling .. | .cancellingAll _ | .reporting .. => false

/-- A set without an event is empty. -/
theorem Known.eq_zero {mask : Mask} (known : Known mask)
    (none : ∀ event, mask.has event = false) : mask = 0 := by
  have read := none .read
  have write := none .write
  rcases known with rfl | rfl | rfl | rfl
  · rfl
  · cases read
  · cases write
  · cases read

/-- No event is in the empty set. -/
theorem has_zero (event : Event) : (0 : Mask).has event = false := by cases event <;> rfl

section Parts

variable {m m' : IOManager} {fault : Bool} {fd i : Nat}

/-- A call of `epoll_ctl` writes one entry. -/
theorem epollCtl_ne {interest interest' : Interest} {op : EpollOp} {events : Mask}
    (called : epollCtl interest op fd events fault = some interest') (other : i ≠ fd) :
    interest' i = interest i := by
  unfold epollCtl at called
  split at called
  next => cases called
  next =>
    split at called
    next => cases called; exact Function.update_of_ne other _ _
    next => cases called; exact Function.update_of_ne other _ _
    next => cases called; exact Function.update_of_ne other _ _
    next => cases called

/-- **What the first part of an operation does to the kernel's list**: it writes the entry of its
descriptor, if it gets past `epoll_ctl`. -/
theorem interest_ctl {operation : Operation} {progress : Option Progress}
    (called : ctl m fault operation = some (m', progress))
    (spared : i ≠ operation.fd ∨ progress = none) : m'.interest i = m.interest i := by
  rcases ctl_cases called with ⟨-, rfl⟩ | ⟨ctx, p, op, mask, interest, rfl, -, -, told, rfl⟩
  · rfl
  · rcases spared with other | none
    · exact epollCtl_ne told other
    · cases none

/-- **What is in progress** adds what the operation adds, and its `epoll_ctl` has succeeded. -/
theorem adds_ctl {operation : Operation} {p : Progress}
    (called : ctl m fault operation = some (m', some p)) :
    p.adds i = operation.adds i ∧ fault = false := by
  obtain ⟨ctx, p, op, mask, interest, same, -, asks, told, -⟩ :=
    (ctl_cases called).resolve_left fun returned => by cases returned.1
  cases same
  constructor
  · cases asks <;> rfl
  · cases fault with
    | false => rfl
    | true => cases told

/-- **On a descriptor without events only `add_event` gets past its `epoll_ctl`.** -/
theorem passes_of_clear {operation : Operation} {progress : Option Progress}
    (called : ctl m fault operation = some (m', progress)) (clear : m.eventsOf operation.fd = 0)
    (other : operation.adds operation.fd = false) : progress = none := by
  rcases ctl_cases called with ⟨none, -⟩ | ⟨ctx, p, op, mask, interest, -, found, asks, -, rfl⟩
  · exact none
  · have zero : ctx.events = 0 :=
      (IOManager.eventsOf_eq found).symm.trans ((m.eventsOf_table operation _).trans clear)
    cases asks with
    | adding => exact absurd other (by simp [Operation.adds, Operation.fd])
    | deleting set | cancelling set =>
      rw [zero, has_zero] at set
      cases set
    | cancellingAll registered => exact absurd zero registered
    | reporting named => exact absurd (by rw [zero, UInt32.zero_and]) named

/-- `cancel_all` on a descriptor with events, when the kernel lists it. -/
theorem cancelAllCtl_of_listed {told : Mask} (registered : m.eventsOf fd ≠ 0)
    (listed : m.interest fd = some told) : (m.cancelAllCtl fd false).2 = true := by
  unfold IOManager.cancelAllCtl
  unfold IOManager.eventsOf at registered
  cases found : m.fdContexts[fd]? with
  | none =>
    rw [found] at registered
    exact absurd rfl registered
  | some ctx =>
    rw [found] at registered
    dsimp only at registered ⊢
    rw [if_neg registered]
    simp only [epollCtl, listed]
    rfl

/-- A trigger leaves the kernel's list. -/
theorem interest_triggerIf {mask : Mask} {event : Event}
    (triggered : m.triggerIf fd mask event = some m') : m'.interest = m.interest := by
  unfold IOManager.triggerIf at triggered
  split at triggered
  next =>
    obtain ⟨ctx, ctx', task, -, -, rfl⟩ := IOManager.trigger_cases triggered
    rfl
  next =>
    cases triggered
    rfl

/-- **A commit leaves the kernel's list.** -/
theorem interest_commit {p : Progress} (committed : commit m p = some m') :
    m'.interest = m.interest := by
  cases p with
  | adding fd event cb caller =>
    obtain ⟨ctx, -, -, rfl⟩ := IOManager.addEventCommit_cases committed
    rfl
  | deleting fd event newEvent =>
    obtain ⟨ctx, -, rfl⟩ := IOManager.delEventCommit_cases committed
    rfl
  | cancelling fd event =>
    obtain ⟨ctx, ctx', task, -, -, rfl⟩ := IOManager.trigger_cases committed
    rfl
  | cancellingAll fd =>
    obtain ⟨ctx, m₁, ctx₁, ctx₂, -, first, -, second, -⟩ := IOManager.cancelAllCommit_cases committed
    exact (interest_triggerIf second).trans (interest_triggerIf first)
  | reporting fd real =>
    obtain ⟨m₁, first, second⟩ := Option.bind_eq_some_iff.mp committed
    exact (interest_triggerIf second).trans (interest_triggerIf first)

/-- **A descriptor without events stays so**, unless `add_event` commits on it. -/
theorem clear_commit {l : Ledger} {p : Progress} (books : Books m l) (fresh : FreshMask m p)
    (prepared : Prepared m p) (committed : commit m p = some m') (clear : m.eventsOf fd = 0)
    (other : p.adds fd = false) : m'.eventsOf fd = 0 := by
  obtain ⟨after, shrinks⟩ := books.commit fresh prepared committed
  refine (after.known fd).eq_zero fun event => Bool.eq_false_iff.mpr fun set => ?_
  rcases shrinks fd event set with before | ⟨cb, caller, rfl⟩
  · rw [clear, has_zero] at before
    cases before
  · exact absurd other (by simp [Progress.adds])

/-- **`cancel_all` leaves a descriptor without events.** -/
theorem clear_cancelAllCommit (committed : m.cancelAllCommit fd = some m') : m'.eventsOf fd = 0 := by
  obtain ⟨ctx, m₁, ctx₁, ctx₂, -, -, -, -, found, empty⟩ := IOManager.cancelAllCommit_cases committed
  exact (IOManager.eventsOf_eq found).trans empty

/-- **`add_event` tells the kernel of a descriptor that neither the table nor the kernel has an event
of.** -/
theorem adds_of_clear (size : SizeOk m.fdContexts) (clear : m.eventsOf fd = 0)
    (unlisted : m.interest fd = none) (event : Event) :
    ∃ m', m.addEventCtl fd event false = some (m', true) ∧
      m'.interest fd = some (epollEt ||| event.bit) := by
  have inside : fd < (grow fd m.fdContexts).length := lt_length_growLoop size.1 (by omega)
  have found := List.getElem?_eq_getElem inside
  have zero : ((grow fd m.fdContexts)[fd]).events = 0 := by
    have same := m.eventsOf_grow fd fd
    rw [clear] at same
    exact (IOManager.eventsOf_eq found).symm.trans same
  refine ⟨{ m with
    fdContexts := grow fd m.fdContexts
    interest := Function.update m.interest fd (some (epollEt ||| event.bit)) }, ?_, ?_⟩
  · have mask : (0 : Mask) ||| event.bit = event.bit := UInt32.zero_or
    simp only [IOManager.addEventCtl, found, zero, Option.bind_eq_bind, Option.bind_some, has_zero,
      epollCtl, unlisted, mask]
    rfl
  · exact Function.update_self _ _ _

end Parts

end Sylar.EventTable
