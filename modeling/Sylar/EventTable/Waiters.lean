/-
**Where a fiber waits: one fiber in the event table.**

A fiber that suspends itself on an event is in one slot of the table; a trigger moves it from there
to the scheduler's queue, and `del_event` drops it. Nothing is assumed of the kernel here.

* `Traced m f fd event n` — the fiber `f` is in no slot but that of `event` of `fd`, and slot and
  queue together have it at most `n` times.
* `Traced.perform` — **every operation keeps that**, if it does not register `f` itself.
* `Traced.register` — `add_event` by a fiber that is nowhere: it is there once.
* `Traced.resume` — a fiber that is taken from the queue.
-/

import Sylar.EventTable.Invariant

namespace Sylar.EventTable

variable {m m' : IOManager} {f : FiberId} {fd i : Nat} {event asked : Event} {n : Nat}
  {fault : Bool}

/-- Every context is well-formed. -/
def Formed (m : IOManager) : Prop :=
  ∀ (fd : Nat) (ctx : FdContext), m.fdContexts[fd]? = some ctx → WellFormed ctx

/-- The fiber is in the slot. -/
def IOManager.waits (m : IOManager) (f : FiberId) (fd : Nat) (event : Event) : Bool :=
  (m.slotOf fd event).fiber == some f

/-- How often the fiber is in the queue. -/
def IOManager.wakes (m : IOManager) (f : FiberId) : Nat :=
  m.scheduled.countP fun task => task.task == .fiber (some f)

/-- **The fiber waits for one event at most**, and is there or in the queue at most `n` times. -/
structure Traced (m : IOManager) (f : FiberId) (fd : Nat) (event : Event) (n : Nat) : Prop where
  formed : Formed m
  only : ∀ i asked, m.waits f i asked = true → i = fd ∧ asked = event
  count : (m.waits f fd event).toNat + m.wakes f ≤ n

/-! ### Writing an entry -/

theorem waits_eq_true : m.waits f fd event = true ↔ (m.slotOf fd event).fiber = some f := by
  unfold IOManager.waits
  exact beq_iff_eq

theorem IOManager.slotOf_eq {ctx : FdContext} (found : m.fdContexts[fd]? = some ctx) :
    m.slotOf fd event = ctx.getContext event := by
  rw [slotOf, found]

theorem formed_initial : Formed IOManager.initial := consistent_initial.formed

/-- Before the first operation no fiber waits. -/
theorem traced_initial (f : FiberId) (fd : Nat) (event : Event) :
    Traced IOManager.initial f fd event 0 := by
  have empty : ∀ i asked, IOManager.initial.waits f i asked = false := by
    intro i asked
    refine Bool.eq_false_iff.mpr fun waits => ?_
    have held := waits_eq_true.mp waits
    unfold IOManager.slotOf at held
    split at held
    next ctx found =>
      have fresh : ∀ ctx ∈ IOManager.initial.fdContexts, ctx = { fd := ctx.fd } := by decide
      rw [fresh ctx (List.mem_of_getElem? found)] at held
      cases asked <;> cases held
    next => cases held
  refine ⟨formed_initial, fun i asked waits => ?_, ?_⟩
  · cases (empty i asked).symm.trans waits
  · exact Nat.le_of_eq (congrArg (Bool.toNat · + 0) (empty fd event))

namespace Formed

theorem grow (formed : Formed m) (fd : Nat) :
    Formed { m with fdContexts := grow fd m.fdContexts } := by
  intro i ctx found
  rcases getElem?_grow found with old | ⟨-, j, rfl⟩
  · exact formed i ctx old
  · exact WellFormed.fresh j

theorem set (formed : Formed m) {changed : FdContext} (wellFormed : WellFormed changed)
    (count : UInt64) (scheduled : List Scheduled) :
    Formed { m with
      fdContexts := m.fdContexts.set fd changed
      pendingEventCount := count
      scheduled := scheduled } := by
  intro i ctx found
  rcases List.getElem?_set .. ▸ found with found
  split at found
  · split at found
    · cases found
      exact wellFormed
    · cases found
  · exact formed i ctx found

end Formed

/-- **A slot that is written**: what the fibers of the slots are after that. -/
theorem waits_set {ctx : FdContext} (found : m.fdContexts[i]? = some ctx) (mask : Mask)
    (asked : Event) (slot : EventContext) (count : UInt64) (scheduled : List Scheduled) (j : Nat)
    (other : Event) :
    ({ m with
      fdContexts := m.fdContexts.set i
        (({ ctx with events := mask } : FdContext).setContext asked slot)
      pendingEventCount := count
      scheduled := scheduled } : IOManager).waits f j other =
      if j = i ∧ other = asked then slot.fiber == some f else m.waits f j other := by
  unfold IOManager.waits
  rw [IOManager.slotOf_set found]
  split <;> rfl

/-- What a trigger schedules is what was in the slot. -/
theorem FdContext.fiber_of_triggerEvent {ctx ctx' : FdContext} {task : Scheduled}
    (triggered : ctx.triggerEvent event = some (ctx', task))
    (fiber : task.task = .fiber (some f)) : (ctx.getContext event).fiber = some f := by
  unfold triggerEvent at triggered
  split at triggered
  next =>
    simp only [getContext_withEvents] at triggered
    split at triggered
    next => cases triggered
    next =>
      cases triggered
      cases fiber
    next =>
      cases triggered
      exact FiberOrCb.fiber.inj fiber
  next => cases triggered

namespace Traced

/-- A fiber that is neither in the table nor in the queue. -/
theorem not_waits (traced : Traced m f fd event 0) : m.waits f i asked = false := by
  refine Bool.eq_false_iff.mpr fun waits => ?_
  obtain ⟨rfl, rfl⟩ := traced.only i asked waits
  have count := traced.count
  rw [waits] at count
  exact absurd count (by simp)

/-- The kernel's list and the counter are not read. -/
theorem withInterest (traced : Traced m f fd event n) (interest : Interest) :
    Traced { m with interest } f fd event n := ⟨traced.formed, traced.only, traced.count⟩

theorem grow (traced : Traced m f fd event n) (size : Nat) :
    Traced { m with fdContexts := EventTable.grow size m.fdContexts } f fd event n := by
  have same : ∀ i asked, ({ m with fdContexts := EventTable.grow size m.fdContexts } :
      IOManager).waits f i asked = m.waits f i asked := fun i asked => by
    unfold IOManager.waits
    rw [IOManager.slotOf_grow]
  refine ⟨traced.formed.grow size, fun i asked waits => ?_, ?_⟩
  · exact traced.only i asked ((same i asked).symm.trans waits)
  · rw [same]
    exact traced.count

/-- **Emptying a slot, or filling it with something else**: what is scheduled by that was in it. -/
theorem write (traced : Traced m f fd event n) {ctx : FdContext}
    (found : m.fdContexts[i]? = some ctx) {mask : Mask} {slot : EventContext}
    (wellFormed : WellFormed (({ ctx with events := mask } : FdContext).setContext asked slot))
    (count : UInt64) (other : slot.fiber ≠ some f) (tasks : List Scheduled)
    (moved : tasks.countP (fun task => task.task == .fiber (some f)) ≤
      (m.waits f i asked).toNat) :
    Traced { m with
      fdContexts := m.fdContexts.set i
        (({ ctx with events := mask } : FdContext).setContext asked slot)
      pendingEventCount := count
      scheduled := m.scheduled ++ tasks } f fd event n := by
  have empty : (slot.fiber == some f) = false := beq_eq_false_iff_ne.mpr other
  refine ⟨traced.formed.set wellFormed _ _, fun j asked' waits => ?_, ?_⟩
  · rw [waits_set found] at waits
    split at waits
    · cases empty.symm.trans waits
    · exact traced.only j asked' waits
  · have before := traced.count
    rw [waits_set found, IOManager.wakes, List.countP_append]
    unfold IOManager.wakes at before
    split
    next same =>
      obtain ⟨rfl, rfl⟩ := same
      rw [empty, Bool.toNat_false]
      omega
    next another =>
      have nothing : m.waits f i asked = false := by
        refine Bool.eq_false_iff.mpr fun waits => another ?_
        obtain ⟨rfl, rfl⟩ := traced.only i asked waits
        exact ⟨rfl, rfl⟩
      rw [nothing, Bool.toNat_false] at moved
      omega

theorem trigger (traced : Traced m f fd event n) (triggered : m.trigger i asked = some m') :
    Traced m' f fd event n := by
  obtain ⟨ctx, ctx', task, found, fired, rfl⟩ := IOManager.trigger_cases triggered
  have wellFormed := traced.formed i ctx found
  obtain ⟨-, rfl⟩ := wellFormed.triggerEvent fired
  refine traced.write found (wellFormed.unregister asked) _ (fun same => by cases same) [task] ?_
  rw [List.countP_singleton]
  split
  next fiber =>
    have held := FdContext.fiber_of_triggerEvent fired (beq_iff_eq.mp fiber)
    rw [waits_eq_true.mpr ((congrArg EventContext.fiber (IOManager.slotOf_eq found)).trans held)]
    exact Nat.le_refl 1
  next => exact Nat.zero_le _

theorem triggerIf (traced : Traced m f fd event n) {mask : Mask}
    (triggered : m.triggerIf i mask asked = some m') : Traced m' f fd event n := by
  unfold IOManager.triggerIf at triggered
  split at triggered
  · exact traced.trigger triggered
  · cases triggered
    exact traced

end Traced

/-! ### Operations -/

/-- An operation that does not register the fiber; `add_event` is called by a thread of a
scheduler. -/
def Operation.Spares (f : FiberId) : Operation → Prop
  | .addEvent _ _ cb caller => caller.scheduler ≠ none ∧ (cb = none → caller.fiber ≠ f)
  | .delEvent _ _ | .cancelEvent _ _ | .cancelAll _ | .report _ _ => True

instance (f : FiberId) : DecidablePred (Operation.Spares f)
  | .addEvent _ _ cb caller =>
      inferInstanceAs (Decidable (caller.scheduler ≠ none ∧ (cb = none → caller.fiber ≠ f)))
  | .delEvent _ _ | .cancelEvent _ _ | .cancelAll _ | .report _ _ => isTrue trivial

/-- What a commit relies on. -/
def Ready (m : IOManager) (f : FiberId) : Progress → Prop
  | .adding _ _ cb caller => caller.scheduler ≠ none ∧ (cb = none → caller.fiber ≠ f)
  | .deleting fd event newEvent => newEvent = m.eventsOf fd &&& ~~~event.bit
  | .cancelling _ _ | .cancellingAll _ | .reporting _ _ => True

namespace Traced

theorem table (traced : Traced m f fd event n) (operation : Operation) :
    Traced { m with fdContexts := operation.table m.fdContexts } f fd event n := by
  cases operation with
  | addEvent i asked cb caller => exact traced.grow i
  | delEvent | cancelEvent | cancelAll | report => exact traced

/-- **Up to `epoll_ctl`.** -/
theorem ctl (traced : Traced m f fd event n) {operation : Operation} {progress : Option Progress}
    (called : ctl m fault operation = some (m', progress)) :
    Traced m' f fd event n ∧ ∀ p, progress = some p → operation.Spares f → Ready m' f p := by
  have after := traced.table operation
  rcases ctl_cases called with ⟨rfl, rfl⟩ | ⟨ctx, p, op, mask, interest, rfl, found, asks, -, rfl⟩
  · exact ⟨after, fun p same => by cases same⟩
  · refine ⟨after.withInterest interest, ?_⟩
    rintro p ⟨⟩ spares
    have here := IOManager.eventsOf_eq found
    cases asks with
    | adding clear => exact spares
    | deleting set =>
      dsimp only [Operation.fd] at here
      show _ = IOManager.eventsOf _ _ &&& _
      rw [here]
    | cancelling | cancellingAll | reporting => trivial

/-- **After `epoll_ctl`.** -/
theorem commit (traced : Traced m f fd event n) {p : Progress} (ready : Ready m f p)
    (committed : commit m p = some m') : Traced m' f fd event n := by
  cases p with
  | adding i asked cb caller =>
    obtain ⟨ctx, found, -, rfl⟩ := IOManager.addEventCommit_cases committed
    have another : (caller.continuation cb).fiber ≠ some f := by
      cases cb with
      | some cb => exact fun same => by cases same
      | none => exact fun same => ready.2 rfl (Option.some.inj same)
    have written := traced.write found
      ((traced.formed i ctx found).register asked (Caller.slotOk ready.1 cb))
      (m.pendingEventCount + 1) another [] (Nat.zero_le _)
    rw [List.append_nil] at written
    exact written
  | deleting i asked newEvent =>
    obtain ⟨ctx, found, rfl⟩ := IOManager.delEventCommit_cases committed
    have known : newEvent = ctx.events &&& ~~~asked.bit := by
      rw [← IOManager.eventsOf_eq found]
      exact ready
    subst known
    have written := traced.write found ((traced.formed i ctx found).unregister asked)
      (m.pendingEventCount - 1) (fun same => by cases same) [] (Nat.zero_le _)
    rw [List.append_nil] at written
    exact written
  | cancelling i asked => exact traced.trigger committed
  | cancellingAll i =>
    obtain ⟨ctx, m₁, ctx₁, ctx₂, -, first, -, second, -, -⟩ :=
      IOManager.cancelAllCommit_cases committed
    exact (traced.triggerIf first).triggerIf second
  | reporting i real =>
    obtain ⟨m₁, first, second⟩ := Option.bind_eq_some_iff.mp committed
    exact (traced.triggerIf first).triggerIf second

/-- **A whole operation.** -/
theorem perform (traced : Traced m f fd event n) {operation : Operation}
    (spares : operation.Spares f) (performed : perform m fault operation = some m') :
    Traced m' f fd event n := by
  obtain ⟨⟨m₁, progress⟩, called, performed⟩ := Option.bind_eq_some_iff.mp performed
  obtain ⟨traced₁, ready⟩ := traced.ctl called
  cases progress with
  | none =>
    cases performed
    exact traced₁
  | some p => exact traced₁.commit (ready p rfl spares) performed

/-- **The fiber registers itself.** -/
theorem addEventCommit (traced : Traced m f fd event 0) {caller : Caller}
    (owned : caller.scheduler ≠ none)
    (committed : m.addEventCommit fd event none caller = some m') : Traced m' f fd event 1 := by
  obtain ⟨ctx, found, -, rfl⟩ := IOManager.addEventCommit_cases committed
  refine ⟨?_, fun i asked waits => ?_, ?_⟩
  · exact traced.formed.set
      ((traced.formed fd ctx found).register event (Caller.slotOk owned none)) _ _
  · rw [waits_set found] at waits
    split at waits
    next same => exact same
    next => exact traced.only i asked waits
  · have nowhere := traced.count
    have one := Bool.toNat_le ((caller.continuation none).fiber == some f)
    rw [waits_set found, if_pos ⟨rfl, rfl⟩]
    show _ + m.wakes f ≤ 1
    omega

/-- The same, of the whole of `add_event`. -/
theorem register (traced : Traced m f fd event 0) {caller : Caller}
    (owned : caller.scheduler ≠ none) {p : Progress}
    (called : EventTable.ctl m fault (.addEvent fd event none caller) = some (m', some p))
    {m'' : IOManager} (committed : EventTable.commit m' p = some m'') :
    Traced m'' f fd event 1 := by
  have traced' := (traced.ctl called).1
  obtain rfl := progress_of_addEvent called
  exact traced'.addEventCommit owned committed

/-- **The fiber is taken from the queue.** -/
theorem resume (traced : Traced m f fd event (n + 1)) {task : Scheduled}
    (member : task ∈ m.scheduled) (self : task.task = .fiber (some f)) :
    Traced { m with scheduled := m.scheduled.erase task } f fd event n := by
  refine ⟨traced.formed, traced.only, ?_⟩
  have count := traced.count
  have here : (task.task == .fiber (some f)) = true := beq_iff_eq.mpr self
  have moved := (List.perm_cons_erase member).countP_eq fun task => task.task == .fiber (some f)
  rw [List.countP_cons, if_pos here] at moved
  unfold IOManager.wakes at count
  show (m.waits f fd event).toNat + (m.scheduled.erase task).countP _ ≤ n
  omega

/-- Another task is taken from the queue. -/
theorem serve (traced : Traced m f fd event n) (task : Scheduled) :
    Traced { m with scheduled := m.scheduled.erase task } f fd event n := by
  refine ⟨traced.formed, traced.only, Nat.le_trans ?_ traced.count⟩
  exact Nat.add_le_add_left (List.erase_sublist.countP_le) _

end Traced

end Sylar.EventTable
