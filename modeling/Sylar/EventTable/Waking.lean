/-
**What wakes a waiting fiber.**

The fiber in a slot is moved to the scheduler's queue by `triggerEvent`, which a report calls for the
events it names, and `cancel_event` and `cancel_all` call for those they cancel.

* `Operation.Wakes` — an operation that can move the continuation of an event.
* `has_realEvents` — a report is taken to name an event when it does, or when it has `EPOLLERR` or
  `EPOLLHUP`.
* `waits_of_register` — what `add_event` registers.
* `Traced.wakes_of_perform` — **only such an operation puts a traced fiber into the queue**.
-/

import Sylar.EventTable.Waiters

namespace Sylar.EventTable

/-- A report of an event: of its readiness, of an error or of a hang-up. -/
def Reports (report : Mask) (event : Event) : Prop :=
  report.has event = true ∨ report &&& (epollErr ||| epollHup) ≠ 0

instance (report : Mask) (event : Event) : Decidable (Reports report event) :=
  inferInstanceAs (Decidable (_ ∨ _))

/-- A report of the event, or its cancellation. -/
def Operation.Wakes (fd : Nat) (event : Event) : Operation → Prop
  | .report i events => i = fd ∧ Reports events event
  | .cancelEvent i asked => i = fd ∧ asked = event
  | .cancelAll i => i = fd
  | .addEvent .. | .delEvent .. => False

instance (fd : Nat) (event : Event) : DecidablePred (Operation.Wakes fd event)
  | .report i events => inferInstanceAs (Decidable (i = fd ∧ Reports events event))
  | .cancelEvent i asked => inferInstanceAs (Decidable (i = fd ∧ asked = event))
  | .cancelAll i => inferInstanceAs (Decidable (i = fd))
  | .addEvent .. | .delEvent .. => isFalse id

variable {m m' : IOManager} {f : FiberId} {fd i : Nat} {event asked : Event} {n : Nat}
  {fault : Bool} {task : Scheduled}

/-- **What a report is taken to name.** -/
theorem has_realEvents {events report : Mask}
    (named : (IOManager.realEvents events report).has event = true) : Reports report event := by
  by_cases error : report &&& (epollErr ||| epollHup) = 0
  · left
    unfold IOManager.realEvents at named
    rw [if_neg (not_not.mpr error)] at named
    dsimp only at named
    cases event with
    | read =>
      by_cases input : report &&& epollIn = 0
      · rw [if_neg (not_not.mpr input)] at named
        split at named <;> cases named
      · exact bne_iff_ne.mpr input
    | write =>
      by_cases output : report &&& epollOut = 0
      · rw [if_neg (not_not.mpr output)] at named
        split at named <;> cases named
      · exact bne_iff_ne.mpr output
  · exact .inr error

/-- **What `add_event` registers** for a fiber: the event it is given. -/
theorem waits_of_register {caller : Caller} {p : Progress} {m'' : IOManager}
    (called : ctl m fault (.addEvent fd event none caller) = some (m', some p))
    (committed : commit m' p = some m'') : m''.waits caller.fiber fd event = true := by
  obtain rfl := progress_of_addEvent called
  have committed : m'.addEventCommit fd event none caller = some m'' := committed
  obtain ⟨ctx, found, -, rfl⟩ := IOManager.addEventCommit_cases committed
  have here := waits_set (f := caller.fiber) found (ctx.events ||| event.bit) event
    (caller.continuation none) (m'.pendingEventCount + 1) m'.scheduled fd event
  rw [if_pos ⟨rfl, rfl⟩] at here
  exact here.trans (beq_self_eq_true _)

/-! ### Triggers -/

namespace Traced

/-- **What a trigger puts into the queue**: a fiber that waits for that event. -/
theorem scheduled_trigger (traced : Traced m f fd event n) (self : task.task = .fiber (some f))
    (triggered : m.trigger i asked = some m') (member : task ∈ m'.scheduled) :
    task ∈ m.scheduled ∨ (i = fd ∧ asked = event) := by
  obtain ⟨ctx, ctx', fired, found, runs, rfl⟩ := IOManager.trigger_cases triggered
  rcases List.mem_append.mp member with old | new
  · exact .inl old
  · obtain rfl := List.mem_singleton.mp new
    have held := FdContext.fiber_of_triggerEvent runs self
    have waits : m.waits f i asked = true :=
      waits_eq_true.mpr ((congrArg EventContext.fiber (IOManager.slotOf_eq found)).trans held)
    exact .inr (traced.only i asked waits)

theorem scheduled_triggerIf (traced : Traced m f fd event n) {mask : Mask}
    (self : task.task = .fiber (some f)) (triggered : m.triggerIf i mask asked = some m')
    (member : task ∈ m'.scheduled) :
    task ∈ m.scheduled ∨ (i = fd ∧ asked = event ∧ mask.has asked = true) := by
  unfold IOManager.triggerIf at triggered
  split at triggered
  next named =>
    exact (traced.scheduled_trigger self triggered member).imp_right fun ⟨here, same⟩ =>
      ⟨here, same, named⟩
  next =>
    cases triggered
    exact .inl member

/-- Both events of a mask, one after the other. -/
theorem scheduled_both (traced : Traced m f fd event n) {mask mask' : Mask} {m₁ : IOManager}
    (self : task.task = .fiber (some f)) (first : m.triggerIf i mask .read = some m₁)
    (second : m₁.triggerIf i mask' .write = some m') (member : task ∈ m'.scheduled) :
    task ∈ m.scheduled ∨ (i = fd ∧
      (event = .read ∧ mask.has .read = true ∨ event = .write ∧ mask'.has .write = true)) := by
  rcases (traced.triggerIf first).scheduled_triggerIf self second member with
    before | ⟨here, rfl, named⟩
  · rcases traced.scheduled_triggerIf self first before with old | ⟨here, rfl, named⟩
    · exact .inl old
    · exact .inr ⟨here, .inl ⟨rfl, named⟩⟩
  · exact .inr ⟨here, .inr ⟨rfl, named⟩⟩

/-! ### Operations -/

/-- Up to `epoll_ctl` nothing is triggered. -/
theorem scheduled_ctl {operation : Operation} {progress : Option Progress}
    (called : EventTable.ctl m fault operation = some (m', progress)) :
    m'.scheduled = m.scheduled := by
  rcases ctl_cases called with ⟨-, rfl⟩ | ⟨ctx, p, op, mask, interest, -, -, -, -, rfl⟩
  · rfl
  · rfl

/-- `add_event` schedules nothing. -/
theorem scheduled_register {caller : Caller} {p : Progress} {m'' : IOManager}
    (called : EventTable.ctl m fault (.addEvent fd event none caller) = some (m', some p))
    (committed : EventTable.commit m' p = some m'') : m''.scheduled = m.scheduled := by
  rw [← scheduled_ctl called]
  obtain rfl := progress_of_addEvent called
  have committed : m'.addEventCommit fd event none caller = some m'' := committed
  obtain ⟨ctx, -, -, rfl⟩ := IOManager.addEventCommit_cases committed
  rfl

/-- **Only a report of the event, or its cancellation, puts the fiber into the queue.** -/
theorem wakes_of_perform (traced : Traced m f fd event n) {operation : Operation}
    (self : task.task = .fiber (some f)) (performed : EventTable.perform m fault operation = some m')
    (before : task ∉ m.scheduled) (member : task ∈ m'.scheduled) : operation.Wakes fd event := by
  obtain ⟨⟨m₁, progress⟩, called, performed⟩ := Option.bind_eq_some_iff.mp performed
  have traced₁ : Traced m₁ f fd event n := (traced.ctl called).1
  have queue : m₁.scheduled = m.scheduled := scheduled_ctl called
  rw [← queue] at before
  cases progress with
  | none =>
    cases performed
    exact absurd member before
  | some p =>
    obtain ⟨ctx, p, op, mask, interest, same, -, asks, -⟩ :=
      (ctl_cases called).resolve_left fun returned => by cases returned.1
    cases same
    cases asks with
    | adding clear =>
      obtain ⟨ctx, -, -, rfl⟩ := IOManager.addEventCommit_cases performed
      exact absurd member before
    | deleting set =>
      obtain ⟨ctx, -, rfl⟩ := IOManager.delEventCommit_cases performed
      exact absurd member before
    | cancelling set =>
      exact (traced₁.scheduled_trigger self performed member).resolve_left before
    | cancellingAll registered =>
      obtain ⟨ctx, m₂, ctx₁, ctx₂, -, first, -, second, -, -⟩ :=
        IOManager.cancelAllCommit_cases performed
      exact ((traced₁.scheduled_both self first second member).resolve_left before).1
    | reporting named =>
      obtain ⟨m₂, first, second⟩ := Option.bind_eq_some_iff.mp performed
      obtain ⟨here, ⟨rfl, inMask⟩ | ⟨rfl, inMask⟩⟩ :=
        (traced₁.scheduled_both self first second member).resolve_left before
      · exact ⟨here, has_realEvents inMask⟩
      · exact ⟨here, has_realEvents inMask⟩

end Traced

end Sylar.EventTable
