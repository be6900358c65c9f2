/-
**`FdContext`: the events registered on a descriptor, and what continues each.**

An `FdContext` has a mask, `m_events`, and a slot for each event. A slot of a registered event holds
the scheduler to continue on and exactly one of a fiber and a callback; any other slot is empty
(`WellFormed`). `triggerEvent` empties a slot by swapping its contents into the scheduler's queue:
`WellFormed.triggerEvent` says what it does to a well-formed context.
-/

import Sylar.EventTable.Epoll
import Sylar.Fiber

namespace Sylar.EventTable

/-- A `Scheduler` object. -/
abbrev SchedulerId := Nat

/-- `FdContext::EventContext`. -/
structure EventContext where
  scheduler : Option SchedulerId := none
  fiber : Option FiberId := none
  cb : Option Callback := none
deriving DecidableEq

/-- `IOManager::FdContext`, without its mutex. -/
structure FdContext where
  fd : Nat
  events : Mask := 0
  read : EventContext := {}
  write : EventContext := {}
deriving DecidableEq

/-- A call `scheduler->schedule(task)`. -/
structure Scheduled where
  scheduler : SchedulerId
  task : FiberOrCb
deriving DecidableEq

namespace FdContext

/-- `FdContext::getContext`. -/
def getContext (ctx : FdContext) : Event → EventContext
  | .read => ctx.read
  | .write => ctx.write

/-- A write through the reference `getContext` returns. -/
def setContext (ctx : FdContext) (event : Event) (slot : EventContext) : FdContext :=
  match event with
  | .read => { ctx with read := slot }
  | .write => { ctx with write := slot }

/-- `FdContext::resetContext`. -/
def resetContext (ctx : FdContext) (event : Event) : FdContext := ctx.setContext event {}

/-- `FdContext::triggerEvent`: the context after it, and the task it schedules. `none` is the failed
assertion, or the null scheduler. -/
def triggerEvent (ctx : FdContext) (event : Event) : Option (FdContext × Scheduled) :=
  if ctx.events.has event then
    let cleared := { ctx with events := ctx.events &&& ~~~event.bit }
    let eventCtx := cleared.getContext event
    match eventCtx.scheduler, eventCtx.cb with
    | none, _ => none
    | some scheduler, some cb =>
        -- `schedule(&event_ctx.cb)` swaps the callback out of the slot
        some (cleared.setContext event { eventCtx with cb := none, scheduler := none },
          ⟨scheduler, .cb (some cb)⟩)
    | some scheduler, none =>
        some (cleared.setContext event { eventCtx with fiber := none, scheduler := none },
          ⟨scheduler, .fiber eventCtx.fiber⟩)
  else none

/-- How many events are registered. -/
def registered (ctx : FdContext) : Nat := ctx.events.count

/-! ### Slots -/

@[simp] theorem setContext_events (ctx : FdContext) (event : Event) (slot : EventContext) :
    (ctx.setContext event slot).events = ctx.events := by cases event <;> rfl

@[simp] theorem getContext_setContext (ctx : FdContext) (event asked : Event)
    (slot : EventContext) :
    (ctx.setContext event slot).getContext asked =
      if asked = event then slot else ctx.getContext asked := by
  cases event <;> cases asked <;> rfl

@[simp] theorem getContext_withEvents (ctx : FdContext) (mask : Mask) (asked : Event) :
    ({ ctx with events := mask } : FdContext).getContext asked = ctx.getContext asked := by
  cases asked <;> rfl

/-- **`triggerEvent` clears a bit that was set**, and touches no slot but its own. -/
theorem triggerEvent_cases {ctx ctx' : FdContext} {event : Event} {task : Scheduled}
    (triggered : ctx.triggerEvent event = some (ctx', task)) :
    ctx.events.has event = true ∧ ∃ slot,
      ctx' = ({ ctx with events := ctx.events &&& ~~~event.bit } : FdContext).setContext event
        slot := by
  unfold triggerEvent at triggered
  split at triggered
  next set =>
    refine ⟨set, ?_⟩
    simp only [getContext_withEvents] at triggered
    split at triggered
    next => cases triggered
    next =>
      cases triggered
      exact ⟨_, rfl⟩
    next =>
      cases triggered
      exact ⟨_, rfl⟩
  next => cases triggered

end FdContext

/-- **What a slot holds**: a scheduler and exactly one of a fiber and a callback if the event is
registered, nothing if it is not. -/
def SlotOk (registered : Bool) (slot : EventContext) : Prop :=
  match registered with
  | true => slot.scheduler ≠ none ∧ (slot.fiber ≠ none ↔ slot.cb = none)
  | false => slot = {}

/-- **A well-formed context.** -/
structure WellFormed (ctx : FdContext) : Prop where
  known : Known ctx.events
  slots : ∀ event, SlotOk (ctx.events.has event) (ctx.getContext event)

namespace WellFormed

theorem fresh (fd : Nat) : WellFormed { fd } where
  known := Or.inl rfl
  slots event := by
    have clear : (0 : Mask).has event = false := by cases event <;> rfl
    show SlotOk ((0 : Mask).has event) _
    rw [clear]
    cases event <;> simp [SlotOk, FdContext.getContext]

variable {ctx ctx' : FdContext} {event : Event}

/-- Registering an event. -/
theorem register (formed : WellFormed ctx) (event : Event) {slot : EventContext}
    (filled : SlotOk true slot) :
    WellFormed (({ ctx with events := ctx.events ||| event.bit } : FdContext).setContext event
      slot) where
  known := by
    rw [FdContext.setContext_events]
    exact formed.known.or event
  slots asked := by
    rw [FdContext.setContext_events, FdContext.getContext_setContext, formed.known.has_or]
    by_cases self : asked = event
    · simpa [self] using filled
    · simpa [self] using formed.slots asked

/-- Unregistering an event. -/
theorem unregister (formed : WellFormed ctx) (event : Event) :
    WellFormed (({ ctx with events := ctx.events &&& ~~~event.bit } : FdContext).setContext event
      {}) where
  known := by
    rw [FdContext.setContext_events]
    exact formed.known.diff event
  slots asked := by
    rw [FdContext.setContext_events, FdContext.getContext_setContext, formed.known.has_diff]
    by_cases self : asked = event
    · simp [self, SlotOk]
    · simpa [self] using formed.slots asked

/-- **Triggering an event unregisters it.** -/
theorem triggerEvent (formed : WellFormed ctx) {task : Scheduled}
    (triggered : ctx.triggerEvent event = some (ctx', task)) :
    ctx.events.has event = true ∧
      ctx' = ({ ctx with events := ctx.events &&& ~~~event.bit } : FdContext).setContext event {} := by
  unfold FdContext.triggerEvent at triggered
  split at triggered
  next set =>
    refine ⟨set, ?_⟩
    have slot := formed.slots event
    rw [set] at slot
    simp only [FdContext.getContext_withEvents] at triggered
    split at triggered
    next => cases triggered
    next scheduler cb isSome isCb =>
      cases triggered
      have noFiber : (ctx.getContext event).fiber = none := by
        by_contra isFiber
        exact absurd (slot.2.mp isFiber) (by simp [isCb])
      rw [noFiber]
    next scheduler isSome noCb =>
      cases triggered
      rw [noCb]
  next => cases triggered

end WellFormed

end Sylar.EventTable
