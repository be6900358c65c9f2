/-
**The operations of `iomanager.cc` on the event table.**

Every operation on a descriptor tests `m_events`, computes a mask and calls `epoll_ctl`, and after
that commits the change to `m_events`, to `m_pending_event_count` and to the slots. The two parts
are kept apart, since another thread can come between them:

* `addEventCtl`, `dropEventCtl` (of `del_event` and of `cancel_event`), `cancelAllCtl`, `reportCtl`
  (of one report in `idle()`) — up to and including `epoll_ctl`;
* `addEventCommit`, `delEventCommit`, `cancelEventCommit`, `cancelAllCommit`, `reportCommit` — the
  rest;
* `ctl`, `commit` — the parts of any operation; `perform` — a whole one with nothing in between.

`none` is an assertion that fails, or a null pointer: the program ends there.
-/

import Sylar.EventTable.FdContext
import Mathlib.Algebra.GroupWithZero.Nat
import Mathlib.Algebra.Order.BigOperators.Group.List
import Mathlib.Algebra.Order.Group.Nat

namespace Sylar.EventTable

/-- The event table of an `IOManager`, the kernel's interest list (without the tickle pipe), and the
calls of `schedule` made by `triggerEvent`, in their order. -/
structure IOManager where
  fdContexts : List FdContext
  pendingEventCount : UInt64
  interest : Interest
  scheduled : List Scheduled

/-- The thread that calls: `Scheduler::GetThis()`, and `Fiber::GetThis()` with its state. -/
structure Caller where
  scheduler : Option SchedulerId
  fiber : FiberId
  state : State
deriving DecidableEq

/-- What `add_event` stores: the callback it is given, else the calling fiber. -/
def Caller.continuation (caller : Caller) : Option Callback → EventContext
  | some cb => { scheduler := caller.scheduler, cb := some cb }
  | none => { scheduler := caller.scheduler, fiber := some caller.fiber }

/-- It continues one thing. -/
theorem Caller.slotOk {caller : Caller} (owned : caller.scheduler ≠ none) (cb : Option Callback) :
    SlotOk true (caller.continuation cb) := by
  cases cb <;> simp [Caller.continuation, SlotOk, owned]

/-! ### The table -/

/-- `context_resize`. -/
def contextResize (table : List FdContext) (size : Nat) : List FdContext :=
  table.take size ++ (List.range' table.length (size - table.length)).map fun i => { fd := i }

/-- The loop of `add_event` that makes the table hold `fd`: at most `fuel` rounds. -/
def growLoop (fd : Nat) : Nat → List FdContext → List FdContext
  | 0, table => table
  | fuel + 1, table =>
      if table.length ≤ fd then
        growLoop fd fuel (contextResize table (table.length + table.length / 2))
      else table

/-- The loop of `add_event`; every round makes a table of two entries or more grow. -/
def grow (fd : Nat) (table : List FdContext) : List FdContext := growLoop fd (fd + 1) table

namespace IOManager

/-- `IOManager()`. -/
def initial : IOManager := ⟨contextResize [] 32, 0, fun _ => none, []⟩

/-- Write an entry of the table. -/
def setContext (m : IOManager) (fd : Nat) (ctx : FdContext) : IOManager :=
  { m with fdContexts := m.fdContexts.set fd ctx }

/-- `fd_ctx->triggerEvent(event)` and `--m_pending_event_count`. -/
def trigger (m : IOManager) (fd : Nat) (event : Event) : Option IOManager := do
  let ctx ← m.fdContexts[fd]?
  let (ctx, task) ← ctx.triggerEvent event
  some { m.setContext fd ctx with
    pendingEventCount := m.pendingEventCount - 1
    scheduled := m.scheduled ++ [task] }

/-! ### Up to `epoll_ctl` -/

/-- `add_event`; whether `epoll_ctl` succeeded. -/
def addEventCtl (m : IOManager) (fd : Nat) (event : Event) (fault : Bool) :
    Option (IOManager × Bool) := do
  let grown := { m with fdContexts := grow fd m.fdContexts }
  let fdCtx ← grown.fdContexts[fd]?
  if fdCtx.events.has event then none
  else
    let op := if fdCtx.events ≠ 0 then EpollOp.mod else .add
    match epollCtl m.interest op fd (epollEt ||| (fdCtx.events ||| event.bit)) fault with
    | none => some (grown, false)
    | some interest => some ({ grown with interest }, true)

/-- `del_event` and `cancel_event`; `new_event`, if `epoll_ctl` succeeded. -/
def dropEventCtl (m : IOManager) (fd : Nat) (event : Event) (fault : Bool) :
    IOManager × Option Mask :=
  match m.fdContexts[fd]? with
  | none => (m, none)
  | some fdCtx =>
      if fdCtx.events.has event then
        let newEvent := fdCtx.events &&& ~~~event.bit
        let op := if newEvent ≠ 0 then EpollOp.mod else .del
        match epollCtl m.interest op fd (epollEt ||| newEvent) fault with
        | none => (m, none)
        | some interest => ({ m with interest }, some newEvent)
      else (m, none)

/-- `cancel_all`; whether `epoll_ctl` succeeded. -/
def cancelAllCtl (m : IOManager) (fd : Nat) (fault : Bool) : IOManager × Bool :=
  match m.fdContexts[fd]? with
  | none => (m, false)
  | some fdCtx =>
      if fdCtx.events = 0 then (m, false)
      else
        match epollCtl m.interest .del fd 0 fault with
        | none => (m, false)
        | some interest => ({ m with interest }, true)

/-- The events a report is taken to name: `EPOLLERR` and `EPOLLHUP` name all registered ones. -/
def realEvents (events report : Mask) : Mask :=
  let widened :=
    if report &&& (epollErr ||| epollHup) ≠ 0 then report ||| ((epollIn ||| epollOut) &&& events)
    else report
  (if widened &&& epollIn ≠ 0 then Event.read.bit else 0) |||
    (if widened &&& epollOut ≠ 0 then Event.write.bit else 0)

/-- One report in `idle()`; `real_events`, if there is something to trigger. -/
def reportCtl (m : IOManager) (fd : Nat) (report : Mask) (fault : Bool) :
    Option (IOManager × Option Mask) := do
  let fdCtx ← m.fdContexts[fd]?
  let real := realEvents fdCtx.events report
  if fdCtx.events &&& real = 0 then some (m, none)
  else
    let left := fdCtx.events &&& ~~~real
    let op := if left ≠ 0 then EpollOp.mod else .del
    match epollCtl m.interest op fd (epollEt ||| left) fault with
    | none => some (m, none)
    | some interest => some ({ m with interest }, some real)

/-! ### After `epoll_ctl` -/

/-- The rest of `add_event`. -/
def addEventCommit (m : IOManager) (fd : Nat) (event : Event) (cb : Option Callback)
    (caller : Caller) : Option IOManager := do
  let fdCtx ← m.fdContexts[fd]?
  let added := { fdCtx with events := fdCtx.events ||| event.bit }
  if added.getContext event ≠ {} then none
  else
    let counted := { m with pendingEventCount := m.pendingEventCount + 1 }
    match cb with
    | some cb => some (counted.setContext fd (added.setContext event (caller.continuation (some cb))))
    | none =>
        if caller.state = .exec then
          some (counted.setContext fd (added.setContext event (caller.continuation none)))
        else none

/-- The rest of `del_event`: `m_events` becomes what was computed before `epoll_ctl`. -/
def delEventCommit (m : IOManager) (fd : Nat) (event : Event) (newEvent : Mask) :
    Option IOManager := do
  let fdCtx ← m.fdContexts[fd]?
  some { m.setContext fd (({ fdCtx with events := newEvent } : FdContext).resetContext event) with
    pendingEventCount := m.pendingEventCount - 1 }

/-- The rest of `cancel_event`. -/
def cancelEventCommit (m : IOManager) (fd : Nat) (event : Event) : Option IOManager :=
  m.trigger fd event

/-- Trigger an event if it is in a mask. -/
def triggerIf (m : IOManager) (fd : Nat) (mask : Mask) (event : Event) : Option IOManager :=
  if mask.has event then m.trigger fd event else some m

/-- The rest of `cancel_all`. -/
def cancelAllCommit (m : IOManager) (fd : Nat) : Option IOManager := do
  let fdCtx ← m.fdContexts[fd]?
  let m ← m.triggerIf fd fdCtx.events .read
  let fdCtx ← m.fdContexts[fd]?
  let m ← m.triggerIf fd fdCtx.events .write
  let fdCtx ← m.fdContexts[fd]?
  if fdCtx.events = 0 then some m else none

/-- The rest of a report. -/
def reportCommit (m : IOManager) (fd : Nat) (real : Mask) : Option IOManager := do
  let m ← m.triggerIf fd real .read
  m.triggerIf fd real .write

end IOManager

/-! ### Whole operations -/

/-- An operation on a descriptor. -/
inductive Operation
  | addEvent (fd : Nat) (event : Event) (cb : Option Callback) (caller : Caller)
  | delEvent (fd : Nat) (event : Event)
  | cancelEvent (fd : Nat) (event : Event)
  | cancelAll (fd : Nat)
  | report (fd : Nat) (events : Mask)
deriving DecidableEq

/-- An operation whose `epoll_ctl` succeeded, before its commit. -/
inductive Progress
  | adding (fd : Nat) (event : Event) (cb : Option Callback) (caller : Caller)
  | deleting (fd : Nat) (event : Event) (newEvent : Mask)
  | cancelling (fd : Nat) (event : Event)
  | cancellingAll (fd : Nat)
  | reporting (fd : Nat) (real : Mask)
deriving DecidableEq

/-- The first part of an operation: what it holds then, unless it has returned. -/
def ctl (m : IOManager) (fault : Bool) : Operation → Option (IOManager × Option Progress)
  | .addEvent fd event cb caller =>
      (m.addEventCtl fd event fault).map fun (m, done) =>
        (m, if done then some (.adding fd event cb caller) else none)
  | .delEvent fd event =>
      let (m, newEvent) := m.dropEventCtl fd event fault
      some (m, newEvent.map (.deleting fd event))
  | .cancelEvent fd event =>
      let (m, newEvent) := m.dropEventCtl fd event fault
      some (m, newEvent.map fun _ => .cancelling fd event)
  | .cancelAll fd =>
      let (m, done) := m.cancelAllCtl fd fault
      some (m, if done then some (.cancellingAll fd) else none)
  | .report fd events =>
      (m.reportCtl fd events fault).map fun (m, real) => (m, real.map (.reporting fd))

/-- The second part of an operation. -/
def commit (m : IOManager) : Progress → Option IOManager
  | .adding fd event cb caller => m.addEventCommit fd event cb caller
  | .deleting fd event newEvent => m.delEventCommit fd event newEvent
  | .cancelling fd event => m.cancelEventCommit fd event
  | .cancellingAll fd => m.cancelAllCommit fd
  | .reporting fd real => m.reportCommit fd real

/-- An operation with nothing in between. -/
def perform (m : IOManager) (fault : Bool) (operation : Operation) : Option IOManager := do
  match ← ctl m fault operation with
  | (m, none) => some m
  | (m, some progress) => commit m progress

/-! ### Growth -/

/-- A resize to no less keeps the entries and adds empty ones. -/
theorem contextResize_eq (table : List FdContext) {size : Nat} (larger : table.length ≤ size) :
    ∃ fresh : List Nat, contextResize table size = table ++ fresh.map fun i => { fd := i } :=
  ⟨_, by rw [contextResize, List.take_of_length_le larger]⟩

theorem length_contextResize (table : List FdContext) {size : Nat}
    (larger : table.length ≤ size) : (contextResize table size).length = size := by
  simp only [contextResize, List.length_append, List.length_take, List.length_map,
    List.length_range']
  omega

/-- Growing keeps the entries and adds empty ones. -/
theorem growLoop_eq (fd fuel : Nat) (table : List FdContext) :
    ∃ fresh : List Nat, growLoop fd fuel table = table ++ fresh.map fun i => { fd := i } := by
  induction fuel generalizing table with
  | zero => exact ⟨[], by simp [growLoop]⟩
  | succ fuel ih =>
    unfold growLoop
    split
    next =>
      obtain ⟨fresh, resized⟩ := contextResize_eq table (Nat.le_add_right _ (table.length / 2))
      obtain ⟨later, grown⟩ := ih (contextResize table (table.length + table.length / 2))
      exact ⟨fresh ++ later, by rw [grown, resized, List.append_assoc, List.map_append]⟩
    next => exact ⟨[], by simp⟩

/-- The table never gets longer than one and a half times what was asked for. -/
theorem length_growLoop_le {fd fuel bound : Nat} {table : List FdContext}
    (within : table.length ≤ bound) (asked : fd + fd / 2 ≤ bound) :
    (growLoop fd fuel table).length ≤ bound := by
  induction fuel generalizing table with
  | zero => exact within
  | succ fuel ih =>
    unfold growLoop
    split
    next =>
      have resized := length_contextResize table (Nat.le_add_right _ (table.length / 2))
      refine ih ?_
      rw [resized]
      omega
    next => exact within

theorem length_le_growLoop (fd fuel : Nat) (table : List FdContext) :
    table.length ≤ (growLoop fd fuel table).length := by
  obtain ⟨fresh, grown⟩ := growLoop_eq fd fuel table
  rw [grown, List.length_append]
  exact Nat.le_add_right _ _

/-- An entry of a grown table is an old one or an empty one. -/
theorem getElem?_grow {fd i : Nat} {table : List FdContext} {ctx : FdContext}
    (found : (grow fd table)[i]? = some ctx) :
    table[i]? = some ctx ∨ (table.length ≤ i ∧ ∃ j, ctx = { fd := j }) := by
  obtain ⟨fresh, grown⟩ := growLoop_eq fd (fd + 1) table
  rw [grow, grown, List.getElem?_append] at found
  split at found
  next => exact Or.inl found
  next beyond =>
    rw [List.getElem?_map, Option.map_eq_some_iff] at found
    obtain ⟨j, -, rfl⟩ := found
    exact Or.inr ⟨Nat.le_of_not_lt beyond, j, rfl⟩

/-! ### How many events are registered -/

/-- The number of bits set in the whole table. -/
def registeredBits (table : List FdContext) : Nat := (table.map FdContext.registered).sum

/-- Growing registers nothing. -/
@[simp] theorem registeredBits_grow (fd : Nat) (table : List FdContext) :
    registeredBits (grow fd table) = registeredBits table := by
  obtain ⟨fresh, grown⟩ := growLoop_eq fd (fd + 1) table
  have nothing : ∀ i, FdContext.registered { fd := i } = 0 := fun _ =>
    show (0 : Mask).count = 0 by decide
  rw [grow, grown, registeredBits, List.map_append, List.sum_append, List.map_map]
  simp [registeredBits, Function.comp_def, nothing, List.map_const']

/-- Writing one entry changes the number by what it changes there. -/
theorem registeredBits_set {table : List FdContext} {fd : Nat} {ctx : FdContext}
    (found : table[fd]? = some ctx) (changed : FdContext) :
    registeredBits (table.set fd changed) + ctx.registered =
      registeredBits table + changed.registered := by
  induction table generalizing fd with
  | nil => cases found
  | cons head rest ih =>
    cases fd with
    | zero =>
      cases found
      simp only [registeredBits, List.set_cons_zero, List.map_cons, List.sum_cons]
      omega
    | succ fd =>
      have step := ih found
      simp only [registeredBits, List.set_cons_succ, List.map_cons, List.sum_cons] at step ⊢
      omega

/-- Counting one event more, while the table is not too large to count. -/
theorem toNat_add_one {count : UInt64} (small : count.toNat + 1 < 2 ^ 64) :
    (count + 1).toNat = count.toNat + 1 := by
  rw [UInt64.toNat_add, UInt64.toNat_one, Nat.mod_eq_of_lt small]

/-- Counting one event less, while there is one. -/
theorem toNat_sub_one {count : UInt64} (positive : 1 ≤ count.toNat) :
    (count - 1).toNat = count.toNat - 1 := by
  have least : (1 : UInt64) ≤ count := by rwa [UInt64.le_iff_toNat_le, UInt64.toNat_one]
  rw [UInt64.toNat_sub_of_le _ _ least, UInt64.toNat_one]

/-- An entry's bits are among those of the table. -/
theorem registered_le {table : List FdContext} {fd : Nat} {ctx : FdContext}
    (found : table[fd]? = some ctx) : ctx.registered ≤ registeredBits table :=
  List.le_sum_of_mem (List.mem_map_of_mem (List.mem_of_getElem? found))

theorem registeredBits_le (table : List FdContext) :
    registeredBits table ≤ 2 * table.length := by
  induction table with
  | nil => exact Nat.le_refl _
  | cons head rest ih =>
    have here : head.registered ≤ 2 := head.events.count_le
    simp only [registeredBits, List.map_cons, List.sum_cons, List.length_cons] at ih ⊢
    omega

/-! ### What each part does -/

namespace IOManager

variable {m m' : IOManager} {fd : Nat} {event : Event} {fault : Bool}

/-- `add_event` up to `epoll_ctl`: the table has grown, the bit is clear, and `epoll_ctl` was asked
for the larger set. -/
theorem addEventCtl_cases {done : Bool}
    (called : m.addEventCtl fd event fault = some (m', done)) :
    ∃ ctx, (grow fd m.fdContexts)[fd]? = some ctx ∧ ctx.events.has event = false ∧
      ((done = false ∧ m' = { m with fdContexts := grow fd m.fdContexts }) ∨
        (done = true ∧ ∃ interest,
          epollCtl m.interest (if ctx.events ≠ 0 then .mod else .add) fd
            (epollEt ||| (ctx.events ||| event.bit)) fault = some interest ∧
          m' = { m with fdContexts := grow fd m.fdContexts, interest })) := by
  obtain ⟨ctx, found, called⟩ := Option.bind_eq_some_iff.mp called
  refine ⟨ctx, found, ?_⟩
  split at called
  next => cases called
  next clear =>
    refine ⟨Bool.eq_false_iff.mpr clear, ?_⟩
    dsimp only at called
    split at called
    next =>
      cases called
      exact Or.inl ⟨rfl, rfl⟩
    next interest succeeded =>
      cases called
      exact Or.inr ⟨rfl, interest, succeeded, rfl⟩

/-- `del_event` and `cancel_event` up to `epoll_ctl`: nothing, or the bit is set and `epoll_ctl` was
asked for the smaller set. -/
theorem dropEventCtl_cases {newEvent : Option Mask}
    (called : m.dropEventCtl fd event fault = (m', newEvent)) :
    (newEvent = none ∧ m' = m) ∨
      ∃ ctx interest, m.fdContexts[fd]? = some ctx ∧ ctx.events.has event = true ∧
        newEvent = some (ctx.events &&& ~~~event.bit) ∧
        epollCtl m.interest (if ctx.events &&& ~~~event.bit ≠ 0 then .mod else .del) fd
          (epollEt ||| (ctx.events &&& ~~~event.bit)) fault = some interest ∧
        m' = { m with interest } := by
  unfold dropEventCtl at called
  split at called
  next =>
    cases called
    exact Or.inl ⟨rfl, rfl⟩
  next ctx found =>
    split at called
    next set =>
      dsimp only at called
      split at called
      next =>
        cases called
        exact Or.inl ⟨rfl, rfl⟩
      next interest succeeded =>
        cases called
        exact Or.inr ⟨ctx, interest, found, set, rfl, succeeded, rfl⟩
    next =>
      cases called
      exact Or.inl ⟨rfl, rfl⟩

/-- `cancel_all` up to `epoll_ctl`: nothing, or the descriptor was taken off the interest list. -/
theorem cancelAllCtl_cases {done : Bool} (called : m.cancelAllCtl fd fault = (m', done)) :
    (done = false ∧ m' = m) ∨
      ∃ ctx interest, m.fdContexts[fd]? = some ctx ∧ ctx.events ≠ 0 ∧ done = true ∧
        epollCtl m.interest .del fd 0 fault = some interest ∧ m' = { m with interest } := by
  unfold cancelAllCtl at called
  split at called
  next =>
    cases called
    exact Or.inl ⟨rfl, rfl⟩
  next ctx found =>
    split at called
    next =>
      cases called
      exact Or.inl ⟨rfl, rfl⟩
    next registered =>
      split at called
      next =>
        cases called
        exact Or.inl ⟨rfl, rfl⟩
      next interest succeeded =>
        cases called
        exact Or.inr ⟨ctx, interest, found, registered, rfl, succeeded, rfl⟩

/-- A report up to `epoll_ctl`: nothing, or `epoll_ctl` was asked for what is left. -/
theorem reportCtl_cases {report : Mask} {real : Option Mask}
    (called : m.reportCtl fd report fault = some (m', real)) :
    ∃ ctx, m.fdContexts[fd]? = some ctx ∧
      ((real = none ∧ m' = m) ∨
        ∃ interest, ctx.events &&& realEvents ctx.events report ≠ 0 ∧
          real = some (realEvents ctx.events report) ∧
          epollCtl m.interest
            (if ctx.events &&& ~~~realEvents ctx.events report ≠ 0 then .mod else .del) fd
            (epollEt ||| (ctx.events &&& ~~~realEvents ctx.events report)) fault =
              some interest ∧
          m' = { m with interest }) := by
  obtain ⟨ctx, found, called⟩ := Option.bind_eq_some_iff.mp called
  refine ⟨ctx, found, ?_⟩
  dsimp only at called
  split at called
  next =>
    cases called
    exact Or.inl ⟨rfl, rfl⟩
  next named =>
    split at called
    next =>
      cases called
      exact Or.inl ⟨rfl, rfl⟩
    next interest succeeded =>
      cases called
      exact Or.inr ⟨interest, named, rfl, succeeded, rfl⟩

/-- `triggerEvent` in the table. -/
theorem trigger_cases (triggered : m.trigger fd event = some m') :
    ∃ ctx ctx' task, m.fdContexts[fd]? = some ctx ∧ ctx.triggerEvent event = some (ctx', task) ∧
      m' = { m with
        fdContexts := m.fdContexts.set fd ctx'
        pendingEventCount := m.pendingEventCount - 1
        scheduled := m.scheduled ++ [task] } := by
  obtain ⟨ctx, found, triggered⟩ := Option.bind_eq_some_iff.mp triggered
  obtain ⟨⟨ctx', task⟩, fired, same⟩ := Option.bind_eq_some_iff.mp triggered
  cases same
  exact ⟨ctx, ctx', task, found, fired, rfl⟩

/-- The commit of `add_event` fills an empty slot. -/
theorem addEventCommit_cases {cb : Option Callback} {caller : Caller}
    (committed : m.addEventCommit fd event cb caller = some m') :
    ∃ ctx, m.fdContexts[fd]? = some ctx ∧ ctx.getContext event = {} ∧
      m' = { m with
        fdContexts := m.fdContexts.set fd
          (({ ctx with events := ctx.events ||| event.bit } : FdContext).setContext event
            (caller.continuation cb))
        pendingEventCount := m.pendingEventCount + 1 } := by
  obtain ⟨ctx, found, committed⟩ := Option.bind_eq_some_iff.mp committed
  dsimp only at committed
  split at committed
  next => cases committed
  next empty =>
    rw [FdContext.getContext_withEvents, not_not] at empty
    cases cb with
    | some cb =>
      cases committed
      exact ⟨ctx, found, empty, rfl⟩
    | none =>
      dsimp only at committed
      split at committed
      next =>
        cases committed
        exact ⟨ctx, found, empty, rfl⟩
      next => cases committed

/-- The commit of `del_event`. -/
theorem delEventCommit_cases {newEvent : Mask}
    (committed : m.delEventCommit fd event newEvent = some m') :
    ∃ ctx, m.fdContexts[fd]? = some ctx ∧
      m' = { m with
        fdContexts := m.fdContexts.set fd
          (({ ctx with events := newEvent } : FdContext).setContext event {})
        pendingEventCount := m.pendingEventCount - 1 } := by
  obtain ⟨ctx, found, committed⟩ := Option.bind_eq_some_iff.mp committed
  cases committed
  exact ⟨ctx, found, rfl⟩

/-- The commit of `cancel_all`: two calls of `triggerEvent`, where the bits were set, and nothing is
left of them. -/
theorem cancelAllCommit_cases (committed : m.cancelAllCommit fd = some m') :
    ∃ ctx m₁ ctx₁ ctx₂, m.fdContexts[fd]? = some ctx ∧
      m.triggerIf fd ctx.events .read = some m₁ ∧ m₁.fdContexts[fd]? = some ctx₁ ∧
      m₁.triggerIf fd ctx₁.events .write = some m' ∧ m'.fdContexts[fd]? = some ctx₂ ∧
      ctx₂.events = 0 := by
  obtain ⟨ctx, found, committed⟩ := Option.bind_eq_some_iff.mp committed
  obtain ⟨m₁, first, committed⟩ := Option.bind_eq_some_iff.mp committed
  obtain ⟨ctx₁, found₁, committed⟩ := Option.bind_eq_some_iff.mp committed
  obtain ⟨m₂, second, committed⟩ := Option.bind_eq_some_iff.mp committed
  obtain ⟨ctx₂, found₂, committed⟩ := Option.bind_eq_some_iff.mp committed
  obtain ⟨empty, same⟩ := Option.ite_none_right_eq_some.mp committed
  cases same
  exact ⟨ctx, m₁, ctx₁, ctx₂, found, first, found₁, second, found₂, empty⟩

end IOManager

end Sylar.EventTable
