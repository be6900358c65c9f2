/-
**Where control goes: `swapIn`, `swapOut`, `call`, `back` and the contexts they exchange.**

Each of the four saves the stack that runs into the context of one fiber and goes on at the context
of another. Which fibers these are is read from `t_fiber`, `t_threadFiber` and the scheduler's
`t_fiber`, not from who runs; nothing checks that the context that is loaded is that of the caller.

* `switching` — any number of threads and fibers: schedulers constructed on a thread, workers that
  enter `run()`, fibers swapped in, called, yielding, ending and reset.
* `Proper` — what the scheduler does: `run()` swaps tasks in from its own fiber, `stop()` calls the
  root fiber from the thread's own stack, and only tasks yield; **a fiber is handed over**: nobody
  swaps it in, calls or resets it while another thread switches to it, or has not yet left it.
* `Frames` — **the four shapes of a thread**: its own stack; a task or the root fiber above it; a
  task above the root fiber.
* `control_returns` — **every switch goes where it should**: `t_fiber` names the fiber that runs, no
  stack is on two threads, and who yields or ends goes back to who swapped it in.
* `stack_on_two_threads` — a fiber that is not handed over.

A switch is two steps: a thread writes `m_state`, and exchanges the contexts. In between, other
threads go on. `SetThis` is the thread's own, and is part of the second step.
-/

import Sylar.Fiber
import Sylar.Library.Machine
import Mathlib.Data.Fintype.Basic
import Mathlib.Logic.Function.Basic

namespace Sylar.Fibers

open Sylar.Library

variable {n : Nat}

/-! ### Threads and fibers -/

/-- What runs: the stack that a thread was born with, or that of a fiber. -/
inductive Flow (n : Nat)
  | native (t : Fin n)
  | stack (f : FiberId)
deriving DecidableEq

/-- `m_ctx`. -/
inductive Context (n : Nat)
  /-- of `getcontext` in `Fiber()`, which has returned since -/
  | made
  /-- of `makecontext` -/
  | entry
  /-- of `swapcontext` -/
  | saved (flow : Flow n)
deriving DecidableEq

/-- Which constructor, and which function of `makecontext`. -/
inductive Kind (n : Nat)
  | unborn
  /-- `Fiber()`, on a thread -/
  | main (t : Fin n)
  /-- `MainFunc` -/
  | sub
  /-- `Caller_MainFunc` -/
  | root
deriving DecidableEq

/-- A `Fiber`, and what its function knows. -/
structure FiberObject (n : Nat) where
  kind : Kind n := .unborn
  state : State := .init
  ctx : Context n := .made
  /-- the local `cur` of `MainFunc` or `Caller_MainFunc` -/
  cur : Option FiberId := none
  /-- past the last switch of `MainFunc` or `Caller_MainFunc`, where an assertion fails -/
  atEnd : Bool := false
  /-- the thread that has switched to it, until it switches out of it -/
  host : Option (Fin n) := none
deriving DecidableEq

namespace FiberObject

variable (o : FiberObject n)

def setState (state : State) : FiberObject n := { o with state }

def setCtx (ctx : Context n) : FiberObject n := { o with ctx }

def setCur (cur : Option FiberId) : FiberObject n := { o with cur }

/-- A thread switches to it. -/
def hosted (t : Fin n) : FiberObject n := { o with host := some t }

/-- A thread switches out of it; `last`, if its function has no other switch. -/
def unhosted (last : Bool) : FiberObject n := { o with host := none, atEnd := o.atEnd || last }

/-- What `Fiber::reset` writes. -/
def renewed : FiberObject n :=
  { o with kind := .sub, state := .init, ctx := .entry, atEnd := false }

/-- What the shape of a thread is about. -/
def place : Kind n × Context n × Option (Fin n) := (o.kind, o.ctx, o.host)

end FiberObject

/-- A `swapcontext` to come, after `m_state`: the contexts of `base` and `f`. -/
inductive Pending
  /-- `swapIn`, `call` -/
  | into (base f : FiberId)
  /-- `swapOut`, `back` -/
  | out (base f : FiberId) (last : Bool)
deriving DecidableEq

/-- The fiber that it switches to. -/
def Pending.target : Pending → Option FiberId
  | .into _ f => some f
  | .out .. => none

/-- A thread: what runs, its variables, and the stacks that wait in `swapIn` and `call`. -/
structure ThreadLocals (n : Nat) where
  flow : Flow n
  /-- `t_fiber` of `fiber.cc` -/
  tFiber : Option FiberId := none
  /-- `t_threadFiber` -/
  threadFiber : Option FiberId := none
  /-- `t_fiber` of `scheduler.cc` -/
  mainFiber : Option FiberId := none
  waiting : List (Flow n) := []
  pending : Option Pending := none

namespace ThreadLocals

variable (l : ThreadLocals n)

def setFlow (flow : Flow n) : ThreadLocals n := { l with flow }

/-- A switch is to come. -/
def prepared (p : Pending) : ThreadLocals n := { l with pending := some p }

/-- A stack begins to wait for a fiber. -/
def pushed (f : FiberId) : ThreadLocals n :=
  { l with tFiber := some f, waiting := l.flow :: l.waiting, pending := none }

/-- The innermost stack that waits is to go on. -/
def popped (base : FiberId) : ThreadLocals n :=
  { l with tFiber := some base, waiting := l.waiting.tail, pending := none }

/-- The thread gets its main fiber. -/
def withMain (m : FiberId) : ThreadLocals n := { l with tFiber := some m, threadFiber := some m }

def setMain (m : FiberId) : ThreadLocals n := { l with mainFiber := some m }

/-- The fiber that the thread is about to switch to. -/
def target : Option FiberId := l.pending.bind Pending.target

end ThreadLocals

/-- All threads and fibers. -/
structure Switching (n : Nat) where
  thread : Fin n → ThreadLocals n
  fiber : FiberId → FiberObject n
  created : Nat

namespace Switching

variable (s : Switching n)

def setFiber (f : FiberId) (o : FiberObject n) : Switching n :=
  { s with fiber := Function.update s.fiber f o }

def setThread (t : Fin n) (l : ThreadLocals n) : Switching n :=
  { s with thread := Function.update s.thread t l }

def setState (f : FiberId) (state : State) : Switching n :=
  s.setFiber f ((s.fiber f).setState state)

/-- The stack of a fiber. -/
def home (f : FiberId) : Flow n :=
  match (s.fiber f).kind with
  | .main t => .native t
  | _ => .stack f

/-- The stack is past its function's last switch. -/
def atEnd : Flow n → Bool
  | .native _ => false
  | .stack f => (s.fiber f).atEnd

/-- Go on at a context. A function that is entered reads `GetThis()` first. -/
def load (t : Fin n) (dst : FiberId) : Option (Switching n) :=
  match (s.fiber dst).ctx with
  | .made => none
  | .entry =>
      some ((s.setFiber dst ((s.fiber dst).setCur (s.thread t).tFiber)).setThread t
        ((s.thread t).setFlow (.stack dst)))
  | .saved flow =>
      if s.atEnd flow then none else some (s.setThread t ((s.thread t).setFlow flow))

/-- `swapcontext(&src->m_ctx, &dst->m_ctx)`. -/
def swapcontext (t : Fin n) (src dst : FiberId) : Option (Switching n) :=
  (s.setFiber src ((s.fiber src).setCtx (.saved (s.thread t).flow))).load t dst

/-- `swapIn` and `call` up to `swapcontext`: they differ in the fiber whose context is saved. -/
def enter (t : Fin n) (base f : FiberId) : Option (Switching n) :=
  if (s.fiber f).state = .exec then none
  else some ((s.setState f .exec).setThread t ((s.thread t).prepared (.into base f)))

/-- `swapOut` and `back` up to `swapcontext`: they differ in the fiber whose context is loaded. -/
def leave (t : Fin n) (base f : FiberId) (last : Bool) : Switching n :=
  s.setThread t ((s.thread t).prepared (.out base f last))

/-- `swapcontext` in `swapIn`, `call`, `swapOut` and `back`. -/
def switch (t : Fin n) : Option (Switching n) :=
  match (s.thread t).pending with
  | none => none
  | some (.into base f) =>
      ((s.setThread t ((s.thread t).pushed f)).setFiber f
        ((s.fiber f).hosted t)).swapcontext t base f
  | some (.out base f last) =>
      ((s.setThread t ((s.thread t).popped base)).setFiber f
        ((s.fiber f).unhosted last)).swapcontext t f base

/-- `Fiber::swapIn`. -/
def swapIn (t : Fin n) (f : FiberId) : Option (Switching n) :=
  (s.thread t).mainFiber.bind fun base => s.enter t base f

/-- `Fiber::swapOut`. -/
def swapOut (t : Fin n) (f : FiberId) (last : Bool) : Option (Switching n) :=
  (s.thread t).mainFiber.map fun base => s.leave t base f last

/-- `Fiber::call`. -/
def call (t : Fin n) (f : FiberId) : Option (Switching n) :=
  (s.thread t).threadFiber.bind fun base => s.enter t base f

/-- `Fiber::back`. -/
def back (t : Fin n) (f : FiberId) (last : Bool) : Option (Switching n) :=
  (s.thread t).threadFiber.map fun base => s.leave t base f last

/-- `new Fiber(cb, 0, use_caller)`. -/
def newFiber (kind : Kind n) : Switching n :=
  { s.setFiber s.created { kind, ctx := .entry } with created := s.created + 1 }

/-- `Fiber::GetThis`, which makes the main fiber of the thread if there is no other. -/
def getThis (t : Fin n) : FiberId × Switching n :=
  match (s.thread t).tFiber with
  | some f => (f, s)
  | none =>
      (s.created,
        { (s.setFiber s.created { kind := .main t, state := .exec }).setThread t
            ((s.thread t).withMain s.created) with created := s.created + 1 })

/-- The scheduler's `t_fiber`. -/
def setMainFiber (t : Fin n) (f : FiberId) : Switching n :=
  s.setThread t ((s.thread t).setMain f)

/-- `Yield_to_Ready`, `Yield_to_Hold`. -/
def yieldTo (t : Fin n) (state : State) : Option (Switching n) :=
  let r := s.getThis t
  (r.2.setState r.1 state).swapOut t r.1 false

/-- The end of a round of `idle()`, which writes no state. -/
def idleOut (t : Fin n) : Option (Switching n) :=
  let r := s.getThis t
  r.2.swapOut t r.1 false

/-- The end of `MainFunc` and of `Caller_MainFunc`. -/
def finish (t : Fin n) (state : State) : Option (Switching n) :=
  match (s.thread t).flow with
  | .native _ => none
  | .stack f =>
      (s.fiber f).cur.bind fun cur =>
        let written := s.setState cur state
        if (s.fiber f).kind = .root then written.back t cur true else written.swapOut t cur true

/-- `run()` after `swapIn`, where the fiber has not ended. -/
def hold (f : FiberId) : Option (Switching n) :=
  if (s.fiber f).state = .term ∨ (s.fiber f).state = .excpt then none
  else some (s.setState f .hold)

/-- `Fiber::reset`. -/
def reset (f : FiberId) : Option (Switching n) :=
  match (s.fiber f).kind, (s.fiber f).state with
  | .sub, .init | .sub, .term | .sub, .excpt | .root, .init | .root, .term | .root, .excpt =>
      some (s.setFiber f (s.fiber f).renewed)
  | _, _ => none

end Switching

/-- A step. -/
inductive SwitchEvent (n : Nat)
  /-- any call of `GetThis()` -/
  | getThis (t : Fin n)
  | newFiber
  /-- `Scheduler(.., true, ..)` on a thread -/
  | construct (t : Fin n)
  /-- `run()` begins on a thread of the pool -/
  | enterRun (t : Fin n)
  | swapIn (t : Fin n) (f : FiberId)
  | call (t : Fin n) (f : FiberId)
  | yieldToReady (t : Fin n)
  | yieldToHold (t : Fin n)
  /-- `idle()` ends its round -/
  | idleOut (t : Fin n)
  /-- a fiber's function ends -/
  | finish (t : Fin n) (threw : Bool)
  /-- `run()` writes `HOLD` -/
  | hold (t : Fin n) (f : FiberId)
  | reset (f : FiberId)
  /-- the contexts are exchanged -/
  | switch (t : Fin n)
deriving DecidableEq

/-- The thread whose code it is, unless that is a switch. -/
def SwitchEvent.caller : SwitchEvent n → Option (Fin n)
  | .getThis t | .construct t | .enterRun t | .swapIn t _ | .call t _ | .yieldToReady t
  | .yieldToHold t | .idleOut t | .finish t _ | .hold t _ => some t
  | .newFiber | .reset _ | .switch _ => none

namespace Switching

variable (s : Switching n)

/-- What the step does; `none`: a null pointer or a failed assertion. -/
def act : SwitchEvent n → Option (Switching n)
  | .getThis t => some (s.getThis t).2
  | .newFiber => some (s.newFiber .sub)
  | .construct t =>
      let made := (s.getThis t).2
      some ((made.newFiber .root).setMainFiber t made.created)
  | .enterRun t => some ((s.getThis t).2.setMainFiber t (s.getThis t).1)
  | .swapIn t f => s.swapIn t f
  | .call t f => s.call t f
  | .yieldToReady t => s.yieldTo t .ready
  | .yieldToHold t => s.yieldTo t .hold
  | .idleOut t => s.idleOut t
  | .finish t threw => s.finish t (if threw then .excpt else .term)
  | .hold _ f => s.hold f
  | .reset f => s.reset f
  | .switch t => s.switch t

/-- One step: a thread that has a switch to come makes it. -/
def next (e : SwitchEvent n) : Option (Switching n) :=
  if e.caller.any fun t => (s.thread t).pending.isSome then none else s.act e

/-- A task runs on the thread. -/
def inTask (t : Fin n) : Prop :=
  match (s.thread t).flow with
  | .native _ => False
  | .stack f => (s.fiber f).kind = .sub

instance (t : Fin n) : Decidable (s.inTask t) := by
  unfold inTask
  split <;> infer_instance

/-- `run()` runs on the thread, on the fiber that the scheduler's `t_fiber` names. -/
def inRun (t : Fin n) : Prop := ∃ m ∈ (s.thread t).mainFiber, (s.thread t).flow = s.home m

instance (t : Fin n) : Decidable (s.inRun t) :=
  inferInstanceAs (Decidable (∃ m ∈ (s.thread t).mainFiber, _))

/-- **Nobody has the fiber**: no thread has switched to it and not yet out of it, and none is about
to switch to it. -/
def Free (f : FiberId) : Prop := (s.fiber f).host = none ∧ ∀ u, (s.thread u).target ≠ some f

instance (f : FiberId) : Decidable (s.Free f) := inferInstanceAs (Decidable (_ ∧ _))

end Switching

/-- The runs of `n` threads. -/
def switching (n : Nat) : Machine (Switching n) (SwitchEvent n) :=
  ⟨fun s => s = ⟨fun t => { flow := .native t }, fun _ => {}, 0⟩, Switching.next⟩

/-- **Who switches**: `run()` on its own fiber, `stop()` outside of fibers, and tasks; and fibers
are handed over. -/
def Proper (s : Switching n) : SwitchEvent n → Prop
  | .getThis _ | .newFiber | .switch _ => True
  | .construct t | .enterRun t => (s.thread t).flow = .native t
  | .finish t _ => (s.thread t).flow ≠ .native t
  | .swapIn t f | .hold t f => s.inRun t ∧ (s.fiber f).kind = .sub ∧ s.Free f
  | .call t f =>
      (s.thread t).flow = .native t ∧ (s.thread t).mainFiber = some f ∧
        (s.fiber f).kind = .root ∧ s.Free f
  | .yieldToReady t | .yieldToHold t | .idleOut t => s.inTask t
  | .reset f => (s.fiber f).kind = .sub ∧ s.Free f

instance (s : Switching n) (e : SwitchEvent n) : Decidable (Proper s e) := by
  cases e <;> unfold Proper <;> infer_instance

/-- A step into a fiber. -/
def SwitchEvent.enters (t : Fin n) (f : FiberId) : SwitchEvent n → Prop
  | .swapIn u g | .call u g => u = t ∧ g = f
  | _ => False

/-- A step out of one. -/
def SwitchEvent.leaves (t : Fin n) : SwitchEvent n → Prop
  | .yieldToReady u | .yieldToHold u | .idleOut u | .finish u _ => u = t
  | _ => False

/-! ### The invariant -/

/-- It has a stack of its own. -/
def Kind.stackful : Kind n → Prop
  | .sub | .root => True
  | .unborn | .main _ => False

/-- **The shapes of a thread**, with what the contexts of the waiting stacks hold. -/
inductive Frames (fiber : FiberId → FiberObject n) (t : Fin n) (l : ThreadLocals n) : Prop
  /-- the thread's own stack -/
  | own (flow : l.flow = .native t) (waiting : l.waiting = []) (this : l.tFiber = l.threadFiber)
  /-- a task, swapped in by `run()` on the thread's own stack -/
  | task (m f : FiberId) (flow : l.flow = .stack f) (waiting : l.waiting = [.native t])
      (this : l.tFiber = some f) (base : l.mainFiber = some m)
      (main : (fiber m).kind = .main t) (saved : (fiber m).ctx = .saved (.native t))
      (kind : (fiber f).kind = .sub) (host : (fiber f).host = some t)
  /-- the root fiber, called by `stop()` -/
  | root (m r : FiberId) (flow : l.flow = .stack r) (waiting : l.waiting = [.native t])
      (this : l.tFiber = some r) (base : l.mainFiber = some r) (first : l.threadFiber = some m)
      (main : (fiber m).kind = .main t) (saved : (fiber m).ctx = .saved (.native t))
      (kind : (fiber r).kind = .root) (host : (fiber r).host = some t)
  /-- a task, swapped in by `run()` on the root fiber -/
  | nested (m r f : FiberId) (flow : l.flow = .stack f)
      (waiting : l.waiting = [.stack r, .native t]) (this : l.tFiber = some f)
      (base : l.mainFiber = some r) (first : l.threadFiber = some m)
      (main : (fiber m).kind = .main t) (saved : (fiber m).ctx = .saved (.native t))
      (rootKind : (fiber r).kind = .root) (rootHost : (fiber r).host = some t)
      (rootSaved : (fiber r).ctx = .saved (.stack r))
      (kind : (fiber f).kind = .sub) (host : (fiber f).host = some t)

/-- **The switches that a thread can have to come.** -/
inductive Poised (fiber : FiberId → FiberObject n) (t : Fin n) (l : ThreadLocals n) :
    Pending → Prop
  /-- `run()` on the thread's own stack swaps a task in -/
  | task (m f : FiberId) (flow : l.flow = .native t) (base : l.mainFiber = some m)
      (main : (fiber m).kind = .main t) (kind : (fiber f).kind = .sub)
      (idle : (fiber f).host = none) : Poised fiber t l (.into m f)
  /-- the same on the root fiber -/
  | nested (r f : FiberId) (flow : l.flow = .stack r) (base : l.mainFiber = some r)
      (rootKind : (fiber r).kind = .root) (host : (fiber r).host = some t)
      (kind : (fiber f).kind = .sub) (idle : (fiber f).host = none) : Poised fiber t l (.into r f)
  /-- `stop()` calls the root fiber -/
  | root (m r : FiberId) (flow : l.flow = .native t) (base : l.mainFiber = some r)
      (main : (fiber m).kind = .main t) (first : l.threadFiber = some m)
      (kind : (fiber r).kind = .root) (idle : (fiber r).host = none) : Poised fiber t l (.into m r)
  /-- a task leaves -/
  | swapOut (base f : FiberId) (last : Bool) (flow : l.flow = .stack f)
      (main : l.mainFiber = some base) (kind : (fiber f).kind = .sub)
      (host : (fiber f).host = some t) : Poised fiber t l (.out base f last)
  /-- the root fiber leaves -/
  | back (base r : FiberId) (last : Bool) (flow : l.flow = .stack r)
      (first : l.threadFiber = some base) (kind : (fiber r).kind = .root)
      (host : (fiber r).host = some t) : Poised fiber t l (.out base r last)

/-- What is so of a fiber. -/
structure FiberLaw (created : Nat) (threadFiber : Fin n → Option FiberId) (f : FiberId)
    (o : FiberObject n) : Prop where
  unborn : created ≤ f → o.kind = .unborn ∧ o.host = none
  main : ∀ t, o.kind = .main t → threadFiber t = some f ∧ o.host = none
  ctx : o.kind.stackful → o.ctx = .entry ∨ o.ctx = .saved (.stack f)
  cur : o.kind.stackful → o.host ≠ none ∨ o.ctx = .saved (.stack f) → o.cur = some f
  goes : o.kind.stackful → o.host ≠ none ∨ o.ctx = .entry → o.atEnd = false

/-- **The invariant.** -/
structure Sound (s : Switching n) : Prop where
  frames : ∀ t, Frames s.fiber t (s.thread t)
  poised : ∀ t p, (s.thread t).pending = some p → Poised s.fiber t (s.thread t) p
  /-- no two threads are about to switch to one fiber -/
  apart : ∀ t u f, (s.thread t).target = some f → (s.thread u).target = some f → t = u
  main : ∀ t m, (s.thread t).threadFiber = some m → (s.fiber m).kind = .main t
  fiber : ∀ f, FiberLaw s.created (fun t => (s.thread t).threadFiber) f (s.fiber f)

section Congr

variable {fiber fiber' : FiberId → FiberObject n} {t : Fin n} {l : ThreadLocals n}

/-- A thread's shape is read off its own fibers. -/
theorem Frames.congr (frames : Frames fiber t l)
    (same : ∀ g, (fiber g).kind = .main t ∨ (fiber g).host = some t →
      (fiber' g).place = (fiber g).place) : Frames fiber' t l := by
  have kinds {g : FiberId} (near : (fiber g).kind = .main t ∨ (fiber g).host = some t) :
      (fiber' g).kind = (fiber g).kind := congrArg (·.1) (same g near)
  have ctxs {g : FiberId} (near : (fiber g).kind = .main t ∨ (fiber g).host = some t) :
      (fiber' g).ctx = (fiber g).ctx := congrArg (·.2.1) (same g near)
  have hosts {g : FiberId} (near : (fiber g).kind = .main t ∨ (fiber g).host = some t) :
      (fiber' g).host = (fiber g).host := congrArg (·.2.2) (same g near)
  cases frames with
  | own flow waiting this => exact .own flow waiting this
  | task m f flow waiting this base main saved kind host =>
    exact .task m f flow waiting this base ((kinds (.inl main)).trans main)
      ((ctxs (.inl main)).trans saved) ((kinds (.inr host)).trans kind)
      ((hosts (.inr host)).trans host)
  | root m r flow waiting this base first main saved kind host =>
    exact .root m r flow waiting this base first ((kinds (.inl main)).trans main)
      ((ctxs (.inl main)).trans saved) ((kinds (.inr host)).trans kind)
      ((hosts (.inr host)).trans host)
  | nested m r f flow waiting this base first main saved rootKind rootHost rootSaved kind host =>
    exact .nested m r f flow waiting this base first ((kinds (.inl main)).trans main)
      ((ctxs (.inl main)).trans saved) ((kinds (.inr rootHost)).trans rootKind)
      ((hosts (.inr rootHost)).trans rootHost) ((ctxs (.inr rootHost)).trans rootSaved)
      ((kinds (.inr host)).trans kind) ((hosts (.inr host)).trans host)

/-- So is the switch that it has to come, and off the fiber that it switches to. -/
theorem Poised.congr {p : Pending} (poised : Poised fiber t l p)
    (same : ∀ g, (fiber g).kind = .main t ∨ (fiber g).host = some t ∨ p.target = some g →
      (fiber' g).place = (fiber g).place) : Poised fiber' t l p := by
  have kinds {g : FiberId}
      (near : (fiber g).kind = .main t ∨ (fiber g).host = some t ∨ p.target = some g) :
      (fiber' g).kind = (fiber g).kind := congrArg (·.1) (same g near)
  have hosts {g : FiberId}
      (near : (fiber g).kind = .main t ∨ (fiber g).host = some t ∨ p.target = some g) :
      (fiber' g).host = (fiber g).host := congrArg (·.2.2) (same g near)
  cases poised with
  | task m f flow base main kind idle =>
    exact .task m f flow base ((kinds (.inl main)).trans main)
      ((kinds (.inr (.inr rfl))).trans kind) ((hosts (.inr (.inr rfl))).trans idle)
  | nested r f flow base rootKind host kind idle =>
    exact .nested r f flow base ((kinds (.inr (.inl host))).trans rootKind)
      ((hosts (.inr (.inl host))).trans host) ((kinds (.inr (.inr rfl))).trans kind)
      ((hosts (.inr (.inr rfl))).trans idle)
  | root m r flow base main first kind idle =>
    exact .root m r flow base ((kinds (.inl main)).trans main) first
      ((kinds (.inr (.inr rfl))).trans kind) ((hosts (.inr (.inr rfl))).trans idle)
  | swapOut base f last flow main kind host =>
    exact .swapOut base f last flow main ((kinds (.inr (.inl host))).trans kind)
      ((hosts (.inr (.inl host))).trans host)
  | back base r last flow first kind host =>
    exact .back base r last flow first ((kinds (.inr (.inl host))).trans kind)
      ((hosts (.inr (.inl host))).trans host)

end Congr

/-! ### What the exchange of contexts does -/

section Switches

variable {s s' : Switching n} {t : Fin n} {base f : FiberId}

/-- **A fiber is entered**: it runs, and the stack that ran is saved in the other fiber. -/
theorem switch_into {created : Nat} {threadFiber : Fin n → Option FiberId}
    (law : FiberLaw created threadFiber f (s.fiber f)) (stackful : (s.fiber f).kind.stackful)
    (other : f ≠ base) (pending : (s.thread t).pending = some (.into base f))
    (switched : s.switch t = some s') :
    (s.fiber f).atEnd = false ∧
      s'.thread = Function.update s.thread t (((s.thread t).pushed f).setFlow (.stack f)) ∧
      s'.fiber = Function.update
        (Function.update s.fiber base ((s.fiber base).setCtx (.saved (s.thread t).flow)))
        f (((s.fiber f).hosted t).setCur (some f)) ∧
      s'.created = s.created := by
  unfold Switching.switch at switched
  simp only [pending, Switching.swapcontext, Switching.load, Switching.setFiber,
    Switching.setThread, Function.update_of_ne other, Function.update_of_ne other.symm,
    Function.update_self] at switched
  have comm : ∀ a b : FiberObject n, Function.update (Function.update s.fiber f a) base b =
      Function.update (Function.update s.fiber base b) f a :=
    fun a b => Function.update_comm other a b s.fiber
  rcases law.ctx stackful with fresh | saved
  · have ctx : ((s.fiber f).hosted t).ctx = .entry := fresh
    rw [ctx] at switched
    cases switched
    refine ⟨law.goes stackful (.inr fresh), ?_, ?_, rfl⟩
    · show Function.update (Function.update s.thread t _) t _ = _
      rw [Function.update_idem]
    · show Function.update (Function.update (Function.update s.fiber f _) base _) f _ = _
      rw [comm, Function.update_idem]
      rfl
  · have ctx : ((s.fiber f).hosted t).ctx = .saved (.stack f) := saved
    rw [ctx] at switched
    obtain ⟨goes, same⟩ := Option.ite_none_left_eq_some.mp switched
    cases same
    have cur : ((s.fiber f).hosted t).setCur (some f) = (s.fiber f).hosted t := by
      unfold FiberObject.setCur
      rw [← law.cur stackful (.inr saved)]
      rfl
    refine ⟨?_, ?_, ?_, rfl⟩
    · simpa [Switching.atEnd, Function.update_of_ne other, FiberObject.hosted] using goes
    · show Function.update (Function.update s.thread t _) t _ = _
      rw [Function.update_idem]
    · show Function.update (Function.update s.fiber f _) base _ = _
      rw [comm, cur]
      rfl

/-- **A fiber is left**: its stack is saved in it, and the one saved in the other fiber runs. -/
theorem switch_out {flow : Flow n} {last : Bool} (other : f ≠ base)
    (pending : (s.thread t).pending = some (.out base f last))
    (saved : (s.fiber base).ctx = .saved flow)
    (goes : ∀ g, flow = .stack g → g ≠ f ∧ (s.fiber g).atEnd = false) :
    ∃ s', s.switch t = some s' ∧
      s'.thread = Function.update s.thread t (((s.thread t).popped base).setFlow flow) ∧
      s'.fiber = Function.update s.fiber f
        (((s.fiber f).unhosted last).setCtx (.saved (s.thread t).flow)) ∧
      s'.created = s.created := by
  unfold Switching.switch
  simp only [pending, Switching.swapcontext, Switching.load, Switching.setFiber,
    Switching.setThread, Function.update_of_ne other.symm, Function.update_self, saved]
  refine ⟨_, if_neg ?_, ?_, ?_, rfl⟩
  · cases flow with
    | native u => exact Bool.false_ne_true
    | stack g =>
      obtain ⟨notF, going⟩ := goes g rfl
      simp [Switching.atEnd, Function.update_of_ne notF, going]
  · show Function.update (Function.update s.thread t _) t _ = _
    rw [Function.update_idem]
  · show Function.update (Function.update s.fiber f _) f _ = _
    rw [Function.update_idem]
    rfl

end Switches

/-! ### What each step keeps -/

theorem Kind.stackful_iff {kind : Kind n} : kind.stackful ↔ kind = .sub ∨ kind = .root := by
  cases kind <;> simp [Kind.stackful]

/-- A fiber that a thread's shape or its next switch is about. -/
def Switching.Near (s : Switching n) (t : Fin n) (g : FiberId) : Prop :=
  (s.fiber g).kind = .main t ∨ (s.fiber g).host = some t ∨ (s.thread t).target = some g

theorem near_of_pending {s : Switching n} {t : Fin n} {p : Pending} {g : FiberId}
    (pending : (s.thread t).pending = some p)
    (near : (s.fiber g).kind = .main t ∨ (s.fiber g).host = some t ∨ p.target = some g) :
    s.Near t g := by
  unfold Switching.Near ThreadLocals.target
  rwa [pending]

/-- `m_state` says nothing about where a fiber is. -/
theorem place_setState (s : Switching n) (f g : FiberId) (state : State) :
    ((s.setState f state).fiber g).place = (s.fiber g).place := by
  show (Function.update s.fiber f _ g).place = _
  rcases eq_or_ne g f with rfl | other
  · rw [Function.update_self]
    rfl
  · rw [Function.update_of_ne other]

namespace Sound

variable {s s' : Switching n} {t : Fin n} {base f : FiberId}

theorem home_of_stackful (stackful : (s.fiber f).kind.stackful) : s.home f = .stack f := by
  unfold Switching.home
  rcases Kind.stackful_iff.mp stackful with kind | kind <;> rw [kind]

theorem home_eq_native : s.home f = .native t ↔ (s.fiber f).kind = .main t := by
  unfold Switching.home
  cases (s.fiber f).kind <;> simp

/-- What a thread is about to switch to has a stack, and runs nowhere. -/
theorem of_target (sound : Sound s) (target : (s.thread t).target = some f) :
    (s.fiber f).kind.stackful ∧ (s.fiber f).host = none := by
  obtain ⟨p, pending, names⟩ := Option.bind_eq_some_iff.mp target
  cases sound.poised t p pending with
  | task _ _ _ _ _ kind idle | nested _ _ _ _ _ _ kind idle | root _ _ _ _ _ _ kind idle =>
    cases names
    exact ⟨by rw [kind]; trivial, idle⟩
  | swapOut | back => cases names

/-- **Fibers of one thread change**, and those that change keep their law: what is left to see is
the thread's shape, and the switch that it has to come. -/
theorem change (sound : Sound s) {l : ThreadLocals n}
    (thread : s'.thread = Function.update s.thread t l)
    (first : l.threadFiber = (s.thread t).threadFiber) (created : s'.created = s.created)
    (kind : ∀ g, (s'.fiber g).kind = (s.fiber g).kind)
    (others : ∀ u, u ≠ t → ∀ g, s.Near u g → s'.fiber g = s.fiber g)
    (law : ∀ g, FiberLaw s.created (fun u => (s.thread u).threadFiber) g (s'.fiber g))
    (frames : Frames s'.fiber t l) (poised : ∀ p, l.pending = some p → Poised s'.fiber t l p)
    (apart : ∀ u f, u ≠ t → l.target = some f → (s.thread u).target ≠ some f) : Sound s' := by
  have atT : s'.thread t = l := by rw [thread, Function.update_self]
  have elsewhere {u : Fin n} (other : u ≠ t) : s'.thread u = s.thread u := by
    rw [thread, Function.update_of_ne other]
  have threadFiber : ∀ u, (s'.thread u).threadFiber = (s.thread u).threadFiber := by
    intro u
    rcases eq_or_ne u t with rfl | other
    · rw [atT, first]
    · rw [elsewhere other]
  refine ⟨fun u => ?_, fun u p pending => ?_, fun u v f atU atV => ?_, fun u m has => ?_,
    fun g => ?_⟩
  · rcases eq_or_ne u t with rfl | other
    · rwa [atT]
    · rw [elsewhere other]
      exact (sound.frames u).congr fun g near =>
        congrArg _ (others u other g (near.imp_right Or.inl))
  · rcases eq_or_ne u t with rfl | other
    · rw [atT] at pending ⊢
      exact poised p pending
    · rw [elsewhere other] at pending ⊢
      exact (sound.poised u p pending).congr fun g near =>
        congrArg _ (others u other g (near_of_pending pending near))
  · rcases eq_or_ne u t with rfl | uOther <;> rcases eq_or_ne v u with rfl | vOther
    · rfl
    · rw [atT] at atU
      rw [elsewhere vOther] at atV
      exact absurd atV (apart v f vOther atU)
    · rfl
    · rcases eq_or_ne v t with rfl | vOther'
      · rw [atT] at atV
        rw [elsewhere uOther] at atU
        exact absurd atU (apart u f uOther atV)
      · rw [elsewhere uOther] at atU
        rw [elsewhere vOther'] at atV
        exact sound.apart u v f atU atV
  · rw [kind]
    exact sound.main u m (threadFiber u ▸ has)
  · rw [created]
    simpa only [threadFiber] using law g

/-- Nothing depends on `m_state`. -/
theorem setState (sound : Sound s) (f : FiberId) (state : State) : Sound (s.setState f state) := by
  refine ⟨fun u => (sound.frames u).congr fun g _ => place_setState ..,
    fun u p pending => (sound.poised u p pending).congr fun g _ => place_setState ..,
    sound.apart, fun u m has => ?_, fun g => ?_⟩
  · exact (congrArg (·.1) (place_setState s f m state)).trans (sound.main u m has)
  · show FiberLaw _ _ g (Function.update s.fiber f _ g)
    have law := sound.fiber g
    rcases eq_or_ne g f with rfl | other
    · rw [Function.update_self]
      exact ⟨law.unborn, law.main, law.ctx, law.cur, law.goes⟩
    · rwa [Function.update_of_ne other]

/-- A thread that has a switch to come is where it was. -/
theorem prepare (sound : Sound s) {p : Pending}
    (poised : Poised s.fiber t ((s.thread t).prepared p) p)
    (apart : ∀ u f, u ≠ t → p.target = some f → (s.thread u).target ≠ some f) :
    Sound (s.setThread t ((s.thread t).prepared p)) := by
  refine sound.change rfl rfl rfl (fun _ => rfl) (fun _ _ _ _ => rfl) sound.fiber ?_
    (fun q pending => ?_) fun u f other target => apart u f other target
  · cases sound.frames t with
    | own flow waiting this => exact .own flow waiting this
    | task m f flow waiting this base main saved kind host =>
      exact .task m f flow waiting this base main saved kind host
    | root m r flow waiting this base first main saved kind host =>
      exact .root m r flow waiting this base first main saved kind host
    | nested m r f flow waiting this base first main saved rootKind rootHost rootSaved kind host =>
      exact .nested m r f flow waiting this base first main saved rootKind rootHost rootSaved kind
        host
  · cases pending
    exact poised

/-- **`swapIn` and `call`, up to `swapcontext`.** -/
theorem enter (sound : Sound s) (free : s.Free f)
    (poised : Poised s.fiber t ((s.thread t).prepared (.into base f)) (.into base f))
    (entered : s.enter t base f = some s') :
    Sound s' ∧ s'.thread t = (s.thread t).prepared (.into base f) := by
  obtain ⟨-, same⟩ := Option.ite_none_left_eq_some.mp entered
  cases same
  refine ⟨(sound.setState f .exec).prepare (t := t)
    (poised.congr fun g _ => place_setState ..) fun u g _ target => ?_, Function.update_self ..⟩
  cases target
  exact free.2 u

/-- **`swapOut` and `back`, up to `swapcontext`.** -/
theorem leave (sound : Sound s) {last : Bool}
    (poised : Poised s.fiber t ((s.thread t).prepared (.out base f last)) (.out base f last)) :
    Sound (s.leave t base f last) ∧
      (s.leave t base f last).thread t = (s.thread t).prepared (.out base f last) :=
  ⟨sound.prepare poised nofun, Function.update_self ..⟩

/-! ### The exchange of contexts -/

/-- **Into a fiber**, from the stack of the one whose context is saved. -/
theorem into (sound : Sound s) (stackful : (s.fiber f).kind.stackful)
    (idle : (s.fiber f).host = none) (other : f ≠ base)
    (own : (s.fiber base).kind = .main t ∨
      (s.fiber base).host = some t ∧ (s.fiber base).kind.stackful ∧
        (s.thread t).flow = .stack base)
    (pending : (s.thread t).pending = some (.into base f)) (switched : s.switch t = some s')
    (frames : Frames s'.fiber t (((s.thread t).pushed f).setFlow (.stack f))) : Sound s' := by
  obtain ⟨goes, thread, fiber, created⟩ :=
    switch_into (sound.fiber f) stackful other pending switched
  have atF : s'.fiber f = ((s.fiber f).hosted t).setCur (some f) := by
    rw [fiber, Function.update_self]
  have atBase : s'.fiber base = (s.fiber base).setCtx (.saved (s.thread t).flow) := by
    rw [fiber, Function.update_of_ne other.symm, Function.update_self]
  have elsewhere : ∀ g, g ≠ f → g ≠ base → s'.fiber g = s.fiber g := by
    intro g notF notBase
    rw [fiber, Function.update_of_ne notF, Function.update_of_ne notBase]
  have target : (s.thread t).target = some f := by
    unfold ThreadLocals.target
    rw [pending]
    rfl
  refine sound.change thread rfl created (fun g => ?_) (fun u different g near => ?_) (fun g => ?_)
    frames nofun nofun
  · rcases eq_or_ne g f with rfl | notF
    · rw [atF]
      rfl
    · rcases eq_or_ne g base with rfl | notBase
      · rw [atBase]
        rfl
      · rw [elsewhere g notF notBase]
  · refine elsewhere g ?_ ?_
    · rintro rfl
      rcases near with main | host | target'
      · rw [main] at stackful
        exact stackful
      · rw [idle] at host
        cases host
      · exact different (sound.apart u t g target' target)
    · rintro rfl
      -- the other fiber is of this thread
      rcases own with main | ⟨host, stack, -⟩ <;> rcases near with main' | host' | target'
      · rw [main] at main'
        exact different (Kind.main.inj main').symm
      · rw [((sound.fiber g).main t main).2] at host'
        cases host'
      · have stack := (sound.of_target target').1
        rw [main] at stack
        exact stack
      · rw [main'] at stack
        exact stack
      · rw [host] at host'
        exact different (Option.some.inj host').symm
      · rw [(sound.of_target target').2] at host
        cases host
  · rcases eq_or_ne g f with rfl | notF
    · rw [atF]
      have law := sound.fiber g
      refine ⟨fun late => ?_, fun u main => ?_, law.ctx, fun _ _ => rfl, fun _ _ => goes⟩
      · rw [(law.unborn late).1] at stackful
        exact stackful.elim
      · rw [show (s.fiber g).kind = .main u from main] at stackful
        exact stackful.elim
    · rcases eq_or_ne g base with rfl | notBase
      · rw [atBase]
        have law := sound.fiber g
        have stack : (s.fiber g).kind.stackful → (s.fiber g).host ≠ none ∧
            (s.thread t).flow = .stack g := by
          intro stack
          rcases own with main | ⟨host, -, flow⟩
          · rw [main] at stack
            exact stack.elim
          · exact ⟨by rw [host]; simp, flow⟩
        refine ⟨law.unborn, law.main, fun has => ?_, fun has _ => ?_, fun has _ => ?_⟩
        · exact .inr (congrArg Context.saved (stack has).2)
        · exact law.cur has (.inl (stack has).1)
        · exact law.goes has (.inl (stack has).1)
      · rw [elsewhere g notF notBase]
        exact sound.fiber g

/-- **Out of a fiber.** -/
theorem outOf (sound : Sound s) {flow : Flow n} {last : Bool}
    (stackful : (s.fiber f).kind.stackful) (host : (s.fiber f).host = some t)
    (running : (s.thread t).flow = .stack f) (other : f ≠ base)
    (pending : (s.thread t).pending = some (.out base f last))
    (saved : (s.fiber base).ctx = .saved flow)
    (goes : ∀ g, flow = .stack g → g ≠ f ∧ (s.fiber g).atEnd = false)
    (frames : ∀ fiber : FiberId → FiberObject n, (∀ g, g ≠ f → fiber g = s.fiber g) →
      Frames fiber t (((s.thread t).popped base).setFlow flow)) :
    ∃ s', s.switch t = some s' ∧ Sound s' ∧
      s'.thread t = ((s.thread t).popped base).setFlow flow := by
  obtain ⟨s', left, thread, fiber, created⟩ := switch_out other pending saved goes
  have atF : s'.fiber f = ((s.fiber f).unhosted last).setCtx (.saved (.stack f)) := by
    rw [fiber, Function.update_self, running]
  have elsewhere : ∀ g, g ≠ f → s'.fiber g = s.fiber g := by
    intro g notF
    rw [fiber, Function.update_of_ne notF]
  refine ⟨s', left, ?_, by rw [thread, Function.update_self]⟩
  refine sound.change thread rfl created (fun g => ?_) (fun u different g near => ?_) (fun g => ?_)
    (frames s'.fiber elsewhere) nofun nofun
  · rcases eq_or_ne g f with rfl | notF
    · rw [atF]
      rfl
    · rw [elsewhere g notF]
  · refine elsewhere g ?_
    rintro rfl
    rcases near with main | host' | target
    · rw [main] at stackful
      exact stackful
    · rw [host] at host'
      exact different (Option.some.inj host').symm
    · rw [(sound.of_target target).2] at host
      cases host
  · rcases eq_or_ne g f with rfl | notF
    · rw [atF]
      have law := sound.fiber g
      refine ⟨fun late => ?_, fun u main => ?_, fun _ => .inr rfl, fun has _ => ?_,
        fun _ stays => ?_⟩
      · rw [(law.unborn late).1] at stackful
        exact stackful.elim
      · rw [show (s.fiber g).kind = .main u from main] at stackful
        exact stackful.elim
      · exact law.cur stackful (.inl (by rw [host]; simp))
      · rcases stays with hosted | entry
        · exact absurd rfl hosted
        · cases entry
    · rw [elsewhere g notF]
      exact sound.fiber g

/-- **A thread switches to the fiber that it has prepared.** -/
theorem switchIn (sound : Sound s) (pending : (s.thread t).pending = some (.into base f))
    (switched : s.switch t = some s') :
    Sound s' ∧ s'.thread t = ((s.thread t).pushed f).setFlow (.stack f) := by
  have poised := sound.poised t _ pending
  have goes (stackful : (s.fiber f).kind.stackful) (other : f ≠ base) :
      s'.thread t = ((s.thread t).pushed f).setFlow (.stack f) ∧
        s'.fiber f = ((s.fiber f).hosted t).setCur (some f) ∧
        s'.fiber base = (s.fiber base).setCtx (.saved (s.thread t).flow) ∧
        ∀ g, g ≠ f → g ≠ base → s'.fiber g = s.fiber g := by
    obtain ⟨-, thread, fiber, -⟩ := switch_into (sound.fiber f) stackful other pending switched
    refine ⟨by rw [thread, Function.update_self], by rw [fiber, Function.update_self], ?_, ?_⟩
    · rw [fiber, Function.update_of_ne other.symm, Function.update_self]
    · intro g notF notBase
      rw [fiber, Function.update_of_ne notF, Function.update_of_ne notBase]
  cases poised with
  | task _ _ native isMain mainKind kind idle =>
    have stackful : (s.fiber f).kind.stackful := by rw [kind]; trivial
    have other : f ≠ base := by
      rintro rfl
      rw [kind] at mainKind
      cases mainKind
    obtain ⟨thread, atF, atBase, -⟩ := goes stackful other
    refine ⟨sound.into stackful idle other (.inl mainKind) pending switched ?_, thread⟩
    cases sound.frames t with
    | own _ waiting this =>
      refine .task base f rfl ?_ rfl isMain ?_ ?_ ?_ ?_
      · show (s.thread t).flow :: (s.thread t).waiting = _
        rw [native, waiting]
      · rw [atBase]
        exact mainKind
      · rw [atBase]
        exact congrArg Context.saved native
      · rw [atF]
        exact kind
      · rw [atF]
        rfl
    | task _ _ flow | root _ _ flow | nested _ _ _ flow =>
      rw [native] at flow
      cases flow
  | nested _ _ running isMain rootKind host kind idle =>
    have stackful : (s.fiber f).kind.stackful := by rw [kind]; trivial
    have rStackful : (s.fiber base).kind.stackful := by rw [rootKind]; trivial
    have other : f ≠ base := by
      rintro rfl
      rw [kind] at rootKind
      cases rootKind
    obtain ⟨thread, atF, atBase, elsewhere⟩ := goes stackful other
    refine ⟨sound.into stackful idle other (.inr ⟨host, rStackful, running⟩) pending switched ?_,
      thread⟩
    cases sound.frames t with
    | own native =>
      rw [native] at running
      cases running
    | task _ _ flow _ _ _ _ _ taskKind | nested _ _ _ flow _ _ _ _ _ _ _ _ _ taskKind =>
      rw [flow] at running
      cases running
      rw [taskKind] at rootKind
      cases rootKind
    | root m r flow waiting this _ first mainKind saved _ _ =>
      rw [flow] at running
      cases running
      have notR : m ≠ base := by
        rintro rfl
        rw [mainKind] at rootKind
        cases rootKind
      have notF : m ≠ f := by
        rintro rfl
        rw [mainKind] at kind
        cases kind
      have atMain := elsewhere m notF notR
      refine .nested m base f rfl ?_ rfl isMain first ?_ ?_ ?_ ?_ ?_ ?_ ?_
      · show (s.thread t).flow :: (s.thread t).waiting = _
        rw [flow, waiting]
      · rwa [atMain]
      · rwa [atMain]
      · rw [atBase]
        exact rootKind
      · rw [atBase]
        exact host
      · rw [atBase]
        exact congrArg Context.saved flow
      · rw [atF]
        exact kind
      · rw [atF]
        rfl
  | root _ _ native isMain mainKind first kind idle =>
    have stackful : (s.fiber f).kind.stackful := by rw [kind]; trivial
    have other : f ≠ base := by
      rintro rfl
      rw [kind] at mainKind
      cases mainKind
    obtain ⟨thread, atF, atBase, -⟩ := goes stackful other
    refine ⟨sound.into stackful idle other (.inl mainKind) pending switched ?_, thread⟩
    cases sound.frames t with
    | own _ waiting this =>
      refine .root base f rfl ?_ rfl isMain first ?_ ?_ ?_ ?_
      · show (s.thread t).flow :: (s.thread t).waiting = _
        rw [native, waiting]
      · rw [atBase]
        exact mainKind
      · rw [atBase]
        exact congrArg Context.saved native
      · rw [atF]
        exact kind
      · rw [atF]
        rfl
    | task _ _ flow | root _ _ flow | nested _ _ _ flow =>
      rw [native] at flow
      cases flow

/-- **A thread switches out of its fiber**: to the stack that waits for it. -/
theorem switchOut (sound : Sound s) {last : Bool}
    (pending : (s.thread t).pending = some (.out base f last)) :
    ∃ s', s.switch t = some s' ∧ Sound s' ∧
      (s.thread t).waiting = (s'.thread t).flow :: (s'.thread t).waiting := by
  have poised := sound.poised t _ pending
  -- the stack that waits innermost goes on
  have back {flow : Flow n} {rest : List (Flow n)} (waiting : (s.thread t).waiting = flow :: rest)
      (left : ∃ s', s.switch t = some s' ∧ Sound s' ∧
        s'.thread t = ((s.thread t).popped base).setFlow flow) :
      ∃ s', s.switch t = some s' ∧ Sound s' ∧
        (s.thread t).waiting = (s'.thread t).flow :: (s'.thread t).waiting := by
    obtain ⟨s', switched, sound', thread⟩ := left
    refine ⟨s', switched, sound', ?_⟩
    rw [thread]
    show (s.thread t).waiting = flow :: (s.thread t).waiting.tail
    rw [waiting]
    rfl
  cases poised with
  | swapOut _ _ _ running isMain kind host =>
    have stackful : (s.fiber f).kind.stackful := by rw [kind]; trivial
    cases sound.frames t with
    | own native =>
      rw [native] at running
      cases running
    | root _ _ flow _ _ _ _ _ _ rootKind =>
      rw [flow] at running
      cases running
      rw [rootKind] at kind
      cases kind
    | task m g _ waiting this isMain' mainKind saved _ _ =>
      cases isMain.symm.trans isMain'
      have other : f ≠ base := by
        rintro rfl
        rw [kind] at mainKind
        cases mainKind
      refine back waiting (sound.outOf stackful host running other pending saved
        (fun g isFlow => by cases isFlow) fun fiber _ => ?_)
      exact .own rfl (congrArg List.tail waiting) ((sound.fiber base).main t mainKind).1.symm
    | nested m r g _ waiting this isMain' first mainKind saved rootKind rootHost rootSaved _ _ =>
      cases isMain.symm.trans isMain'
      have rStackful : (s.fiber base).kind.stackful := by rw [rootKind]; trivial
      have other : f ≠ base := by
        rintro rfl
        rw [kind] at rootKind
        cases rootKind
      have notM : m ≠ f := by
        rintro rfl
        rw [mainKind] at kind
        cases kind
      have rGoes : (s.fiber base).atEnd = false :=
        (sound.fiber base).goes rStackful (.inl (by rw [rootHost]; simp))
      refine back waiting (sound.outOf stackful host running other pending rootSaved
        (fun g isFlow => by cases isFlow; exact ⟨other.symm, rGoes⟩) fun fiber same => ?_)
      have sameM := same m notM
      have sameR := same base other.symm
      exact .root m base rfl (congrArg List.tail waiting) rfl isMain first (sameM ▸ mainKind)
        (sameM ▸ saved) (sameR ▸ rootKind) (sameR ▸ rootHost)
  | back _ _ _ running first kind host =>
    have stackful : (s.fiber f).kind.stackful := by rw [kind]; trivial
    cases sound.frames t with
    | own native =>
      rw [native] at running
      cases running
    | task _ _ flow _ _ _ _ _ taskKind | nested _ _ _ flow _ _ _ _ _ _ _ _ _ taskKind =>
      rw [flow] at running
      cases running
      rw [taskKind] at kind
      cases kind
    | root m r _ waiting this isMain first' mainKind saved _ _ =>
      cases first.symm.trans first'
      have other : f ≠ base := by
        rintro rfl
        rw [kind] at mainKind
        cases mainKind
      refine back waiting (sound.outOf stackful host running other pending saved
        (fun g isFlow => by cases isFlow) fun fiber _ => ?_)
      exact .own rfl (congrArg List.tail waiting) first.symm

/-! ### The steps before it -/

/-- **`run()` swaps a task in.** -/
theorem swapIn (sound : Sound s) (inRun : s.inRun t) (kind : (s.fiber f).kind = .sub)
    (free : s.Free f) (stepped : s.swapIn t f = some s') :
    Sound s' ∧ ∃ base, s'.thread t = (s.thread t).prepared (.into base f) := by
  obtain ⟨m, main, flow⟩ := inRun
  obtain ⟨m', main', entered⟩ := Option.bind_eq_some_iff.mp stepped
  cases main.symm.trans main'
  have poised : Poised s.fiber t ((s.thread t).prepared (.into m f)) (.into m f) := by
    cases sound.frames t with
    | own native =>
      exact .task m f native main (home_eq_native.mp (flow.symm.trans native)) kind free.1
    | root _ r running _ _ base _ _ _ rootKind host =>
      cases base.symm.trans main
      exact .nested m f running main rootKind host kind free.1
    | task _ _ running _ _ base mainKind =>
      cases base.symm.trans main
      rw [running, home_eq_native.mpr mainKind] at flow
      cases flow
    | nested _ _ _ running _ _ base _ _ _ rootKind _ _ taskKind =>
      cases base.symm.trans main
      have rStackful : (s.fiber m).kind.stackful := by rw [rootKind]; trivial
      rw [running, home_of_stackful rStackful] at flow
      cases flow
      rw [taskKind] at rootKind
      cases rootKind
  obtain ⟨sound', thread⟩ := sound.enter free poised entered
  exact ⟨sound', m, thread⟩

/-- **`stop()` calls the root fiber.** -/
theorem call (sound : Sound s) (native : (s.thread t).flow = .native t)
    (main : (s.thread t).mainFiber = some f) (kind : (s.fiber f).kind = .root) (free : s.Free f)
    (stepped : s.call t f = some s') :
    Sound s' ∧ ∃ base, s'.thread t = (s.thread t).prepared (.into base f) := by
  obtain ⟨m, first, entered⟩ := Option.bind_eq_some_iff.mp stepped
  obtain ⟨sound', thread⟩ := sound.enter free
    (.root m f native main (sound.main t m first) first kind free.1) entered
  exact ⟨sound', m, thread⟩

/-- What a task that runs is like. -/
theorem of_inTask (sound : Sound s) (inTask : s.inTask t) :
    ∃ f base, (s.thread t).flow = .stack f ∧ (s.thread t).tFiber = some f ∧
      (s.thread t).mainFiber = some base ∧ (s.fiber f).kind = .sub ∧ (s.fiber f).host = some t := by
  unfold Switching.inTask at inTask
  cases sound.frames t with
  | own flow =>
    rw [flow] at inTask
    exact inTask.elim
  | root _ _ flow _ _ _ _ _ _ kind =>
    rw [flow] at inTask
    rw [show (s.fiber _).kind = .sub from inTask] at kind
    cases kind
  | task m f flow _ this base _ _ kind host => exact ⟨f, m, flow, this, base, kind, host⟩
  | nested _ r f flow _ this base _ _ _ _ _ _ kind host =>
    exact ⟨f, r, flow, this, base, kind, host⟩

/-- What leaves is prepared for it. -/
def Leaves (s : Switching n) (t : Fin n) (r : Option (Switching n)) : Prop :=
  ∃ s' base f last, r = some s' ∧ Sound s' ∧
    s'.thread t = (s.thread t).prepared (.out base f last)

/-- A task calls `swapOut`. -/
theorem swapOut (sound : Sound s) {last : Bool} (flow : (s.thread t).flow = .stack f)
    (main : (s.thread t).mainFiber = some base) (kind : (s.fiber f).kind = .sub)
    (host : (s.fiber f).host = some t) : Leaves s t (s.swapOut t f last) := by
  obtain ⟨sound', thread⟩ := sound.leave (.swapOut base f last flow main kind host)
  refine ⟨_, base, f, last, ?_, sound', thread⟩
  unfold Switching.swapOut
  rw [main]
  rfl

/-- The fiber is where it was. -/
theorem kind_setState {g : FiberId} {state : State} :
    ((s.setState f state).fiber g).kind = (s.fiber g).kind :=
  congrArg (·.1) (place_setState s f g state)

theorem host_setState {g : FiberId} {state : State} :
    ((s.setState f state).fiber g).host = (s.fiber g).host :=
  congrArg (·.2.2) (place_setState s f g state)

/-- **A task yields.** -/
theorem yieldTo (sound : Sound s) {state : State} (inTask : s.inTask t) :
    Leaves s t (s.yieldTo t state) := by
  obtain ⟨f, base, flow, this, main, kind, host⟩ := sound.of_inTask inTask
  have itself : s.getThis t = (f, s) := by
    unfold Switching.getThis
    rw [this]
  unfold Switching.yieldTo
  rw [itself]
  exact (sound.setState f state).swapOut flow main (kind_setState.trans kind)
    (host_setState.trans host)

/-- **`idle()` ends its round.** -/
theorem idleOut (sound : Sound s) (inTask : s.inTask t) : Leaves s t (s.idleOut t) := by
  obtain ⟨f, base, flow, this, main, kind, host⟩ := sound.of_inTask inTask
  have itself : s.getThis t = (f, s) := by
    unfold Switching.getThis
    rw [this]
  unfold Switching.idleOut
  rw [itself]
  exact sound.swapOut flow main kind host

/-- **A fiber's function ends.** -/
theorem finish (sound : Sound s) {state : State} (inFiber : (s.thread t).flow ≠ .native t) :
    Leaves s t (s.finish t state) := by
  have writes {f : FiberId} (kind : (s.fiber f).kind.stackful) (host : (s.fiber f).host = some t)
      (flow : (s.thread t).flow = .stack f) :
      s.finish t state = if (s.fiber f).kind = .root
        then (s.setState f state).back t f true else (s.setState f state).swapOut t f true := by
    have cur := (sound.fiber f).cur kind (.inl (by rw [host]; simp))
    unfold Switching.finish
    rw [flow]
    show (s.fiber f).cur.bind _ = _
    rw [cur]
    rfl
  have ofTask {f base : FiberId} (flow : (s.thread t).flow = .stack f)
      (main : (s.thread t).mainFiber = some base) (kind : (s.fiber f).kind = .sub)
      (host : (s.fiber f).host = some t) : Leaves s t (s.finish t state) := by
    rw [writes (by rw [kind]; trivial) host flow, if_neg (by rw [kind]; nofun)]
    exact (sound.setState f state).swapOut flow main (kind_setState.trans kind)
      (host_setState.trans host)
  cases sound.frames t with
  | own flow => exact absurd flow inFiber
  | task _ _ flow _ _ base _ _ kind host => exact ofTask flow base kind host
  | nested _ _ _ flow _ _ base _ _ _ _ _ _ kind host => exact ofTask flow base kind host
  | root m r flow _ _ _ first _ _ kind host =>
    rw [writes (by rw [kind]; trivial) host flow, if_pos kind]
    obtain ⟨sound', thread⟩ := (sound.setState r state).leave (t := t)
      (.back m r true flow first (kind_setState.trans kind) (host_setState.trans host))
    refine ⟨_, m, r, true, ?_, sound', thread⟩
    unfold Switching.back
    rw [show ((s.setState r state).thread t).threadFiber = some m from first]
    rfl

/-! ### The other steps -/

/-- **A fiber that is nobody's is made anew.** -/
theorem renew (sound : Sound s) {o : FiberObject n} {created : Nat}
    (notMain : ∀ u, (s.fiber f).kind ≠ .main u) (free : s.Free f)
    (grows : s.created ≤ created) (made : f < created) (stackful : o.kind.stackful)
    (ctx : o.ctx = .entry) (host : o.host = none) (goes : o.atEnd = false) :
    Sound ⟨s.thread, Function.update s.fiber f o, created⟩ := by
  have far {u : Fin n} {g : FiberId} (near : s.Near u g) : g ≠ f := by
    rintro rfl
    rcases near with main | hosted | target
    · exact notMain u main
    · rw [free.1] at hosted
      cases hosted
    · exact free.2 u target
  have same {u : Fin n} {g : FiberId} (near : s.Near u g) :
      (Function.update s.fiber f o g).place = (s.fiber g).place := by
    rw [Function.update_of_ne (far near)]
  refine ⟨fun u => (sound.frames u).congr fun g near => same (near.imp_right Or.inl),
    fun u p pending => (sound.poised u p pending).congr fun g near =>
      same (near_of_pending pending near),
    sound.apart, fun u m has => ?_, fun g => ?_⟩
  · have kind := sound.main u m has
    show (Function.update s.fiber f o m).kind = _
    rwa [Function.update_of_ne (far (.inl kind))]
  · show FiberLaw created _ g (Function.update s.fiber f o g)
    rcases eq_or_ne g f with rfl | other
    · rw [Function.update_self]
      refine ⟨fun late => absurd late (Nat.not_le.mpr made), fun u main => ?_, fun _ => .inl ctx,
        fun _ has => ?_, fun _ _ => goes⟩
      · rw [main] at stackful
        exact stackful.elim
      · rw [host, ctx] at has
        simp at has
    · rw [Function.update_of_ne other]
      have law := sound.fiber g
      exact { law with unborn := fun late => law.unborn (grows.trans late) }

/-- A fiber that is yet to be made is no thread's. -/
theorem not_near_created (sound : Sound s) : ¬ s.Near t s.created := by
  have unborn := (sound.fiber s.created).unborn le_rfl
  rintro (main | host | target)
  · rw [unborn.1] at main
    cases main
  · rw [unborn.2] at host
    cases host
  · have stackful := (sound.of_target target).1
    rw [unborn.1] at stackful
    exact stackful

theorem newFiber (sound : Sound s) {kind : Kind n} (stackful : kind.stackful) :
    Sound (s.newFiber kind) := by
  have unborn := (sound.fiber s.created).unborn le_rfl
  refine sound.renew (fun u main => sound.not_near_created (.inl main)) ⟨unborn.2, fun u target =>
    sound.not_near_created (.inr (.inr target))⟩ (Nat.le_succ _) (Nat.lt_succ_self _) stackful rfl
    rfl rfl

theorem reset (sound : Sound s) (kind : (s.fiber f).kind = .sub) (free : s.Free f)
    (stepped : s.reset f = some s') : Sound s' := by
  have made : f < s.created := by
    by_contra late
    rw [((sound.fiber f).unborn (Nat.not_lt.mp late)).1] at kind
    cases kind
  unfold Switching.reset at stepped
  rw [kind] at stepped
  split at stepped
  all_goals cases stepped
  all_goals
    exact sound.renew (fun u main => by rw [kind] at main; cases main) free le_rfl made trivial
      rfl free.1 rfl

/-- **A thread's main fiber is made** when the thread has none. -/
theorem getThis (sound : Sound s) (rests : (s.thread t).pending = none) :
    Sound (s.getThis t).2 := by
  unfold Switching.getThis
  split
  next => exact sound
  next noFiber =>
    have shape : (s.thread t).flow = .native t ∧ (s.thread t).waiting = [] ∧
        (s.thread t).threadFiber = none := by
      cases sound.frames t with
      | own flow waiting this => exact ⟨flow, waiting, this ▸ noFiber⟩
      | task _ _ _ _ this | root _ _ _ _ this | nested _ _ _ _ _ this =>
        rw [noFiber] at this
        cases this
    obtain ⟨flow, waiting, noMain⟩ := shape
    have same {u : Fin n} {g : FiberId} (near : s.Near u g) {o : FiberObject n} :
        (Function.update s.fiber s.created o g).place = (s.fiber g).place := by
      rw [Function.update_of_ne]
      rintro rfl
      exact sound.not_near_created near
    have target (u : Fin n) :
        (Function.update s.thread t ((s.thread t).withMain s.created) u).target =
          (s.thread u).target := by
      rcases eq_or_ne u t with rfl | other
      · rw [Function.update_self]
        rfl
      · rw [Function.update_of_ne other]
    refine ⟨fun u => ?_, fun u p pending => ?_, fun u v f atU atV => ?_, fun u m has => ?_,
      fun g => ?_⟩
    · show Frames (Function.update s.fiber s.created _) u (Function.update s.thread t _ u)
      rcases eq_or_ne u t with rfl | other
      · rw [Function.update_self]
        exact .own flow waiting rfl
      · rw [Function.update_of_ne other]
        exact (sound.frames u).congr fun g near => same (near.imp_right Or.inl)
    · have pending : (Function.update s.thread t _ u).pending = some p := pending
      show Poised (Function.update s.fiber s.created _) u (Function.update s.thread t _ u) p
      rcases eq_or_ne u t with rfl | other
      · rw [Function.update_self] at pending
        cases rests.symm.trans pending
      · rw [Function.update_of_ne other] at pending ⊢
        exact (sound.poised u p pending).congr fun g near => same (near_of_pending pending near)
    · exact sound.apart u v f ((target u).symm.trans atU) ((target v).symm.trans atV)
    · show (Function.update s.fiber s.created _ m).kind = _
      have has : (Function.update s.thread t _ u).threadFiber = some m := has
      rcases eq_or_ne u t with rfl | other
      · rw [Function.update_self] at has
        cases has
        rw [Function.update_self]
      · rw [Function.update_of_ne other] at has
        have kind := sound.main u m has
        rw [Function.update_of_ne]
        · exact kind
        · rintro rfl
          exact sound.not_near_created (.inl kind)
    · show FiberLaw (s.created + 1) (fun u => (Function.update s.thread t _ u).threadFiber) g
        (Function.update s.fiber s.created _ g)
      rcases eq_or_ne g s.created with rfl | old
      · rw [Function.update_self]
        refine ⟨fun late => absurd late (Nat.not_le.mpr (Nat.lt_succ_self _)), fun u main => ?_,
          fun has => has.elim, fun has => has.elim, fun has => has.elim⟩
        cases main
        exact ⟨by rw [Function.update_self]; rfl, rfl⟩
      · rw [Function.update_of_ne old]
        have law := sound.fiber g
        refine { law with
          unborn := fun late => law.unborn ((Nat.le_succ _).trans late)
          main := fun u main => ?_ }
        obtain ⟨first, rest⟩ := law.main u main
        have other : u ≠ t := by
          rintro rfl
          rw [noMain] at first
          cases first
        rw [Function.update_of_ne other]
        exact ⟨first, rest⟩

/-- `GetThis()` changes neither what runs nor what is to come. -/
theorem getThis_thread : ((s.getThis t).2.thread t).flow = (s.thread t).flow ∧
    ((s.getThis t).2.thread t).pending = (s.thread t).pending := by
  unfold Switching.getThis
  split
  · exact ⟨rfl, rfl⟩
  · show (Function.update s.thread t _ t).flow = _ ∧ (Function.update s.thread t _ t).pending = _
    rw [Function.update_self]
    exact ⟨rfl, rfl⟩

/-- The scheduler's `t_fiber` is set on the thread's own stack. -/
theorem setMainFiber (sound : Sound s) (native : (s.thread t).flow = .native t)
    (rests : (s.thread t).pending = none) : Sound (s.setMainFiber t f) := by
  refine sound.change rfl rfl rfl (fun _ => rfl) (fun _ _ _ _ => rfl) sound.fiber ?_
    (fun p pending => ?_) fun u g _ target => ?_
  · cases sound.frames t with
    | own flow waiting this => exact .own flow waiting this
    | task _ _ flow | root _ _ flow | nested _ _ _ flow =>
      rw [native] at flow
      cases flow
  · cases rests.symm.trans pending
  · unfold ThreadLocals.target at target
    rw [show ((s.thread t).setMain f).pending = none from rests] at target
    cases target

/-- **One step.** -/
theorem step (sound : Sound s) {e : SwitchEvent n} (proper : Proper s e)
    (stepped : (switching n).step s e = some s') : Sound s' := by
  obtain ⟨calm, acted⟩ := Option.ite_none_left_eq_some.mp
    (show (if _ then none else s.act e) = some s' from stepped)
  have rests {t : Fin n} (caller : e.caller = some t) : (s.thread t).pending = none := by
    rw [caller] at calm
    simpa using calm
  have leaves {t : Fin n} {r : Option (Switching n)} (goes : Leaves s t r) (same : r = some s') :
      Sound s' := by
    obtain ⟨s₁, -, -, -, ran, sound', -⟩ := goes
    cases ran.symm.trans same
    exact sound'
  cases e with
  | getThis t =>
    cases acted
    exact sound.getThis (rests rfl)
  | newFiber =>
    cases acted
    exact sound.newFiber trivial
  | construct t =>
    cases acted
    have stackful : (Kind.root : Kind n).stackful := trivial
    exact ((sound.getThis (rests rfl)).newFiber stackful).setMainFiber
      (getThis_thread.1.trans proper) (getThis_thread.2.trans (rests rfl))
  | enterRun t =>
    cases acted
    exact (sound.getThis (rests rfl)).setMainFiber (getThis_thread.1.trans proper)
      (getThis_thread.2.trans (rests rfl))
  | swapIn t f => exact (sound.swapIn proper.1 proper.2.1 proper.2.2 acted).1
  | call t f =>
    obtain ⟨native, main, kind, free⟩ := proper
    exact (sound.call native main kind free acted).1
  | yieldToReady t | yieldToHold t => exact leaves (sound.yieldTo proper) acted
  | idleOut t => exact leaves (sound.idleOut proper) acted
  | finish t threw => exact leaves (sound.finish proper) acted
  | hold t f =>
    obtain ⟨-, same⟩ := Option.ite_none_left_eq_some.mp acted
    cases same
    exact sound.setState f .hold
  | reset f => exact sound.reset proper.1 proper.2 acted
  | switch t =>
    have acted : s.switch t = some s' := acted
    cases pending : (s.thread t).pending with
    | none =>
      unfold Switching.switch at acted
      rw [pending] at acted
      cases acted
    | some p =>
      cases p with
      | into base f => exact (sound.switchIn pending acted).1
      | out base f last =>
        obtain ⟨s₁, ran, sound', -⟩ := sound.switchOut pending
        cases ran.symm.trans acted
        exact sound'

/-- **Every reachable state.** -/
theorem reachable (reached : (switching n).ReachableWhen Proper s) : Sound s := by
  refine reached.invariant (fun s begins => ?_) fun s e s' sound proper stepped =>
    sound.step proper stepped
  cases begins
  refine ⟨fun t => .own rfl rfl rfl, nofun, nofun, nofun, fun f => ⟨fun _ => ⟨rfl, rfl⟩, nofun,
    fun has => has.elim, fun has => has.elim, fun has => has.elim⟩⟩

/-- The stacks on a thread are those of the fibers that are swapped in on it. -/
theorem host_of_mem (sound : Sound s)
    (there : Flow.stack f ∈ (s.thread t).flow :: (s.thread t).waiting) :
    (s.fiber f).host = some t := by
  cases sound.frames t with
  | own flow waiting =>
    rw [flow, waiting] at there
    simp at there
  | task _ g flow waiting _ _ _ _ _ host | root _ g flow waiting _ _ _ _ _ _ host =>
    rw [flow, waiting] at there
    have same : f = g := by simpa using there
    rwa [same]
  | nested _ r g flow waiting _ _ _ _ _ _ rootHost _ _ host =>
    rw [flow, waiting] at there
    have which : f = g ∨ f = r := by simpa using there
    rcases which with same | same <;> rwa [same]

/-- `t_fiber` names the fiber whose stack runs. -/
theorem flow_of_tFiber (sound : Sound s) (this : (s.thread t).tFiber = some f) :
    (s.thread t).flow = s.home f := by
  have onStack {g : FiberId} (flow : (s.thread t).flow = .stack g)
      (that : (s.thread t).tFiber = some g) (kind : (s.fiber g).kind.stackful) :
      (s.thread t).flow = s.home f := by
    cases that.symm.trans this
    rw [flow, home_of_stackful kind]
  cases sound.frames t with
  | own flow _ first =>
    rw [flow, home_eq_native.mpr (sound.main t f (first ▸ this))]
  | task _ _ flow _ that _ _ _ kind => exact onStack flow that (by rw [kind]; trivial)
  | root _ _ flow _ that _ _ _ _ kind => exact onStack flow that (by rw [kind]; trivial)
  | nested _ _ _ flow _ that _ _ _ _ _ _ _ kind => exact onStack flow that (by rw [kind]; trivial)

end Sound

/-- **Every switch goes where it should.** -/
theorem control_returns {s : Switching n} (reached : (switching n).ReachableWhen Proper s) :
    (∀ t f, (s.thread t).tFiber = some f → (s.thread t).flow = s.home f) ∧
      (∀ t u f, Flow.stack f ∈ (s.thread t).flow :: (s.thread t).waiting →
        Flow.stack f ∈ (s.thread u).flow :: (s.thread u).waiting → t = u) ∧
      (∀ t f e s', e.enters t f → Proper s e → (switching n).step s e = some s' →
        ∃ base, s'.thread t = (s.thread t).prepared (.into base f)) ∧
      (∀ t base f s', (s.thread t).pending = some (.into base f) →
        (switching n).step s (.switch t) = some s' → (s'.thread t).flow = .stack f ∧
          (s'.thread t).waiting = (s.thread t).flow :: (s.thread t).waiting) ∧
      (∀ t e, e.leaves t → Proper s e → (s.thread t).pending = none →
        ∃ s' base f last, (switching n).step s e = some s' ∧
          s'.thread t = (s.thread t).prepared (.out base f last)) ∧
      ∀ t base f last, (s.thread t).pending = some (.out base f last) →
        ∃ s', (switching n).step s (.switch t) = some s' ∧
          (s.thread t).waiting = (s'.thread t).flow :: (s'.thread t).waiting := by
  have sound := Sound.reachable reached
  refine ⟨fun t f this => sound.flow_of_tFiber this, fun t u f onT onU => ?_, ?_, ?_, ?_, ?_⟩
  · exact Option.some.inj ((sound.host_of_mem onT).symm.trans (sound.host_of_mem onU))
  · intro t f e s' enters proper stepped
    obtain ⟨-, acted⟩ := Option.ite_none_left_eq_some.mp
      (show (if _ then none else s.act e) = some s' from stepped)
    cases e with
    | swapIn u g =>
      obtain ⟨rfl, rfl⟩ := enters
      exact (sound.swapIn proper.1 proper.2.1 proper.2.2 acted).2
    | call u g =>
      obtain ⟨rfl, rfl⟩ := enters
      obtain ⟨native, main, kind, free⟩ := proper
      exact (sound.call native main kind free acted).2
    | _ => exact enters.elim
  · intro t base f s' pending stepped
    have goes := (sound.switchIn pending stepped).2
    rw [goes]
    exact ⟨rfl, rfl⟩
  · intro t e leaves proper rests
    have goes (caller : e.caller = some t) (left : Sound.Leaves s t (s.act e)) :
        ∃ s' base f last, (switching n).step s e = some s' ∧
          s'.thread t = (s.thread t).prepared (.out base f last) := by
      obtain ⟨s', base, f, last, acted, -, thread⟩ := left
      refine ⟨s', base, f, last, ?_, thread⟩
      show (if e.caller.any _ then none else s.act e) = some s'
      rw [caller, acted]
      simp [rests]
    cases e with
    | yieldToReady u | yieldToHold u =>
      cases leaves
      exact goes rfl (sound.yieldTo proper)
    | idleOut u =>
      cases leaves
      exact goes rfl (sound.idleOut proper)
    | finish u threw =>
      cases leaves
      exact goes rfl (sound.finish proper)
    | _ => exact leaves.elim
  · intro t base f last pending
    obtain ⟨s', switched, -, back⟩ := sound.switchOut pending
    exact ⟨s', switched, back⟩

/-- A task above the root fiber holds, and then the contexts are exchanged: the root fiber goes
on. -/
theorem control_returns_nested : ∃ s s' s'' : Switching 1,
    (switching 1).ReachableWhen Proper s ∧ (s.thread 0).flow = .stack 2 ∧
      (switching 1).step s (.yieldToHold 0) = some s' ∧ (s'.thread 0).flow = .stack 2 ∧
      (switching 1).step s' (.switch 0) = some s'' ∧ (s''.thread 0).flow = .stack 1 ∧
      (s''.thread 0).waiting = [.native 0] := by
  have run : ∃ s, (switching 1).ReachableWhen Proper s ∧
      decide ((s.thread 0).flow = .stack 2 ∧ (s.thread 0).waiting = [.stack 1, .native 0] ∧
        s.inTask 0 ∧ (s.thread 0).pending = none) = true :=
    Machine.reachableWhen_of_replay rfl
      [.construct 0, .newFiber, .call 0 1, .switch 0, .swapIn 0 2, .switch 0] _ (by decide)
  obtain ⟨s, reached, check⟩ := run
  obtain ⟨flow, waiting, inTask, rests⟩ := of_decide_eq_true check
  have proper : Proper s (.yieldToHold 0) := inTask
  obtain ⟨s', base, f, last, held, thread⟩ :=
    (control_returns reached).2.2.2.2.1 0 (.yieldToHold 0) rfl proper rests
  obtain ⟨s'', switched, back⟩ :=
    (control_returns (.step reached proper held)).2.2.2.2.2 0 base f last (by rw [thread]; rfl)
  rw [thread] at back
  obtain ⟨flow', waiting'⟩ := List.cons_eq_cons.mp (waiting.symm.trans back)
  exact ⟨s, s', s'', reached, flow, held, by rw [thread]; exact flow, switched, flow'.symm,
    waiting'.symm⟩

/-- **A fiber that is not handed over**: a thread has written `HOLD` and not exchanged the contexts,
another one swaps the fiber in, and its stack is on both. -/
theorem stack_on_two_threads : ∃ s : Switching 2, (switching 2).Reachable s ∧
    (s.thread 0).flow = .stack 2 ∧ (s.thread 1).flow = .stack 2 := by
  have run := Machine.reachable_of_replay (m := switching 2) rfl
    [.enterRun 0, .enterRun 1, .newFiber, .swapIn 0 2, .switch 0, .yieldToHold 0, .swapIn 1 2,
      .switch 1]
    (fun s => decide ((s.thread 0).flow = .stack 2 ∧ (s.thread 1).flow = .stack 2)) (by decide)
  simpa only [decide_eq_true_eq] using run

end Sylar.Fibers
