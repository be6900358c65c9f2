/-
**What `close` leaves in the event table.**

The event table and the table of `FdCtx` objects are indexed by the same numbers, which the kernel
gives again. `close` cancels the events of a descriptor only if there is an `FdCtx` for it; a pipe has
none, and `add_event` asks for none. And it calls `cancel_all` before `close_f`, with nothing in
between that keeps `add_event` out.

* `Closes` — threads on the event table, as in a `Race`, that also make and close descriptors.
* `NothingLeft` — what is asked of a descriptor from the return of `close` on, until `add_event`
  registers it again.
* `Orderly` — the condition: a descriptor closed without an `FdCtx` has no events, and no `add_event`
  is under way on it from the end of `cancel_all` to `close_f`.
* `nothing_left` — **under it, nothing is left.**
* `leftover_of_registered` — **what is registered when `close_f` is called always is left**:
  `pipe_leftover`, where the next `add_event` on the number fails for it, and `late_leftover`.
-/

import Sylar.EventTable.Fired
import Sylar.Hook.FdManager

namespace Sylar.Hook

open Sylar.Library
open Sylar.EventTable (IOManager Race Progress Operation Paid Sound Books)

/-! ### Threads that close -/

/-- How far a hooked `close(fd)` has got. -/
inductive ClosePc
  /-- `cancel_all` comes next -/
  | cancel (fd : Nat)
  /-- in `cancel_all`, past its `epoll_ctl` -/
  | cancelling (fd : Nat)
  /-- `delFdCtx` comes next -/
  | drop (fd : Nat)
  /-- `close_f` comes next -/
  | release (fd : Nat)
deriving DecidableEq

/-- `cancel_all` has returned, or is not called. -/
def ClosePc.parts (i : Nat) : ClosePc → Bool
  | .cancel _ | .cancelling _ => false
  | .drop fd | .release fd => fd == i

/-- The event table with its threads, the table of contexts, and the numbers that are open. `deleted`
has the registrations removed by `del_event`; `settled` the descriptors that a hooked `close` has
returned for, with no `add_event` past its `epoll_ctl` since. -/
structure Closes (n : Nat) where
  race : Race n
  fdMgr : FdManger
  isOpen : Nat → Bool
  closing : Fin n → Option ClosePc
  deleted : List Nat
  settled : Nat → Bool

/-- A step of a thread. -/
inductive CloseStep (n : Nat)
  /-- the kernel gives a number, to a hooked `socket` or to any other call -/
  | create (fd : Nat) (hooked : Bool)
  /-- the first part of an operation -/
  | begin (t : Fin n) (fault : Bool) (operation : Operation)
  /-- its commit -/
  | commit (t : Fin n)
  /-- `close`, up to `getFdCtx`; without hooks it is `close_f` -/
  | close (t : Fin n) (fd : Nat) (hooked : Bool)
  | cancel (t : Fin n) (fd : Nat) (fault : Bool)
  | cancelled (t : Fin n) (fd : Nat)
  | drop (t : Fin n) (fd : Nat)
  | release (t : Fin n) (fd : Nat)
deriving DecidableEq

variable {n : Nat}

namespace Closes

variable (s : Closes n)

def initial (n : Nat) : Closes n :=
  ⟨Race.initial n, .empty, fun _ => false, fun _ => none, [], fun _ => false⟩

/-- The first part of an operation; a number that is not open makes `epoll_ctl` fail. -/
def begin (t : Fin n) (fault : Bool) (operation : Operation) : Option (Closes n) :=
  if fault = true ∨ s.isOpen operation.fd = true then
    (s.race.next (.begin t fault operation)).map fun race =>
      { s with race, settled := fun i => s.settled i && !(race.running t).any (·.adds i) }
  else none

/-- A commit. -/
def commit (t : Fin n) : Option (Closes n) := do
  let p ← s.race.running t
  let race ← s.race.next (.commit t)
  some { s with race, deleted := EventTable.dropped s.race.ledger p ++ s.deleted }

/-- `close_f`: the number is free, and the kernel has no interest in it. -/
def closeF (fd : Nat) : Closes n :=
  { s with
    isOpen := Function.update s.isOpen fd false
    race := { s.race with
      manager := { s.race.manager with
        interest := Function.update s.race.manager.interest fd none } } }

/-- A hooked `close` returns. -/
def returned (fd : Nat) : Closes n := { s with settled := Function.update s.settled fd true }

/-- Where a thread is in its `close`. -/
def goto (t : Fin n) (pc : Option ClosePc) : Closes n :=
  { s with closing := Function.update s.closing t pc }

/-- One step. -/
def next : CloseStep n → Option (Closes n)
  | .create fd hooked =>
      if s.isOpen fd = false then
        some { s with
          isOpen := Function.update s.isOpen fd true
          fdMgr := if hooked then (s.fdMgr.getFdCtx fd true).1 else s.fdMgr }
      else none
  | .begin t fault operation =>
      if s.closing t = none then s.begin t fault operation else none
  | .commit t => if s.closing t = none then s.commit t else none
  | .close t fd hooked =>
      if s.closing t = none ∧ s.race.running t = none ∧ fd < 2 ^ 31 then
        if hooked then
          match (s.fdMgr.getFdCtx fd false).2 with
          | some _ => some (s.goto t (some (.cancel fd)))
          | none => some (s.goto t (some (.release fd)))
        else some (s.closeF fd)
      else none
  | .cancel t fd fault =>
      if s.closing t = some (.cancel fd) then
        (s.begin t fault (.cancelAll fd)).map fun s =>
          s.goto t (some (if s.race.running t = none then .drop fd else .cancelling fd))
      else none
  | .cancelled t fd =>
      if s.closing t = some (.cancelling fd) then
        (s.commit t).map fun s => s.goto t (some (.drop fd))
      else none
  | .drop t fd =>
      if s.closing t = some (.drop fd) then
        some ({ s with fdMgr := s.fdMgr.delFdCtx fd }.goto t (some (.release fd)))
      else none
  | .release t fd =>
      if s.closing t = some (.release fd) then
        some (((s.closeF fd).returned fd).goto t none)
      else none

/-- An `add_event` on the descriptor is past its `epoll_ctl`. -/
def adding (fd : Nat) : Prop := ∃ t, (s.race.running t).any (·.adds fd) = true

instance (fd : Nat) : Decidable (s.adding fd) := inferInstanceAs (Decidable (∃ _, _))

/-- A `close` of the descriptor is past its call of `cancel_all`. -/
def parting (fd : Nat) : Prop := ∃ t, (s.closing t).any (·.parts fd) = true

instance (fd : Nat) : Decidable (s.parting fd) := inferInstanceAs (Decidable (∃ _, _))

/-- The registrations whose continuations were scheduled, the first one first. -/
def fired : List Nat := s.race.ledger.fired s.deleted

end Closes

/-- `n` threads on a new event table, with no descriptor open. -/
def closes (n : Nat) : Machine (Closes n) (CloseStep n) :=
  ⟨fun s => s = Closes.initial n, Closes.next⟩

/-! ### What is asked, and when it holds -/

/-- **Nothing is left of a descriptor**: its `m_events` is `NONE`, every continuation that was
registered on it and not deleted has been scheduled once, and `add_event` on the number, for any event,
asks the kernel for what it accepts. -/
structure NothingLeft (s : Closes n) (fd : Nat) : Prop where
  none : s.race.manager.eventsOf fd = 0
  once : ∀ (id : Nat) (r : EventTable.Registration), s.race.ledger.made[id]? = some r → r.fd = fd →
    id ∉ s.deleted → s.fired.count id = 1
  scheduled : s.race.manager.scheduled.map some = s.fired.map s.race.ledger.task
  adds : ∀ event, ∃ m, s.race.manager.addEventCtl fd event false = some (m, true) ∧
    m.interest fd = some (EventTable.epollEt ||| event.bit)

/-- **The condition on a step.** A descriptor without a context is closed when it has no events. In
`cancel_all`, `epoll_ctl` succeeds if there are events. When that returns no `add_event` is past its
`epoll_ctl`, and from then on none succeeds. No `del_event` commits a stale mask. -/
def Orderly (s : Closes n) : CloseStep n → Prop
  | .begin _ fault operation => operation.adds operation.fd = true → fault = false →
      ¬ s.parting operation.fd
  | .commit t => EventTable.commitsFresh s.race (.commit t)
  | .close _ fd hooked => hooked = true → s.fdMgr.entry fd = none →
      s.race.manager.eventsOf fd = 0 ∧ ¬ s.adding fd
  | .cancel _ fd fault =>
      if s.race.manager.eventsOf fd = 0 then ¬ s.adding fd
      else fault = false ∧ s.race.manager.interest fd ≠ none
  | .cancelled _ fd => ¬ s.adding fd
  | .create .. | .drop .. | .release .. => True

instance (s : Closes n) : DecidablePred (Orderly s)
  | .begin _ fault operation => inferInstanceAs (Decidable (_ → fault = false →
      ¬ s.parting operation.fd))
  | .commit t => inferInstanceAs (Decidable (EventTable.commitsFresh s.race (.commit t)))
  | .close _ fd hooked => inferInstanceAs (Decidable (hooked = true → s.fdMgr.entry fd = none →
      s.race.manager.eventsOf fd = 0 ∧ ¬ s.adding fd))
  | .cancel _ fd fault => inferInstanceAs (Decidable (if s.race.manager.eventsOf fd = 0 then
      ¬ s.adding fd else fault = false ∧ s.race.manager.interest fd ≠ none))
  | .cancelled _ fd => inferInstanceAs (Decidable (¬ s.adding fd))
  | .create .. | .drop .. | .release .. => isTrue trivial

/-! ### The parts of an operation -/

namespace Closes

variable {s s' : Closes n} {t : Fin n} {fd i : Nat} {fault : Bool} {operation : Operation}

/-- **The first part of an operation.** -/
theorem begin_cases (began : s.begin t fault operation = some s') :
    ∃ m progress, operation.fd < 2 ^ 31 ∧
      EventTable.ctl s.race.manager fault operation = some (m, progress) ∧
      s.race.next (.begin t fault operation) = some s'.race ∧
      s' = { s with
        race := ⟨m, Function.update s.race.running t progress, s.race.ledger⟩
        settled := fun i => s.settled i && !progress.any (·.adds i) } := by
  obtain ⟨-, ran⟩ := Option.ite_none_right_eq_some.mp began
  obtain ⟨race, stepped, rfl⟩ := Option.map_eq_some_iff.mp ran
  obtain ⟨⟨-, int, -⟩, first⟩ := Option.ite_none_right_eq_some.mp stepped
  obtain ⟨⟨m, progress⟩, called, rfl⟩ := Option.map_eq_some_iff.mp first
  refine ⟨m, progress, int, called, stepped, ?_⟩
  dsimp only
  rw [Function.update_self]

/-- **A commit.** -/
theorem commit_cases (committed : s.commit t = some s') :
    ∃ p m, s.race.running t = some p ∧ EventTable.commit s.race.manager p = some m ∧
      s.race.next (.commit t) = some s'.race ∧
      s' = { s with
        race := ⟨m, Function.update s.race.running t none,
          EventTable.settle s.race.manager s.race.ledger p⟩
        deleted := EventTable.dropped s.race.ledger p ++ s.deleted } := by
  obtain ⟨p, running, ran⟩ := Option.bind_eq_some_iff.mp committed
  obtain ⟨race, stepped, same⟩ := Option.bind_eq_some_iff.mp ran
  cases same
  obtain ⟨q, running', second⟩ := Option.bind_eq_some_iff.mp stepped
  rw [running] at running'
  cases running'
  obtain ⟨m, called, same⟩ := Option.bind_eq_some_iff.mp second
  cases same
  exact ⟨p, m, running, called, stepped, rfl⟩

/-- Only an `add_event` adds, if its `epoll_ctl` succeeds. -/
theorem adding_begin (began : s.begin t fault operation = some s') (added : s'.adding i) :
    s.adding i ∨ (operation.adds i = true ∧ fault = false) := by
  obtain ⟨m, progress, -, called, -, rfl⟩ := begin_cases began
  obtain ⟨u, holds⟩ := added
  by_cases self : u = t
  · subst self
    dsimp only at holds
    rw [Function.update_self] at holds
    obtain ⟨p, rfl, adds⟩ := (Option.any_eq_true _ _).mp holds
    obtain ⟨same, succeeded⟩ := EventTable.adds_ctl (i := i) called
    exact .inr ⟨same.symm.trans adds, succeeded⟩
  · dsimp only at holds
    rw [Function.update_of_ne self] at holds
    exact .inl ⟨u, holds⟩

theorem adding_commit (committed : s.commit t = some s') (added : s'.adding i) : s.adding i := by
  obtain ⟨p, m, -, -, -, rfl⟩ := commit_cases committed
  obtain ⟨u, holds⟩ := added
  by_cases self : u = t
  · subst self
    dsimp only at holds
    rw [Function.update_self] at holds
    cases holds
  · dsimp only at holds
    rw [Function.update_of_ne self] at holds
    exact ⟨u, holds⟩

/-- **No events, and none to come.** -/
def Still (s : Closes n) (fd : Nat) : Prop := s.race.manager.eventsOf fd = 0 ∧ ¬ s.adding fd

/-- Up to `epoll_ctl` no operation changes the events. -/
theorem eventsOf_begin (sound : Sound s.race) (began : s.begin t fault operation = some s')
    (i : Nat) : s'.race.manager.eventsOf i = s.race.manager.eventsOf i := by
  obtain ⟨m, progress, int, called, -, rfl⟩ := begin_cases began
  exact (sound.books.ctl int called).2.1 i

theorem Still.begin (still : s.Still fd) (sound : Sound s.race)
    (began : s.begin t fault operation = some s')
    (other : operation.adds fd = true → fault = true) : s'.Still fd := by
  refine ⟨(eventsOf_begin sound began fd).trans still.1, fun added => ?_⟩
  rcases adding_begin began added with before | ⟨adds, succeeds⟩
  · exact still.2 before
  · cases succeeds.symm.trans (other adds)

theorem Still.commit (still : s.Still fd) (sound : Sound s.race)
    (fresh : EventTable.commitsFresh s.race (.commit t)) (committed : s.commit t = some s') :
    s'.Still fd := by
  refine ⟨?_, fun added => still.2 (adding_commit committed added)⟩
  obtain ⟨p, m, running, called, -, rfl⟩ := commit_cases committed
  have other : p.adds fd = false := Bool.eq_false_iff.mpr fun adds =>
    still.2 ⟨t, by rw [running]; exact adds⟩
  exact EventTable.clear_commit sound.books (fresh p running) (sound.prepared t p running) called
    still.1 other

/-! ### The invariant -/

/-- **The books of the table are in order, and a settled descriptor is still**, and unknown to the
kernel. -/
structure Steady (s : Closes n) : Prop where
  sound : Sound s.race
  paid : Paid s.race.manager s.race.ledger s.deleted
  settled : ∀ fd, s.settled fd = true → s.Still fd ∧ s.race.manager.interest fd = none

namespace Steady

theorem initial (n : Nat) : Steady (Closes.initial n) where
  sound := Sound.initial n
  paid := ⟨rfl, fun id member => by cases member⟩
  settled fd settled := by cases settled

theorem begin (steady : Steady s) (began : s.begin t fault operation = some s') : Steady s' := by
  obtain ⟨m, progress, int, called, stepped, same⟩ := begin_cases began
  refine ⟨steady.sound.begin stepped, ?_, fun i settled => ?_⟩
  · subst same
    exact ⟨(congrArg (List.map some) (EventTable.Traced.scheduled_ctl called)).trans
      steady.paid.scheduled, steady.paid.among⟩
  · have split : s.settled i = true ∧ progress.any (·.adds i) = false := by
      subst same
      simpa using settled
    obtain ⟨⟨clear, unadded⟩, unlisted⟩ := steady.settled i split.1
    -- an `add_event` on the descriptor has not got past its `epoll_ctl`, and no other could
    have spared : i ≠ operation.fd ∨ progress = none := by
      by_cases here : i = operation.fd
      · subst here
        refine .inr ?_
        by_cases adds : operation.adds operation.fd = true
        · cases progress with
          | none => rfl
          | some p =>
            have passed := (EventTable.adds_ctl called).1.trans adds
            rw [Option.any_some, passed] at split
            cases split.2
        · exact EventTable.passes_of_clear called clear (Bool.eq_false_iff.mpr adds)
      · exact .inl here
    refine ⟨⟨(eventsOf_begin steady.sound began i).trans clear, ?_⟩, ?_⟩
    · rintro ⟨u, holds⟩
      subst same
      dsimp only at holds
      by_cases self : u = t
      · rw [self, Function.update_self, split.2] at holds
        cases holds
      · rw [Function.update_of_ne self] at holds
        exact unadded ⟨u, holds⟩
    · subst same
      exact (EventTable.interest_ctl called spared).trans unlisted

theorem commit (steady : Steady s) (fresh : EventTable.commitsFresh s.race (.commit t))
    (committed : s.commit t = some s') : Steady s' := by
  obtain ⟨p, m, running, called, stepped, same⟩ := commit_cases committed
  refine ⟨steady.sound.commit fresh stepped, ?_, fun i settled => ?_⟩
  · subst same
    exact steady.paid.commit steady.sound.books (fresh p running) called
  · have before : s.settled i = true := by
      subst same
      exact settled
    obtain ⟨still, unlisted⟩ := steady.settled i before
    refine ⟨still.commit steady.sound fresh committed, ?_⟩
    subst same
    exact (congrFun (EventTable.interest_commit called) i).trans unlisted

/-- `close_f` writes the kernel's list only. -/
theorem closeF (steady : Steady s) (fd : Nat) : Steady (s.closeF fd) where
  sound := ⟨steady.sound.books.withInterest _, steady.sound.exclusive, fun t p running => by
    have before := steady.sound.prepared t p running
    cases p <;> exact before⟩
  paid := ⟨steady.paid.scheduled, steady.paid.among⟩
  settled i settled := by
    obtain ⟨still, unlisted⟩ := steady.settled i settled
    refine ⟨still, ?_⟩
    show Function.update s.race.manager.interest fd none i = none
    by_cases self : i = fd
    · rw [self, Function.update_self]
    · rw [Function.update_of_ne self, unlisted]

/-- A descriptor that is still is settled. -/
theorem returned (steady : Steady s) (still : s.Still fd)
    (unlisted : s.race.manager.interest fd = none) : Steady (s.returned fd) where
  sound := steady.sound
  paid := steady.paid
  settled i settled := by
    by_cases self : i = fd
    · subst self
      exact ⟨still, unlisted⟩
    · refine steady.settled i ?_
      change Function.update s.settled fd true i = true at settled
      rwa [Function.update_of_ne self] at settled

end Steady

end Closes

/-- **What a `close` relies on**, where it is: in `cancel_all`, that its commit is to come; after that,
that the descriptor is still. -/
def ClosePc.Ok (s : Closes n) (t : Fin n) : ClosePc → Prop
  | .cancel _ => True
  | .cancelling fd => s.race.running t = some (.cancellingAll fd)
  | .drop fd | .release fd => s.Still fd

/-- **The invariant.** -/
structure Tidy (s : Closes n) : Prop where
  steady : s.Steady
  ok : ∀ t pc, s.closing t = some pc → pc.Ok s t

namespace Tidy

variable {s s' : Closes n} {t u : Fin n} {pc : ClosePc} {fault : Bool} {operation : Operation}

theorem initial (n : Nat) : Tidy (Closes.initial n) := ⟨.initial n, fun t pc there => by cases there⟩

/-- A thread goes on to another point of its `close`. -/
theorem goto {next : Option ClosePc} (steady : s.Steady)
    (others : ∀ u pc, u ≠ t → s.closing u = some pc → pc.Ok s u)
    (self : ∀ pc, next = some pc → pc.Ok s t) : Tidy (s.goto t next) := by
  refine ⟨⟨steady.sound, steady.paid, steady.settled⟩, fun u pc there => ?_⟩
  have same : pc.Ok (s.goto t next) u ↔ pc.Ok s u := by cases pc <;> exact Iff.rfl
  rw [same]
  change Function.update s.closing t next u = some pc at there
  by_cases here : u = t
  · subst here
    rw [Function.update_self] at there
    exact self pc there
  · rw [Function.update_of_ne here] at there
    exact others u pc here there

/-- `close_f` leaves the others as they are. -/
theorem ok_closeF (ok : pc.Ok s u) (fd : Nat) : pc.Ok (s.closeF fd) u := by cases pc <;> exact ok

/-- An operation of another thread begins. -/
theorem ok_begin (tidy : Tidy s) (began : s.begin t fault operation = some s')
    (apart : operation.adds operation.fd = true → fault = false → ¬ s.parting operation.fd)
    (other : u ≠ t) (there : s.closing u = some pc) : pc.Ok s' u := by
  have ok := tidy.ok u pc there
  -- no `add_event` succeeds on a descriptor that is being closed
  have spares : ∀ fd, pc.parts fd = true → operation.adds fd = true → fault = true := by
    intro fd parts adds
    refine Bool.eq_true_of_not_eq_false fun succeeds => ?_
    cases operation with
    | addEvent i event cb caller =>
      obtain rfl : i = fd := beq_iff_eq.mp adds
      exact apart adds succeeds ⟨u, by rw [there]; exact parts⟩
    | delEvent | cancelEvent | cancelAll | report => cases adds
  cases pc with
  | cancel fd => trivial
  | cancelling fd =>
    obtain ⟨m, progress, -, -, -, rfl⟩ := Closes.begin_cases began
    exact (Function.update_of_ne other _ _).trans ok
  | drop fd | release fd =>
    exact Closes.Still.begin ok tidy.steady.sound began (spares fd (beq_self_eq_true fd))

/-- Another thread commits. -/
theorem ok_commit (tidy : Tidy s) (fresh : EventTable.commitsFresh s.race (.commit t))
    (committed : s.commit t = some s') (other : u ≠ t) (there : s.closing u = some pc) :
    pc.Ok s' u := by
  have ok := tidy.ok u pc there
  cases pc with
  | cancel fd => trivial
  | cancelling fd =>
    obtain ⟨p, m, -, -, -, rfl⟩ := Closes.commit_cases committed
    exact (Function.update_of_ne other _ _).trans ok
  | drop fd | release fd => exact Closes.Still.commit ok tidy.steady.sound fresh committed

/-- Where the threads are in their `close`s is not for an operation to change. -/
theorem closing_begin (began : s.begin t fault operation = some s') : s'.closing = s.closing := by
  obtain ⟨m, progress, -, -, -, rfl⟩ := Closes.begin_cases began
  rfl

theorem closing_commit (committed : s.commit t = some s') : s'.closing = s.closing := by
  obtain ⟨p, m, -, -, -, rfl⟩ := Closes.commit_cases committed
  rfl

/-- **What `cancel_all` has found** when it is past its `epoll_ctl`, or has returned. -/
theorem ok_cancel (tidy : Tidy s) {fd : Nat} (began : s.begin t fault (.cancelAll fd) = some s')
    (orderly : Orderly s (.cancel t fd fault)) :
    (if s'.race.running t = none then ClosePc.drop fd else .cancelling fd).Ok s' t := by
  obtain ⟨m, progress, -, called, -, same⟩ := Closes.begin_cases began
  have running : s'.race.running t = progress := by
    rw [same]
    exact Function.update_self _ _ _
  have told : (if (s.race.manager.cancelAllCtl fd fault).2 = true
      then some (Progress.cancellingAll fd) else none) = progress :=
    (Prod.mk.inj (Option.some.inj called)).2
  split
  next returned =>
    change if s.race.manager.eventsOf fd = 0 then ¬ s.adding fd else _ at orderly
    split at orderly
    next clear =>
      exact Closes.Still.begin ⟨clear, orderly⟩ tidy.steady.sound began fun adds => by cases adds
    next registered =>
      obtain ⟨rfl, listed⟩ := orderly
      obtain ⟨mask, isListed⟩ := Option.ne_none_iff_exists'.mp listed
      rw [if_pos (EventTable.cancelAllCtl_of_listed registered isListed), ← running,
        returned] at told
      cases told
  next passed =>
    show s'.race.running t = some (.cancellingAll fd)
    rw [running] at passed ⊢
    split at told
    next => exact told.symm
    next => exact absurd told.symm passed

/-- **The step lemma.** -/
theorem next (tidy : Tidy s) {step : CloseStep n} (orderly : Orderly s step)
    (stepped : s.next step = some s') : Tidy s' := by
  cases step with
  | create fd hooked =>
    obtain ⟨-, same⟩ := Option.ite_none_right_eq_some.mp stepped
    cases same
    refine ⟨⟨tidy.steady.sound, tidy.steady.paid, tidy.steady.settled⟩, fun t pc there => ?_⟩
    have ok := tidy.ok t pc there
    cases pc <;> exact ok
  | begin t fault operation =>
    obtain ⟨idle, began⟩ := Option.ite_none_right_eq_some.mp stepped
    refine ⟨tidy.steady.begin began, fun u pc there => ?_⟩
    rw [closing_begin began] at there
    refine tidy.ok_begin began orderly ?_ there
    rintro rfl
    cases idle.symm.trans there
  | commit t =>
    obtain ⟨idle, committed⟩ := Option.ite_none_right_eq_some.mp stepped
    refine ⟨tidy.steady.commit orderly committed, fun u pc there => ?_⟩
    rw [closing_commit committed] at there
    refine tidy.ok_commit orderly committed ?_ there
    rintro rfl
    cases idle.symm.trans there
  | close t fd hooked =>
    obtain ⟨-, closed⟩ := Option.ite_none_right_eq_some.mp stepped
    split at closed
    next isHooked =>
      rw [FdManger.getFdCtx_false] at closed
      dsimp only at closed
      split at closed
      next =>
        cases closed
        refine Tidy.goto tidy.steady (fun u pc _ there => tidy.ok u pc there) ?_
        rintro pc ⟨⟩
        trivial
      next absent =>
        cases closed
        refine Tidy.goto tidy.steady (fun u pc _ there => tidy.ok u pc there) ?_
        rintro pc ⟨⟩
        exact orderly isHooked absent
    next =>
      cases closed
      exact ⟨tidy.steady.closeF fd, fun u pc there => ok_closeF (tidy.ok u pc there) fd⟩
  | cancel t fd fault =>
    obtain ⟨-, called⟩ := Option.ite_none_right_eq_some.mp stepped
    obtain ⟨s₁, began, rfl⟩ := Option.map_eq_some_iff.mp called
    refine Tidy.goto (tidy.steady.begin began) (fun u pc other there => ?_) ?_
    · rw [closing_begin began] at there
      exact tidy.ok_begin began (fun adds => by cases adds) other there
    · rintro pc ⟨⟩
      exact tidy.ok_cancel began orderly
  | cancelled t fd =>
    obtain ⟨there, called⟩ := Option.ite_none_right_eq_some.mp stepped
    obtain ⟨s₁, committed, rfl⟩ := Option.map_eq_some_iff.mp called
    have running : s.race.running t = some (.cancellingAll fd) := tidy.ok t _ there
    have fresh : EventTable.commitsFresh s.race (.commit t) := by
      intro p member
      rw [running] at member
      cases member
      trivial
    refine Tidy.goto (tidy.steady.commit fresh committed) (fun u pc other there => ?_) ?_
    · rw [closing_commit committed] at there
      exact tidy.ok_commit fresh committed other there
    · rintro pc ⟨⟩
      refine ⟨?_, fun added => orderly (Closes.adding_commit committed added)⟩
      obtain ⟨p, m, running', ended, -, rfl⟩ := Closes.commit_cases committed
      rw [running] at running'
      cases running'
      exact EventTable.clear_cancelAllCommit ended
  | drop t fd =>
    obtain ⟨there, same⟩ := Option.ite_none_right_eq_some.mp stepped
    cases same
    refine Tidy.goto ⟨tidy.steady.sound, tidy.steady.paid, tidy.steady.settled⟩
      (fun u pc _ there => ?_) ?_
    · have ok := tidy.ok u pc there
      cases pc <;> exact ok
    · rintro pc ⟨⟩
      exact tidy.ok t _ there
  | release t fd =>
    obtain ⟨there, same⟩ := Option.ite_none_right_eq_some.mp stepped
    cases same
    have still : s.Still fd := tidy.ok t _ there
    have steady := (tidy.steady.closeF fd).returned still (Function.update_self _ _ _)
    refine Tidy.goto steady (fun u pc _ there => ?_) (fun pc none => by cases none)
    have ok := ok_closeF (tidy.ok u pc there) fd
    cases pc <;> exact ok

theorem reachable (reached : (closes n).ReachableWhen Orderly s) : Tidy s := by
  refine reached.invariant (P := Tidy) ?_ fun s step s' tidy orderly stepped =>
    tidy.next orderly stepped
  rintro s rfl
  exact initial n

end Tidy

/-! ### Main result -/

/-- **From the return of a hooked `close` on, nothing is left of the descriptor**, in every run that
keeps to the condition, with any number of threads and descriptors. -/
theorem nothing_left {s : Closes n} (reached : (closes n).ReachableWhen Orderly s) {fd : Nat}
    (settled : s.settled fd = true) : NothingLeft s fd := by
  obtain ⟨sound, paid, settles⟩ := (Tidy.reachable reached).steady
  obtain ⟨⟨clear, -⟩, unlisted⟩ := settles fd settled
  refine ⟨clear, ?_, paid.scheduled, EventTable.adds_of_clear sound.books.size clear unlisted⟩
  intro id r entered here kept
  have ended : id ∈ s.race.ledger.ended := by
    by_contra fresh
    have registered := (sound.books.unended id r entered fresh).2
    rw [here, clear, EventTable.has_zero] at registered
    cases registered
  exact Paid.count_fired sound.books ended kept

/-- `add_event(5, event, cb)` by fiber 7. -/
def addFive (event : EventTable.Event) (cb : Nat) : Operation :=
  .addEvent 5 event (some cb) ⟨some 0, 7, .exec⟩

/-- Both events of a hooked socket are registered, and another thread closes it. -/
def closesSocket : List (CloseStep 2) :=
  [.create 5 true, .begin 0 false (addFive .read 1), .commit 0, .begin 0 false (addFive .write 2),
    .commit 0, .close 1 5 true, .cancel 1 5 false, .cancelled 1 5, .drop 1 5, .release 1 5,
    .create 5 false]

theorem nothing_left_socket : ∃ s : Closes 2, (closes 2).ReachableWhen Orderly s ∧
    s.isOpen 5 = true ∧ s.fired = [0, 1] ∧ NothingLeft s 5 := by
  have run : ∃ s, (closes 2).ReachableWhen Orderly s ∧
      decide (s.settled 5 = true ∧ s.isOpen 5 = true ∧ s.fired = [0, 1]) = true :=
    Machine.reachableWhen_of_replay rfl closesSocket _ (by decide +kernel)
  obtain ⟨s, reached, state⟩ := run
  obtain ⟨settled, opened, fired⟩ := of_decide_eq_true state
  exact ⟨s, reached, opened, fired, nothing_left reached settled⟩

/-! ### What is left otherwise -/

/-- **Whatever is registered when `close_f` is called is left.** -/
theorem leftover_of_registered {s s' : Closes n} {t : Fin n} {fd : Nat}
    (registered : s.race.manager.eventsOf fd ≠ 0) (released : s.next (.release t fd) = some s') :
    s'.settled fd = true ∧ ¬ NothingLeft s' fd := by
  obtain ⟨-, same⟩ := Option.ite_none_right_eq_some.mp released
  cases same
  exact ⟨Function.update_self _ _ _, fun nothing => registered nothing.none⟩

/-- An event of a pipe is registered, the pipe is closed, and its number is given again. -/
def closesPipe : List (CloseStep 1) :=
  [.create 5 false, .begin 0 false (addFive .read 1), .commit 0, .close 0 5 true, .release 0 5,
    .create 5 false]

/-- **The event of a closed pipe**: it stays in `m_events`, its callback is not scheduled, and
`add_event` on the new descriptor fails. -/
theorem pipe_leftover : ∃ s : Closes 1, (closes 1).Reachable s ∧ s.settled 5 = true ∧
    s.race.manager.eventsOf 5 = 1 ∧ s.race.manager.scheduled = [] ∧
    (s.race.manager.addEventCtl 5 .write false).map (·.2) = some false ∧ ¬ NothingLeft s 5 := by
  have run : ∃ s, (closes 1).Reachable s ∧
      decide (s.settled 5 = true ∧ s.race.manager.eventsOf 5 = 1 ∧ s.race.manager.scheduled = [] ∧
        (s.race.manager.addEventCtl 5 .write false).map (·.2) = some false) = true :=
    Machine.reachable_of_replay rfl closesPipe _ (by decide +kernel)
  obtain ⟨s, reached, state⟩ := run
  obtain ⟨settled, events, scheduled, fails⟩ := of_decide_eq_true state
  refine ⟨s, reached, settled, events, scheduled, fails, fun nothing => ?_⟩
  exact absurd (events.symm.trans nothing.none) (by decide)

/-- A socket's event is registered again after `cancel_all`, before `close_f`. -/
def closesLate : List (CloseStep 2) :=
  [.create 5 true, .begin 0 false (addFive .read 1), .commit 0, .close 1 5 true, .cancel 1 5 false,
    .cancelled 1 5, .begin 0 false (addFive .read 2), .commit 0, .drop 1 5, .release 1 5]

/-- **The event of a socket registered while it is closed.** -/
theorem late_leftover : ∃ s : Closes 2, (closes 2).Reachable s ∧ s.settled 5 = true ∧
    s.fired = [0] ∧ ¬ NothingLeft s 5 := by
  have run : ∃ s, (closes 2).Reachable s ∧
      decide (s.settled 5 = true ∧ s.fired = [0] ∧ s.race.manager.eventsOf 5 = 1) = true :=
    Machine.reachable_of_replay rfl closesLate _ (by decide +kernel)
  obtain ⟨s, reached, state⟩ := run
  obtain ⟨settled, fired, events⟩ := of_decide_eq_true state
  refine ⟨s, reached, settled, fired, fun nothing => ?_⟩
  exact absurd (events.symm.trans nothing.none) (by decide)

end Sylar.Hook
