/-
**The contexts of descriptors: `fd_manager.cc`.**

An `FdManger` maps descriptors to `FdCtx` objects, which others hold through shared pointers: which
object an entry points to matters, so the entries here are names of objects. `getFdCtx` looks with
the lock shared; where it is to create, it drops the lock, takes it alone, and creates without looking
again.

* `getFdCtxRead`, `getFdCtxWrite`, `delFdCtx` — the sections, each under the lock; `getFdCtx` — a call
  with nothing in between.
* `entry_getFdCtxWrite`, `entry_delFdCtx` — **a section writes one entry.**
* `Contention` — any number of threads, one section at a time, with a history of what was returned.
* `replaced_context` — **two creations of one context**: the second replaces the first.
* `Alone` — the condition: the entry is still empty when it is created.
* `one_context` — **under it, one object for each descriptor between deletions.**
-/

import Sylar.Library.Machine
import Mathlib.Logic.Function.Basic
import Mathlib.Data.Fintype.Basic

namespace Sylar.Hook

open Sylar.Library

/-! ### The objects and the table -/

/-- An `FdCtx` object. -/
abbrev FdCtxId := Nat

/-- `SO_RCVTIMEO` and `SO_SNDTIMEO`. -/
inductive TimeoutOption
  | rcvtimeo
  | sndtimeo
deriving DecidableEq

/-- A timeout of `-1`: none. -/
def noTimeout : UInt64 := ~~~0

/-- `FdCtx`; the defaults are those of `FdCtx(fd)`. -/
structure FdCtx where
  isInit : Bool := false
  isSocket : Bool := false
  sysNonblock : Bool := false
  userNonblock : Bool := false
  isClosed : Bool := false
  fd : Nat
  recvTimeout : UInt64 := noTimeout
  sendTimeout : UInt64 := noTimeout
deriving DecidableEq

namespace FdCtx

variable (ctx : FdCtx)

/-- `set_timeout`. -/
def setTimeout (type : TimeoutOption) (timeout : UInt64) : FdCtx :=
  if type = .rcvtimeo then { ctx with recvTimeout := timeout } else { ctx with sendTimeout := timeout }

/-- `get_timeout`. -/
def getTimeout (type : TimeoutOption) : UInt64 :=
  if type = .rcvtimeo then ctx.recvTimeout else ctx.sendTimeout

end FdCtx

/-- `FdManger`, with the objects it has made. -/
structure FdManger where
  datas : List (Option FdCtxId)
  ctx : FdCtxId → FdCtx
  made : Nat

namespace FdManger

variable (m : FdManger)

/-- `FdManger()`. -/
def empty : FdManger := ⟨[], fun _ => { fd := 0 }, 0⟩

/-- What the table holds for a descriptor. -/
def entry (fd : Nat) : Option FdCtxId := m.datas[fd]?.join

/-- `getFdCtx`, under the shared lock: what it returns, unless it goes on to create. -/
def getFdCtxRead (fd : Nat) (autoCreate : Bool) : Option (Option FdCtxId) :=
  match m.datas[fd]? with
  | none => if autoCreate then none else some none
  | some held => if held.isSome || !autoCreate then some held else none

/-- `getFdCtx`, under the exclusive lock: the context it has made. -/
def getFdCtxWrite (fd : Nat) : FdManger × FdCtxId :=
  let datas :=
    if m.datas.length ≤ fd then m.datas ++ List.replicate (fd + 1 - m.datas.length) none else m.datas
  ({ datas := datas.set fd (some m.made)
     ctx := Function.update m.ctx m.made { fd }
     made := m.made + 1 },
    m.made)

/-- `delFdCtx`. -/
def delFdCtx (fd : Nat) : FdManger :=
  if m.datas.length ≤ fd then m else { m with datas := m.datas.set fd none }

/-- `getFdCtx`, with nothing in between. -/
def getFdCtx (fd : Nat) (autoCreate : Bool) : FdManger × Option FdCtxId :=
  match m.getFdCtxRead fd autoCreate with
  | some held => (m, held)
  | none => let created := m.getFdCtxWrite fd; (created.1, some created.2)

variable {m}

/-- The shared section returns what the table holds, unless that is nothing and is to be made. -/
theorem getFdCtxRead_eq (fd : Nat) (autoCreate : Bool) :
    m.getFdCtxRead fd autoCreate =
      if (m.entry fd).isSome || !autoCreate then some (m.entry fd) else none := by
  unfold getFdCtxRead entry
  cases m.datas[fd]? with
  | none => cases autoCreate <;> rfl
  | some held => rfl

/-- An entry of a table that has been made long enough. -/
theorem entry_resized (fd i : Nat) :
    (if m.datas.length ≤ fd then m.datas ++ List.replicate (fd + 1 - m.datas.length) none
      else m.datas)[i]?.join = m.entry i := by
  unfold entry
  split
  next short =>
    rcases Nat.lt_or_ge i m.datas.length with inside | outside
    · rw [List.getElem?_append_left inside]
    · rw [List.getElem?_append_right outside, List.getElem?_replicate,
        List.getElem?_eq_none outside]
      split <;> rfl
  next => rfl

/-- **Creation writes one entry.** -/
theorem entry_getFdCtxWrite (fd i : Nat) :
    (m.getFdCtxWrite fd).1.entry i = if i = fd then some m.made else m.entry i := by
  have resized := entry_resized (m := m) fd i
  have long : fd < (if m.datas.length ≤ fd then
      m.datas ++ List.replicate (fd + 1 - m.datas.length) none else m.datas).length := by
    split
    next short =>
      rw [List.length_append, List.length_replicate]
      omega
    next long => exact Nat.lt_of_not_le long
  unfold getFdCtxWrite
  rcases eq_or_ne i fd with rfl | other
  · rw [if_pos rfl]
    show (List.set _ i _)[i]?.join = _
    rw [List.getElem?_set_self long]
    rfl
  · rw [if_neg other]
    show (List.set _ fd _)[i]?.join = _
    rw [List.getElem?_set_ne (Ne.symm other)]
    exact resized

/-- **Deletion writes one entry.** -/
theorem entry_delFdCtx (fd i : Nat) :
    (m.delFdCtx fd).entry i = if i = fd then none else m.entry i := by
  unfold delFdCtx entry
  split
  next short =>
    split
    next same => rw [same, List.getElem?_eq_none short]; rfl
    next => rfl
  next long =>
    split
    next same =>
      rw [same, List.getElem?_set_self (Nat.lt_of_not_le long)]
      rfl
    next other => rw [List.getElem?_set_ne (Ne.symm other)]

/-- A whole call with `auto_create` finds the entry or makes it. -/
theorem getFdCtx_true (fd : Nat) :
    m.getFdCtx fd true = match m.entry fd with
      | some held => (m, some held)
      | none => ((m.getFdCtxWrite fd).1, some m.made) := by
  unfold getFdCtx
  rw [getFdCtxRead_eq]
  cases m.entry fd <;> rfl

/-- Without `auto_create` a call is a look at the table. -/
theorem getFdCtx_false (fd : Nat) : m.getFdCtx fd false = (m, m.entry fd) := by
  unfold getFdCtx
  rw [getFdCtxRead_eq, Bool.not_false, Bool.or_true, if_pos rfl]

end FdManger

/-! ### Threads -/

/-- What has happened: a call of `getFdCtx` got its context, or an entry was deleted. -/
inductive Record
  | returned (fd : Nat) (ctx : FdCtxId)
  | deleted (fd : Nat)
deriving DecidableEq

/-- Any number of threads on one `FdManger`; `creating` is the descriptor of a call of
`getFdCtx(fd, true)` between its sections. -/
structure Contention (n : Nat) where
  table : FdManger
  creating : Fin n → Option Nat
  history : List Record

/-- A section of a thread. -/
inductive Section (n : Nat)
  /-- `getFdCtx`, under the shared lock -/
  | get (t : Fin n) (fd : Nat) (autoCreate : Bool)
  /-- `getFdCtx`, under the exclusive lock -/
  | create (t : Fin n)
  /-- `delFdCtx` -/
  | del (t : Fin n) (fd : Nat)
deriving DecidableEq

variable {n : Nat}

namespace Contention

variable (s : Contention n)

def initial (n : Nat) : Contention n := ⟨.empty, fun _ => none, []⟩

/-- One section. -/
def next : Section n → Option (Contention n)
  | .get t fd autoCreate =>
      if s.creating t = none then
        match s.table.getFdCtxRead fd autoCreate with
        | some (some ctx) => some { s with history := s.history ++ [.returned fd ctx] }
        | some none => some s
        | none => some { s with creating := Function.update s.creating t (some fd) }
      else none
  | .create t =>
      match s.creating t with
      | some fd =>
          let created := s.table.getFdCtxWrite fd
          some {
            table := created.1
            creating := Function.update s.creating t none
            history := s.history ++ [.returned fd created.2] }
      | none => none
  | .del t fd =>
      if s.creating t = none then
        some { s with table := s.table.delFdCtx fd, history := s.history ++ [.deleted fd] }
      else none

/-- The descriptor a section is about. -/
def about : Section n → Option Nat
  | .get _ fd _ | .del _ fd => some fd
  | .create t => s.creating t

end Contention

/-- The runs of `n` threads. -/
def contention (n : Nat) : Machine (Contention n) (Section n) :=
  ⟨fun s => s = Contention.initial n, Contention.next⟩

/-- **One object for each descriptor**: two calls for the same descriptor got the same context unless
its entry was deleted in between. -/
def SameContext (history : List Record) : Prop :=
  ∀ fd x y before between after,
    history = before ++ .returned fd x :: (between ++ .returned fd y :: after) →
      .deleted fd ∉ between → x = y

/-- **The condition on a section**: what is created is not there yet. -/
def Alone (s : Contention n) : Section n → Prop
  | .create t => ∀ fd ∈ s.creating t, s.table.entry fd = none
  | .get .. | .del .. => True

instance (s : Contention n) : DecidablePred (Alone s)
  | .create t => inferInstanceAs (Decidable (∀ fd ∈ s.creating t, s.table.entry fd = none))
  | .get .. | .del .. => isTrue trivial

/-! ### The invariant -/

/-- The table holds what was returned last. -/
def Current (s : Contention n) : Prop :=
  ∀ fd x before after, s.history = before ++ .returned fd x :: after → .deleted fd ∉ after →
    s.table.entry fd = some x

/-- Where an element of a history stands after one more has been added. -/
theorem concat_eq_append_cons {history before after : List Record} {last r : Record}
    (same : history ++ [last] = before ++ r :: after) :
    (after = [] ∧ r = last ∧ before = history) ∨
      ∃ earlier, after = earlier ++ [last] ∧ history = before ++ r :: earlier := by
  rcases List.eq_nil_or_concat after with rfl | ⟨earlier, newest, rfl⟩
  · obtain ⟨rfl, singleton⟩ := List.append_inj' same rfl
    cases singleton
    exact Or.inl ⟨rfl, rfl, rfl⟩
  · rw [List.concat_eq_append, ← List.cons_append, ← List.append_assoc] at same
    obtain ⟨rfl, singleton⟩ := List.append_inj' same rfl
    cases singleton
    exact Or.inr ⟨earlier, List.concat_eq_append, rfl⟩

variable {s s' : Contention n}

/-- A call gets what the table holds. -/
theorem SameContext.returned {history : List Record} {table : FdManger} {fd : Nat} {x : FdCtxId}
    (same : SameContext history)
    (current : ∀ fd x before after, history = before ++ .returned fd x :: after →
      .deleted fd ∉ after → table.entry fd = some x)
    (held : ∀ y, table.entry fd = some y → y = x) :
    SameContext (history ++ [.returned fd x]) := by
  intro g y z before between after split undeleted
  rw [← List.cons_append, ← List.append_assoc] at split
  rcases concat_eq_append_cons split with ⟨rfl, newest, earlier⟩ | ⟨rest, rfl, earlier⟩
  · cases newest
    exact held y (current fd y before between earlier.symm undeleted)
  · rw [List.append_assoc, List.cons_append] at earlier
    exact same g y z before between rest earlier undeleted

/-- A deletion is no call. -/
theorem SameContext.deleted {history : List Record} {fd : Nat} (same : SameContext history) :
    SameContext (history ++ [.deleted fd]) := by
  intro g y z before between after split undeleted
  rw [← List.cons_append, ← List.append_assoc] at split
  rcases concat_eq_append_cons split with ⟨-, newest, -⟩ | ⟨rest, -, earlier⟩
  · cases newest
  · rw [List.append_assoc, List.cons_append] at earlier
    exact same g y z before between rest earlier undeleted

/-- The invariant, after one more record. -/
theorem Current.concat {record : Record} (current : Current s)
    (history : s'.history = s.history ++ [record])
    (newest : ∀ fd x, record = .returned fd x → s'.table.entry fd = some x)
    (others : ∀ fd x, s.table.entry fd = some x → record ≠ .deleted fd →
      s'.table.entry fd = some x) : Current s' := by
  intro fd x before after split undeleted
  rw [history] at split
  rcases concat_eq_append_cons split with ⟨-, same, -⟩ | ⟨rest, rfl, earlier⟩
  · exact newest fd x same.symm
  · rw [List.mem_append, not_or, List.mem_singleton] at undeleted
    exact others fd x (current fd x before rest earlier undeleted.1) (Ne.symm undeleted.2)

/-- **A section that meets the condition keeps the invariant, and the property.** -/
theorem current_next {event : Section n} (current : Current s) (same : SameContext s.history)
    (alone : Alone s event) (stepped : s.next event = some s') :
    Current s' ∧ SameContext s'.history := by
  cases event with
  | get t fd autoCreate =>
    obtain ⟨-, stepped⟩ := Option.ite_none_right_eq_some.mp stepped
    split at stepped
    next ctx read =>
      cases stepped
      rw [FdManger.getFdCtxRead_eq] at read
      have held : s.table.entry fd = some ctx := by
        split at read
        next => exact Option.some.inj read
        next => cases read
      constructor
      · apply current.concat rfl
        · rintro g x ⟨⟩
          exact held
        · intro g x entry _
          exact entry
      · apply same.returned current
        intro y entry
        exact Option.some.inj (entry.symm.trans held)
    next =>
      cases stepped
      exact ⟨current, same⟩
    next =>
      cases stepped
      exact ⟨current, same⟩
  | create t =>
    unfold Contention.next at stepped
    dsimp only at stepped
    split at stepped
    next fd between =>
      cases stepped
      have absent : s.table.entry fd = none := alone fd between
      constructor
      · apply current.concat rfl
        · rintro g x ⟨⟩
          exact (FdManger.entry_getFdCtxWrite fd fd).trans (if_pos rfl)
        · intro g x entry _
          have other : g ≠ fd := by
            rintro rfl
            cases absent.symm.trans entry
          exact ((FdManger.entry_getFdCtxWrite fd g).trans (if_neg other)).trans entry
      · apply same.returned current
        intro y entry
        cases absent.symm.trans entry
    next => cases stepped
  | del t fd =>
    obtain ⟨-, stepped⟩ := Option.ite_none_right_eq_some.mp stepped
    cases stepped
    constructor
    · apply current.concat rfl
      · intro g x record
        cases record
      · intro g x entry kept
        have other : g ≠ fd := by
          rintro rfl
          exact kept rfl
        exact ((FdManger.entry_delFdCtx fd g).trans (if_neg other)).trans entry
    · exact same.deleted

/-- A section changes no entry but that of its descriptor. -/
theorem entry_next {event : Section n} (stepped : s.next event = some s') {i : Nat}
    (other : s.about event ≠ some i) : s'.table.entry i = s.table.entry i := by
  cases event with
  | get t fd autoCreate =>
    obtain ⟨-, stepped⟩ := Option.ite_none_right_eq_some.mp stepped
    split at stepped <;> cases stepped <;> rfl
  | create t =>
    unfold Contention.next at stepped
    dsimp only at stepped
    split at stepped
    next fd between =>
      cases stepped
      apply (FdManger.entry_getFdCtxWrite fd i).trans (if_neg _)
      rintro rfl
      exact other between
    next => cases stepped
  | del t fd =>
    obtain ⟨-, stepped⟩ := Option.ite_none_right_eq_some.mp stepped
    cases stepped
    apply (FdManger.entry_delFdCtx fd i).trans (if_neg _)
    rintro rfl
    exact other rfl

/-- **Under the condition, in every run, calls for one descriptor get one object between deletions**;
and no section of any run changes the entry of another descriptor. -/
theorem one_context (n : Nat) :
    (∀ s, (contention n).ReachableWhen Alone s → SameContext s.history) ∧
      ∀ s event s', (contention n).step s event = some s' →
        ∀ i, s.about event ≠ some i → s'.table.entry i = s.table.entry i := by
  refine ⟨fun s reached => ?_, fun s event s' stepped i other => entry_next stepped other⟩
  have invariant : Current s ∧ SameContext s.history := by
    apply reached.invariant (P := fun s => Current s ∧ SameContext s.history)
    · rintro s rfl
      constructor
      · intro fd x before after split
        exact absurd split.symm (List.append_ne_nil_of_right_ne_nil _ (List.cons_ne_nil _ _))
      · intro fd x y before between after split
        exact absurd split.symm (List.append_ne_nil_of_right_ne_nil _ (List.cons_ne_nil _ _))
    · rintro s event s' ⟨current, same⟩ alone stepped
      exact current_next current same alone stepped
  exact invariant.2

/-- Two threads find no context for descriptor 5; both create one. -/
def bothCreate : List (Section 2) := [.get 0 5 true, .get 1 5 true, .create 0, .create 1]

/-- **Two creations of one context**: the two calls get different objects. -/
theorem replaced_context :
    ∃ s, (contention 2).Reachable s ∧ s.history = [.returned 5 0, .returned 5 1] ∧
      ¬ SameContext s.history := by
  have run : ∃ s, (contention 2).Reachable s ∧
      decide (s.history = [.returned 5 0, .returned 5 1]) = true :=
    Machine.reachable_of_replay rfl bothCreate _ (by decide +kernel)
  obtain ⟨s, reached, check⟩ := run
  have history := of_decide_eq_true check
  refine ⟨s, reached, history, fun same => ?_⟩
  exact nomatch same 5 0 1 [] [] [] history List.not_mem_nil

/-- Thread 1 looks after thread 0 has created, and once more after a deletion. -/
theorem one_context_afterCreation :
    ∃ s : Contention 2, (contention 2).ReachableWhen Alone s ∧
      s.history = [.returned 5 0, .returned 5 0, .deleted 5, .returned 5 1] ∧
        SameContext s.history := by
  have run : ∃ s, (contention 2).ReachableWhen Alone s ∧
      decide (s.history = [.returned 5 0, .returned 5 0, .deleted 5, .returned 5 1]) = true :=
    Machine.reachableWhen_of_replay rfl
      [.get 0 5 true, .create 0, .get 1 5 true, .del 0 5, .get 1 5 true, .create 1] _
      (by decide +kernel)
  obtain ⟨s, reached, check⟩ := run
  exact ⟨s, reached, of_decide_eq_true check, (one_context 2).1 s reached⟩

end Sylar.Hook
