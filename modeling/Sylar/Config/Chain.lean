/-
**Threads that set one variable.**

Each call of `setValue` is two atomic steps: the read-locked section, which tells the listeners of the
value in the variable and of the new one, and the write-locked section, which assigns the new one.
Between the two the variable still has the value that the listeners were told is the old one.

* `follow` — where a chain of notifications ends, if it is one.
* `OneChain` — every listener was told a chain, which ends, when no call is under way, in the value.
* `Alone` — **the condition**: a call that changes the value begins when no other is under way, and no
  listener throws.
* `oneChain_iff_alone` — a step that meets the condition keeps the chain, another breaks it.
* `told_one_chain` — **in runs that keep to it, the listeners are told one chain**.
-/

import Mathlib.Logic.Function.Basic
import Sylar.Config.Var
import Sylar.Library.Machine

namespace Sylar.Config

open Sylar.Library

variable {n : Nat} {T : Type} [DecidableEq T]

/-! ### The threads -/

/-- The variable, its value at the beginning, and the values of the calls that are between their two
sections. -/
structure Setters (n : Nat) (T : Type) where
  initial : T
  var : ConfigVar T
  pending : Fin n → Option T

/-- A section of a call of `setValue`. -/
inductive Locked (n : Nat) (T : Type)
  | read (i : Fin n) (newVal : T)
  | write (i : Fin n)

/-- One section. -/
def Setters.step (s : Setters n T) : Locked n T → Option (Setters n T)
  | .read i newVal =>
      match s.pending i with
      | some _ => none
      | none =>
          match s.var.notify newVal with
          | (var, .equal) => some { s with var }
          | (var, .thrown) => some { s with var }
          | (var, .told) => some { s with var, pending := Function.update s.pending i newVal }
  | .write i =>
      match s.pending i with
      | none => none
      | some newVal =>
          some { s with var := s.var.assign newVal, pending := Function.update s.pending i none }

/-- The variable before the calls. -/
def setters (n : Nat) (T : Type) [DecidableEq T] : Machine (Setters n T) (Locked n T) where
  start s := s.var.called = [] ∧ s.initial = s.var.val ∧ ∀ i, s.pending i = none
  step := Setters.step

/-- A thread alone does what `setValue` does. -/
theorem setValue_eq_sections {s s' : Setters n T} {i : Fin n} {newVal : T}
    (read : s.step (.read i newVal) = some s') :
    s'.step (.write i) = none ∧ s'.var = (s.var.setValue newVal).1 ∨
      ∃ s'', s'.step (.write i) = some s'' ∧ s''.var = (s.var.setValue newVal).1 := by
  unfold Setters.step at read
  unfold ConfigVar.setValue
  cases free : s.pending i with
  | some _ => simp [free] at read
  | none =>
    rcases ends : s.var.notify newVal with ⟨var, _ | _ | _⟩
    all_goals
      simp only [free, ends, Option.some.injEq] at read
      subst read
      simp [Setters.step, free]

/-! ### Chains -/

/-- Where a chain of notifications ends that begins at `val`; `none` if it is not one. -/
def follow (val : T) (calls : List (Notice T)) : Option T :=
  calls.foldlM (fun val c => if c.old = val then some c.new else none) val

/-- What the listener of a key was told. -/
def Setters.heard (s : Setters n T) (key : Nat) : List (Notice T) :=
  s.var.called.filter (·.key = key)

/-- **The property**: every listener was told a chain, which ends in the value of the variable when no
call is under way. -/
def OneChain (s : Setters n T) : Prop :=
  ∀ i ∈ s.var.cbs, ∃ last, follow s.initial (s.heard i.key) = some last ∧
    ((∀ j, s.pending j = none) → s.var.val = last)

/-- **The condition**: a call that changes the value begins when no other is under way, and no
listener throws. -/
def Alone (s : Setters n T) : Locked n T → Prop
  | .read _ newVal => newVal = s.var.val ∨
      (∀ j, s.pending j = none) ∧ ∀ i ∈ s.var.cbs, i.returns s.var.val newVal = true
  | .write _ => True

instance Alone.decide (s : Setters n T) : (e : Locked n T) → Decidable (Alone s e)
  | .read _ newVal => inferInstanceAs (Decidable (newVal = s.var.val ∨
      (∀ j, s.pending j = none) ∧ ∀ i ∈ s.var.cbs, i.returns s.var.val newVal = true))
  | .write _ => isTrue trivial

theorem follow_concat (val : T) (calls : List (Notice T)) (c : Notice T) :
    follow val (calls ++ [c]) =
      (follow val calls).bind fun last => if c.old = last then some c.new else none := by
  simp [follow, List.foldlM_append]

/-! ### One section -/

section Step

variable {s s' : Setters n T} {e : Locked n T}

/-- **What a section can do**: find the value equal; tell all listeners; stop at one that throws;
assign. -/
theorem Setters.step_cases (stepped : s.step e = some s') :
    (∃ i newVal, e = .read i newVal ∧ newVal = s.var.val ∧ s' = s) ∨
    (∃ i newVal, e = .read i newVal ∧ newVal ≠ s.var.val ∧
      (∀ l ∈ s.var.cbs, l.returns s.var.val newVal = true) ∧
      s' = { s with
        var := { s.var with called :=
          s.var.called ++ s.var.cbs.map fun l => ⟨l.key, s.var.val, newVal⟩ },
        pending := Function.update s.pending i newVal }) ∨
    (∃ i newVal, e = .read i newVal ∧ newVal ≠ s.var.val ∧
      (¬ ∀ l ∈ s.var.cbs, l.returns s.var.val newVal = true) ∧
      s' = { s with
        var := { s.var with called := s.var.called ++ (callAll s.var.val newVal s.var.cbs).1 } }) ∨
    ∃ i newVal, e = .write i ∧ s.pending i = some newVal ∧
      s' = { s with var := s.var.assign newVal, pending := Function.update s.pending i none } := by
  cases e with
  | read i newVal =>
    unfold Setters.step at stepped
    cases free : s.pending i with
    | some _ => simp [free] at stepped
    | none =>
      rcases s.var.notify_cases newVal with ⟨same, ran⟩ | ⟨differs, returns, ran⟩ |
        ⟨differs, throws, ran⟩
      · simp only [free, ran, Option.some.injEq] at stepped
        exact .inl ⟨i, newVal, rfl, same, stepped.symm⟩
      · simp only [free, ran, Option.some.injEq] at stepped
        exact .inr (.inl ⟨i, newVal, rfl, differs, returns, stepped.symm⟩)
      · simp only [free, ran, Option.some.injEq] at stepped
        exact .inr (.inr (.inl ⟨i, newVal, rfl, differs, throws, stepped.symm⟩))
  | write i =>
    unfold Setters.step at stepped
    cases begun : s.pending i with
    | none => simp [begun] at stepped
    | some newVal =>
      simp only [begun, Option.some.injEq] at stepped
      exact .inr (.inr (.inr ⟨i, newVal, rfl, begun, stepped.symm⟩))

/-- **Between the sections**: the listeners were told of the value, or, by the one call under way, of
the value it is about to assign, which is another. -/
def InOrder (s : Setters n T) : Prop :=
  ∃ last, (∀ l ∈ s.var.cbs, follow s.initial (s.heard l.key) = some last) ∧
    ((∀ j, s.pending j = none) ∧ s.var.val = last ∨
      ∃ j, s.pending j = some last ∧ s.var.val ≠ last ∧ ∀ k, k ≠ j → s.pending k = none)

theorem InOrder.oneChain (inOrder : InOrder s) : OneChain s := by
  obtain ⟨last, told, ends⟩ := inOrder
  refine fun l member => ⟨last, told l member, fun quiet => ?_⟩
  rcases ends with ⟨_, same⟩ | ⟨j, pending, _⟩
  · exact same
  · rw [quiet j] at pending
    cases pending

/-- **A section that meets the condition keeps the order.** -/
theorem InOrder.step (inOrder : InOrder s) (alone : Alone s e) (stepped : s.step e = some s') :
    InOrder s' := by
  have current := inOrder.oneChain
  obtain ⟨last, told, ends⟩ := inOrder
  rcases Setters.step_cases stepped with ⟨i, newVal, rfl, _, rfl⟩ |
    ⟨i, newVal, rfl, differs, returns, rfl⟩ | ⟨i, newVal, rfl, differs, throws, _⟩ |
    ⟨i, newVal, rfl, begun, rfl⟩
  · exact ⟨last, told, ends⟩
  · obtain ⟨quiet, _⟩ := alone.resolve_left differs
    refine ⟨newVal, fun l member => ?_,
      .inr ⟨i, Function.update_self .., fun same => differs same.symm, fun k other => ?_⟩⟩
    · obtain ⟨last, chain, same⟩ := current l member
      show follow s.initial ((s.var.called ++ _).filter (·.key = l.key)) = some newVal
      rw [List.filter_append, filter_key s.var.distinct member, follow_concat]
      show (follow s.initial (s.heard l.key)).bind _ = _
      rw [chain, Option.bind_some, if_pos (same quiet)]
    · exact (Function.update_of_ne other _ _).trans (quiet k)
  · exact absurd (alone.resolve_left differs).2 throws
  · rcases ends with ⟨quiet, _⟩ | ⟨j, pending, _, others⟩
    · rw [quiet i] at begun
      cases begun
    · -- the call under way is this one
      have same : i = j := by
        by_contra other
        rw [others i other] at begun
        cases begun
      subst same
      obtain rfl := Option.some.inj (begun.symm.trans pending)
      refine ⟨newVal, told, .inl ⟨fun k => ?_, rfl⟩⟩
      by_cases here : k = i
      · rw [here]
        exact Function.update_self ..
      · exact (Function.update_of_ne here _ _).trans (others k here)

/-- What the first listener has heard when a section has called listeners. -/
theorem follow_first {first : Listener T} {rest : List (Listener T)} (cbs : s.var.cbs = first :: rest)
    {newVal : T} (called : s'.var.called = s.var.called ++ (callAll s.var.val newVal s.var.cbs).1) :
    follow s.initial (s'.heard first.key) =
      (follow s.initial (s.heard first.key)).bind fun last =>
        if s.var.val = last then some newVal else none := by
  have distinct := s.var.distinct
  rw [cbs] at distinct called
  unfold Setters.heard
  rw [called, List.filter_append, filter_key_first distinct, follow_concat]

/-- **A section keeps the chain exactly when it meets the condition**, if there is a listener. -/
theorem oneChain_iff_alone (inOrder : InOrder s) (listened : s.var.cbs ≠ [])
    (stepped : s.step e = some s') : OneChain s' ↔ Alone s e := by
  refine ⟨fun chain => ?_, fun alone => (inOrder.step alone stepped).oneChain⟩
  obtain ⟨first, rest, cbs⟩ := List.exists_cons_of_ne_nil listened
  obtain ⟨last, told, ends⟩ := inOrder
  have member : first ∈ s.var.cbs := cbs ▸ List.mem_cons_self
  -- a chain goes on only from the value, which is where it ended if no call is under way
  have goes : ∀ newVal : T,
      s'.var.called = s.var.called ++ (callAll s.var.val newVal s.var.cbs).1 →
      s'.initial = s.initial → s'.var.cbs = s.var.cbs →
      (∀ j, s.pending j = none) ∧ ((∀ j, s'.pending j = none) → s'.var.val = newVal) := by
    intro newVal called begins listeners
    obtain ⟨last', chain, closes⟩ := chain first (listeners ▸ member)
    rw [begins, follow_first cbs called, told first member, Option.bind_some] at chain
    split at chain
    next same =>
      obtain rfl := Option.some.inj chain
      refine ⟨?_, closes⟩
      rcases ends with ⟨quiet, _⟩ | ⟨_, _, differs, _⟩
      · exact quiet
      · exact absurd same differs
    next => cases chain
  rcases Setters.step_cases stepped with ⟨i, newVal, rfl, same, rfl⟩ |
    ⟨i, newVal, rfl, differs, returns, rfl⟩ | ⟨i, newVal, rfl, differs, throws, rfl⟩ |
    ⟨i, newVal, rfl, begun, rfl⟩
  · exact .inl same
  · have quiet := (goes newVal (by rw [callAll_all returns]) rfl rfl).1
    exact .inr ⟨quiet, returns⟩
  · obtain ⟨quiet, closes⟩ := goes newVal rfl rfl rfl
    exact absurd (closes quiet).symm differs
  · trivial

end Step

/-! ### Runs -/

theorem inOrder_of_start {s : Setters n T} (starts : (setters n T).start s) : InOrder s := by
  obtain ⟨silent, same, quiet⟩ := starts
  refine ⟨s.initial, fun l _ => ?_, .inl ⟨quiet, same.symm⟩⟩
  unfold Setters.heard
  rw [silent]
  rfl

/-- **The listeners are told one chain**, in runs that keep to the condition; it ends in the value of
the variable when all calls have finished. -/
theorem told_one_chain {s : Setters n T} (reached : (setters n T).ReachableWhen Alone s) :
    OneChain s := by
  have inOrder : InOrder s := reached.invariant (P := InOrder) (fun _ starts => inOrder_of_start starts)
    fun s e s' inOrder alone stepped => inOrder.step alone stepped
  exact inOrder.oneChain

/-- A variable of value 0 with one listener. -/
def Setters.listened (n : Nat) : Setters n Int where
  initial := 0
  var := { ConfigVar.new "tcp.timeout" 0 "" with
    cbs := [⟨1, fun _ _ => true⟩]
    distinct := List.nodup_singleton 1 }
  pending := fun _ => none

theorem Setters.listened_start (n : Nat) : (setters n Int).start (Setters.listened n) :=
  ⟨rfl, rfl, fun _ => rfl⟩

/-- Two calls, one after the other, by two threads. -/
theorem told_one_chain_of_two : ∃ s : Setters 2 Int, (setters 2 Int).ReachableWhen Alone s ∧
    s.heard 1 = [⟨1, 0, 5⟩, ⟨1, 5, 3⟩] ∧ OneChain s := by
  have ran : ∃ s, (setters 2 Int).ReachableWhen Alone s ∧
      decide (s.heard 1 = [⟨1, 0, 5⟩, ⟨1, 5, 3⟩]) = true :=
    Machine.reachableWhen_of_replay (Setters.listened_start 2)
      [.read 0 5, .write 0, .read 1 3, .write 1] _ (by decide)
  obtain ⟨s, reached, heard⟩ := ran
  exact ⟨s, reached, of_decide_eq_true heard, told_one_chain reached⟩

/-- Two calls whose read-locked sections come first: the listener is told (0, 5) and (0, 3), and then
the first call assigns last. -/
theorem told_two_chains : ∃ s : Setters 2 Int, (setters 2 Int).Reachable s ∧ ¬ OneChain s := by
  have ran : ∃ s, (setters 2 Int).Reachable s ∧
      decide (s.var.cbs.map Listener.key = [1] ∧ follow s.initial (s.heard 1) = none) = true :=
    Machine.reachable_of_replay (Setters.listened_start 2)
      [.read 0 5, .read 1 3, .write 1, .write 0] _ (by decide)
  obtain ⟨s, reached, broken⟩ := ran
  obtain ⟨keys, broken⟩ := of_decide_eq_true broken
  refine ⟨s, reached, fun chain => ?_⟩
  obtain ⟨l, member, key⟩ := List.mem_map.mp (keys ▸ List.mem_singleton_self 1)
  obtain ⟨last, told, _⟩ := chain l member
  rw [key, broken] at told
  cases told

end Sylar.Config
