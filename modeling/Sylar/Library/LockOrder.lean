/-
**Locks taken in one order: flows that call functions with scoped locks.**

A `Skeleton` is what a function does with locks: what it decides and how often it loops is left open,
and a guard is a scope. Any number of flows run skeletons side by side. A lock is granted to a flow
when no other one holds it in a mode that clashes, and, where the locks prefer writers, a reader also
gives way to every flow that waits to write.

* `Skeleton.Climbs` — **every lock ranks above those that are held when it is taken**, and the flow
  leaves its thread only when it holds none.
* `Flow.Ordered` — what a flow has taken, against what it is yet to do; `Flow.Ordered.next`.
* `Unclashed` — two flows hold one lock only to read.
* `exists_moves` — **a flow that cannot move waits, through a chain of flows, for one that can**;
  `Flow.leaving` — a flow that leaves holds nothing.
* `wellFounded_step` — **no run is infinite**, whatever the order.
-/

import Mathlib.Algebra.BigOperators.Group.Finset.Basic
import Mathlib.Data.Fintype.Basic
import Mathlib.Logic.Hydra
import Sylar.Library.Machine

namespace Sylar.Library

/-- How a lock is held. -/
inductive LockMode
  | shared
  | exclusive
  deriving DecidableEq

/-- Two flows cannot hold one lock so. -/
def LockMode.clash : LockMode → LockMode → Bool
  | .shared, .shared => false
  | _, _ => true

theorem LockMode.clash_comm (a b : LockMode) : a.clash b = b.clash a := by
  cases a <;> cases b <;> rfl

/-- What a function does with locks. -/
inductive Skeleton (L : Type)
  | skip
  /-- The flow leaves its thread, or blocks on something that is not a lock. -/
  | leave
  | seq (first second : Skeleton L)
  | either (first second : Skeleton L)
  | any (body : Nat → Skeleton L)
  | locked (mode : LockMode) (lock : L) (body : Skeleton L)

namespace Skeleton

variable {L : Type}

/-- So often, one after the other. -/
def times (body : Skeleton L) : Nat → Skeleton L
  | 0 => skip
  | n + 1 => seq body (body.times n)

/-- A loop. -/
def many (body : Skeleton L) : Skeleton L := any body.times

/-- What may be left out. -/
def perhaps (body : Skeleton L) : Skeleton L := either skip body

/-- One after the other. -/
def all : List (Skeleton L) → Skeleton L
  | [] => skip
  | first :: rest => seq first (all rest)

variable {ρ : Type} [Preorder ρ] [OrderBot ρ] (rank : L → ρ)

/-- **Every lock ranks above those that are held when it is taken**, of which `r` is the highest. -/
def Climbs : ρ → Skeleton L → Prop
  | _, skip => True
  | r, leave => r ≤ ⊥
  | r, seq first second => first.Climbs r ∧ second.Climbs r
  | r, either first second => first.Climbs r ∧ second.Climbs r
  | r, any body => ∀ k, (body k).Climbs r
  | r, locked _ lock body => r < rank lock ∧ body.Climbs (rank lock)

variable {rank} {r : ρ} {body : Skeleton L}

@[simp] theorem climbs_many : body.many.Climbs rank r ↔ body.Climbs rank r := by
  refine ⟨fun climbs => (climbs 1).1, fun climbs k => ?_⟩
  induction k with
  | zero => trivial
  | succ k ih => exact ⟨climbs, ih⟩

@[simp] theorem climbs_perhaps : body.perhaps.Climbs rank r ↔ body.Climbs rank r :=
  iff_of_eq (true_and _)

@[simp] theorem climbs_all {codes : List (Skeleton L)} :
    (all codes).Climbs rank r ↔ ∀ code ∈ codes, code.Climbs rank r := by
  induction codes with
  | nil => exact iff_of_true trivial nofun
  | cons first rest ih => exact (and_congr_right' ih).trans List.forall_mem_cons.symm

/-- What climbs from somewhere climbs from below. -/
theorem Climbs.mono {p : Skeleton L} {low : ρ} (climbs : p.Climbs rank r) (below : low ≤ r) :
    p.Climbs rank low := by
  induction p with
  | skip => trivial
  | leave => exact below.trans climbs
  | seq first second ih₁ ih₂ => exact ⟨ih₁ climbs.1, ih₂ climbs.2⟩
  | either first second ih₁ ih₂ => exact ⟨ih₁ climbs.1, ih₂ climbs.2⟩
  | any body ih => exact fun k => ih k (climbs k)
  | locked mode lock body => exact ⟨below.trans_lt climbs.1, climbs.2⟩

end Skeleton

/-! ### Flows -/

/-- What a flow is yet to do: a call, or the end of a guard's scope. -/
inductive Todo (L : Type)
  | call (p : Skeleton L)
  | release

/-- A flow of control: what it is yet to do, and what it holds, the last taken first. -/
structure Flow (L : Type) where
  todo : List (Todo L)
  held : List (LockMode × L)

namespace Flow

variable {L : Type}

/-- The lock that the flow is about to take. -/
def wants (f : Flow L) : Option (LockMode × L) :=
  match f.todo with
  | .call (.locked mode lock _) :: _ => some (mode, lock)
  | _ => none

/-- What the flow is about to do, with how it decides; a finished flow does nothing. -/
def next (choice : Nat) (f : Flow L) : Option (Flow L) :=
  match f.todo with
  | [] => none
  | .release :: rest => some ⟨rest, f.held.tail⟩
  | .call p :: rest =>
    match p with
    | .skip | .leave => some ⟨rest, f.held⟩
    | .seq first second => some ⟨.call first :: .call second :: rest, f.held⟩
    | .either first second => some ⟨.call (if choice = 0 then first else second) :: rest, f.held⟩
    | .any body => some ⟨.call (body choice) :: rest, f.held⟩
    | .locked mode lock body => some ⟨.call body :: .release :: rest, (mode, lock) :: f.held⟩

end Flow

/-- Flows side by side. -/
abbrev Flows (L : Type) (n : Nat) := Fin n → Flow L

namespace Flows

variable {L : Type} [DecidableEq L] {n : Nat} (prefersWriters : Bool) (s : Flows L n)

/-- The flow `j` is in the way of who wants the lock: it holds it, or it waits to write. -/
def blocks (want : LockMode × L) (j : Fin n) : Bool :=
  (s j).held.any (fun h => h.2 = want.2 && want.1.clash h.1) ||
    prefersWriters && want.1 = .shared && (s j).wants = some (.exclusive, want.2)

/-- The flow `i` waits for the flow `j`. -/
def WaitsFor (i j : Fin n) : Prop :=
  ∃ want ∈ (s i).wants, s.blocks prefersWriters want j = true

instance (i j : Fin n) : Decidable (s.WaitsFor prefersWriters i j) :=
  inferInstanceAs (Decidable (∃ want ∈ _, _))

/-- A flow that waits for none makes its next step. -/
def step (event : Fin n × Nat) : Option (Flows L n) :=
  if ∃ j, s.WaitsFor prefersWriters event.1 j then none
  else ((s event.1).next event.2).map (Function.update s event.1)

end Flows

/-- The flows, each with its calls. -/
def flows {L : Type} [DecidableEq L] {n : Nat} (prefersWriters : Bool)
    (calls : Fin n → List (Skeleton L)) : Machine (Flows L n) (Fin n × Nat) where
  start s := s = fun i => ⟨(calls i).map .call, []⟩
  step := Flows.step prefersWriters

/-! ### One flow -/

namespace Flow

variable {L ρ : Type} [Preorder ρ] [OrderBot ρ] {rank : L → ρ} {f f' : Flow L} {choice : Nat}

/-- The highest of what is held. -/
def top (rank : L → ρ) : List (LockMode × L) → ρ
  | [] => ⊥
  | (_, lock) :: _ => rank lock

/-- What is held against what is to be done: every call climbs from the highest lock, and every lock
has the end of its scope ahead. -/
inductive Framed (rank : L → ρ) : List (Todo L) → List (LockMode × L) → Prop
  | done : Framed rank [] []
  | call {p : Skeleton L} {todo : List (Todo L)} {held : List (LockMode × L)} :
      p.Climbs rank (top rank held) → Framed rank todo held → Framed rank (.call p :: todo) held
  | release {mode : LockMode} {lock : L} {todo : List (Todo L)} {held : List (LockMode × L)} :
      top rank held < rank lock → Framed rank todo held →
        Framed rank (.release :: todo) ((mode, lock) :: held)

/-- **The invariant of a flow.** -/
def Ordered (rank : L → ρ) (f : Flow L) : Prop := Framed rank f.todo f.held

theorem Framed.le_top {todo : List (Todo L)} {held : List (LockMode × L)}
    (framed : Framed rank todo held) {h : LockMode × L} (member : h ∈ held) :
    rank h.2 ≤ top rank held := by
  induction framed with
  | done => cases member
  | call _ _ ih => exact ih member
  | release higher _ ih =>
    rcases List.mem_cons.mp member with rfl | older
    · exact le_refl _
    · exact ((ih older).trans_lt higher).le

theorem Framed.bot_lt_top {todo : List (Todo L)} {held : List (LockMode × L)}
    (framed : Framed rank todo held) (holds : held ≠ []) : ⊥ < top rank held := by
  induction framed with
  | done => exact absurd rfl holds
  | call _ _ ih => exact ih holds
  | release higher _ _ => exact bot_le.trans_lt higher

/-- A flow that has not begun. -/
theorem ordered_start {calls : List (Skeleton L)} (climb : ∀ p ∈ calls, p.Climbs rank ⊥) :
    Ordered rank ⟨calls.map .call, []⟩ := by
  unfold Ordered
  induction calls with
  | nil => exact .done
  | cons p rest ih =>
    obtain ⟨first, others⟩ := List.forall_mem_cons.mp climb
    exact .call first (ih others)

/-- **One step of a flow.** -/
theorem Ordered.next (ordered : f.Ordered rank) (moved : f.next choice = some f') :
    f'.Ordered rank := by
  obtain ⟨todo, held⟩ := f
  unfold Ordered at ordered ⊢
  cases ordered with
  | done => cases moved
  | release _ framed =>
    cases moved
    exact framed
  | @call p rest _ climbs framed =>
    cases p with
    | skip | leave =>
      cases moved
      exact framed
    | seq first second =>
      cases moved
      exact .call climbs.1 (.call climbs.2 framed)
    | either first second =>
      cases moved
      refine .call ?_ framed
      split
      · exact climbs.1
      · exact climbs.2
    | any body =>
      cases moved
      exact .call (climbs choice) framed
    | locked mode lock body =>
      cases moved
      exact .call climbs.2 (.release climbs.1 framed)

/-- What a flow wants ranks above what it holds. -/
theorem Ordered.wants_above (ordered : f.Ordered rank) {want : LockMode × L}
    (wants : f.wants = some want) : top rank f.held < rank want.2 := by
  obtain ⟨todo, held⟩ := f
  unfold Ordered at ordered
  unfold Flow.wants at wants
  cases ordered with
  | done | release => cases wants
  | @call p rest _ climbs framed =>
    cases p with
    | skip | leave | seq | either | any => cases wants
    | locked mode lock body =>
      cases wants
      exact climbs.1

/-- Who holds a lock is not finished. -/
theorem Ordered.busy (ordered : f.Ordered rank) (holds : f.held ≠ []) : f.todo ≠ [] := by
  obtain ⟨todo, held⟩ := f
  unfold Ordered at ordered
  cases ordered with
  | done => exact absurd rfl holds
  | call | release => exact List.cons_ne_nil _ _

/-- **A flow that leaves holds nothing.** -/
theorem Ordered.leaving (ordered : f.Ordered rank) {rest : List (Todo L)}
    (leaves : f.todo = .call .leave :: rest) : f.held = [] := by
  unfold Ordered at ordered
  rw [leaves] at ordered
  cases ordered with
  | call climbs framed =>
    by_contra holds
    exact absurd ((framed.bot_lt_top holds).trans_le climbs) (lt_irrefl ⊥)

theorem busy_of_wants {want : LockMode × L} (wants : f.wants = some want) : f.todo ≠ [] := by
  intro finished
  unfold Flow.wants at wants
  rw [finished] at wants
  cases wants

theorem next_isSome (busy : f.todo ≠ []) : (f.next choice).isSome = true := by
  obtain ⟨todo, held⟩ := f
  cases todo with
  | nil => exact absurd rfl busy
  | cons first rest =>
    cases first with
    | release => rfl
    | call p => cases p <;> rfl

/-- **What a step does to what is held.** -/
theorem held_next (moved : f.next choice = some f') :
    (∀ h ∈ f'.held, h ∈ f.held) ∨ ∃ want, f.wants = some want ∧ f'.held = want :: f.held := by
  obtain ⟨todo, held⟩ := f
  cases todo with
  | nil => cases moved
  | cons first rest =>
    cases first with
    | release =>
      cases moved
      exact .inl fun h kept => List.mem_of_mem_tail kept
    | call p =>
      cases p with
      | skip | leave | seq | either | any =>
        cases moved
        exact .inl fun h kept => kept
      | locked mode lock body =>
        cases moved
        exact .inr ⟨(mode, lock), rfl, rfl⟩

end Flow

/-! ### Flows side by side -/

namespace Flows

variable {L ρ : Type} [DecidableEq L] [Preorder ρ] [OrderBot ρ] {rank : L → ρ} {n : Nat}
  {prefersWriters : Bool} {s s' : Flows L n} {i j : Fin n} {choice : Nat}

theorem blocks_cases {want : LockMode × L} (blocked : s.blocks prefersWriters want j = true) :
    (∃ h ∈ (s j).held, h.2 = want.2 ∧ want.1.clash h.1 = true) ∨
      want.1 = .shared ∧ (s j).wants = some (.exclusive, want.2) := by
  unfold blocks at blocked
  rcases Bool.or_eq_true_iff.mp blocked with held | writer
  · obtain ⟨h, holds, clash⟩ := List.any_eq_true.mp held
    obtain ⟨same, clash⟩ := Bool.and_eq_true_iff.mp clash
    exact .inl ⟨h, holds, of_decide_eq_true same, clash⟩
  · obtain ⟨reads, writes⟩ := Bool.and_eq_true_iff.mp writer
    exact .inr ⟨of_decide_eq_true (Bool.and_eq_true_iff.mp reads).2, of_decide_eq_true writes⟩

theorem step_cases {event : Fin n × Nat} (stepped : s.step prefersWriters event = some s') :
    (∀ j, ¬ s.WaitsFor prefersWriters event.1 j) ∧ ∃ f, (s event.1).next event.2 = some f ∧
      s' = Function.update s event.1 f := by
  unfold step at stepped
  obtain ⟨free, moved⟩ := Option.ite_none_left_eq_some.mp stepped
  obtain ⟨f, next, same⟩ := Option.map_eq_some_iff.mp moved
  exact ⟨not_exists.mp free, f, next, same.symm⟩

/-- Two flows hold one lock only to read. -/
def Unclashed (s : Flows L n) : Prop :=
  ∀ i j, i ≠ j → ∀ a ∈ (s i).held, ∀ b ∈ (s j).held, a.2 = b.2 → a.1.clash b.1 = false

/-- A lock that is granted clashes with none that is held. -/
theorem granted {want : LockMode × L} (wants : (s i).wants = some want)
    (free : ¬ s.WaitsFor prefersWriters i j) {b : LockMode × L} (holds : b ∈ (s j).held)
    (same : want.2 = b.2) : want.1.clash b.1 = false := by
  by_contra clash
  refine free ⟨want, wants, ?_⟩
  unfold blocks
  rw [List.any_eq_true.mpr ⟨b, holds, by simpa [same] using clash⟩]
  rfl

theorem Unclashed.step {event : Fin n × Nat} (unclashed : s.Unclashed)
    (stepped : s.step prefersWriters event = some s') : s'.Unclashed := by
  obtain ⟨free, f, next, rfl⟩ := step_cases stepped
  -- the flow that moved against another one
  have moved (j : Fin n) (other : j ≠ event.1) : ∀ a ∈ f.held, ∀ b ∈ (s j).held, a.2 = b.2 →
      a.1.clash b.1 = false := by
    intro a mine b yours same
    rcases Flow.held_next next with kept | ⟨want, wants, taken⟩
    · exact unclashed _ _ other.symm a (kept a mine) b yours same
    · rw [taken] at mine
      rcases List.mem_cons.mp mine with rfl | older
      · exact granted wants (free j) yours same
      · exact unclashed _ _ other.symm a older b yours same
  intro i j apart a mine b yours same
  rcases eq_or_ne i event.1 with rfl | otherI
  · rw [Function.update_self] at mine
    rw [Function.update_of_ne apart.symm] at yours
    exact moved j apart.symm a mine b yours same
  · rw [Function.update_of_ne otherI] at mine
    rcases eq_or_ne j event.1 with rfl | otherJ
    · rw [Function.update_self] at yours
      rw [LockMode.clash_comm]
      exact moved i otherI b yours a mine same.symm
    · rw [Function.update_of_ne otherJ] at yours
      exact unclashed i j apart a mine b yours same

/-- **The invariant of the flows.** -/
theorem reachable {calls : Fin n → List (Skeleton L)}
    (climb : ∀ i, ∀ p ∈ calls i, p.Climbs rank ⊥)
    (reached : (flows prefersWriters calls).Reachable s) :
    (∀ i, (s i).Ordered rank) ∧ s.Unclashed := by
  refine reached.invariant (P := fun s => (∀ i, (s i).Ordered rank) ∧ s.Unclashed)
    (fun s begins => ?_) fun s event s' invariant _ stepped => ?_
  · cases begins
    exact ⟨fun i => Flow.ordered_start (climb i), fun _ _ _ _ held => nomatch held⟩
  · obtain ⟨ordered, unclashed⟩ := invariant
    refine ⟨fun i => ?_, unclashed.step stepped⟩
    obtain ⟨-, f, next, rfl⟩ := step_cases stepped
    rcases eq_or_ne i event.1 with rfl | other
    · rw [Function.update_self]
      exact (ordered event.1).next next
    · rw [Function.update_of_ne other]
      exact ordered i

/-! ### Somebody moves -/

theorem moves_of_free (busy : (s i).todo ≠ []) (free : ∀ j, ¬ s.WaitsFor prefersWriters i j) :
    (s.step prefersWriters (i, choice)).isSome = true := by
  unfold step
  rw [if_neg (not_exists.mpr free), Option.isSome_map]
  exact Flow.next_isSome busy

/-- The lock that the second flow wants ranks above the one that the first wants. -/
def Above (rank : L → ρ) (s : Flows L n) (j i : Fin n) : Prop :=
  ∃ want ∈ (s i).wants, ∃ next ∈ (s j).wants, rank want.2 < rank next.2

omit [DecidableEq L] [OrderBot ρ] in
theorem wellFounded_above : WellFounded (s.Above rank) := by
  have trans : IsTrans (Fin n) (s.Above rank) := ⟨by
    rintro k j i ⟨low, lowWants, middle, middleWants, first⟩ ⟨want, wants, low', same, second⟩
    cases lowWants.symm.trans same
    exact ⟨want, wants, middle, middleWants, second.trans first⟩⟩
  have irrefl : Std.Irrefl (s.Above rank) := ⟨by
    rintro i ⟨want, wants, other, same, higher⟩
    cases wants.symm.trans same
    exact lt_irrefl _ higher⟩
  exact Finite.wellFounded_of_trans_of_irrefl _

/-- **A flow that cannot move waits, through a chain of flows, for one that can.** -/
theorem exists_moves (ordered : ∀ i, (s i).Ordered rank) (i : Fin n) (busy : (s i).todo ≠ []) :
    ∃ j, Relation.ReflTransGen (s.WaitsFor prefersWriters) i j ∧
      ∀ choice, (s.step prefersWriters (j, choice)).isSome = true := by
  have climbing : WellFounded (s.Above rank) := wellFounded_above
  induction i using climbing.induction with
  | h i ih =>
    by_cases free : ∀ j, ¬ s.WaitsFor prefersWriters i j
    · exact ⟨i, .refl, fun _ => moves_of_free busy free⟩
    obtain ⟨j, waits⟩ := not_forall_not.mp free
    obtain ⟨want, wants, blocked⟩ := id waits
    -- whoever holds the lock has climbed above it
    have holder (k : Fin n) (h : LockMode × L) (holds : h ∈ (s k).held) (same : h.2 = want.2) :
        ∃ j, Relation.ReflTransGen (s.WaitsFor prefersWriters) k j ∧
          ∀ choice, (s.step prefersWriters (j, choice)).isSome = true := by
      have working := (ordered k).busy (List.ne_nil_of_mem holds)
      by_cases freeK : ∀ j, ¬ s.WaitsFor prefersWriters k j
      · exact ⟨k, .refl, fun _ => moves_of_free working freeK⟩
      obtain ⟨-, next, wantsNext, -⟩ := not_forall_not.mp freeK
      refine ih k ⟨want, wants, next, wantsNext, ?_⟩ working
      rw [← same]
      exact ((ordered k).le_top holds).trans_lt ((ordered k).wants_above wantsNext)
    rcases blocks_cases blocked with ⟨h, holds, same, -⟩ | ⟨reads, writes⟩
    · obtain ⟨k, chain, moves⟩ := holder j h holds same
      exact ⟨k, .head waits chain, moves⟩
    · -- a writer can only wait for who holds the lock
      by_cases freeJ : ∀ k, ¬ s.WaitsFor prefersWriters j k
      · exact ⟨j, .single waits, fun _ => moves_of_free (Flow.busy_of_wants writes) freeJ⟩
      obtain ⟨k, waitsJ⟩ := not_forall_not.mp freeJ
      obtain ⟨want', wants', blockedJ⟩ := id waitsJ
      cases writes.symm.trans wants'
      rcases blocks_cases blockedJ with ⟨h, holds, same, -⟩ | ⟨reads', -⟩
      · obtain ⟨l, chain, moves⟩ := holder k h holds same
        exact ⟨l, .head waits (.head waitsJ chain), moves⟩
      · cases reads'

/-- **Flows that are stuck are finished.** -/
theorem finished_of_stuck (ordered : ∀ i, (s i).Ordered rank)
    (stuck : ∀ event, s.step prefersWriters event = none) (i : Fin n) :
    (s i).todo = [] ∧ (s i).held = [] := by
  have finished : (s i).todo = [] := by
    by_contra busy
    obtain ⟨j, -, moves⟩ := exists_moves ordered i busy
    have moved : (s.step prefersWriters (j, 0)).isSome = true := moves 0
    rw [stuck (j, 0)] at moved
    cases moved
  refine ⟨finished, ?_⟩
  by_contra holds
  exact (ordered i).busy holds finished

end Flows

/-! ### Runs end -/

/-- What a call does is part of it. -/
inductive Todo.Part {L : Type} : Todo L → Todo L → Prop
  | release (p : Skeleton L) : Part .release (.call p)
  | first (p q : Skeleton L) : Part (.call p) (.call (.seq p q))
  | second (p q : Skeleton L) : Part (.call q) (.call (.seq p q))
  | left (p q : Skeleton L) : Part (.call p) (.call (.either p q))
  | right (p q : Skeleton L) : Part (.call q) (.call (.either p q))
  | round (body : Nat → Skeleton L) (k : Nat) : Part (.call (body k)) (.call (.any body))
  | scope (mode : LockMode) (lock : L) (p : Skeleton L) :
      Part (.call p) (.call (.locked mode lock p))

theorem Todo.wellFounded_part {L : Type} : WellFounded (Todo.Part (L := L)) := by
  have release : Acc Todo.Part (Todo.release (L := L)) := ⟨_, fun _ part => nomatch part⟩
  refine ⟨fun x => ?_⟩
  cases x with
  | release => exact release
  | call p =>
    induction p with
    | skip | leave =>
      refine ⟨_, fun y part => ?_⟩
      cases part
      exact release
    | seq p q first second =>
      refine ⟨_, fun y part => ?_⟩
      cases part
      · exact release
      · exact first
      · exact second
    | either p q left right =>
      refine ⟨_, fun y part => ?_⟩
      cases part
      · exact release
      · exact left
      · exact right
    | any body round =>
      refine ⟨_, fun y part => ?_⟩
      cases part with
      | release => exact release
      | round _ k => exact round k
    | locked mode lock p scope =>
      refine ⟨_, fun y part => ?_⟩
      cases part
      · exact release
      · exact scope

/-- A step puts parts of a call in its place. -/
theorem Flow.next_part {L : Type} {f f' : Flow L} {choice : Nat}
    (moved : f.next choice = some f') :
    Relation.CutExpand Todo.Part (f'.todo : Multiset (Todo L)) f.todo := by
  obtain ⟨todo, held⟩ := f
  cases todo with
  | nil => cases moved
  | cons x rest =>
    -- what the step puts in front of the rest
    have front (parts : List (Todo L)) (fewer : ∀ y ∈ parts, Todo.Part y x) :
        Relation.CutExpand Todo.Part ((parts ++ rest : List (Todo L)) : Multiset (Todo L))
          ((x :: rest : List (Todo L)) : Multiset (Todo L)) := by
      rw [← Multiset.coe_add, ← Multiset.cons_coe, ← Multiset.singleton_add]
      exact (Relation.cutExpand_add_right _).mpr (Relation.cutExpand_singleton fewer)
    cases x with
    | release =>
      cases moved
      exact front [] (by simp)
    | call p =>
      cases p with
      | skip | leave =>
        cases moved
        exact front [] (by simp)
      | seq p q =>
        cases moved
        exact front [.call p, .call q] (by simp [Todo.Part.first, Todo.Part.second])
      | either p q =>
        cases moved
        refine front [.call (if choice = 0 then p else q)] (List.forall_mem_singleton.mpr ?_)
        split
        · exact .left p q
        · exact .right p q
      | any body =>
        cases moved
        exact front [.call (body choice)] (List.forall_mem_singleton.mpr (.round body choice))
      | locked mode lock p =>
        cases moved
        exact front [.call p, .release] (by simp [Todo.Part.scope, Todo.Part.release])

/-- **No run is infinite.** -/
theorem Flows.wellFounded_step {L : Type} [DecidableEq L] (prefersWriters : Bool) (n : Nat) :
    WellFounded fun s' s : Flows L n => ∃ event, s.step prefersWriters event = some s' := by
  refine Subrelation.wf (r := InvImage (Relation.CutExpand Todo.Part)
    fun s : Flows L n => ∑ i, ((s i).todo : Multiset (Todo L))) ?_
    (InvImage.wf _ Todo.wellFounded_part.cutExpand)
  rintro s' s ⟨⟨i, choice⟩, stepped⟩
  obtain ⟨-, f, next, rfl⟩ := Flows.step_cases stepped
  have others : ∑ j ∈ Finset.univ.erase i, ((Function.update s i f j).todo : Multiset (Todo L)) =
      ∑ j ∈ Finset.univ.erase i, ((s j).todo : Multiset (Todo L)) :=
    Finset.sum_congr rfl fun j away => by
      rw [Function.update_of_ne (Finset.ne_of_mem_erase away)]
  show Relation.CutExpand Todo.Part (∑ j, ((Function.update s i f j).todo : Multiset (Todo L)))
    (∑ j, ((s j).todo : Multiset (Todo L)))
  rw [← Finset.add_sum_erase Finset.univ (fun j => ((s j).todo : Multiset (Todo L)))
      (Finset.mem_univ i),
    ← Finset.add_sum_erase Finset.univ
      (fun j => ((Function.update s i f j).todo : Multiset (Todo L))) (Finset.mem_univ i),
    others, Function.update_self]
  exact (Relation.cutExpand_add_right _).mpr (Flow.next_part next)

/-- The same, of a run. -/
theorem Flows.runs_end {L : Type} [DecidableEq L] (prefersWriters : Bool) {n : Nat}
    (run : Nat → Flows L n) :
    ∃ k, ∀ event, (run k).step prefersWriters event ≠ some (run (k + 1)) := by
  have wf : IsWellFounded (Flows L n) fun s' s => ∃ event, s.step prefersWriters event = some s' :=
    ⟨Flows.wellFounded_step prefersWriters n⟩
  obtain ⟨k, last⟩ := WellFounded.not_rel_apply_succ (r := fun s' s : Flows L n =>
    ∃ event, s.step prefersWriters event = some s') run
  exact ⟨k, fun event stepped => last ⟨event, stepped⟩⟩

end Sylar.Library
