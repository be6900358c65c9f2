/-
**A variable that `Lookup` returned, and the one that stands under its name.**

A program looks variables up, by static initialisers and later, and loads documents. `Lookup` gives
a variable to its caller for ever; a name that is looked up with another type than its variable has
is registered again, with a new variable.

* `Stays` — what was returned for a name stands under it.
* `Agrees` — **the condition**: a registered name is looked up with the type of its variable.
* `stays_iff_agrees` — a call that meets the condition keeps what was returned, another does not.
* `registered_stays` — **in runs that keep to it, the variable returned for a name is the one looked
  up later, and the one loaded later**.
-/

import Sylar.Config.Load
import Sylar.Library.Machine

namespace Sylar.Config

open Sylar.Library Sylar.Library.Yaml

variable {τ : Type} {types : Types τ} [DecidableEq τ]

/-! ### The program -/

/-- The registry, and the names and variables that `Lookup` has returned. -/
structure Holders (types : Types τ) where
  registry : Registry types
  returned : List (String × Nat)

/-- A call of the program. -/
inductive Call (types : Types τ)
  | lookup (t : τ) (name : String) (default : types.Val t) (description : String)
  | loadFromYaml (root : Node)

/-- One call. -/
def Holders.step (yaml : Text) (s : Holders types) : Call types → Option (Holders types)
  | .lookup t name default description =>
      match s.registry.lookup t name default description with
      | .ok (registry, id) => some ⟨registry, (name, id) :: s.returned⟩
      -- std::invalid_argument, for the caller
      | .error _ => some s
  | .loadFromYaml root => some { s with registry := s.registry.loadFromYaml yaml root }

/-- All that is registered was returned. -/
def Recorded (s : Holders types) : Prop :=
  ∀ name id, (name, id) ∈ s.returned ↔ s.registry.datas name = some id

/-- A program that starts with some variables, and knows them. -/
def program (yaml : Text) (types : Types τ) : Machine (Holders types) (Call types) where
  start := Recorded
  step := Holders.step yaml

/-- What was returned for a name stands under it. -/
def Stays (s : Holders types) : Prop :=
  ∀ name id, (name, id) ∈ s.returned → s.registry.lookupBase name = some id

/-- **The condition**: a registered name is looked up with the type of its variable. -/
def Agrees (s : Holders types) : Call types → Prop
  | .lookup t name _ _ => ∀ v ∈ s.registry.registered name, v.type = t
  | .loadFromYaml _ => True

instance Agrees.decide (s : Holders types) : (call : Call types) → Decidable (Agrees s call)
  | .lookup t name _ _ => inferInstanceAs (Decidable (∀ v ∈ s.registry.registered name, v.type = t))
  | .loadFromYaml _ => isTrue trivial

/-! ### One call -/

section Step

variable {yaml : Text} {s s' : Holders types} {call : Call types}

/-- **What a call can do**: return the variable of a name, register one, or neither. -/
theorem step_cases (stepped : s.step yaml call = some s') :
    (∃ t name default description id, call = .lookup t name default description ∧
      s.registry.datas name = some id ∧ s' = { s with returned := (name, id) :: s.returned }) ∨
    (∃ t name default description accepted, call = .lookup t name default description ∧
      (¬ ∃ v ∈ s.registry.registered name, v.type = t) ∧
      s' = ⟨s.registry.insert ⟨t, .new name default description⟩ accepted,
        (name, s.registry.heap.length) :: s.returned⟩) ∨
    s'.returned = s.returned ∧ s'.registry.datas = s.registry.datas := by
  cases call with
  | lookup t name default description =>
    unfold Holders.step at stepped
    cases ran : s.registry.lookup t name default description with
    | ok out =>
      obtain ⟨registry, id⟩ := out
      simp only [ran, Option.some.injEq] at stepped
      rcases Registry.lookup_ok ran with ⟨rfl, found, _⟩ | ⟨accepted, rfl, rfl, other⟩
      · exact .inl ⟨t, name, default, description, id, rfl, found, stepped.symm⟩
      · exact .inr (.inl ⟨t, name, default, description, accepted, rfl, other, stepped.symm⟩)
    | error thrown =>
      simp only [ran, Option.some.injEq] at stepped
      subst stepped
      exact .inr (.inr ⟨rfl, rfl⟩)
  | loadFromYaml root =>
    obtain rfl := Option.some.inj stepped
    exact .inr (.inr ⟨rfl, s.registry.loadFromYaml_datas yaml root⟩)

/-- **A call that meets the condition.** -/
theorem Recorded.step (recorded : Recorded s) (agrees : Agrees s call)
    (stepped : s.step yaml call = some s') : Recorded s' := by
  intro other id
  rcases step_cases stepped with ⟨t, name, default, description, found, rfl, held, rfl⟩ |
    ⟨t, name, default, description, accepted, rfl, alone, rfl⟩ | ⟨same, datas⟩
  · rw [List.mem_cons, recorded other id, Prod.mk.injEq]
    constructor
    · rintro (⟨rfl, rfl⟩ | held)
      · exact held
      · exact held
    · exact .inr
  · -- the name is new: its variable would have the type
    have new : s.registry.datas name = none := by
      cases held : s.registry.datas name with
      | none => rfl
      | some id =>
        obtain ⟨_, v, there, _⟩ := s.registry.named held
        have here : v ∈ s.registry.registered name :=
          Option.bind_eq_some_iff.mpr ⟨id, held, there⟩
        exact absurd ⟨v, here, agrees v here⟩ alone
    rw [List.mem_cons, recorded other id, Registry.insert_datas, Prod.mk.injEq]
    show _ ↔ (if other = name then some s.registry.heap.length else _) = _
    by_cases here : other = name
    · subst here
      rw [if_pos rfl, new]
      simp [eq_comm]
    · rw [if_neg here]
      simp [here]
  · rw [same, datas]
    exact recorded other id

/-- **A call keeps what was returned exactly when it meets the condition.** -/
theorem stays_iff_agrees (recorded : Recorded s) (stepped : s.step yaml call = some s') :
    Stays s' ↔ Agrees s call := by
  refine ⟨fun stays => ?_, fun agrees name id => (recorded.step agrees stepped name id).mp⟩
  cases call with
  | loadFromYaml root => trivial
  | lookup t name default description =>
    intro v here
    by_contra differ
    obtain ⟨old, held, there⟩ := Option.bind_eq_some_iff.mp here
    obtain ⟨accepted, _⟩ := s.registry.named held
    have missed : s.registry.lookupOnly t name = none := by
      cases hit : s.registry.lookupOnly t name with
      | none => rfl
      | some id => exact absurd ((Registry.lookupOnly_eq_some.mp hit).2 v here) differ
    have inserted : s' = ⟨s.registry.insert ⟨t, .new name default description⟩ accepted,
        (name, s.registry.heap.length) :: s.returned⟩ := by
      simpa [Holders.step, Registry.lookup, missed, accepted] using stepped.symm
    subst inserted
    -- the old variable and the new one are both returned for the name
    have kept := stays name old (List.mem_cons_of_mem _ ((recorded name old).mpr held))
    have replaced := stays name _ List.mem_cons_self
    have before : old < s.registry.heap.length := (List.getElem?_eq_some_iff.mp there).1
    have same : old = s.registry.heap.length := Option.some.inj (kept.symm.trans replaced)
    omega

end Step

/-! ### Runs -/

/-- **A registered variable stays the registered one**, in runs that keep to the condition: the name
stands for it, and its texts in any document are handed to it. -/
theorem registered_stays {yaml : Text} {s : Holders types}
    (reached : (program yaml types).ReachableWhen Agrees s) {name : String} {id : Nat}
    (returned : (name, id) ∈ s.returned) :
    s.registry.lookupBase name = some id ∧
      ∃ v, s.registry.heap[id]? = some v ∧ v.getName = name ∧
        s.registry.lookupOnly v.type name = some id ∧
        ∀ root, (s.registry.loadFromYaml yaml root).heap[id]? =
          some ((handed yaml root name).foldl ConfigVarBase.fromString v) := by
  have recorded : Recorded s := reached.invariant (P := Recorded) (fun _ starts => starts)
    fun s call s' recorded agrees stepped => recorded.step agrees stepped
  have held : s.registry.datas name = some id := (recorded name id).mp returned
  obtain ⟨_, v, there, same⟩ := s.registry.named held
  refine ⟨held, v, there, same, ?_, fun root => ?_⟩
  · refine Registry.lookupOnly_eq_some.mpr ⟨held, fun v' here => ?_⟩
    obtain ⟨id', held', there'⟩ := Option.bind_eq_some_iff.mp here
    obtain rfl := Option.some.inj (held.symm.trans held')
    exact congrArg _ (Option.some.inj (there'.symm.trans there))
  · rw [s.registry.loadFromYaml_heap yaml root there, same, if_pos held]

/-! ### Runs on concrete names -/

/-- Variables of two types, `double` and `int`, with whole numbers for values. -/
def doubleAndInt : Types Bool where
  Val _ := Int
  equal _ := inferInstance
  cast _ val := if val = "7" then some (7 : Int) else none

/-- Before the static initialisers. -/
def Holders.initial : Holders doubleAndInt := ⟨.empty, []⟩

theorem Holders.initial_recorded : Recorded Holders.initial := fun _ _ =>
  ⟨fun member => (by cases member), fun held => (by cases held)⟩

theorem registered_stays_twice : ∃ s : Holders doubleAndInt,
    (program plainText doubleAndInt).ReachableWhen Agrees s ∧ ("system.value", 0) ∈ s.returned ∧ s.registry.lookupBase "system.value" = some 0 := by
  have ran : ∃ s, (program plainText doubleAndInt).ReachableWhen Agrees s ∧
      decide (("system.value", 0) ∈ s.returned) = true :=
    Machine.reachableWhen_of_replay Holders.initial_recorded
      [.lookup false "system.value" (25 : Int) "one_value", .loadFromYaml (.scalar "7"),
        .lookup false "system.value" (50 : Int) ""] _ (by decide)
  obtain ⟨s, reached, returned⟩ := ran
  exact ⟨s, reached, of_decide_eq_true returned,
    (registered_stays reached (of_decide_eq_true returned)).1⟩

/-- The initialisers of `value_config_var` and `repeat_config_var`: the first variable is registered
no more. -/
theorem value_config_var_replaced : ∃ s : Holders doubleAndInt,
    (program plainText doubleAndInt).Reachable s ∧ ("system.value", 0) ∈ s.returned ∧
      s.registry.lookupBase "system.value" ≠ some 0 := by
  obtain ⟨s, reached, replaced⟩ := Machine.reachable_of_replay
    (m := program plainText doubleAndInt) Holders.initial_recorded
    [.lookup false "system.value" (25 : Int) "one_value",
      .lookup true "system.value" (50 : Int) "one_value"]
    (fun s => decide (("system.value", 0) ∈ s.returned ∧
      s.registry.lookupBase "system.value" ≠ some 0)) (by decide)
  exact ⟨s, reached, of_decide_eq_true replaced⟩

end Sylar.Config
