/-
**The registry of configuration variables.**

`Config` holds its variables by name, as pointers to their common base class: here numbers of
objects in `heap`, to which `Lookup` adds. A variable is registered under its own name only, and this
has passed the check of `Lookup` (`Registry.named`).

* `Registry.insert_datas`, `Registry.update_heap` — what a new variable and what an operation of a
  variable change.
* `Registry.lookup_ok` — **what a `Lookup` that returns can do**: find the variable with its type, or
  register a new one.
-/

import Mathlib.Logic.Function.Basic
import Sylar.Config.Var

namespace Sylar.Config

/-! ### Variables of any type -/

/-- The types of variables, their values, and `LexicalCast` from a string, which may throw. -/
structure Types (τ : Type) where
  Val : τ → Type
  equal : ∀ t, DecidableEq (Val t)
  cast : ∀ t, String → Option (Val t)

instance {τ : Type} (types : Types τ) (t : τ) : DecidableEq (types.Val t) := types.equal t

/-- An object of the base class `ConfigVarBase`: a variable of some type. -/
structure ConfigVarBase {τ : Type} (types : Types τ) where
  type : τ
  var : ConfigVar (types.Val type)

namespace ConfigVarBase

variable {τ : Type} {types : Types τ}

/-- `getName`. -/
def getName (v : ConfigVarBase types) : String := v.var.name

/-- The virtual `fromString`. -/
def fromString (v : ConfigVarBase types) (val : String) : ConfigVarBase types :=
  ⟨v.type, (v.var.fromString (types.cast v.type) val).1⟩

@[simp] theorem fromString_getName (v : ConfigVarBase types) (val : String) :
    (v.fromString val).getName = v.getName := by
  unfold getName fromString
  exact v.var.fromString_name (types.cast v.type) val

theorem foldl_fromString (v : ConfigVarBase types) (vals : List String) :
    vals.foldl fromString v =
      ⟨v.type, vals.foldl (fun var val => (var.fromString (types.cast v.type) val).1) v.var⟩ := by
  induction vals generalizing v with
  | nil => rfl
  | cons val rest ih => exact ih (v.fromString val)

end ConfigVarBase

/-! ### Names -/

/-- `std::string::find_first_not_of`; `none` is `npos`. -/
def findFirstNotOf (name chars : String) : Option Nat :=
  name.toList.findIdx? fun c => !chars.toList.contains c

theorem findFirstNotOf_eq_none {name chars : String} :
    findFirstNotOf name chars = none ↔ ∀ c ∈ name.toList, c ∈ chars.toList := by
  simp [findFirstNotOf, List.findIdx?_eq_none_iff]

/-- The characters of a name in `Lookup`. -/
def lookupChars : String := "abcdefghijklmnopqrstuvwxyzABCDEFGHIJKLMNOPQRSTUVWXYZ._0123456789"

/-- The check of a name in `Lookup`. -/
def Accepted (name : String) : Prop := findFirstNotOf name lookupChars = none

instance (name : String) : Decidable (Accepted name) :=
  inferInstanceAs (Decidable (findFirstNotOf name lookupChars = none))

/-! ### The registry -/

/-- `s_datas`, and the objects it points to. -/
structure Registry {τ : Type} (types : Types τ) where
  datas : String → Option Nat
  heap : List (ConfigVarBase types)
  named : ∀ {name id}, datas name = some id →
    Accepted name ∧ ∃ v, heap[id]? = some v ∧ v.getName = name

namespace Registry

variable {τ : Type} {types : Types τ}

/-- Before the first `Lookup`. -/
def empty : Registry types := ⟨fun _ => none, [], fun found => by cases found⟩

/-- `LookupBase`. -/
def lookupBase (r : Registry types) (name : String) : Option Nat := r.datas name

/-- The variable that a name stands for. -/
def registered (r : Registry types) (name : String) : Option (ConfigVarBase types) :=
  (r.datas name).bind fun id => r.heap[id]?

/-- `GetDatas()[name] = v` for a new object. -/
def insert (r : Registry types) (v : ConfigVarBase types) (accepted : Accepted v.getName) :
    Registry types where
  datas := Function.update r.datas v.getName (some r.heap.length)
  heap := r.heap ++ [v]
  named := by
    intro name id found
    by_cases here : name = v.getName
    · subst here
      rw [Function.update_self] at found
      obtain rfl := Option.some.inj found
      exact ⟨accepted, v, List.getElem?_concat_length, rfl⟩
    · rw [Function.update_of_ne here] at found
      obtain ⟨legal, old, held, same⟩ := r.named found
      refine ⟨legal, old, ?_, same⟩
      rw [List.getElem?_append_left (List.getElem?_eq_some_iff.mp held).1]
      exact held

/-- `Lookup<T>(name)`, also the test at the beginning of the other `Lookup`. -/
def lookupOnly [DecidableEq τ] (r : Registry types) (t : τ) (name : String) : Option Nat :=
  (r.datas name).filter fun id => (r.heap[id]?).any fun v => v.type = t

/-- `Lookup<T>(name, default_value, description)`: the registry and the variable, or the name in a
`std::invalid_argument`. -/
def lookup [DecidableEq τ] (r : Registry types) (t : τ) (name : String) (default : types.Val t)
    (description : String) : Except String (Registry types × Nat) :=
  match r.lookupOnly t name with
  | some id => .ok (r, id)
  | none =>
      -- a variable of another type is logged, and goes the way of none
      if accepted : Accepted name then
        .ok (r.insert ⟨t, .new name default description⟩ accepted, r.heap.length)
      else .error name

/-- `v->fromString(val)`, or another operation that leaves a variable its name. -/
def update (r : Registry types) (id : Nat) (f : ConfigVarBase types → ConfigVarBase types)
    (keeps : ∀ v, (f v).getName = v.getName) : Registry types where
  datas := r.datas
  heap := r.heap.modify id f
  named := by
    intro name other found
    obtain ⟨accepted, v, held, same⟩ := r.named found
    refine ⟨accepted, ?_⟩
    rw [List.getElem?_modify, held]
    by_cases here : id = other
    · exact ⟨f v, by simp [here], (keeps v).trans same⟩
    · exact ⟨v, by simp [here], same⟩

theorem update_heap (r : Registry types) (id other : Nat)
    (f : ConfigVarBase types → ConfigVarBase types) (keeps : ∀ v, (f v).getName = v.getName) :
    (r.update id f keeps).heap[other]? = if id = other then r.heap[other]?.map f else r.heap[other]? := by
  unfold update
  rw [List.getElem?_modify]
  split <;> simp [*]

/-- **The names of a variable are its own.** -/
theorem getName_of_datas (r : Registry types) {name : String} {id : Nat} {v : ConfigVarBase types}
    (found : r.datas name = some id) (held : r.heap[id]? = some v) : v.getName = name := by
  obtain ⟨_, v', held', same⟩ := r.named found
  obtain rfl := Option.some.inj (held.symm.trans held')
  exact same

theorem insert_datas (r : Registry types) (v : ConfigVarBase types) (accepted : Accepted v.getName)
    (name : String) : (r.insert v accepted).datas name =
      if name = v.getName then some r.heap.length else r.datas name :=
  Function.update_apply r.datas v.getName (some r.heap.length) name

section Lookup

variable [DecidableEq τ] {r r' : Registry types} {t : τ} {name description : String}
  {default : types.Val t} {id : Nat}

theorem lookupOnly_eq_some :
    r.lookupOnly t name = some id ↔ r.datas name = some id ∧ ∀ v ∈ r.registered name, v.type = t := by
  unfold lookupOnly registered
  rw [Option.filter_eq_some_iff]
  refine and_congr_right fun found => ?_
  obtain ⟨_, v, held, _⟩ := r.named found
  simp [found, held]

/-- **What a `Lookup` that returns can do**: find the variable, which has its type, or register a new
one. -/
theorem lookup_ok (ran : r.lookup t name default description = .ok (r', id)) :
    (r' = r ∧ r.datas name = some id ∧ ∀ v ∈ r.registered name, v.type = t) ∨
      ∃ accepted, r' = r.insert ⟨t, .new name default description⟩ accepted ∧ id = r.heap.length ∧
        ¬ ∃ v ∈ r.registered name, v.type = t := by
  unfold lookup at ran
  cases found : r.lookupOnly t name with
  | some id' =>
    simp only [found, Except.ok.injEq, Prod.mk.injEq] at ran
    obtain ⟨rfl, rfl⟩ := ran
    exact .inl ⟨rfl, lookupOnly_eq_some.mp found⟩
  | none =>
    simp only [found] at ran
    split at ran
    next accepted =>
      simp only [Except.ok.injEq, Prod.mk.injEq] at ran
      obtain ⟨rfl, rfl⟩ := ran
      refine .inr ⟨accepted, rfl, rfl, fun ⟨v, here, same⟩ => ?_⟩
      obtain ⟨id, at_, _⟩ := Option.bind_eq_some_iff.mp here
      have hit : r.lookupOnly t name = some id :=
        lookupOnly_eq_some.mpr ⟨at_, fun v' here' => Option.some.inj (here.symm.trans here') ▸ same⟩
      rw [found] at hit
      cases hit
    next => cases ran

end Lookup

end Registry

end Sylar.Config
