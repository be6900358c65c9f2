/-
**A configuration variable: its value, its listeners, and what it tells them.**

`setValue` has two sections: under the read lock it compares and calls every listener, under the
write lock it assigns. Listeners are named by their keys in `m_cbs` and may throw; the calls they
get are recorded in `called`.

* `callAll_all`, `callAll_cons` — the loop over `m_cbs`: whom it reaches.
* `ConfigVar.setValue_val`, `ConfigVar.fromString_val` — the value afterwards, with listeners that
  return.
* `ConfigVar.foldl_fromString_val` — **after a list of texts it is that of the last that converts**.
-/

import Mathlib.Data.List.Nodup

namespace Sylar.Config

/-! ### Listeners -/

/-- A listener: its key, and whether its callback returns or throws a `std::exception`. -/
structure Listener (T : Type) where
  key : Nat
  returns : T → T → Bool

/-- A call of a listener. -/
structure Notice (T : Type) where
  key : Nat
  old : T
  new : T
  deriving DecidableEq

section Calls

variable {T : Type}

/-- The loop over `m_cbs`: the calls it makes, and whether all of them return. -/
def callAll (old new : T) : List (Listener T) → List (Notice T) × Bool
  | [] => ([], true)
  | i :: cbs =>
      if i.returns old new then
        (⟨i.key, old, new⟩ :: (callAll old new cbs).1, (callAll old new cbs).2)
      else ([⟨i.key, old, new⟩], false)

/-- **The loop comes to its end when every listener returns.** -/
theorem callAll_returns {old new : T} {cbs : List (Listener T)} :
    (callAll old new cbs).2 = true ↔ ∀ i ∈ cbs, i.returns old new = true := by
  induction cbs with
  | nil => simp [callAll]
  | cons i rest ih =>
    unfold callAll
    rw [List.forall_mem_cons]
    split
    next returns => rw [ih, and_iff_right returns]
    next throws => simp [throws]

/-- All of them are called then, in order. -/
theorem callAll_all {old new : T} {cbs : List (Listener T)}
    (returns : ∀ i ∈ cbs, i.returns old new = true) :
    (callAll old new cbs).1 = cbs.map fun i => ⟨i.key, old, new⟩ := by
  induction cbs with
  | nil => rfl
  | cons i rest ih =>
    obtain ⟨here, later⟩ := List.forall_mem_cons.mp returns
    unfold callAll
    rw [if_pos here, ih later, List.map_cons]

/-- Only listeners are called. -/
theorem key_of_mem_callAll {old new : T} {cbs : List (Listener T)} {c : Notice T}
    (called : c ∈ (callAll old new cbs).1) : c.key ∈ cbs.map Listener.key := by
  induction cbs with
  | nil => cases called
  | cons i rest ih =>
    rw [List.map_cons, List.mem_cons]
    unfold callAll at called
    split at called
    · rcases List.mem_cons.mp called with rfl | later
      · exact .inl rfl
      · exact .inr (ih later)
    · exact .inl (List.mem_singleton.mp called ▸ rfl)

/-- The first listener is called in any case. -/
theorem callAll_cons (old new : T) (i : Listener T) (cbs : List (Listener T)) :
    ∃ later, (callAll old new (i :: cbs)).1 = ⟨i.key, old, new⟩ :: later ∧
      ∀ c ∈ later, c.key ∈ cbs.map Listener.key := by
  unfold callAll
  split
  · exact ⟨_, rfl, fun _ => key_of_mem_callAll⟩
  · exact ⟨[], rfl, fun _ none => by cases none⟩

/-- A listener's own call, of a loop that calls all. -/
theorem filter_key {old new : T} {cbs : List (Listener T)} (distinct : (cbs.map Listener.key).Nodup)
    {i : Listener T} (member : i ∈ cbs) :
    (cbs.map fun i => (⟨i.key, old, new⟩ : Notice T)).filter (·.key = i.key) =
      [⟨i.key, old, new⟩] := by
  induction cbs with
  | nil => cases member
  | cons first rest ih =>
    rw [List.map_cons, List.nodup_cons] at distinct
    obtain ⟨alone, distinct⟩ := distinct
    rw [List.map_cons]
    rcases List.mem_cons.mp member with rfl | later
    · rw [List.filter_cons_of_pos (by simp), List.filter_eq_nil_iff.mpr]
      intro c called same
      obtain ⟨other, there, rfl⟩ := List.mem_map.mp called
      exact alone (List.mem_map.mpr ⟨other, there, of_decide_eq_true same⟩)
    · have differ : ¬ first.key = i.key := fun same =>
        alone (List.mem_map.mpr ⟨i, later, same.symm⟩)
      rw [List.filter_cons_of_neg (by simpa using differ), ih distinct later]

/-- The first listener's call, of any loop. -/
theorem filter_key_first {old new : T} {first : Listener T} {rest : List (Listener T)}
    (distinct : ((first :: rest).map Listener.key).Nodup) :
    (callAll old new (first :: rest)).1.filter (·.key = first.key) = [⟨first.key, old, new⟩] := by
  obtain ⟨later, calls, others⟩ := callAll_cons old new first rest
  rw [List.map_cons, List.nodup_cons] at distinct
  rw [calls, List.filter_cons_of_pos (by simp), List.filter_eq_nil_iff.mpr]
  intro c called same
  exact distinct.1 (of_decide_eq_true same ▸ others c called)

end Calls

/-! ### The variable -/

/-- `ConfigVar<T>`. -/
structure ConfigVar (T : Type) where
  name : String
  val : T
  description : String
  /-- `m_cbs`, in the order of a loop over it -/
  cbs : List (Listener T)
  distinct : (cbs.map Listener.key).Nodup
  /-- the calls made so far -/
  called : List (Notice T)

/-- How the read-locked section of `setValue` ends. -/
inductive Reading
  /-- the early `return` -/
  | equal
  /-- a listener threw -/
  | thrown
  /-- all listeners were called -/
  | told
  deriving DecidableEq

namespace ConfigVar

variable {T : Type}

/-- The constructor. -/
def new (name : String) (val : T) (description : String) : ConfigVar T :=
  { name, val, description, cbs := [], distinct := List.nodup_nil, called := [] }

/-- No listener throws. -/
def Returns (v : ConfigVar T) : Prop := ∀ i ∈ v.cbs, ∀ old new, i.returns old new = true

/-- The write-locked section of `setValue`. -/
def assign (v : ConfigVar T) (newVal : T) : ConfigVar T := { v with val := newVal }

variable [DecidableEq T]

/-- The read-locked section of `setValue`. -/
def notify (v : ConfigVar T) (newVal : T) : ConfigVar T × Reading :=
  if newVal = v.val then (v, .equal)
  else
    ({ v with called := v.called ++ (callAll v.val newVal v.cbs).1 },
      if (callAll v.val newVal v.cbs).2 then .told else .thrown)

/-- `setValue`; `false` is an exception. -/
def setValue (v : ConfigVar T) (newVal : T) : ConfigVar T × Bool :=
  match v.notify newVal with
  | (v, .equal) => (v, true)
  | (v, .thrown) => (v, false)
  | (v, .told) => (v.assign newVal, true)

/-- `fromString`: what the conversion or a listener throws is caught here. -/
def fromString (cast : String → Option T) (v : ConfigVar T) (val : String) : ConfigVar T × Bool :=
  match cast val with
  | none => (v, false)
  | some newVal => v.setValue newVal

/-- `toString`: what the conversion throws is caught here. -/
def toString {T : Type} (cast : T → Option String) (v : ConfigVar T) : String :=
  (cast v.val).getD ""

/-! ### What stays and what changes -/

/-- **How the read-locked section goes.** -/
theorem notify_cases (v : ConfigVar T) (newVal : T) :
    newVal = v.val ∧ v.notify newVal = (v, .equal) ∨
    newVal ≠ v.val ∧ (∀ i ∈ v.cbs, i.returns v.val newVal = true) ∧
      v.notify newVal =
        ({ v with called := v.called ++ v.cbs.map fun i => ⟨i.key, v.val, newVal⟩ }, .told) ∨
    newVal ≠ v.val ∧ (¬ ∀ i ∈ v.cbs, i.returns v.val newVal = true) ∧
      v.notify newVal = ({ v with called := v.called ++ (callAll v.val newVal v.cbs).1 }, .thrown) := by
  unfold notify
  by_cases same : newVal = v.val
  · exact .inl ⟨same, if_pos same⟩
  · by_cases returns : ∀ i ∈ v.cbs, i.returns v.val newVal = true
    · refine .inr (.inl ⟨same, returns, ?_⟩)
      rw [if_neg same, if_pos (callAll_returns.mpr returns), callAll_all returns]
    · refine .inr (.inr ⟨same, returns, ?_⟩)
      rw [if_neg same, if_neg fun all => returns (callAll_returns.mp all)]

@[simp] theorem notify_name (v : ConfigVar T) (newVal : T) : (v.notify newVal).1.name = v.name := by
  unfold notify
  split <;> rfl

@[simp] theorem notify_cbs (v : ConfigVar T) (newVal : T) : (v.notify newVal).1.cbs = v.cbs := by
  unfold notify
  split <;> rfl

/-- The variable after `setValue`. -/
theorem setValue_fst (v : ConfigVar T) (newVal : T) :
    (v.setValue newVal).1 =
      if (v.notify newVal).2 = .told then (v.notify newVal).1.assign newVal
      else (v.notify newVal).1 := by
  unfold setValue
  rcases v.notify newVal with ⟨v', _ | _ | _⟩ <;> rfl

theorem setValue_name (v : ConfigVar T) (newVal : T) : (v.setValue newVal).1.name = v.name := by
  rw [setValue_fst]
  split <;> exact v.notify_name newVal

theorem setValue_cbs (v : ConfigVar T) (newVal : T) : (v.setValue newVal).1.cbs = v.cbs := by
  rw [setValue_fst]
  split <;> exact v.notify_cbs newVal

@[simp] theorem fromString_name (cast : String → Option T) (v : ConfigVar T) (val : String) :
    (v.fromString cast val).1.name = v.name := by
  unfold fromString
  split
  · rfl
  · exact v.setValue_name _

@[simp] theorem fromString_cbs (cast : String → Option T) (v : ConfigVar T) (val : String) :
    (v.fromString cast val).1.cbs = v.cbs := by
  unfold fromString
  split
  · rfl
  · exact v.setValue_cbs _

/-- **Listeners that return let the value through.** -/
theorem setValue_val {v : ConfigVar T} (returns : v.Returns) (newVal : T) :
    (v.setValue newVal).1.val = newVal := by
  unfold setValue notify
  by_cases same : newVal = v.val
  · rw [if_pos same]
    exact same.symm
  · have all : (callAll v.val newVal v.cbs).2 = true :=
      callAll_returns.mpr fun i member => returns i member v.val newVal
    rw [if_neg same, if_pos all]
    rfl

theorem fromString_val {v : ConfigVar T} (returns : v.Returns) (cast : String → Option T)
    (val : String) : (v.fromString cast val).1.val = (cast val).getD v.val := by
  unfold fromString
  cases cast val with
  | none => rfl
  | some newVal => exact setValue_val returns newVal

/-- **After a list of texts the value is that of the last text that converts.** -/
theorem foldl_fromString_val {v : ConfigVar T} (returns : v.Returns) (cast : String → Option T)
    (vals : List String) :
    (vals.foldl (fun v val => (v.fromString cast val).1) v).val =
      (vals.filterMap cast).getLastD v.val := by
  induction vals generalizing v with
  | nil => rfl
  | cons val rest ih =>
    have later : (v.fromString cast val).1.Returns := by
      intro i member
      rw [fromString_cbs] at member
      exact returns i member
    rw [List.foldl_cons, ih later, fromString_val returns]
    cases converted : cast val with
    | none => rw [List.filterMap_cons_none converted, Option.getD_none]
    | some newVal => rw [List.filterMap_cons_some converted, Option.getD_some, List.getLastD_cons]

end ConfigVar

end Sylar.Config
