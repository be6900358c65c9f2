/-
**Loading a document again.**

A document may have several nodes for one variable: `a.b` at the root and `b` under `a` are both
`a.b`. The variable takes the values of all of them, one after the other, and tells its listeners of
each change; a second load begins with the value of the last and goes through the others again.

* `ConfigVar.foldl_fromString` — the texts that do not convert do nothing.
* `ConfigVar.foldl_setValue_self_iff` — **values that leave a variable as it is**, its listeners' calls
  included.
* `reload` — **a second load changes no value, and nothing at all exactly when no variable with
  listeners is given two values**.
-/

import Sylar.Config.Load

namespace Sylar.Config

open Sylar.Library.Yaml

/-! ### Values, one after the other -/

namespace ConfigVar

variable {T : Type} [DecidableEq T] {v : ConfigVar T}

/-- The texts that do not convert do nothing. -/
theorem foldl_fromString (cast : String → Option T) (v : ConfigVar T) (vals : List String) :
    vals.foldl (fun v val => (v.fromString cast val).1) v =
      (vals.filterMap cast).foldl (fun v newVal => (v.setValue newVal).1) v := by
  induction vals generalizing v with
  | nil => rfl
  | cons val rest ih =>
    rw [List.foldl_cons, ih]
    unfold fromString
    cases converted : cast val with
    | none => rw [List.filterMap_cons_none converted]
    | some newVal => rw [List.filterMap_cons_some converted, List.foldl_cons]

/-- A new value, and every listener told. -/
def told (v : ConfigVar T) (newVal : T) : ConfigVar T :=
  { v with val := newVal, called := v.called ++ v.cbs.map fun i => ⟨i.key, v.val, newVal⟩ }

/-- **`setValue`, with listeners that return.** -/
theorem setValue_of_returns (returns : v.Returns) (newVal : T) :
    (v.setValue newVal).1 = if newVal = v.val then v else v.told newVal := by
  unfold setValue
  obtain ⟨same, notified⟩ | ⟨differ, -, notified⟩ | ⟨-, throws, -⟩ := v.notify_cases newVal
  · rw [notified, if_pos same]
  · rw [notified, if_neg differ]
    rfl
  · exact absurd (fun i member => returns i member v.val newVal) throws

/-- The calls are kept. -/
theorem called_foldl_setValue (returns : v.Returns) (values : List T) :
    ∃ more, (values.foldl (fun v newVal => (v.setValue newVal).1) v).called = v.called ++ more := by
  induction values generalizing v with
  | nil => exact ⟨[], (List.append_nil _).symm⟩
  | cons newVal rest ih =>
    rw [List.foldl_cons, setValue_of_returns returns]
    split
    · exact ih returns
    · obtain ⟨more, later⟩ := ih (v := v.told newVal) returns
      refine ⟨(v.cbs.map fun i => ⟨i.key, v.val, newVal⟩) ++ more, later.trans ?_⟩
      exact List.append_assoc ..

/-- Without listeners only the value changes. -/
theorem foldl_setValue_of_nil (none : v.cbs = []) (values : List T) :
    values.foldl (fun v newVal => (v.setValue newVal).1) v = v.assign (values.getLastD v.val) := by
  induction values generalizing v with
  | nil => rfl
  | cons newVal rest ih =>
    have returns : v.Returns := by
      intro i member
      rw [none] at member
      cases member
    have untold : v.told newVal = v.assign newVal := by
      unfold told assign
      simp [none]
    rw [List.foldl_cons, setValue_of_returns returns, List.getLastD_cons, untold]
    split
    next same => rw [ih none, same]
    next => exact ih (v := v.assign newVal) none

/-- **Values that leave a variable as it is**: with listeners, all are the value that it has. -/
theorem foldl_setValue_self_iff (returns : v.Returns) (some : v.cbs ≠ []) {values : List T} :
    values.foldl (fun v newVal => (v.setValue newVal).1) v = v ↔ ∀ a ∈ values, a = v.val := by
  induction values with
  | nil => simp
  | cons newVal rest ih =>
    rw [List.foldl_cons, setValue_of_returns returns, List.forall_mem_cons]
    by_cases same : newVal = v.val
    · rw [if_pos same, ih, and_iff_right same]
    · rw [if_neg same]
      refine iff_of_false (fun back => ?_) fun all => same all.1
      obtain ⟨more, later⟩ := called_foldl_setValue (v := v.told newVal) returns rest
      rw [back] at later
      have counted := congrArg List.length later
      simp only [told, List.length_append, List.length_map] at counted
      have positive := List.length_pos_of_ne_nil some
      omega

theorem foldl_setValue_val (returns : v.Returns) (values : List T) :
    (values.foldl (fun v newVal => (v.setValue newVal).1) v).val = values.getLastD v.val := by
  induction values generalizing v with
  | nil => rfl
  | cons newVal rest ih =>
    have later : (v.setValue newVal).1.Returns := by
      intro i member
      rw [setValue_cbs] at member
      exact returns i member
    rw [List.foldl_cons, ih later, setValue_val returns, List.getLastD_cons]

theorem foldl_setValue_cbs (v : ConfigVar T) (values : List T) :
    (values.foldl (fun v newVal => (v.setValue newVal).1) v).cbs = v.cbs := by
  induction values generalizing v with
  | nil => rfl
  | cons newVal rest ih => rw [List.foldl_cons, ih, setValue_cbs]

theorem foldl_setValue_name (v : ConfigVar T) (values : List T) :
    (values.foldl (fun v newVal => (v.setValue newVal).1) v).name = v.name := by
  induction values generalizing v with
  | nil => rfl
  | cons newVal rest ih => rw [List.foldl_cons, ih, setValue_name]

theorem getLastD_getLastD {T : Type} (values : List T) (a : T) :
    values.getLastD (values.getLastD a) = values.getLastD a := by
  cases values with
  | nil => rfl
  | cons first rest => rw [List.getLastD_cons, List.getLastD_cons]

theorem foldl_setValue_again_val (returns : v.Returns) (values : List T) :
    (values.foldl (fun v newVal => (v.setValue newVal).1)
      (values.foldl (fun v newVal => (v.setValue newVal).1) v)).val =
      (values.foldl (fun v newVal => (v.setValue newVal).1) v).val := by
  have later : (values.foldl (fun v newVal => (v.setValue newVal).1) v).Returns :=
    fun i member => returns i (foldl_setValue_cbs v values ▸ member)
  rw [foldl_setValue_val later, foldl_setValue_val returns, getLastD_getLastD]

/-- **The same values again**: nothing happens when nobody listens or all are one value. -/
theorem foldl_setValue_again_iff (returns : v.Returns) (values : List T) :
    let once := values.foldl (fun v newVal => (v.setValue newVal).1) v
    values.foldl (fun v newVal => (v.setValue newVal).1) once = once ↔
      v.cbs = [] ∨ ∀ a ∈ values, ∀ b ∈ values, a = b := by
  intro once
  have val : once.val = values.getLastD v.val := foldl_setValue_val returns values
  have cbs : once.cbs = v.cbs := foldl_setValue_cbs v values
  by_cases none : v.cbs = []
  · refine iff_of_true ?_ (.inl none)
    rw [foldl_setValue_of_nil (cbs.trans none), val, getLastD_getLastD, ← val]
    rfl
  · have later : once.Returns := fun i member => returns i (cbs ▸ member)
    rw [foldl_setValue_self_iff later (fun nil => none (cbs ▸ nil)), val, or_iff_right none]
    constructor
    · intro all a first b second
      rw [all a first, all b second]
    · intro all a member
      refine all a member _ ?_
      rw [List.getLastD_eq_getLast?, List.getLast?_eq_getLast_of_ne_nil (List.ne_nil_of_mem member)]
      exact List.getLast_mem _

end ConfigVar

/-! ### Documents -/

section Reload

variable {τ : Type} {types : Types τ}

/-- The texts that the variables of a registry get from a document. -/
def Registry.texts (r : Registry types) (yaml : Text) (root : Node) (id : Nat)
    (v : ConfigVarBase types) : List String :=
  if r.datas v.getName = some id ∧ v.getName ≠ "" then addressed yaml root v.getName else []

/-- Their values. -/
def Registry.values (r : Registry types) (yaml : Text) (root : Node) (id : Nat)
    (v : ConfigVarBase types) : List (types.Val v.type) :=
  (r.texts yaml root id v).filterMap (types.cast v.type)

/-- What a load does to one variable. -/
def ConfigVarBase.setAll (v : ConfigVarBase types) (values : List (types.Val v.type)) :
    ConfigVarBase types :=
  ⟨v.type, values.foldl (fun v newVal => (v.setValue newVal).1) v.var⟩

theorem ConfigVarBase.mk_inj {t : τ} {v w : ConfigVar (types.Val t)} :
    (⟨t, v⟩ : ConfigVarBase types) = ⟨t, w⟩ ↔ v = w := by
  simp

namespace Registry

theorem ext_heap {r r' : Registry types} (datas : r.datas = r'.datas) (heap : r.heap = r'.heap) :
    r = r' := by
  obtain ⟨_, _, _⟩ := r
  obtain ⟨_, _, _⟩ := r'
  cases datas
  cases heap
  rfl

/-- **A load, variable by variable.** -/
theorem loadFromYaml_setAll (r : Registry types) (yaml : Text) (root : Node) {id : Nat}
    {v : ConfigVarBase types} (held : r.heap[id]? = some v) :
    (r.loadFromYaml yaml root).heap[id]? = some (v.setAll (r.values yaml root id v)) := by
  rw [r.loadFromYaml_heap yaml root held, ConfigVarBase.foldl_fromString,
    ConfigVar.foldl_fromString, handed_eq]
  unfold ConfigVarBase.setAll values texts
  by_cases registered : r.datas v.getName = some id
  · by_cases empty : v.getName = ""
    · simp [empty]
    · simp [registered, empty]
  · simp [registered]

theorem loadFromYaml_none (r : Registry types) (yaml : Text) (root : Node) {id : Nat}
    (outside : r.heap[id]? = none) : (r.loadFromYaml yaml root).heap[id]? = none := by
  unfold loadFromYaml
  induction listAllMember "" root generalizing r with
  | nil => exact outside
  | cons i rest ih =>
    rw [List.foldl_cons]
    refine ih _ ?_
    rw [loadMember_heap, outside]
    simp

theorem values_loadFromYaml (r : Registry types) (yaml : Text) (root : Node) (id : Nat)
    (v : ConfigVarBase types) (set : List (types.Val v.type)) :
    (r.loadFromYaml yaml root).values yaml root id (v.setAll set) = r.values yaml root id v := by
  have name : (v.setAll set).getName = v.getName := ConfigVar.foldl_setValue_name v.var set
  unfold values texts
  rw [loadFromYaml_datas, name]
  rfl

end Registry

/-- **Loading a document again** changes no value, and nothing at all exactly when no variable with
listeners is given two values. -/
theorem reload (yaml : Text) (root : Node) (r : Registry types)
    (returns : ∀ v ∈ r.heap, v.var.Returns) :
    let once := r.loadFromYaml yaml root
    let twice := once.loadFromYaml yaml root
    (∀ (id : Nat) (v : ConfigVarBase types), once.heap[id]? = some v →
        ∃ w : ConfigVar (types.Val v.type),
          twice.heap[id]? = some ⟨v.type, w⟩ ∧ w.val = v.var.val ∧ w.cbs = v.var.cbs) ∧
      (twice = once ↔ ∀ (id : Nat) (v : ConfigVarBase types), r.heap[id]? = some v →
        v.var.cbs = [] ∨
          ∀ a ∈ r.values yaml root id v, ∀ b ∈ r.values yaml root id v, a = b) := by
  intro once twice
  have onceAt {id : Nat} {v : ConfigVarBase types} (held : r.heap[id]? = some v) :
      once.heap[id]? = some (v.setAll (r.values yaml root id v)) :=
    r.loadFromYaml_setAll yaml root held
  have twiceAt {id : Nat} {v : ConfigVarBase types} (held : r.heap[id]? = some v) :
      twice.heap[id]? =
        some ((v.setAll (r.values yaml root id v)).setAll (r.values yaml root id v)) := by
    rw [once.loadFromYaml_setAll yaml root (onceAt held), r.values_loadFromYaml]
  refine ⟨fun id v held => ?_, ?_⟩
  · cases start : r.heap[id]? with
    | none =>
      rw [r.loadFromYaml_none yaml root start] at held
      cases held
    | some v₀ =>
      cases (onceAt start).symm.trans held
      have member := List.mem_of_getElem? start
      exact ⟨_, twiceAt start, ConfigVar.foldl_setValue_again_val (returns v₀ member) _,
        ConfigVar.foldl_setValue_cbs _ _⟩
  · have same {id : Nat} {v : ConfigVarBase types} (held : r.heap[id]? = some v) :
        twice.heap[id]? = once.heap[id]? ↔ v.var.cbs = [] ∨
          ∀ a ∈ r.values yaml root id v, ∀ b ∈ r.values yaml root id v, a = b := by
      rw [twiceAt held, onceAt held, Option.some_inj]
      exact ConfigVarBase.mk_inj.trans
        (ConfigVar.foldl_setValue_again_iff (returns v (List.mem_of_getElem? held)) _)
    constructor
    · intro equal id v held
      exact (same held).mp (congrArg (·.heap[id]?) equal)
    · intro all
      refine Registry.ext_heap (once.loadFromYaml_datas yaml root) (List.ext_getElem? fun id => ?_)
      cases start : r.heap[id]? with
      | none =>
        have outside := r.loadFromYaml_none yaml root start
        rw [once.loadFromYaml_none yaml root outside, outside]
      | some v => exact (same start).mpr (all id v start)

end Reload

/-- A registry with one variable and a listener. -/
def heard (name : String) (accepted : Accepted name) : Registry intOnly :=
  Registry.empty.insert
    ⟨(), ⟨name, (0 : Int), "", [⟨1, fun _ _ => true⟩], List.nodup_singleton _, []⟩⟩ accepted

/-- A document with two values for `a.b`. -/
def twoValues : Node := .map [("a.b", .scalar "7"), ("a", .map [("b", .scalar "8")])]

/-- Its listener is told of 7 and of 8 by every load. -/
theorem reload_two_values :
    ((heard "a.b" rfl).loadFromYaml plainText twoValues).loadFromYaml plainText twoValues ≠
      (heard "a.b" rfl).loadFromYaml plainText twoValues := by
  intro same
  have returns : ∀ v ∈ (heard "a.b" rfl).heap, v.var.Returns := by
    intro v member i inside old new
    obtain rfl := List.mem_singleton.mp member
    obtain rfl := List.mem_singleton.mp inside
    rfl
  have values : (heard "a.b" rfl).values plainText twoValues 0
      ⟨(), ⟨"a.b", (0 : Int), "", [⟨1, fun _ _ => true⟩], List.nodup_singleton _, []⟩⟩ =
        [(7 : Int), (8 : Int)] := rfl
  obtain none | equal := (reload plainText twoValues (heard "a.b" rfl) returns).2.mp same 0 _ rfl
  · cases none
  · rw [values] at equal
    have impossible : (7 : Int) = 8 :=
      equal (7 : Int) List.mem_cons_self (8 : Int) (List.mem_cons_of_mem _ List.mem_cons_self)
    exact absurd impossible (by decide)

end Sylar.Config
