/-
**Which registered names a document can address.**

The letters of a name are decided in three places: `Lookup` takes both cases, `ListAllMember` lists
a node only when there are no upper-case letters in its name, and `LoadFromYaml` makes what was
listed lower case.

* `parts`, `Leads` — a name between its dots, and the keys of a document that lead to a scalar: one
  for each part, or the whole name as one.
* `Registry.calls`, `loadFromYaml_calls` — the texts that `fromString` of a variable is called with.
* `valid_iff_lower` — **a registered name is one of a document exactly when it is in lower case**.
* `loads_iff_lower` — **and then, and only then, it is loaded**; `calls_upper`: otherwise never.
-/

import Sylar.Config.Load

namespace Sylar.Config

open Sylar.Library Sylar.Library.Yaml

/-! ### Names and keys -/

/-- What is between the dots of a name. -/
def parts (name : String) : List String := (name.toList.splitOn '.').map String.ofList

/-- Keys spelled as in the name lead to a scalar with this text. -/
def Leads (root : Node) (name text : String) : Prop :=
  ∃ keys, (keys = parts name ∨ keys = [name]) ∧ (keys, .scalar text) ∈ root.walk []

/-- There is no upper-case letter in the name. -/
def Lower (name : String) : Prop := ∀ c ∈ name.toList, c.isUpper = false

instance (name : String) : Decidable (Lower name) :=
  List.decidableBAll (fun c : Char => c.isUpper = false) name.toList

section Names

variable {name : String} {keys : List String}

/-- The parts, with the dots between them. -/
theorem intercalate_parts (name : String) : ".".intercalate (parts name) = name := by
  apply String.toList_inj.mp
  rw [String.toList_intercalate, parts, List.map_map]
  have same : String.toList ∘ String.ofList = id := funext fun l => String.toList_ofList
  rw [same, List.map_id]
  exact List.intercalate_splitOn '.'

/-- A name as its keys spell it, unless the first of them is empty. -/
theorem dotted_of_head (first : keys.head? ≠ some "") : dotted keys = ".".intercalate keys := by
  cases keys with
  | nil => rfl
  | cons key rest =>
    have some' : key ≠ "" := fun empty => first (congrArg some empty)
    rw [dotted, List.dropWhile_cons_of_neg (by simpa using some')]

/-- The characters of a key are characters of the name. -/
theorem mem_intercalate {key : String} (member : key ∈ keys) {c : Char} (inside : c ∈ key.toList) :
    c ∈ (".".intercalate keys).toList := by
  induction keys with
  | nil => cases member
  | cons first rest ih =>
    cases rest with
    | nil =>
      rw [String.intercalate_singleton]
      exact List.mem_singleton.mp member ▸ inside
    | cons next rest =>
      rw [String.intercalate_cons_cons, String.toList_append, String.toList_append,
        List.mem_append, List.mem_append]
      rcases List.mem_cons.mp member with rfl | later
      · exact .inl (.inl inside)
      · exact .inr (ih later)

/-- A name is valid when its keys are. -/
theorem valid_intercalate (valid : ∀ key ∈ keys, Valid key) : Valid (".".intercalate keys) := by
  induction keys with
  | nil => exact fun c member => absurd member List.not_mem_nil
  | cons first rest ih =>
    obtain ⟨here, later⟩ := List.forall_mem_cons.mp valid
    cases rest with
    | nil => rwa [String.intercalate_singleton]
    | cons next rest =>
      intro c member
      rw [String.intercalate_cons_cons, String.toList_append, String.toList_append,
        List.mem_append, List.mem_append] at member
      rcases member with (inside | dot) | behind
      · exact here c inside
      · rw [List.mem_singleton.mp (show c ∈ ['.'] from dot)]
        decide
      · exact ih later c behind

/-- **Every name on the way to a valid one is valid.** -/
theorem clear_of_valid (valid : Valid (".".intercalate keys)) : Clear keys := by
  intro above inits
  have within : above <+: keys := (List.mem_inits _ _).mp inits
  refine valid_intercalate fun key member c inside => valid c (mem_intercalate ?_ inside)
  exact within.subset ((List.dropWhile_suffix _).subset member)

/-- **Keys that lead along a name spell it.** -/
theorem intercalate_of_leads (spelled : keys = parts name ∨ keys = [name]) :
    ".".intercalate keys = name := by
  rcases spelled with rfl | rfl
  · exact intercalate_parts name
  · exact String.intercalate_singleton

/-- The first of them is not empty, if the first part is not. -/
theorem head_of_leads (spelled : keys = parts name ∨ keys = [name])
    (first : (parts name).head? ≠ some "") : keys.head? ≠ some "" := by
  rcases spelled with rfl | rfl
  · exact first
  · intro empty
    rw [List.head?_cons, Option.some.injEq] at empty
    subst empty
    exact first (by decide)

/-- What `Lookup` allows more than a document: the upper-case letters. -/
theorem lookupChars_upper : ∀ c ∈ lookupChars.toList, c ∈ nameChars.toList ↔ c.isUpper = false := by
  have all : (lookupChars.toList.all fun c => decide (c ∈ nameChars.toList ↔ c.isUpper = false)) =
      true := by decide +kernel
  exact fun c member => of_decide_eq_true (List.all_eq_true.mp all c member)

/-- **A registered name is one of a document exactly when it is in lower case.** -/
theorem valid_iff_lower (accepted : Accepted name) : Valid name ↔ Lower name := by
  have legal := findFirstNotOf_eq_none.mp accepted
  exact forall₂_congr fun c member => lookupChars_upper c (legal c member)

end Names

/-! ### The calls -/

section Calls

variable {τ : Type} {types : Types τ} {yaml : Text} {r : Registry types} {root : Node}
  {name text : String} {id : Nat}

/-- The texts that `LoadFromYaml` calls `fromString` of a variable with, in order. -/
def Registry.calls (yaml : Text) (r : Registry types) (root : Node) (id : Nat) : List String :=
  ((listAllMember "" root).filter fun i =>
    i.1 ≠ "" ∧ r.lookupBase (i.1.map Char.toLower) = some id).map fun i => textOf yaml i.2

/-- A variable is registered under its own name only. -/
theorem calls_eq_handed (registered : r.datas name = some id) :
    r.calls yaml root id = handed yaml root name := by
  obtain ⟨-, v, held, same⟩ := r.named registered
  unfold Registry.calls handed Registry.lookupBase
  congr 1
  refine List.filter_congr fun i _ => ?_
  have own : r.datas (i.1.map Char.toLower) = some id ↔ i.1.map Char.toLower = name :=
    ⟨fun found => (r.getName_of_datas found held).symm.trans same, fun here => here ▸ registered⟩
  simp only [own]

/-- **These are the calls**: what becomes of the variable. -/
theorem loadFromYaml_calls {v : ConfigVarBase types} (registered : r.datas name = some id)
    (held : r.heap[id]? = some v) :
    (r.loadFromYaml yaml root).heap[id]? =
      some ((r.calls yaml root id).foldl ConfigVarBase.fromString v) := by
  have own : v.getName = name := r.getName_of_datas registered held
  rw [r.loadFromYaml_heap yaml root held, own, if_pos registered, calls_eq_handed registered]

/-- **A name with an upper-case letter is never loaded**, from no document. -/
theorem calls_upper (registered : r.datas name = some id) (upper : ¬ Lower name) :
    r.calls yaml root id = [] := by
  obtain ⟨accepted, -⟩ := r.named registered
  rw [calls_eq_handed registered, handed_eq]
  split
  · rfl
  · unfold addressed
    rw [List.map_eq_nil_iff, List.filter_eq_nil_iff]
    intro p _ hit
    obtain ⟨here, clear⟩ := of_decide_eq_true hit
    exact upper ((valid_iff_lower accepted).mp (here ▸ clear.valid))

/-- **One in lower case is**, from every document that has it. -/
theorem mem_calls (registered : r.datas name = some id) (first : (parts name).head? ≠ some "")
    (leads : Leads root name text) (lower : Lower name) : text ∈ r.calls yaml root id := by
  obtain ⟨accepted, -⟩ := r.named registered
  obtain ⟨keys, spelled, member⟩ := leads
  have spells : ".".intercalate keys = name := intercalate_of_leads spelled
  have here : dotted keys = name :=
    (dotted_of_head (head_of_leads spelled first)).trans spells
  have clear : Clear keys :=
    clear_of_valid (spells.symm ▸ (valid_iff_lower accepted).mpr lower)
  have some' : name ≠ "" := by
    rintro rfl
    exact first (by decide)
  rw [calls_eq_handed registered, handed_eq, if_neg some']
  refine List.mem_map.mpr ⟨(keys, .scalar text), List.mem_filter.mpr ⟨member, ?_⟩, rfl⟩
  exact decide_eq_true ⟨here, clear⟩

/-- **A registered variable is loaded** from a document that has its name if and only if there is no
upper-case letter in the name. -/
theorem loads_iff_lower (registered : r.datas name = some id)
    (first : (parts name).head? ≠ some "") (leads : Leads root name text) :
    text ∈ r.calls yaml root id ↔ Lower name := by
  refine ⟨fun called => ?_, mem_calls registered first leads⟩
  by_contra upper
  rw [calls_upper registered upper] at called
  cases called

end Calls

/-- A name of three parts, the second of them empty. -/
theorem loads_iff_lower_nested :
    "7" ∈ (single "a..b" rfl).calls plainText
      (.map [("a", .map [("", .map [("b", .scalar "7")])])]) 0 := by
  have leads : Leads (.map [("a", .map [("", .map [("b", .scalar "7")])])]) "a..b" "7" :=
    ⟨["a", "", "b"], .inl (by decide), by simp [Node.walk, Node.walkEntries]⟩
  have registered : (single "a..b" rfl).datas "a..b" = some 0 := rfl
  exact (loads_iff_lower registered (by decide) leads).mpr (by decide)

/-- **`Lookup` registers `logs.maxSize`**, and no document reaches it. -/
theorem maxSize_not_loaded :
    Registry.empty.lookup () "logs.maxSize" (0 : Int) "" = .ok (single "logs.maxSize" rfl, 0) ∧
      Leads (.map [("logs", .map [("maxSize", .scalar "7")])]) "logs.maxSize" "7" ∧
      "7" ∉ (single "logs.maxSize" rfl).calls plainText
        (.map [("logs", .map [("maxSize", .scalar "7")])]) 0 := by
  refine ⟨rfl, ⟨["logs", "maxSize"], .inl (by decide), by simp [Node.walk, Node.walkEntries]⟩, ?_⟩
  decide +kernel

end Sylar.Config
