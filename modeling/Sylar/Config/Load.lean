/-
**Loading a document into the variables.**

`LoadFromYaml` first lists the nodes of the document under dotted names, leaving out what is inside a
node with an invalid name, and then hands the text of every listed node to the variable of its name.

* `dotted`, `Clear` — the name of a node, from the keys that lead to it, and that neither it nor a
  name on the way is invalid; `addressed` — the texts that a document has for a name.
* `listAllMember_eq` — **what is listed is the walk over the document, without what is not clear**.
* `Registry.loadFromYaml_heap` — every variable gets the texts of its name, in order.
* `loadFromYaml_addressed` — **so it gets exactly the texts addressed to it**, if it has a name.
-/

import Mathlib.Data.List.Infix
import Sylar.Config.Registry
import Sylar.Library.Sweep
import Sylar.Library.Yaml

namespace Sylar.Config

open Sylar.Library Sylar.Library.Yaml

/-! ### Listing -/

/-- The characters of a name in a document. -/
def nameChars : String := "abcdefghijklmnopqrstuvwxyz._0123456789"

mutual

/-- What `ListAllMember` adds to `output`. -/
def listAllMember (pre : String) (node : Node) : List (String × Node) :=
  if findFirstNotOf pre nameChars ≠ none then []
  else
    (pre, node) ::
      match node with
      | .map entries => listEntries pre entries
      | _ => []

/-- The loop over a map. -/
def listEntries (pre : String) : List (String × Node) → List (String × Node)
  | [] => []
  | (key, node) :: rest =>
      listAllMember (if pre = "" then key else pre ++ "." ++ key) node ++ listEntries pre rest

end

/-! ### The names and the texts of a document -/

/-- The name of a node: its keys, without the empty ones at the root. -/
def dotted (keys : List String) : String := ".".intercalate (keys.dropWhile (· = ""))

/-- All characters are such that a document can address the name. -/
def Valid (name : String) : Prop := ∀ c ∈ name.toList, c ∈ nameChars.toList

instance (name : String) : Decidable (Valid name) :=
  List.decidableBAll (· ∈ nameChars.toList) name.toList

/-- The name of a node and all names on the way to it are valid. -/
def Clear (keys : List String) : Prop := ∀ above ∈ keys.inits, Valid (dotted above)

instance (keys : List String) : Decidable (Clear keys) :=
  inferInstanceAs (Decidable (∀ above ∈ keys.inits, Valid (dotted above)))

/-- The text that a variable gets for a node. -/
def textOf (yaml : Text) : Node → String
  | .scalar text => text
  | node => yaml.emit node

/-- **The texts addressed to a name**, in the order of the document. -/
def addressed (yaml : Text) (root : Node) (name : String) : List String :=
  ((root.walk []).filter fun p => dotted p.1 = name ∧ Clear p.1).map fun p => textOf yaml p.2

theorem dotted_eq_empty {keys : List String} :
    dotted keys = "" ↔ keys.dropWhile (· = "") = [] := by
  constructor
  · intro empty
    cases kept : keys.dropWhile (· = "") with
    | nil => rfl
    | cons key rest =>
      have nonempty : key ≠ "" := by
        have first := List.head?_dropWhile_not (fun key : String => decide (key = "")) keys
        rw [kept] at first
        simpa using first
      rw [dotted, kept] at empty
      cases rest with
      | nil => exact absurd (String.intercalate_singleton.symm.trans empty) nonempty
      | cons next rest =>
        rw [String.intercalate_cons_cons, String.append_eq_empty_iff,
          String.append_eq_empty_iff] at empty
        exact absurd empty.1.1 nonempty
  · intro none
    rw [dotted, none]
    rfl

/-- **A key under a node continues its name as the program continues it.** -/
theorem dotted_concat (keys : List String) (key : String) :
    dotted (keys ++ [key]) = if dotted keys = "" then key else dotted keys ++ "." ++ key := by
  by_cases none : keys.dropWhile (· = "") = []
  · rw [if_pos (dotted_eq_empty.mpr none), dotted, List.dropWhile_append, none]
    by_cases empty : key = ""
    · simp [empty]
    · simp [empty]
  · have kept : (keys.dropWhile (· = "")).isEmpty ≠ true := fun empty =>
      none (List.isEmpty_iff.mp empty)
    rw [if_neg fun empty => none (dotted_eq_empty.mp empty), dotted, List.dropWhile_append,
      if_neg kept, String.intercalate_append_of_ne_nil none (List.cons_ne_nil key []),
      String.intercalate_singleton, dotted]

theorem clear_concat {keys : List String} {key : String} :
    Clear (keys ++ [key]) ↔ Clear keys ∧ Valid (dotted (keys ++ [key])) := by
  simp only [Clear, List.mem_inits, List.prefix_concat_iff]
  constructor
  · exact fun clear => ⟨fun above within => clear above (.inr within), clear _ (.inl rfl)⟩
  · rintro ⟨clear, valid⟩ above (rfl | within)
    · exact valid
    · exact clear above within

theorem Clear.above {keys more : List String} (clear : Clear more) (within : keys <+: more) :
    Clear keys := fun above inits =>
  clear above ((List.mem_inits _ _).mpr (((List.mem_inits _ _).mp inits).trans within))

/-! ### The list is the walk -/

theorem listEntries_eq (pre : String) (entries : List (String × Node)) :
    listEntries pre entries = entries.flatMap fun e =>
      listAllMember (if pre = "" then e.1 else pre ++ "." ++ e.1) e.2 := by
  induction entries with
  | nil => rfl
  | cons e rest ih => rw [listEntries, ih, List.flatMap_cons]

theorem listAllMember_step (pre : String) (node : Node) :
    listAllMember pre node =
      if Valid pre then
        (pre, node) :: node.entries.flatMap fun e =>
          listAllMember (if pre = "" then e.1 else pre ++ "." ++ e.1) e.2
      else [] := by
  rw [← listEntries_eq]
  unfold listAllMember
  by_cases valid : Valid pre
  · rw [if_neg (not_not.mpr (findFirstNotOf_eq_none.mpr valid)), if_pos valid]
    cases node <;> rfl
  · rw [if_pos fun none => valid (findFirstNotOf_eq_none.mp none), if_neg valid]

/-- **What is listed is the walk, without what is not clear.** The keys on the way are clear. -/
theorem listAllMember_eq (node : Node) : ∀ {keys : List String}, (Valid (dotted keys) → Clear keys) →
    listAllMember (dotted keys) node =
      ((node.walk keys).filter fun p => Clear p.1).map fun p => (dotted p.1, p.2) := by
  induction node using Node.induction with
  | inside node ih =>
    intro keys way
    rw [listAllMember_step]
    by_cases valid : Valid (dotted keys)
    · have clear : Clear keys := way valid
      rw [if_pos valid, Node.walk_eq, List.filter_cons_of_pos (by simpa using clear), List.map_cons,
        List.filter_flatMap, List.map_flatMap]
      congr 1
      refine List.flatMap_congr fun e member => ?_
      rw [← dotted_concat]
      exact ih e member fun valid => clear_concat.mpr ⟨clear, valid⟩
    · have hidden : ∀ p ∈ node.walk keys, ¬ decide (Clear p.1) = true := by
        intro p member clear
        have within := (of_decide_eq_true clear).above (Node.prefix_of_mem_walk member)
        exact valid (within keys ((List.mem_inits _ _).mpr List.prefix_rfl))
      rw [if_neg valid, List.filter_eq_nil_iff.mpr hidden]
      rfl

/-! ### Loading -/

section Loading

variable {τ : Type} {types : Types τ}

/-- A round of the loop over `all_nodes`. -/
def Registry.loadMember (yaml : Text) (r : Registry types) (i : String × Node) : Registry types :=
  if i.1 = "" then r
  else
    match r.lookupBase (i.1.map Char.toLower) with
    | none => r
    | some var => r.update var (·.fromString (textOf yaml i.2)) fun v => v.fromString_getName _

/-- `LoadFromYaml`. -/
def Registry.loadFromYaml (yaml : Text) (r : Registry types) (root : Node) : Registry types :=
  (listAllMember "" root).foldl (Registry.loadMember yaml) r

/-- The texts that the loop hands to the variable of a name. -/
def handed (yaml : Text) (root : Node) (name : String) : List String :=
  ((listAllMember "" root).filter fun i => i.1 ≠ "" ∧ i.1.map Char.toLower = name).map
    fun i => textOf yaml i.2

namespace Registry

theorem loadMember_datas (yaml : Text) (r : Registry types) (i : String × Node) :
    (r.loadMember yaml i).datas = r.datas := by
  unfold loadMember
  split
  · rfl
  · split <;> rfl

theorem loadMember_heap (yaml : Text) (r : Registry types) (i : String × Node) (id : Nat) :
    (r.loadMember yaml i).heap[id]? =
      if i.1 ≠ "" ∧ r.datas (i.1.map Char.toLower) = some id then
        (r.heap[id]?).map (·.fromString (textOf yaml i.2))
      else r.heap[id]? := by
  unfold loadMember lookupBase
  by_cases empty : i.1 = ""
  · rw [if_pos empty, if_neg fun both => both.1 empty]
  · rw [if_neg empty]
    cases found : r.datas (i.1.map Char.toLower) with
    | none => rw [if_neg fun both => by cases both.2]
    | some var =>
      show (r.update var _ _).heap[id]? = _
      rw [update_heap]
      by_cases here : var = id
      · rw [if_pos here, if_pos ⟨empty, congrArg some here⟩]
      · rw [if_neg here, if_neg fun both => here (Option.some.inj both.2)]

/-- Loading registers nothing. -/
@[simp] theorem loadFromYaml_datas (yaml : Text) (r : Registry types) (root : Node) :
    (r.loadFromYaml yaml root).datas = r.datas := by
  unfold loadFromYaml
  induction listAllMember "" root generalizing r with
  | nil => rfl
  | cons i rest ih => rw [List.foldl_cons, ih, loadMember_datas]

/-- **Every variable gets the texts of the name it is registered under**, in order. -/
theorem loadFromYaml_heap (yaml : Text) (r : Registry types) (root : Node) {id : Nat}
    {v : ConfigVarBase types} (held : r.heap[id]? = some v) :
    (r.loadFromYaml yaml root).heap[id]? =
      some ((if r.datas v.getName = some id then handed yaml root v.getName else []).foldl
        ConfigVarBase.fromString v) := by
  have loop := @view_foldl (Registry types) (String × Node) Nat (Option (ConfigVarBase types))
    (fun s => s.datas = r.datas) (fun s id => s.heap[id]?)
    (fun i id => decide (i.1 ≠ "" ∧ r.datas (i.1.map Char.toLower) = some id))
    (fun v i => v.map (·.fromString (textOf yaml i.2))) (loadMember yaml)
    (fun s i same => (s.loadMember_datas yaml i).trans same)
    (fun s i id same => by
      rw [← same]
      simpa using s.loadMember_heap yaml i id)
    r rfl (listAllMember "" root) id
  unfold loadFromYaml
  rw [loop, held]
  refine (foldl_map_some (fun v (i : String × Node) => v.fromString (textOf yaml i.2)) v _).trans
    (congrArg some ?_)
  have own : ∀ name, r.datas name = some id → v.getName = name := fun _ found =>
    r.getName_of_datas found held
  split
  next registered =>
    rw [handed, List.foldl_map]
    congr 1
    refine List.filter_congr fun i _ => ?_
    have same : r.datas (i.1.map Char.toLower) = some id ↔ i.1.map Char.toLower = v.getName :=
      ⟨fun found => (own _ found).symm, fun here => here ▸ registered⟩
    simp only [same]
  next orphan =>
    have none : (listAllMember "" root).filter
        (fun i => decide (i.1 ≠ "" ∧ r.datas (i.1.map Char.toLower) = some id)) = [] := by
      refine List.filter_eq_nil_iff.mpr fun i _ hit => ?_
      have found := (of_decide_eq_true hit).2
      exact orphan (own _ found ▸ found)
    rw [none]
    rfl

end Registry

/-! ### What is handed is what is addressed -/

theorem map_toLower_of_valid {name : String} (valid : Valid name) :
    name.map Char.toLower = name := by
  have lower : (nameChars.toList.all fun c => c.toLower = c) = true := by decide
  apply String.toList_inj.mp
  rw [String.toList_map]
  refine (List.map_congr_left fun c member => ?_).trans (List.map_id _)
  exact of_decide_eq_true (List.all_eq_true.mp lower c (valid c member))

theorem Clear.valid {keys : List String} (clear : Clear keys) : Valid (dotted keys) :=
  clear keys ((List.mem_inits _ _).mpr List.prefix_rfl)

/-- **A name gets the texts addressed to it**, except for the empty name. -/
theorem handed_eq (yaml : Text) (root : Node) (name : String) :
    handed yaml root name = if name = "" then [] else addressed yaml root name := by
  have rootClear : Clear [] := by decide
  have same : ∀ p ∈ root.walk [],
      (decide (dotted p.1 ≠ "" ∧ (dotted p.1).map Char.toLower = name) && decide (Clear p.1)) =
        decide (name ≠ "" ∧ dotted p.1 = name ∧ Clear p.1) := by
    intro p _
    by_cases clear : Clear p.1
    · rw [map_toLower_of_valid clear.valid]
      by_cases here : dotted p.1 = name
      · simp [clear, here]
      · simp [here]
    · simp [clear]
  unfold handed addressed
  rw [show listAllMember "" root = _ from listAllMember_eq root fun _ => rootClear, List.filter_map,
    List.filter_filter, List.map_map]
  refine (congrArg (List.map _) (List.filter_congr same)).trans ?_
  split
  next empty => simp [empty]
  next named => simp [named, Function.comp_def]

/-- **A document updates exactly the variables it addresses**: each gets, in the order of the document,
the texts addressed to the name it is registered under, unless that is empty; its value is then that
of the last text that converts. -/
theorem loadFromYaml_addressed (yaml : Text) (root : Node) (r : Registry types)
    (returns : ∀ v ∈ r.heap, v.var.Returns) :
    (r.loadFromYaml yaml root).datas = r.datas ∧
      ∀ id v, r.heap[id]? = some v →
        let texts :=
          if r.datas v.getName = some id ∧ v.getName ≠ "" then addressed yaml root v.getName else []
        let var := texts.foldl (fun var val => (var.fromString (types.cast v.type) val).1) v.var
        (r.loadFromYaml yaml root).heap[id]? = some ⟨v.type, var⟩ ∧
          var.val = (texts.filterMap (types.cast v.type)).getLastD v.var.val := by
  refine ⟨r.loadFromYaml_datas yaml root, fun id v held => ⟨?_, ?_⟩⟩
  · rw [r.loadFromYaml_heap yaml root held, ConfigVarBase.foldl_fromString, handed_eq]
    by_cases registered : r.datas v.getName = some id
    · by_cases empty : v.getName = ""
      · simp [empty]
      · simp [registered, empty]
    · simp [registered]
  · exact ConfigVar.foldl_fromString_val (returns v (List.mem_of_getElem? held)) _ _

end Loading

/-! ### Runs on concrete documents -/

/-- Variables of one type, `int`, and a cast that knows two numbers. -/
def intOnly : Types Unit where
  Val _ := Int
  equal _ := inferInstance
  cast _ val := if val = "7" then some (7 : Int) else if val = "8" then some (8 : Int) else none

def ConfigVarBase.toInt (v : ConfigVarBase intOnly) : Int := v.var.val

/-- A registry with one variable, of value 0. -/
def single (name : String) (accepted : Accepted name) : Registry intOnly :=
  Registry.empty.insert ⟨(), .new name (0 : Int) ""⟩ accepted

/-- An emitter and a loader for documents of scalars. -/
def plainText : Text := ⟨fun _ => "", fun text => some (.scalar text)⟩

/-- A variable that is addressed three times, the last time with a text that does not convert. -/
theorem loadFromYaml_addressed_again :
    ∃ v, ((single "a.b" rfl).loadFromYaml plainText (.map [("a", .map [("b", .scalar "7")]),
      ("a.b", .scalar "8"), ("", .map [("a.b", .scalar "x")])])).heap[0]? = some v ∧ v.toInt = 8 := by
  have returns : ∀ v ∈ (single "a.b" rfl).heap, v.var.Returns := by
    intro v member i inside
    obtain rfl := List.mem_singleton.mp member
    cases inside
  obtain ⟨held, value⟩ := (loadFromYaml_addressed plainText (.map [("a", .map [("b", .scalar "7")]),
    ("a.b", .scalar "8"), ("", .map [("a.b", .scalar "x")])]) (single "a.b" rfl) returns).2 0 _ rfl
  exact ⟨_, held, value.trans rfl⟩

/-- A variable can be registered under the empty name, which is the name of every document; it is
never loaded. -/
theorem unnamed_not_loaded :
    Registry.empty.lookup () "" (0 : Int) "" = .ok (single "" rfl, 0) ∧
      ((single "" rfl).loadFromYaml plainText (.scalar "7")).heap[0]? ≠
        some ((addressed plainText (.scalar "7") "").foldl ConfigVarBase.fromString
          ⟨(), .new "" (0 : Int) ""⟩) := by
  refine ⟨rfl, fun same => ?_⟩
  have value := congrArg (Option.map ConfigVarBase.toInt) same
  exact absurd value (by decide)

end Sylar.Config
