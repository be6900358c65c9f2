/-
**YAML trees, as a program builds and reads them.**

A `Node` is what a document is loaded into: nothing, a scalar, a sequence, or a map whose keys are
scalars, in document order. A program reads it by subscripts and loops, and builds one by assigning
to subscripts and by `push_back`.

* `Node.subscript` — `node[key]`: a node, or none under that key; a scalar has no subscripts, and the
  program gets an exception. `entry_set` is what an assignment does to it.
* `Node.readAll` — a loop over nodes; `readAll_map` — over nodes that can be read.
* `Node.induction` — the induction over the nodes under keys.
* `Node.walk` — all nodes of a tree with the keys that lead to them; `walk_eq` — a node comes before
  those under its keys.
* `Text`, `Text.Reloads` — an emitter and a loader, and that a node is loaded as it was emitted.
-/

import Sylar.Library.Sweep

namespace Sylar.Library.Yaml

/-- A node. -/
inductive Node
  | null
  | scalar (text : String)
  | sequence (items : List Node)
  | map (entries : List (String × Node))

namespace Node

/-! ### Reading -/

/-- The entries of a map. -/
def entries : Node → List (String × Node)
  | .map entries => entries
  | _ => []

/-- The node under a key, if it is defined. -/
def entry (n : Node) (key : String) : Option Node := n.entries.lookup key

/-- `n[key]`: a node that may not be defined, or an exception. -/
def subscript (n : Node) (key : String) : Option (Option Node) :=
  match n with
  | .scalar _ => none
  | n => some (n.entry key)

/-- What a loop over the node sees: the items of a sequence. The loop variable has no subscripts and
no conversions over a map. -/
def items : Node → Option (List Node)
  | .sequence items => some items
  | .map (_ :: _) => none
  | _ => some []

/-- `n.size()`. -/
def size : Node → Nat
  | .sequence items => items.length
  | .map entries => entries.length
  | _ => 0

/-- `n[i]` for a number. -/
def item (n : Node) (i : Nat) : Option Node :=
  match n with
  | .sequence items => items[i]?
  | .map entries => (entries.find? fun e => e.1.toNat? == some i).map Prod.snd
  | _ => none

/-- What a loop over the numbers below `n.size()` sees; a node that is not defined is like null. -/
def itemsBySize (n : Node) : List Node := (List.range n.size).map fun i => (n.item i).getD .null

/-- `n.as<std::string>()`. -/
def asString : Node → Option String
  | .null => some "null"
  | .scalar text => some text
  | _ => none

/-- A loop that reads items and passes over some of them; an exception ends it. -/
def readAll {α β : Type} (read : Node → Option (Option α)) (put : β → α → β) (init : β)
    (items : List Node) : Option β :=
  items.foldlM (fun acc n => (read n).map fun a => (a.map (put acc)).getD acc) init

theorem itemsBySize_sequence (items : List Node) : (sequence items).itemsBySize = items := by
  apply List.ext_getElem
  · simp [itemsBySize, size]
  · intro i _ bound
    simp [itemsBySize, item, bound]

/-- **A loop over nodes that can all be read.** -/
theorem readAll_map {α β γ : Type} {read : Node → Option (Option α)} {node : γ → Node}
    {value : γ → α} (put : β → α → β) {sources : List γ}
    (reads : ∀ c ∈ sources, read (node c) = some (some (value c))) (init : β) :
    readAll read put init (sources.map node) = some ((sources.map value).foldl put init) := by
  unfold readAll
  rw [List.foldlM_map, List.foldl_map]
  refine foldlM_eq_some (fun acc c member => ?_) init
  rw [reads c member]
  rfl

/-! ### Building -/

/-- Assign to a key: in its place, or at the end. -/
def setEntry (key : String) (value : Node) : List (String × Node) → List (String × Node)
  | [] => [(key, value)]
  | e :: rest => if e.1 = key then (key, value) :: rest else e :: setEntry key value rest

/-- `n[key] = value`, on a node that is null or a map. -/
def set (n : Node) (key : String) (value : Node) : Node := .map (setEntry key value n.entries)

/-- `n.push_back(value)`, on a node that is null or a sequence. -/
def push (n : Node) (value : Node) : Node :=
  match n with
  | .sequence items => .sequence (items ++ [value])
  | _ => .sequence [value]

/-- `n[key].push_back(value)`. -/
def pushAt (n : Node) (key : String) (value : Node) : Node :=
  n.set key (((n.entry key).getD .null).push value)

theorem lookup_entry (key asked : String) (value : Node) (rest : List (String × Node)) :
    ((key, value) :: rest).lookup asked = if asked = key then some value else rest.lookup asked := by
  by_cases same : asked = key
  · subst same
    simp
  · have differ : (asked == key) = false := beq_false_of_ne same
    rw [List.lookup_cons, differ, if_neg same]

theorem lookup_setEntry (key asked : String) (value : Node) (entries : List (String × Node)) :
    (setEntry key value entries).lookup asked =
      if asked = key then some value else entries.lookup asked := by
  induction entries with
  | nil =>
    rw [setEntry, lookup_entry]
  | cons e rest ih =>
    obtain ⟨first, node⟩ := e
    unfold setEntry
    split
    next here =>
      subst here
      rw [lookup_entry, lookup_entry]
      split <;> rfl
    next apart =>
      rw [lookup_entry, lookup_entry, ih]
      by_cases same : asked = first
      · subst same
        rw [if_pos rfl, if_neg apart, if_pos rfl]
      · rw [if_neg same, if_neg same]

/-- **What an assignment does to the subscripts.** -/
@[simp] theorem entry_set (n : Node) (key asked : String) (value : Node) :
    (n.set key value).entry asked = if asked = key then some value else n.entry asked :=
  lookup_setEntry key asked value n.entries

@[simp] theorem subscript_set (n : Node) (key asked : String) (value : Node) :
    (n.set key value).subscript asked = some ((n.set key value).entry asked) := rfl

@[simp] theorem entry_null (key : String) : Node.null.entry key = none := rfl

/-- **Pushing at a key, one after the other.** -/
theorem entry_foldl_pushAt (n : Node) (key asked : String) (values : List Node) :
    (values.foldl (fun n value => n.pushAt key value) n).entry asked =
      if asked = key ∧ values ≠ [] then some (values.foldl push ((n.entry key).getD .null))
      else n.entry asked := by
  induction values generalizing n with
  | nil => simp
  | cons value rest ih =>
    rw [List.foldl_cons, ih, List.foldl_cons]
    simp only [pushAt, entry_set, if_pos, Option.getD_some]
    by_cases here : asked = key
    · cases rest with
      | nil => simp [here]
      | cons _ _ => simp [here]
    · simp [here]

/-- A node that was pushed at has subscripts. -/
theorem subscript_foldl_pushAt {n : Node} (has : ∀ asked, n.subscript asked = some (n.entry asked))
    (key asked : String) (values : List Node) :
    (values.foldl (fun n value => n.pushAt key value) n).subscript asked =
      some ((values.foldl (fun n value => n.pushAt key value) n).entry asked) := by
  induction values generalizing n with
  | nil => exact has asked
  | cons next rest ih => exact ih fun _ => rfl

/-- Pushing a list, one after the other. -/
theorem foldl_push (items values : List Node) :
    values.foldl push (.sequence items) = .sequence (items ++ values) := by
  induction values generalizing items with
  | nil => simp
  | cons value rest ih => simp [push, ih]

/-- Pushing on a new node. -/
theorem foldl_push_null (values : List Node) :
    values.foldl push .null = if values = [] then .null else .sequence values := by
  cases values with
  | nil => rfl
  | cons value rest => simp [push, foldl_push]

/-! ### Walking -/

mutual

/-- A property of every node, from the nodes under its keys to the node. -/
theorem induction {P : Node → Prop} (inside : ∀ n : Node, (∀ e ∈ n.entries, P e.2) → P n) :
    ∀ n : Node, P n
  | .map entries => inside (.map entries) (induction_entries inside entries)
  | .null => inside .null fun _ member => by cases member
  | .scalar text => inside (.scalar text) fun _ member => by cases member
  | .sequence items => inside (.sequence items) fun _ member => by cases member

theorem induction_entries {P : Node → Prop} (inside : ∀ n : Node, (∀ e ∈ n.entries, P e.2) → P n) :
    ∀ entries : List (String × Node), ∀ e ∈ entries, P e.2
  | (_, n) :: rest, e, member => by
      rcases List.mem_cons.mp member with rfl | later
      · exact induction inside n
      · exact induction_entries inside rest e later

end

mutual

/-- The nodes of a tree with the keys that lead to them, which continue `keys`. -/
def walk (keys : List String) (n : Node) : List (List String × Node) :=
  (keys, n) ::
    match n with
    | .map entries => walkEntries keys entries
    | _ => []

def walkEntries (keys : List String) : List (String × Node) → List (List String × Node)
  | [] => []
  | (key, n) :: rest => walk (keys ++ [key]) n ++ walkEntries keys rest

end

theorem walkEntries_eq (keys : List String) (entries : List (String × Node)) :
    walkEntries keys entries = entries.flatMap fun e => e.2.walk (keys ++ [e.1]) := by
  induction entries with
  | nil => rfl
  | cons e rest ih => rw [walkEntries, ih, List.flatMap_cons]

/-- **A node comes before the nodes under its keys.** -/
theorem walk_eq (keys : List String) (n : Node) :
    n.walk keys = (keys, n) :: n.entries.flatMap fun e => e.2.walk (keys ++ [e.1]) := by
  rw [← walkEntries_eq]
  cases n <;> rfl

/-- The keys of a walk continue those it starts with. -/
theorem prefix_of_mem_walk {n : Node} :
    ∀ {keys : List String} {p : List String × Node}, p ∈ n.walk keys → keys <+: p.1 := by
  induction n using induction with
  | inside n ih =>
    intro keys p member
    rw [walk_eq, List.mem_cons, List.mem_flatMap] at member
    obtain rfl | ⟨e, under, member⟩ := member
    · exact List.prefix_rfl
    · exact (List.prefix_append keys [e.1]).trans (ih e under member)

end Node

/-! ### Text -/

/-- An emitter and a loader, which may fail. -/
structure Text where
  emit : Node → String
  load : String → Option Node

/-- The node is loaded as it was emitted. -/
def Text.Reloads (yaml : Text) (n : Node) : Prop := yaml.load (yaml.emit n) = some n

end Sylar.Library.Yaml
