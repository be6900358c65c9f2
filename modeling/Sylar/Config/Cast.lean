/-
**The conversions of `config.h`: containers and their texts.**

A `std::vector` or a `std::list` is written as a YAML sequence: every element is written, its text is
loaded as a document, and the nodes are emitted together. It is read the other way round: the text of
every item of the document is emitted and read. So an element passes through a document of its own,
and its text may come back changed.

* `Survives` — what an element has to do: its text, loaded and emitted, is read as the element.
* `sequence_roundTrip_iff` — **a container comes back exactly when its elements survive**;
  `survives_sequence_iff` — and then it survives itself.
* `Shape` — vectors and lists, nested in any way, over one type of elements.
* `toString_reads_back` — **what a variable of any shape prints is read back, with nobody told,
  exactly when the innermost elements survive**.
-/

import Sylar.Config.Var
import Sylar.Library.Sweep
import Sylar.Library.Yaml

namespace Sylar.Config

open Sylar.Library Sylar.Library.Yaml

/-! ### Conversions -/

/-- `LexicalCast<std::string, T>` and `LexicalCast<T, std::string>`; `none` is an exception. -/
structure LexicalCast (T : Type) where
  ofText : String → Option T
  toText : T → Option String

/-- What `ss << i` writes for every `i` of a loop over a node. Over a map `i` is a pair and no node,
and nothing is written. -/
def loopTexts (yaml : Text) : Node → List String
  | .sequence items => items.map yaml.emit
  | .map entries => entries.map fun _ => ""
  | .null | .scalar _ => []

section Sequences

variable {T : Type} (yaml : Text) (elem : LexicalCast T)

/-- A container from a text. -/
def sequenceOfText (v : String) : Option (List T) :=
  (yaml.load v).bind fun node => (loopTexts yaml node).mapM elem.ofText

/-- The nodes of the elements. -/
def elementNodes (v : List T) : Option (List Node) :=
  v.mapM fun i => (elem.toText i).bind yaml.load

/-- The node of a container. -/
def sequenceNode (v : List T) : Option Node :=
  (elementNodes yaml elem v).map (·.foldl Node.push .null)

/-- The text of a container. -/
def sequenceToText (v : List T) : Option String := (sequenceNode yaml elem v).map yaml.emit

/-- `LexicalCast` for `std::vector<T>`. -/
def LexicalCast.vector : LexicalCast (List T) := ⟨sequenceOfText yaml elem, sequenceToText yaml elem⟩

/-- `LexicalCast` for `std::list<T>`. -/
def LexicalCast.list : LexicalCast (List T) := ⟨sequenceOfText yaml elem, sequenceToText yaml elem⟩

/-! ### One container -/

/-- A value comes back from its text. -/
def RoundTrips (x : T) : Prop := (elem.toText x).bind elem.ofText = some x

/-- A value comes back from the text of a document that is its text. -/
def Survives (x : T) : Prop :=
  (((elem.toText x).bind yaml.load).bind fun node => elem.ofText (yaml.emit node)) = some x

variable {yaml elem}

theorem loopTexts_pushed (nodes : List Node) :
    loopTexts yaml (nodes.foldl Node.push .null) = nodes.map yaml.emit := by
  rw [Node.foldl_push_null]
  split
  next empty => rw [empty]; rfl
  next => rfl

/-- What a container is read as from its own node. -/
theorem ofText_node {v : List T} {nodes : List Node}
    (reloads : yaml.Reloads (nodes.foldl Node.push .null))
    (made : elementNodes yaml elem v = some nodes) :
    sequenceOfText yaml elem (yaml.emit (nodes.foldl Node.push .null)) =
      v.mapM fun i => ((elem.toText i).bind yaml.load).bind fun node =>
        elem.ofText (yaml.emit node) := by
  have loaded : yaml.load (yaml.emit (nodes.foldl Node.push .null)) =
      some (nodes.foldl Node.push .null) := reloads
  unfold sequenceOfText
  rw [loaded]
  show (loopTexts yaml (nodes.foldl Node.push .null)).mapM elem.ofText = _
  rw [loopTexts_pushed, List.mapM_map, ← mapM_bind_mapM,
    show (v.mapM fun i => (elem.toText i).bind yaml.load) = some nodes from made]
  rfl

/-- **A container comes back exactly when its elements survive.** -/
theorem sequence_roundTrip_iff {v : List T}
    (reloads : ∀ node ∈ sequenceNode yaml elem v, yaml.Reloads node) :
    RoundTrips ⟨sequenceOfText yaml elem, sequenceToText yaml elem⟩ v ↔
      ∀ x ∈ v, Survives yaml elem x := by
  have elements : (v.mapM fun i => ((elem.toText i).bind yaml.load).bind fun node =>
      elem.ofText (yaml.emit node)) = some v ↔ ∀ x ∈ v, Survives yaml elem x :=
    mapM_eq_self_iff
  show (sequenceToText yaml elem v).bind (sequenceOfText yaml elem) = some v ↔ _
  unfold sequenceToText sequenceNode
  unfold sequenceNode at reloads
  cases made : elementNodes yaml elem v with
  | none =>
    rw [← mapM_bind_mapM,
      show (v.mapM fun i => (elem.toText i).bind yaml.load) = none from made] at elements
    exact elements
  | some nodes =>
    rw [made] at reloads
    show sequenceOfText yaml elem (yaml.emit (nodes.foldl Node.push .null)) = some v ↔ _
    rw [ofText_node (reloads _ rfl) made]
    exact elements

/-- **A container survives exactly when its elements do.** -/
theorem survives_sequence_iff {v : List T}
    (reloads : ∀ node ∈ sequenceNode yaml elem v, yaml.Reloads node) :
    Survives yaml ⟨sequenceOfText yaml elem, sequenceToText yaml elem⟩ v ↔
      ∀ x ∈ v, Survives yaml elem x := by
  rw [← sequence_roundTrip_iff reloads]
  show ((sequenceToText yaml elem v).bind yaml.load).bind
      (fun node => sequenceOfText yaml elem (yaml.emit node)) = some v ↔
    (sequenceToText yaml elem v).bind (sequenceOfText yaml elem) = some v
  unfold sequenceToText
  cases made : sequenceNode yaml elem v with
  | none => rfl
  | some node =>
    have loaded : yaml.load (yaml.emit node) = some node := reloads node made
    show (yaml.load (yaml.emit node)).bind _ = _ ↔ _
    rw [loaded]
    rfl

end Sequences

/-! ### Containers of containers -/

/-- `std::vector`s and `std::list`s, nested, over one type. -/
inductive Shape
  | scalar
  | vector (of : Shape)
  | list (of : Shape)

namespace Shape

variable (T : Type)

/-- The type of a shape. -/
@[reducible] def Value : Shape → Type
  | scalar => T
  | vector of | list of => List of.Value

instance decEq [DecidableEq T] : (shape : Shape) → DecidableEq (shape.Value T)
  | scalar => inferInstanceAs (DecidableEq T)
  | vector of | list of =>
      let _ : DecidableEq (of.Value T) := decEq of
      inferInstanceAs (DecidableEq (List (of.Value T)))

variable {T}

/-- The elements of the innermost containers. -/
def leaves : (shape : Shape) → shape.Value T → List T
  | scalar, x => [x]
  | vector of, v | list of, v => List.flatMap (leaves of) v

section Cast

variable (yaml : Text) (elem : LexicalCast T)

/-- The conversions that the compiler puts together. -/
def cast : (shape : Shape) → LexicalCast (shape.Value T)
  | scalar => elem
  | vector of => (cast of).vector yaml
  | list of => (cast of).list yaml

/-- The node of every container is loaded as it was emitted. -/
def Reloads : (shape : Shape) → shape.Value T → Prop
  | scalar, _ => True
  | vector of, v | list of, v =>
      (∀ node ∈ sequenceNode yaml (of.cast yaml elem) v, yaml.Reloads node) ∧
        ∀ x ∈ v, Reloads of x

end Cast

variable {yaml : Text} {elem : LexicalCast T}

/-- **A value of any shape survives exactly when its innermost elements do.** -/
theorem survives_iff : ∀ (shape : Shape) {v : shape.Value T}, shape.Reloads yaml elem v →
    (Survives yaml (shape.cast yaml elem) v ↔ ∀ x ∈ shape.leaves v, Survives yaml elem x)
  | scalar, v, _ => by
    exact List.forall_mem_singleton.symm
  | vector of, v, reloads | list of, v, reloads => by
    obtain ⟨here, inside⟩ := reloads
    have within : (∀ x ∈ v, Survives yaml (of.cast yaml elem) x) ↔
        ∀ x ∈ v.flatMap (leaves of), Survives yaml elem x := by
      simp only [List.mem_flatMap]
      constructor
      · rintro all x ⟨part, member, leaf⟩
        exact (survives_iff of (inside part member)).mp (all part member) x leaf
      · intro all part member
        exact (survives_iff of (inside part member)).mpr fun x leaf => all x ⟨part, member, leaf⟩
    exact (survives_sequence_iff here).trans within

/-- The same of a container and its own text. -/
theorem roundTrips_iff (shape : Shape) (container : shape ≠ scalar) {v : shape.Value T}
    (reloads : shape.Reloads yaml elem v) :
    RoundTrips (shape.cast yaml elem) v ↔ ∀ x ∈ shape.leaves v, Survives yaml elem x := by
  rw [← survives_iff shape reloads]
  cases shape with
  | scalar => exact absurd rfl container
  | vector of | list of =>
    exact (sequence_roundTrip_iff reloads.1).trans (survives_sequence_iff reloads.1).symm

end Shape

/-! ### Variables -/

/-- **A text that tells nobody**: it is the value's own. -/
theorem ConfigVar.fromString_quiet_iff {T : Type} [DecidableEq T] {cast : String → Option T}
    {v : ConfigVar T} {val : String} :
    v.fromString cast val = (v, true) ↔ cast val = some v.val := by
  unfold ConfigVar.fromString
  cases cast val with
  | none => simp
  | some newVal =>
    rw [Option.some_inj]
    show v.setValue newVal = (v, true) ↔ _
    unfold ConfigVar.setValue
    obtain ⟨same, notified⟩ | ⟨differ, -, notified⟩ | ⟨differ, -, notified⟩ :=
      v.notify_cases newVal <;> rw [notified]
    · exact iff_of_true rfl same
    · refine iff_of_false (fun same => differ ?_) differ
      exact congrArg (fun r => r.1.val) same
    · exact iff_of_false (fun same => by cases congrArg Prod.snd same) differ

/-- **What a variable prints is read back, with nobody told, exactly when the innermost elements
survive.** -/
theorem toString_reads_back {T : Type} [DecidableEq T] (yaml : Text) (elem : LexicalCast T)
    (shape : Shape) (container : shape ≠ .scalar) (v : ConfigVar (shape.Value T))
    (empty : yaml.load "" = some .null) (reloads : shape.Reloads yaml elem v.val) :
    v.fromString (shape.cast yaml elem).ofText (v.toString (shape.cast yaml elem).toText) =
      (v, true) ↔ ∀ x ∈ shape.leaves v.val, Survives yaml elem x := by
  rw [ConfigVar.fromString_quiet_iff, ← shape.roundTrips_iff container reloads]
  unfold ConfigVar.toString RoundTrips
  cases printed : (shape.cast yaml elem).toText v.val with
  | some text => rfl
  | none =>
    -- an exception: the text is empty, and so is the container that it is read as
    refine iff_of_false (fun same => ?_) (fun same => by cases same)
    cases shape with
    | scalar => exact container rfl
    | vector of | list of =>
      have read : sequenceOfText yaml (of.cast yaml elem) "" = some [] := by
        unfold sequenceOfText
        rw [empty]
        rfl
      have nothing : v.val = [] := Option.some.inj (same.symm.trans read)
      rw [nothing] at printed
      cases printed

/-- `std::string`, which is its own text. -/
def LexicalCast.string : LexicalCast String := ⟨some, some⟩

/-- Two rows of one letter. -/
def rowsText : Text where
  emit
    | .null => "~"
    | .scalar text => text
    | .sequence [.scalar letter] => if letter = "a" then "- a" else "- b"
    | _ => "-\n  - a\n-\n  - b"
  load text :=
    some <|
      if text = "" then .null
      else if text = "- a" then .sequence [.scalar "a"]
      else if text = "- b" then .sequence [.scalar "b"]
      else if text = "-\n  - a\n-\n  - b" then
        .sequence [.sequence [.scalar "a"], .sequence [.scalar "b"]]
      else .scalar text

theorem toString_reads_back_rows :
    let rows : ConfigVar (List (List String)) := .new "rows" [["a"], ["b"]] ""
    let cast := (LexicalCast.string.list rowsText).vector rowsText
    rows.fromString cast.ofText (rows.toString cast.toText) = (rows, true) := by
  have reloads : (Shape.vector (.list .scalar)).Reloads rowsText LexicalCast.string
      [["a"], ["b"]] := by
    refine ⟨fun node made => ?_, fun row member => ⟨fun node made => ?_, fun _ _ => trivial⟩⟩
    · cases made
      rfl
    · rcases List.mem_pair.mp member with rfl | rfl <;> cases made <;> rfl
  refine (toString_reads_back rowsText LexicalCast.string (.vector (.list .scalar)) (by simp)
    (.new "rows" [["a"], ["b"]] "") rfl reloads).mpr fun x leaf => ?_
  rcases List.mem_pair.mp leaf with rfl | rfl <;> rfl

end Sylar.Config
