/-
**The log configuration as text, and back.**

`LexicalCast` turns the value of `g_log_defines` into YAML and YAML into a value. The encoder writes
every field of a definition and of its appenders; the decoder reads an appender's file and formatter
for a file only, and no appender's level.

* `Level.fromString_toString` — the levels of the enumeration have names.
* `LogDefine.reloaded` — what is left of a definition: `ofNode_toNode`, `DefineSet.ofNode_toNode`.
* `roundTrip_iff` — **a value comes back exactly when its appenders have nothing to lose.**
-/

import Mathlib.Data.List.Perm.Basic
import Sylar.Library.OrderedSet
import Sylar.Library.Yaml
import Sylar.Log.Listener

namespace Sylar.Log

open Sylar.Library Sylar.Library.Yaml

/-! ### Levels -/

namespace Level

/-- `LogLevel::toString`. -/
def toString : Level → String
  | .debug => "DEBUG"
  | .info => "INFO"
  | .warn => "WARN"
  | .error => "ERROR"
  | .fatal => "FATAL"
  | _ => "UNKNOWN"

/-- `LogLevel::fromString`. -/
def fromString (str : String) : Level :=
  if str = "debug" then .debug
  else if str = "info" then .info
  else if str = "warn" then .warn
  else if str = "error" then .error
  else if str = "fatal" then .fatal
  else if str = "DEBUG" then .debug
  else if str = "INFO" then .info
  else if str = "WARN" then .warn
  else if str = "ERROR" then .error
  else if str = "FATAL" then .fatal
  else .unknown

/-- **The levels of the enumeration have names.** -/
theorem fromString_toString {level : Level} (named : level ≠ .level100) :
    fromString level.toString = level := by
  cases level with
  | level100 => exact absurd rfl named
  | _ => rfl

end Level

/-! ### The encoder -/

/-- The node of an appender's definition. -/
def LogAppenderDefine.toNode (a : LogAppenderDefine) : Node :=
  let na :=
    if a.type = 1 then
      (Node.null.set "type" (.scalar "FileLogAppender")).set "file" (.scalar a.file)
    else if a.type = 2 then Node.null.set "type" (.scalar "StdoutLogAppender")
    else .null
  let na := if a.formatter ≠ "" then na.set "formatter" (.scalar a.formatter) else na
  na.set "level" (.scalar a.level.toString)

/-- The node of a definition. -/
def LogDefine.toNode (i : LogDefine) : Node :=
  let n := (Node.null.set "name" (.scalar i.name)).set "level" (.scalar i.level.toString)
  let n := if i.formatter ≠ "" then n.set "formatter" (.scalar i.formatter) else n
  (i.appenders.map LogAppenderDefine.toNode).foldl (fun n na => n.pushAt "appenders" na) n

/-- The node of a value. -/
def DefineSet.toNode (v : DefineSet) : Node := (v.elems.map LogDefine.toNode).foldl Node.push .null

/-- `LexicalCast<std::set<LogDefine>, std::string>`. -/
def DefineSet.toString (yaml : Text) (v : DefineSet) : String := yaml.emit v.toNode

/-! ### The decoder -/

/-- One round of the loop over `n["appenders"]`: an appender, or `continue`. -/
def LogAppenderDefine.ofNode (a : Node) : Option (Option LogAppenderDefine) := do
  match ← a.subscript "type" with
  | none => some none
  | some type =>
      let type ← type.asString
      if type = "FileLogAppender" then
        match ← a.subscript "file" with
        | none => some none
        | some file =>
            let file ← file.asString
            match ← a.subscript "formatter" with
            | none => some (some { type := 1, file })
            | some formatter =>
                let formatter ← formatter.asString
                some (some { type := 1, file, formatter })
      else if type = "StdoutLogAppender" then some (some { type := 2 })
      else some none

/-- A member of a node as text, or `otherwise`. -/
def stringAt (n : Node) (key otherwise : String) : Option String := do
  match ← n.subscript key with
  | none => some otherwise
  | some member => member.asString

/-- The loop over `n["appenders"]`. -/
def appendersOf (n : Node) : Option (List LogAppenderDefine) := do
  match ← n.subscript "appenders" with
  | none => some []
  | some appenders =>
      Node.readAll LogAppenderDefine.ofNode (fun lads lad => lads ++ [lad]) [] appenders.itemsBySize

/-- One round of the loop over the nodes: a definition, or `continue`. -/
def LogDefine.ofNode (n : Node) : Option (Option LogDefine) := do
  match ← n.subscript "name" with
  | none => some none
  | some name =>
      let name ← name.asString
      let level ← stringAt n "level" ""
      let formatter ← stringAt n "formatter" ""
      let appenders ← appendersOf n
      some (some { name, level := .fromString level, formatter, appenders })

/-- `operator<`. -/
def LogDefine.before (a b : LogDefine) : Bool := decide (a.name < b.name)

/-- `std::set::insert`. -/
def DefineSet.insert (vec : DefineSet) (ld : LogDefine) : DefineSet where
  elems := OrderedSet.insert LogDefine.before ld vec.elems
  sorted := by
    have sorted : OrderedSet.IsSet LogDefine.before vec.elems :=
      vec.sorted.imp fun less => decide_eq_true less
    refine (OrderedSet.IsSet.insert_of_trans sorted ?_).imp of_decide_eq_true
    exact fun less more => decide_eq_true
      (String.lt_trans (of_decide_eq_true less) (of_decide_eq_true more))

def DefineSet.ofNode (node : Node) : Option DefineSet := do
  Node.readAll LogDefine.ofNode DefineSet.insert .empty (← node.items)

/-- `LexicalCast<std::string, std::set<LogDefine>>`; `none` is an exception. -/
def DefineSet.fromString (yaml : Text) (v : String) : Option DefineSet :=
  (yaml.load v).bind DefineSet.ofNode

/-! ### Reading what was built -/

section Read

variable {γ : Type} {node : γ → Node} {value : γ → LogAppenderDefine} {sources : List γ}

/-- Appenders that can all be read. -/
theorem appendersOf_eq (reads : ∀ c ∈ sources, LogAppenderDefine.ofNode (node c) = some (some (value c)))
    {n : Node} (held : n.subscript "appenders" =
      some (if sources.map node = [] then none else some ((sources.map node).foldl Node.push .null))) :
    appendersOf n = some (sources.map value) := by
  have gather : ∀ (lads more : List LogAppenderDefine),
      more.foldl (fun lads lad => lads ++ [lad]) lads = lads ++ more := by
    intro lads more
    induction more generalizing lads with
    | nil => simp
    | cons lad rest ih => simp [ih]
  unfold appendersOf
  rw [held]
  by_cases none : sources.map node = []
  · rw [if_pos none, List.map_eq_nil_iff.mp none]
    rfl
  · rw [if_neg none, Node.foldl_push_null, if_neg none]
    simp only [Option.bind_eq_bind, Option.bind_some]
    rw [Node.itemsBySize_sequence, Node.readAll_map _ reads, gather, List.nil_append]

/-- **A node with a name, a level, and appenders pushed to it.** -/
theorem LogDefine.ofNode_pushed {n : Node} {name level formatter : String}
    (has : ∀ key, n.subscript key = some (n.entry key))
    (named : n.entry "name" = some (.scalar name)) (leveled : n.entry "level" = some (.scalar level))
    (formatted : stringAt n "formatter" "" = some formatter) (bare : n.entry "appenders" = none)
    (reads : ∀ c ∈ sources, LogAppenderDefine.ofNode (node c) = some (some (value c))) :
    ofNode ((sources.map node).foldl (fun n na => n.pushAt "appenders" na) n) =
      some (some ⟨name, .fromString level, formatter, sources.map value⟩) := by
  have pushed := fun asked => Node.subscript_foldl_pushAt has "appenders" asked (sources.map node)
  have others : ∀ asked, asked ≠ "appenders" →
      ((sources.map node).foldl (fun n na => n.pushAt "appenders" na) n).subscript asked =
        some (n.entry asked) := by
    intro asked other
    rw [pushed, Node.entry_foldl_pushAt, if_neg fun both => other both.1]
  have read : appendersOf ((sources.map node).foldl (fun n na => n.pushAt "appenders" na) n) =
      some (sources.map value) := by
    refine appendersOf_eq reads ?_
    rw [pushed, Node.entry_foldl_pushAt, bare]
    by_cases none : sources.map node = []
    · simp [none]
    · simp [none]
  have leveled' : stringAt ((sources.map node).foldl (fun n na => n.pushAt "appenders" na) n)
      "level" "" = some level := by
    unfold stringAt
    rw [others "level" (by decide), leveled]
    rfl
  have formatted' : stringAt ((sources.map node).foldl (fun n na => n.pushAt "appenders" na) n)
      "formatter" "" = some formatter := by
    rw [← formatted]
    unfold stringAt
    rw [others "formatter" (by decide), has]
  unfold ofNode
  rw [others "name" (by decide), named]
  simp only [Option.bind_eq_bind, Option.bind_some, Node.asString, leveled', formatted', read]

end Read

/-! ### Sets -/

namespace DefineSet

/-- **A set is its elements.** -/
theorem ext_mem {s t : DefineSet} (same : ∀ d, d ∈ s.elems ↔ d ∈ t.elems) : s = t := by
  obtain ⟨elems, sorted⟩ := s
  obtain ⟨elems', sorted'⟩ := t
  have asymmetric : ∀ a b : LogDefine, a.name < b.name → b.name < a.name → a = b :=
    fun a b less more => absurd (String.lt_trans less more) (String.lt_irrefl _)
  have distinct : ∀ l : List LogDefine, (l.Pairwise fun a b => a.name < b.name) → l.Nodup :=
    fun l sorted => List.Pairwise.imp (fun {a b} less same => by
      subst same
      exact String.lt_irrefl _ less) sorted
  have perm : elems.Perm elems' :=
    (List.perm_ext_iff_of_nodup (distinct _ sorted) (distinct _ sorted')).mpr same
  have equal : elems = elems' :=
    List.Perm.eq_of_pairwise (fun a b _ _ => asymmetric a b) sorted sorted' perm
  subst equal
  rfl

/-- Inserting an element whose name is new. -/
theorem mem_insert {s : DefineSet} {d e : LogDefine} (apart : ∀ c ∈ s.elems, d.name ≠ c.name) :
    e ∈ (s.insert d).elems ↔ e = d ∨ e ∈ s.elems := by
  refine OrderedSet.mem_insert_of_comparable fun c member => ?_
  by_cases less : d.name < c.name
  · exact Or.inl (decide_eq_true less)
  · refine Or.inr (decide_eq_true ?_)
    by_contra notMore
    exact apart c member (String.le_antisymm (String.not_lt.mp notMore) (String.not_lt.mp less))

/-- **Inserting elements with different names**, in any order. -/
theorem mem_foldl_insert {ds : List LogDefine} {s : DefineSet} {e : LogDefine}
    (apart : ds.Pairwise fun a b => a.name ≠ b.name)
    (new : ∀ d ∈ ds, ∀ c ∈ s.elems, d.name ≠ c.name) :
    e ∈ (ds.foldl insert s).elems ↔ e ∈ ds ∨ e ∈ s.elems := by
  induction ds generalizing s with
  | nil => simp
  | cons d rest ih =>
    obtain ⟨differ, apart⟩ := List.pairwise_cons.mp apart
    have first := fun e => mem_insert (e := e) (new d List.mem_cons_self)
    have later : ∀ e ∈ rest, ∀ c ∈ (s.insert d).elems, e.name ≠ c.name := by
      intro e member c inside
      rcases (first c).mp inside with rfl | old
      · exact (differ e member).symm
      · exact new e (List.mem_cons_of_mem d member) c old
    rw [List.foldl_cons, ih apart later, first, List.mem_cons]
    tauto

end DefineSet

/-! ### What comes back -/

/-- What comes back of an appender: no level, and of the standard output nothing but its type. -/
def LogAppenderDefine.reloaded (a : LogAppenderDefine) : LogAppenderDefine :=
  if a.type = 1 then { type := 1, formatter := a.formatter, file := a.file } else { type := 2 }

/-- What comes back of a definition. -/
def LogDefine.reloaded (i : LogDefine) : LogDefine :=
  { i with appenders := i.appenders.map LogAppenderDefine.reloaded }

theorem LogAppenderDefine.ofNode_toNode {a : LogAppenderDefine} (typed : a.Typed) :
    ofNode a.toNode = some (some a.reloaded) := by
  unfold ofNode toNode reloaded
  rcases typed with file | stdout
  · simp only [file, if_true]
    by_cases plain : a.formatter = ""
    · simp [plain, Node.asString]
    · simp [plain, Node.asString]
  · simp only [stdout]
    by_cases plain : a.formatter = ""
    · simp [plain, Node.asString]
    · simp [plain, Node.asString]

namespace LogDefine

theorem ofNode_toNode {i : LogDefine} (typed : i.Typed) (named : i.level ≠ .level100) :
    ofNode i.toNode = some (some i.reloaded) := by
  have reads : ∀ a ∈ i.appenders, LogAppenderDefine.ofNode a.toNode = some (some a.reloaded) :=
    fun a member => LogAppenderDefine.ofNode_toNode (typed a member)
  have back : i.reloaded = ⟨i.name, .fromString i.level.toString, i.formatter,
      i.appenders.map LogAppenderDefine.reloaded⟩ := by
    rw [Level.fromString_toString named]
    rfl
  unfold toNode
  rw [back]
  by_cases plain : i.formatter = ""
  · simp only [plain, ne_eq, not_true_eq_false, if_false]
    exact ofNode_pushed (fun _ => rfl) (by simp) (by simp) (by simp [stringAt]) (by simp) reads
  · simp only [plain, ne_eq, not_false_eq_true, if_true]
    exact ofNode_pushed (fun _ => rfl) (by simp) (by simp) (by simp [stringAt, Node.asString])
      (by simp) reads

end LogDefine

/-- The levels are values of the enumeration. -/
def LogDefine.Leveled (d : LogDefine) : Prop :=
  d.level ≠ .level100 ∧ ∀ a ∈ d.appenders, a.level ≠ .level100

instance (d : LogDefine) : Decidable d.Leveled := inferInstanceAs (Decidable (_ ∧ _))

def DefineSet.Leveled (s : DefineSet) : Prop := ∀ d ∈ s.elems, d.Leveled

instance (s : DefineSet) : Decidable s.Leveled :=
  inferInstanceAs (Decidable (∀ d ∈ s.elems, d.Leveled))

namespace DefineSet

/-- **What comes back of a value.** -/
def reloaded (s : DefineSet) : DefineSet where
  elems := s.elems.map LogDefine.reloaded
  sorted := List.pairwise_map.mpr s.sorted

/-- A value whose definitions can all be read, in any order. -/
theorem ofNode_items {γ : Type} {node : γ → Node} {value : γ → LogDefine} {sources : List γ}
    (reads : ∀ c ∈ sources, LogDefine.ofNode (node c) = some (some (value c))) :
    ofNode ((sources.map node).foldl Node.push .null) =
      some ((sources.map value).foldl insert .empty) := by
  unfold ofNode
  have items : ((sources.map node).foldl Node.push .null).items = some (sources.map node) := by
    rw [Node.foldl_push_null]
    split
    next none => rw [none]; rfl
    next => rfl
  rw [items]
  exact Node.readAll_map insert reads .empty

theorem ofNode_toNode {s : DefineSet} (typed : s.Typed) (leveled : s.Leveled) :
    ofNode s.toNode = some s.reloaded := by
  have reads : ∀ d ∈ s.elems, LogDefine.ofNode d.toNode = some (some d.reloaded) := fun d member =>
    LogDefine.ofNode_toNode (typed d member) (leveled d member).1
  refine (ofNode_items reads).trans (congrArg some (ext_mem fun d => ?_))
  have apart : (s.elems.map LogDefine.reloaded).Pairwise fun a b => a.name ≠ b.name :=
    s.reloaded.names_differ
  rw [mem_foldl_insert apart fun _ _ _ inside => absurd inside List.not_mem_nil]
  exact or_iff_left List.not_mem_nil

end DefineSet

/-- Nothing of the appender is lost. -/
def LogAppenderDefine.Plain (a : LogAppenderDefine) : Prop :=
  a.level = .unknown ∧ (a.type = 2 → a.formatter = "" ∧ a.file = "")

instance (a : LogAppenderDefine) : Decidable a.Plain := inferInstanceAs (Decidable (_ ∧ _))

theorem LogAppenderDefine.reloaded_eq_iff {a : LogAppenderDefine} (typed : a.Typed) :
    a.reloaded = a ↔ a.Plain := by
  obtain ⟨type, level, formatter, file⟩ := a
  unfold reloaded Plain
  rcases typed with file | stdout
  · subst file
    simp [eq_comm]
  · subst stdout
    simp [eq_comm]

theorem map_eq_self_iff {α : Type} {f : α → α} {l : List α} :
    l.map f = l ↔ ∀ a ∈ l, f a = a := by
  have pointwise : l.map f = l.map id ↔ ∀ a ∈ l, f a = id a := List.map_inj_left
  rwa [List.map_id] at pointwise

theorem LogDefine.reloaded_eq_iff {d : LogDefine} (typed : d.Typed) :
    d.reloaded = d ↔ ∀ a ∈ d.appenders, a.Plain := by
  have appenders : d.reloaded = d ↔ d.appenders.map LogAppenderDefine.reloaded = d.appenders := by
    obtain ⟨name, level, formatter, appenders⟩ := d
    simp [reloaded]
  rw [appenders, map_eq_self_iff]
  exact forall₂_congr fun a inside => LogAppenderDefine.reloaded_eq_iff (typed a inside)

/-- **A value comes back as it was exactly when its appenders have nothing to lose.** -/
theorem roundTrip_iff (yaml : Text) (s : DefineSet) (typed : s.Typed) (leveled : s.Leveled)
    (reloads : yaml.Reloads s.toNode) :
    DefineSet.fromString yaml (s.toString yaml) = some s ↔
      ∀ d ∈ s.elems, ∀ a ∈ d.appenders, a.Plain := by
  have back : DefineSet.fromString yaml (s.toString yaml) = some s.reloaded := by
    unfold DefineSet.fromString DefineSet.toString
    rw [show yaml.load (yaml.emit s.toNode) = some s.toNode from reloads]
    exact DefineSet.ofNode_toNode typed leveled
  have elems : s.reloaded = s ↔ s.elems.map LogDefine.reloaded = s.elems := by
    obtain ⟨elems, sorted⟩ := s
    simp [DefineSet.reloaded]
  rw [back, Option.some_inj, elems, map_eq_self_iff]
  exact forall₂_congr fun d member => LogDefine.reloaded_eq_iff (typed d member)

/-- `root`, with appenders of no level of their own. -/
def rootDefine : LogDefine where
  name := "root"
  level := .info
  formatter := "%d%T%m%n"
  appenders := [{ type := 1, file := "log.txt" }, { type := 2 }]

/-- How it is written. -/
def rootText : Text where
  emit _ := "- name: root\n  level: INFO\n  formatter: \"%d%T%m%n\"\n  appenders:\n" ++
    "    - type: FileLogAppender\n      file: log.txt\n      level: UNKNOWN\n" ++
    "    - type: StdoutLogAppender\n      level: UNKNOWN"
  load _ := some (DefineSet.single rootDefine).toNode

theorem roundTrip_iff_root :
    DefineSet.fromString rootText ((DefineSet.single rootDefine).toString rootText) =
      some (.single rootDefine) :=
  (roundTrip_iff rootText (.single rootDefine) (by decide) (by decide) rfl).mpr (by decide)

/-- `system`, with an appender for errors. -/
def systemDefine : LogDefine where
  name := "system"
  level := .debug
  appenders := [{ type := 2, level := .error }]

/-- How it is written. -/
def systemText : Text where
  emit _ := "- name: system\n  level: DEBUG\n  appenders:\n" ++
    "    - type: StdoutLogAppender\n      level: ERROR"
  load _ := some (DefineSet.single systemDefine).toNode

/-- **The level of an appender does not come back.** -/
theorem appender_level_lost :
    (DefineSet.single systemDefine).Typed ∧ (DefineSet.single systemDefine).Leveled ∧
      systemText.Reloads (DefineSet.single systemDefine).toNode ∧
      DefineSet.fromString systemText ((DefineSet.single systemDefine).toString systemText) ≠
        some (.single systemDefine) := by
  refine ⟨by decide, by decide, rfl, ?_⟩
  decide

end Sylar.Log
