/-
**The dump of the loggers, read as a configuration.**

`LoggerManager::toYamlString` writes every logger with its appenders, and what it writes is laid out
as a value of `g_log_defines`. A file's appender is written under the type of the standard output,
and the level that is written for an appender is not read.

* `Logger.toNode`, `LoggerManager.toNode` — what is dumped; `toYamlString_eq` — a text is loaded and
  emitted again on every level, which changes nothing.
* `Logger.dumped` — the definition that is read for a logger; `fromString_dump`.
* `dump_parses_iff` — **the dump gives the loggers back exactly when all appenders write to the
  standard output and have no level.**
-/

import Sylar.Log.Encoding
import Sylar.Log.Identity

namespace Sylar.Log

open Sylar.Library Sylar.Library.Yaml

/-! ### What is dumped -/

/-- The node of `StdoutLogAppender::toYamlString` and of `FileLogAppender::toYamlString`. -/
def LogAppender.toNode (a : LogAppender) : Node :=
  let node := Node.null.set "type" (.scalar "StdoutLogAppender")
  let node :=
    match a.kind with
    | .stdoutLogAppender => node
    | .fileLogAppender filename => node.set "file" (.scalar filename)
  let node := node.set "level" (.scalar a.level.toString)
  match a.formatter with
  | some formatter => node.set "formatter" (.scalar formatter.pattern)
  | none => node

/-- `LogAppender::toYamlString`. -/
def LogAppender.toYamlString (yaml : Text) (a : LogAppender) : String := yaml.emit a.toNode

namespace Logger

/-- The node of `Logger::toYamlString`, before the appenders. -/
def head (l : Logger) : Node :=
  ((Node.null.set "name" (.scalar l.name)).set "level" (.scalar l.level.toString)).set "formatter"
    (.scalar l.formatter.pattern)

/-- `Logger::toYamlString`; `none`: `YAML::Load` throws. -/
def toYamlString (yaml : Text) (l : Logger) : Option String :=
  (l.appenders.foldlM (fun node a =>
    (yaml.load (a.toYamlString yaml)).map fun na => node.pushAt "appenders" na) l.head).map yaml.emit

/-- The node that is written. -/
def toNode (l : Logger) : Node :=
  (l.appenders.map LogAppender.toNode).foldl (fun node na => node.pushAt "appenders" na) l.head

end Logger

namespace LoggerManager

/-- The loop over `m_loggers` comes to the loggers in this order. -/
def Iterates (m : LoggerManager) (order : List LoggerId) : Prop :=
  order.Perm (m.loggers.entries.map Sigma.snd)

/-- `LoggerManager::toYamlString`. -/
def toYamlString (yaml : Text) (m : LoggerManager) (order : List LoggerId) : Option String :=
  (order.foldlM (fun node l =>
    (((m.heap l).toYamlString yaml).bind yaml.load).map node.push) .null).map yaml.emit

/-- The node that is written. -/
def toNode (m : LoggerManager) (order : List LoggerId) : Node :=
  (order.map fun l => (m.heap l).toNode).foldl Node.push .null

/-- Every node of the dump is loaded as it was emitted. -/
structure Reloads (yaml : Text) (m : LoggerManager) (order : List LoggerId) : Prop where
  appenders : ∀ l ∈ order, ∀ a ∈ (m.heap l).appenders, yaml.Reloads a.toNode
  loggers : ∀ l ∈ order, yaml.Reloads (m.heap l).toNode
  whole : yaml.Reloads (m.toNode order)

end LoggerManager

/-! ### What it means to be given back -/

/-- The kind of an appender, with its file, and its level. -/
def LogAppender.summary (a : LogAppender) : Option AppenderKind × Level := (some a.kind, a.level)

/-- The same of the appender that is made for a definition. -/
def LogAppenderDefine.summary (a : LogAppenderDefine) : Option AppenderKind × Level :=
  (a.make.map LogAppender.kind, a.level)

/-- The definition describes the logger; `(Level) 100` has no name to be written. -/
structure LogDefine.Describes (d : LogDefine) (l : Logger) : Prop where
  name : d.name = l.name
  level : l.level ≠ .level100 → d.level = l.level
  formatter : d.formatter = l.formatter.pattern
  appenders : d.appenders.map LogAppenderDefine.summary = l.appenders.map LogAppender.summary

/-- **The dump can be read, and describes every logger.** -/
def GivenBack (yaml : Text) (m : LoggerManager) (order : List LoggerId) : Prop :=
  ∃ text s, m.toYamlString yaml order = some text ∧ DefineSet.fromString yaml text = some s ∧
    ∀ name l, m.loggers.lookup name = some l → ∃ d ∈ s.elems, d.Describes (m.heap l)

/-! ### Writing -/

theorem Logger.toYamlString_eq {yaml : Text} {l : Logger}
    (reloads : ∀ a ∈ l.appenders, yaml.Reloads a.toNode) :
    l.toYamlString yaml = some (yaml.emit l.toNode) := by
  have runs : ∀ (node : Node), ∀ a ∈ l.appenders,
      (yaml.load (a.toYamlString yaml)).map (fun na => node.pushAt "appenders" na) =
        some (node.pushAt "appenders" a.toNode) := by
    intro node a member
    rw [show yaml.load (a.toYamlString yaml) = some a.toNode from reloads a member]
    rfl
  unfold toYamlString toNode
  rw [foldlM_eq_some runs l.head, List.foldl_map]
  rfl

namespace LoggerManager

variable {yaml : Text} {m : LoggerManager} {order : List LoggerId}

theorem toYamlString_eq (reloads : m.Reloads yaml order) :
    m.toYamlString yaml order = some (yaml.emit (m.toNode order)) := by
  have runs : ∀ (node : Node), ∀ l ∈ order,
      (((m.heap l).toYamlString yaml).bind yaml.load).map node.push =
        some (node.push (m.heap l).toNode) := by
    intro node l member
    rw [Logger.toYamlString_eq (reloads.appenders l member), Option.bind_some,
      show yaml.load (yaml.emit (m.heap l).toNode) = some (m.heap l).toNode from
        reloads.loggers l member]
    rfl
  unfold toYamlString toNode
  rw [foldlM_eq_some runs .null, List.foldl_map]
  rfl

end LoggerManager

/-! ### Reading -/

/-- What is read for an appender, of either kind. -/
theorem LogAppender.ofNode_toNode (a : LogAppender) :
    LogAppenderDefine.ofNode a.toNode = some (some { type := 2 }) := by
  obtain ⟨kind, level, formatter⟩ := a
  unfold LogAppenderDefine.ofNode toNode
  cases kind <;> cases formatter <;> simp [Node.asString]

/-- What is read for a logger. -/
def Logger.dumped (l : Logger) : LogDefine where
  name := l.name
  level := .fromString l.level.toString
  formatter := l.formatter.pattern
  appenders := l.appenders.map fun _ => { type := 2 }

theorem Logger.ofNode_toNode (l : Logger) : LogDefine.ofNode l.toNode = some (some l.dumped) := by
  unfold toNode dumped head
  exact LogDefine.ofNode_pushed (fun _ => rfl) (by simp) (by simp) (by simp [stringAt, Node.asString])
    (by simp) fun a _ => a.ofNode_toNode

/-- It describes the logger if the appenders write to the standard output and have no level. -/
theorem Logger.describes_dumped (l : Logger) : l.dumped.Describes l ↔
    ∀ a ∈ l.appenders, a.kind = .stdoutLogAppender ∧ a.level = .unknown := by
  have read : ∀ a : LogAppender, LogAppenderDefine.summary { type := 2 } = a.summary ↔
      a.kind = .stdoutLogAppender ∧ a.level = .unknown := by
    intro a
    have pair : LogAppenderDefine.summary { type := 2 } = (some .stdoutLogAppender, .unknown) := rfl
    rw [pair, LogAppender.summary, Prod.mk.injEq, Option.some_inj]
    exact and_congr eq_comm eq_comm
  have appenders : l.dumped.appenders.map LogAppenderDefine.summary =
      l.appenders.map LogAppender.summary ↔
        ∀ a ∈ l.appenders, a.kind = .stdoutLogAppender ∧ a.level = .unknown := by
    rw [dumped, List.map_map, List.map_inj_left]
    exact forall₂_congr fun a _ => read a
  exact ⟨fun described => appenders.mp described.appenders,
    fun plain => ⟨rfl, fun named => Level.fromString_toString named, rfl, appenders.mpr plain⟩⟩

namespace LoggerManager

variable {yaml : Text} {m : LoggerManager} {order : List LoggerId}

/-- The loggers of a dump have different names. -/
theorem names_differ (named : m.Named) (iterates : m.Iterates order) :
    (order.map fun l => (m.heap l).dumped).Pairwise fun a b => a.name ≠ b.name := by
  have keys : m.loggers.entries.map (fun e => (m.heap e.2).name) = m.loggers.keys := by
    refine List.map_congr_left fun e member => ?_
    exact named.name (AList.mem_lookup_iff.mpr member)
  have names : (order.map fun l => (m.heap l).name).Perm m.loggers.keys := by
    rw [← keys]
    have mapped := iterates.map fun l => (m.heap l).name
    rwa [List.map_map] at mapped
  have nodup : (order.map fun l => (m.heap l).name).Nodup :=
    names.nodup_iff.mpr m.loggers.keys_nodup
  exact List.pairwise_map.mpr (List.pairwise_map.mp nodup)

theorem Iterates.mem_of_lookup (iterates : m.Iterates order) {name : String} {l : LoggerId}
    (held : m.loggers.lookup name = some l) : l ∈ order :=
  iterates.mem_iff.mpr (List.mem_map.mpr ⟨⟨name, l⟩, AList.mem_lookup_iff.mp held, rfl⟩)

/-- **What is read from the dump.** -/
theorem fromString_dump (named : m.Named) (iterates : m.Iterates order)
    (reloads : m.Reloads yaml order) :
    ∃ s, DefineSet.fromString yaml (yaml.emit (m.toNode order)) = some s ∧
      ∀ d, d ∈ s.elems ↔ ∃ l ∈ order, (m.heap l).dumped = d := by
  refine ⟨(order.map fun l => (m.heap l).dumped).foldl DefineSet.insert .empty, ?_, fun d => ?_⟩
  · unfold DefineSet.fromString
    rw [show yaml.load (yaml.emit (m.toNode order)) = some (m.toNode order) from reloads.whole]
    exact DefineSet.ofNode_items fun l _ => (m.heap l).ofNode_toNode
  · rw [DefineSet.mem_foldl_insert (names_differ named iterates)
      fun _ _ _ inside => absurd inside List.not_mem_nil]
    exact (or_iff_left List.not_mem_nil).trans List.mem_map

end LoggerManager

/-- **A logger is kept under its own name, in every run.** -/
theorem named_of_reachable {s : Holders} (reached : holders.Reachable s) : s.manager.Named :=
  manager_invariant .fresh (fun name named => (LoggerManager.Picked.getLogger named name).named)
    (fun named ran => (wrote_listener _ _ named ran).1) reached

/-- What is given back for a logger is what was read for it. -/
theorem GivenBack.describes {yaml : Text} {m : LoggerManager} {order : List LoggerId}
    (back : GivenBack yaml m order) (named : m.Named) (iterates : m.Iterates order)
    (reloads : m.Reloads yaml order) {name : String} {l : LoggerId}
    (held : m.loggers.lookup name = some l) : (m.heap l).dumped.Describes (m.heap l) := by
  obtain ⟨read, parsed, elems⟩ := LoggerManager.fromString_dump named iterates reloads
  obtain ⟨text, set, written, parsed', describes⟩ := back
  obtain rfl := Option.some.inj ((LoggerManager.toYamlString_eq reloads).symm.trans written)
  obtain rfl := Option.some.inj (parsed.symm.trans parsed')
  obtain ⟨d, inside, described⟩ := describes name l held
  have own : (m.heap l).dumped ∈ read.elems := (elems _).mpr ⟨l, iterates.mem_of_lookup held, rfl⟩
  obtain rfl := DefineSet.eq_of_name inside own described.name
  exact described

/-- **The dump gives the loggers back exactly when all appenders write to the standard output and
have no level**, in every state reached, in whatever order the loggers are dumped. -/
theorem dump_parses_iff (yaml : Text) (s : Holders) (order : List LoggerId)
    (reached : holders.Reachable s) (iterates : s.manager.Iterates order)
    (reloads : s.manager.Reloads yaml order) :
    GivenBack yaml s.manager order ↔ ∀ name l, s.manager.loggers.lookup name = some l →
      ∀ a ∈ (s.manager.heap l).appenders, a.kind = .stdoutLogAppender ∧ a.level = .unknown := by
  have named := named_of_reachable reached
  constructor
  · intro back name l held
    exact (Logger.describes_dumped _).mp (back.describes named iterates reloads held)
  · intro plain
    obtain ⟨read, parsed, elems⟩ := LoggerManager.fromString_dump named iterates reloads
    refine ⟨_, read, LoggerManager.toYamlString_eq reloads, parsed, fun name l held => ?_⟩
    exact ⟨_, (elems _).mpr ⟨l, iterates.mem_of_lookup held, rfl⟩,
      (Logger.describes_dumped _).mpr (plain name l held)⟩

/-- `root` after a configuration with one appender of the kind, which has no level. -/
def rootWith (kind : AppenderKind) : Logger where
  name := "root"
  level := .info
  formatter := .ofPattern "%d%T%m%n"
  appenders := [⟨kind, .unknown, some (.ofPattern "%d%T%m%n")⟩]

/-- How it is written when it is the only logger: as an appender, as a logger, and as the dump. -/
def rootDump (kind : AppenderKind) : Text :=
  let file (indent : String) :=
    match kind with
    | .fileLogAppender filename => indent ++ "file: " ++ filename ++ "\n"
    | .stdoutLogAppender => ""
  let appender (indent : String) := "type: StdoutLogAppender\n" ++ file indent ++ indent ++
    "level: UNKNOWN\n" ++ indent ++ "formatter: \"%d%T%m%n\""
  let logger (indent : String) := "name: root\n" ++ indent ++ "level: INFO\n" ++ indent ++
    "formatter: \"%d%T%m%n\"\n" ++ indent ++ "appenders:\n" ++ indent ++ "  - " ++
    appender (indent ++ "    ")
  let l := rootWith kind
  { emit := fun n =>
      match n with
      | .sequence _ => "- " ++ logger "  "
      | n => if (n.entry "name").isSome then logger "" else appender ""
    load := fun v =>
      if v = "- " ++ logger "  " then some (.sequence [l.toNode])
      else if v = logger "" then some l.toNode
      else (l.appenders.map LogAppender.toNode).head? }

/-- An update that defines `root`. -/
def rootUpdate (a : LogAppenderDefine) : List Call :=
  [.setValue (.single
    { name := "root", level := .info, formatter := "%d%T%m%n", appenders := [a] })]

/-- The state after it, on the fresh manager. -/
def rooted (a : LogAppenderDefine) : Holders :=
  (holders.replay .start (rootUpdate a)).getD .start

/-- There is one logger, which is dumped as written above. -/
theorem reloads_rooted (a : LogAppenderDefine) (kind : AppenderKind)
    (is : (rooted a).manager.heap 1 = rootWith kind)
    (appender : ∀ b ∈ (rootWith kind).appenders, (rootDump kind).Reloads b.toNode)
    (logger : (rootDump kind).Reloads (rootWith kind).toNode)
    (whole : (rootDump kind).Reloads (.sequence [(rootWith kind).toNode])) :
    (rooted a).manager.Reloads (rootDump kind) [1] where
  appenders := List.forall_mem_singleton.mpr (is ▸ appender)
  loggers := List.forall_mem_singleton.mpr (is ▸ logger)
  whole := by
    show (rootDump kind).Reloads (.sequence [((rooted a).manager.heap 1).toNode])
    rwa [is]

theorem dump_parses_iff_root : holders.Reachable (rooted { type := 2 }) ∧
    GivenBack (rootDump .stdoutLogAppender) (rooted { type := 2 }).manager [1] := by
  have reached : holders.Reachable (rooted { type := 2 }) :=
    Machine.ReachableWhen.replay (.start rfl)
      (show holders.replay .start (rootUpdate { type := 2 }) = _ from rfl)
  refine ⟨reached, (dump_parses_iff _ _ [1] reached (List.Perm.refl [1]) (reloads_rooted _ _ rfl
    (List.forall_mem_singleton.mpr rfl) rfl rfl)).mpr fun name l held => ?_⟩
  have iterates : (rooted { type := 2 }).manager.Iterates [1] := List.Perm.refl [1]
  obtain rfl := List.mem_singleton.mp (iterates.mem_of_lookup held)
  decide

/-- **A file's appender is given back as one of the standard output.** -/
theorem file_given_back_as_stdout :
    ∃ s, holders.Reachable s ∧ s.manager.Iterates [1] ∧
      s.manager.Reloads (rootDump (.fileLogAppender "log.txt")) [1] ∧
      ¬ GivenBack (rootDump (.fileLogAppender "log.txt")) s.manager [1] := by
  have reached : holders.Reachable (rooted { type := 1, file := "log.txt" }) :=
    Machine.ReachableWhen.replay (.start rfl)
      (show holders.replay .start (rootUpdate { type := 1, file := "log.txt" }) = _ from rfl)
  have reloads : (rooted { type := 1, file := "log.txt" }).manager.Reloads
      (rootDump (.fileLogAppender "log.txt")) [1] :=
    reloads_rooted _ _ rfl (List.forall_mem_singleton.mpr rfl) rfl rfl
  refine ⟨_, reached, List.Perm.refl [1], reloads, fun back => ?_⟩
  have described := back.describes (named_of_reachable reached) (List.Perm.refl [1]) reloads
    (show (rooted _).manager.loggers.lookup "root" = some 1 from rfl)
  exact absurd described.appenders (by decide)

end Sylar.Log
