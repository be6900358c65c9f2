/-
**Loggers, their manager, and the listener of `g_log_defines`.**

`LoggerManager` keeps the loggers by name. `getLogger` makes one for a name that has none;
`addLogger` puts a logger under a name, whatever was there. The value of `g_log_defines` is a set of
`LogDefine`s, by name; `LogIniter` installs a listener that brings the manager from the old value to
the new one, and `setValue` runs it.

A `shared_ptr` to a logger is the number of the object here, so that two pointers can be compared,
and a null pointer is `none`. Where the listener dereferences a null pointer its result is `none`.

* `DefineSet` — the value of `g_log_defines`; its order is by name, so `DefineSet.eq_of_name`: a name
  has one definition.
* `LoggerManager` — the loggers by name, with the objects behind the pointers.
* `define`, `remove`, `listener` — a round of each of the listener's loops, and the listener.
* `Logging`, `Logging.setValue` — the manager together with the value, and an update of it.
-/

import Mathlib.Data.List.AList
import Sylar.Library.Sweep
import Sylar.Log.Formatter

namespace Sylar.Log

open Sylar.Library

/-! ### Loggers -/

/-- `LogLevel::Level`. -/
inductive Level
  | unknown
  | debug
  | info
  | warn
  | error
  | fatal
  /-- `(LogLevel::Level) 100`, of a logger whose definition was removed -/
  | level100
deriving DecidableEq

/-- The class of an appender, with what its constructor keeps. -/
inductive AppenderKind
  | fileLogAppender (filename : String)
  | stdoutLogAppender
deriving DecidableEq

/-- An appender. -/
structure LogAppender where
  kind : AppenderKind
  level : Level := .debug
  formatter : Option LogFormatter := none
deriving DecidableEq

/-- A pointer to a logger that is not null. -/
abbrev LoggerId := Nat

/-- A logger. -/
structure Logger where
  name : String
  level : Level := .debug
  appenders : List LogAppender := []
  formatter : LogFormatter := .ofPattern defaultPattern
  root : Option LoggerId := none
deriving DecidableEq

namespace Logger

variable (l : Logger)

def setLevel (val : Level) : Logger := { l with level := val }

/-- An appender without a formatter gets the logger's. -/
def addAppender (appender : LogAppender) : Logger :=
  let appender :=
    match appender.formatter with
    | none => { appender with formatter := some l.formatter }
    | some _ => appender
  { l with appenders := l.appenders ++ [appender] }

def clearAppenders : Logger := { l with appenders := [] }

/-- `setFormatter(const std::string&)`: an invalid pattern is reported and ignored. -/
def setFormatter (val : String) : Logger :=
  let newVal := LogFormatter.ofPattern val
  if newVal.isError then l else { l with formatter := newVal }

end Logger

/-- What is compared of a logger: its level, its formatter's pattern, its appenders. -/
structure LoggerConfig where
  level : Level
  pattern : String
  appenders : List (AppenderKind × Level × Option String)
deriving DecidableEq

/-- An appender's part of it. -/
def LogAppender.config (ap : LogAppender) : AppenderKind × Level × Option String :=
  (ap.kind, ap.level, ap.formatter.map LogFormatter.pattern)

def Logger.config (l : Logger) : LoggerConfig :=
  ⟨l.level, l.formatter.pattern, l.appenders.map LogAppender.config⟩

/-! ### Definitions -/

/-- `type` is `1` for a file, `2` for the standard output. -/
structure LogAppenderDefine where
  type : Int := 0
  level : Level := .unknown
  formatter : String := ""
  file : String := ""
deriving DecidableEq

/-- The definition of a logger. -/
structure LogDefine where
  name : String
  level : Level := .unknown
  formatter : String := ""
  appenders : List LogAppenderDefine := []
deriving DecidableEq

/-- `std::set<LogDefine>`: `operator<` looks at the names. -/
structure DefineSet where
  elems : List LogDefine
  sorted : elems.Pairwise fun a b => a.name < b.name
deriving DecidableEq

namespace DefineSet

def empty : DefineSet := ⟨[], .nil⟩

def single (d : LogDefine) : DefineSet := ⟨[d], List.pairwise_singleton _ _⟩

/-- `find`: the element with the same name. -/
def find (s : DefineSet) (name : String) : Option LogDefine := s.elems.find? (·.name = name)

variable {s : DefineSet} {name : String} {d e : LogDefine}

theorem names_differ : s.elems.Pairwise fun a b => a.name ≠ b.name :=
  s.sorted.imp fun {a b} less same => by
    rw [same] at less
    exact String.lt_irrefl _ less

/-- **A set has one element a name.** -/
theorem eq_of_name (memD : d ∈ s.elems) (memE : e ∈ s.elems) (same : d.name = e.name) : d = e := by
  by_contra differ
  have symmetric : Std.Symm fun a b : LogDefine => a.name ≠ b.name := ⟨fun _ _ => Ne.symm⟩
  exact s.names_differ.forall memD memE differ same

theorem find_eq_some_iff : s.find name = some d ↔ d ∈ s.elems ∧ d.name = name := by
  constructor
  · intro found
    exact ⟨List.mem_of_find?_eq_some found, by simpa using List.find?_some found⟩
  · rintro ⟨member, rfl⟩
    cases found : s.find d.name with
    | none => exact absurd (List.find?_eq_none.mp found d member) (by simp)
    | some e =>
      have named : e.name = d.name := by simpa using List.find?_some found
      rw [eq_of_name (List.mem_of_find?_eq_some found) member named]

theorem find_of_mem (member : d ∈ s.elems) : s.find d.name = some d :=
  find_eq_some_iff.mpr ⟨member, rfl⟩

end DefineSet

/-! ### The manager -/

/-- `m_loggers` and `m_root`. `logger` are the objects, of which `made` were made. -/
structure LoggerManager where
  loggers : AList fun _ : String => LoggerId
  root : LoggerId
  heap : LoggerId → Logger
  made : Nat

namespace LoggerManager

variable (m : LoggerManager)

/-- `LoggerManager()`: the logger `root`, which writes to the standard output. -/
def fresh : LoggerManager where
  loggers := AList.insert "root" 0 ∅
  root := 0
  heap := fun _ => Logger.addAppender { name := "root" } { kind := .stdoutLogAppender }
  made := 1

/-- Write to an object. -/
def write (id : LoggerId) (l : Logger) : LoggerManager :=
  { m with heap := Function.update m.heap id l }

/-- `new Logger`. -/
def newLogger (l : Logger) : LoggerManager × LoggerId :=
  ({ m.write m.made l with made := m.made + 1 }, m.made)

def addLogger (name : String) (logger : LoggerId) : LoggerManager :=
  { m with loggers := m.loggers.insert name logger }

def getLogger (loggerName : String) : LoggerManager × LoggerId :=
  match m.loggers.lookup loggerName with
  | some it => (m, it)
  | none =>
      let (m, logger) := m.newLogger { name := loggerName, root := some m.root }
      (m.addLogger loggerName logger, logger)

def getRoot : LoggerId := m.root

end LoggerManager

/-! ### The listener -/

/-- The appender that the listener makes: null for a type other than `1` and `2`. -/
def LogAppenderDefine.make (a : LogAppenderDefine) : Option LogAppender :=
  if a.type = 1 then some { kind := .fileLogAppender a.file }
  else if a.type = 2 then some { kind := .stdoutLogAppender }
  else none

/-- One round of the loop over `i.appenders`; `ap->setLevel` on a null pointer is `none`. -/
def Logger.addDefined (l : Logger) (a : LogAppenderDefine) : Option Logger :=
  a.make.map fun ap => l.addAppender { ap with level := a.level }

/-- What the listener does to the logger of a definition. -/
def Logger.configure (l : Logger) (i : LogDefine) : Option Logger :=
  let l := l.setLevel i.level
  let l := if i.formatter ≠ "" then l.setFormatter i.formatter else l
  i.appenders.foldlM Logger.addDefined l

/-- The logger of a definition of the new value: a new object if the name is not in the old value,
the manager's if its definition is another one there, and else `logger` stays null. -/
def pick (oldValue : DefineSet) (m : LoggerManager) (i : LogDefine) :
    LoggerManager × Option LoggerId :=
  match oldValue.find i.name with
  | none =>
      let (m, logger) := m.newLogger { name := i.name }
      (m, some logger)
  | some it =>
      if i ≠ it then
        let (m, logger) := m.getLogger i.name
        (m, some logger)
      else (m, none)

/-- One round of the loop over the new value; `logger->setLevel` on a null pointer is `none`. -/
def define (oldValue : DefineSet) (m : LoggerManager) (i : LogDefine) : Option LoggerManager :=
  let (m, logger) := pick oldValue m i
  logger.bind fun logger =>
    ((m.heap logger).configure i).map fun l => (m.write logger l).addLogger i.name logger

/-- One round of the loop over the old value. -/
def remove (newValue : DefineSet) (m : LoggerManager) (i : LogDefine) : LoggerManager :=
  match newValue.find i.name with
  | some _ => m
  | none =>
      let (m, logger) := m.getLogger i.name
      m.write logger ((m.heap logger).setLevel .level100).clearAppenders

/-- The listener of `LogIniter`. -/
def listener (oldValue newValue : DefineSet) (m : LoggerManager) : Option LoggerManager :=
  (newValue.elems.foldlM (define oldValue) m).map fun m =>
    oldValue.elems.foldl (remove newValue) m

/-- `g_log_defines` with its listener: `m_val`, and the manager the listener acts on. -/
structure Logging where
  manager : LoggerManager
  value : DefineSet

namespace Logging

def start : Logging := ⟨.fresh, .empty⟩

/-- `ConfigVar::setValue`. -/
def setValue (s : Logging) (newVal : DefineSet) : Option Logging :=
  if newVal = s.value then some s
  else (listener s.value newVal s.manager).map fun m => ⟨m, newVal⟩

end Logging

end Sylar.Log
