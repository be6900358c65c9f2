/-
**A file's appender.**

`FileLogAppender::log` opens its file anew for every event and writes the event to it. A file that is
opened for output is emptied, so that only the last event stays.

* `FormatItem.format`, `LogFormatter.format` — what is written for an event. The formatter writes to
  a stream item by item: `formatTo_eq`.
* `contents_logAll` — **the file holds the last event that passed**, or what it held before.
* `nothing_lost_iff` — that is everything exactly when the events before it had nothing to write.
-/

import Sylar.Library.FileStream
import Sylar.Log.Encoding

namespace Sylar.Log

open Sylar.Library

/-- The number of a level. -/
def Level.value : Level → Nat
  | .unknown => 0
  | .debug => 1
  | .info => 2
  | .warn => 3
  | .error => 4
  | .fatal => 5
  | .level100 => 100

/-- A `LogEvent`, with the name of its logger. -/
structure LogEvent where
  file : String
  line : Int
  elapse : Nat
  threadId : Nat
  threadName : String
  fiberId : Nat
  time : Nat
  content : String
  loggerName : String
deriving DecidableEq

section Format

-- `strftime` of the local time
variable (strftime : List Char → Nat → List Char)

/-- `FormatItem::format`. -/
def FormatItem.format (level : Level) (event : LogEvent) : FormatItem → List Char
  | .message => event.content.toList
  | .normalString str => str
  | .level => level.toString.toList
  | .filename => event.file.toList
  | .name => event.loggerName.toList
  | .newLine => ['\n']
  | .line => (toString event.line).toList
  | .elapse => (toString event.elapse).toList
  | .threadId => (toString event.threadId).toList
  | .threadName => event.threadName.toList
  | .fiberId => (toString event.fiberId).toList
  | .tab => ['\t']
  | .dateTime format => strftime format event.time

namespace LogFormatter

/-- `LogFormatter::format(logger, level, event)`. -/
def format (f : LogFormatter) (level : Level) (event : LogEvent) : List Char :=
  (f.items.map (FormatItem.format strftime level event)).flatten

/-- `LogFormatter::format(ofs, logger, level, event)`. -/
def formatTo (f : LogFormatter) (ofs : FileStream) (level : Level) (event : LogEvent) :
    FileStream :=
  (f.items.map (FormatItem.format strftime level event)).foldl FileStream.write ofs

/-- **Both write the same.** -/
theorem formatTo_appending (f : LogFormatter) {ofs : FileStream} {content : List Char}
    (appending : ofs.Appending content) (level : Level) (event : LogEvent) :
    (f.formatTo strftime ofs level event).Appending (content ++ f.format strftime level event) :=
  appending.foldl_write _

end LogFormatter

/-! ### The appender -/

/-- A `FileLogAppender`; its stream is on the file of that name. -/
structure FileLogAppender where
  filename : String
  level : Level := .debug
  formatter : LogFormatter
  filestream : FileStream

namespace FileLogAppender

/-- `FileLogAppender::reopen`. -/
def reopen (a : FileLogAppender) : FileLogAppender :=
  let closed := if a.filestream.failed = false then a.filestream.close else a.filestream
  { a with filestream := closed.openOut }

/-- The event's level passes the appender's and the global one. -/
def Passes (a : FileLogAppender) (global level : Level) : Prop :=
  a.level.value ≤ level.value ∧ global.value ≤ level.value

instance (a : FileLogAppender) (global level : Level) : Decidable (a.Passes global level) :=
  inferInstanceAs (Decidable (_ ∧ _))

/-- `FileLogAppender::log`. -/
def log (global : Level) (a : FileLogAppender) (call : Level × LogEvent) : FileLogAppender :=
  if a.Passes global call.1 then
    let a := a.reopen
    { a with filestream := a.formatter.formatTo strftime a.filestream call.1 call.2 }
  else a

/-- Calls one after the other. -/
def logAll (global : Level) (a : FileLogAppender) (calls : List (Level × LogEvent)) :
    FileLogAppender := calls.foldl (log strftime global) a

/-- The calls whose event passes. -/
def passing (global : Level) (a : FileLogAppender) (calls : List (Level × LogEvent)) :
    List (Level × LogEvent) := calls.filter fun call => a.Passes global call.1

/-- What the formatter writes for a call. -/
def output (a : FileLogAppender) (call : Level × LogEvent) : List Char :=
  a.formatter.format strftime call.1 call.2

/-- One call: the file of an event that passes is emptied first. -/
theorem log_cases {a : FileLogAppender} (usable : a.filestream.Usable) (global : Level)
    (call : Level × LogEvent) :
    (¬ a.Passes global call.1 ∧ log strftime global a call = a) ∨
      (a.Passes global call.1 ∧ ∃ after : FileStream, after.Appending (a.output strftime call) ∧
        log strftime global a call = { a with filestream := after }) := by
  unfold log
  split
  next passes =>
    refine Or.inr ⟨passes, _, ?_, rfl⟩
    have emptied := FileStream.reopened_of_usable usable
    exact a.formatter.formatTo_appending strftime emptied call.1 call.2
  next stops => exact Or.inl ⟨stops, rfl⟩

/-- **The file holds the last event that passed**, or what it held before. -/
theorem contents_logAll {a : FileLogAppender} (usable : a.filestream.Usable) (global : Level)
    (calls : List (Level × LogEvent)) :
    (logAll strftime global a calls).filestream.contents =
      ((passing global a calls).getLast?.map (a.output strftime)).getD a.filestream.contents := by
  induction calls generalizing a with
  | nil => rfl
  | cons call rest ih =>
    unfold logAll
    rw [List.foldl_cons]
    rcases log_cases strftime usable global call with ⟨stops, same⟩ | ⟨passes, after, holds, same⟩
    · rw [same]
      have skipped : passing global a (call :: rest) = passing global a rest :=
        List.filter_cons_of_neg (by simpa using stops)
      rw [skipped]
      exact ih usable
    · rw [same]
      have kept : passing global a (call :: rest) = call :: passing global a rest :=
        List.filter_cons_of_pos (by simpa using passes)
      have later := ih (a := { a with filestream := after }) holds.usable
      rw [kept]
      refine later.trans ?_
      have here : after.contents = a.output strftime call := by
        rw [FileStream.contents, holds.file, Option.getD_some]
      show ((passing global a rest).getLast?.map (a.output strftime)).getD after.contents = _
      cases passing global a rest with
      | nil => simpa using here
      | cons next others => simp [List.getLast?_eq_some_getLast]

/-- `FileLogAppender(filename)`, where the file holds `file`, with its level and formatter set. -/
def new (filename : String) (level : Level) (formatter : LogFormatter)
    (file : Option (List Char)) : FileLogAppender := ⟨filename, level, formatter, { file }⟩

end FileLogAppender

open FileLogAppender in
/-- **No line is lost exactly when the events before the last one had nothing to write.** Without an
event the file stays as it was. -/
theorem nothing_lost_iff (global : Level) (filename : String) (level : Level)
    (formatter : LogFormatter) (file : Option (List Char)) (calls : List (Level × LogEvent)) :
    let a := FileLogAppender.new filename level formatter file
    let passed := a.passing global calls
    (a.logAll strftime global calls).filestream.contents =
        (passed.map (a.output strftime)).flatten ↔
      (∀ call ∈ passed.dropLast, a.output strftime call = []) ∧
        (passed = [] → file.getD [] = []) := by
  intro a passed
  have usable : a.filestream.Usable := fun failed => absurd failed Bool.false_ne_true
  rw [contents_logAll strftime usable]
  show (passed.getLast?.map (a.output strftime)).getD (file.getD []) = _ ↔ _
  rcases List.eq_nil_or_concat passed with none | ⟨before, last, some⟩
  · rw [none]
    simp
  · have lines : ((before ++ [last]).map (a.output strftime)).flatten =
        (before.map (a.output strftime)).flatten ++ a.output strftime last := by simp
    rw [some, List.concat_eq_append, List.getLast?_concat, List.dropLast_concat, lines,
      Option.map_some, Option.getD_some, List.self_eq_append_left, List.flatten_eq_nil_iff,
      List.forall_mem_map]
    exact (and_iff_left fun none => absurd none (by simp)).symm

end Format

/-- An event with a message. -/
def message (content : String) : Level × LogEvent :=
  (.fatal, {
    file := "test.cc", line := 24, elapse := 0, threadId := 1, threadName := "main", fiberId := 0
    time := 0, content, loggerName := "root" })

/-- **Of two lines the second is left.** -/
theorem first_line_lost :
    let a := FileLogAppender.new "sth.txt" .error (.ofPattern "%p%T%m%n") none
    let calls := [message "first", message "second"]
    let logged := a.logAll (fun _ _ => []) .debug calls
    (∀ call ∈ calls, a.Passes .debug call.1) ∧
      logged.filestream.contents = "FATAL\tsecond\n".toList ∧
      logged.filestream.contents ≠ (calls.map (a.output fun _ _ => [])).flatten := by
  decide +kernel

end Sylar.Log
