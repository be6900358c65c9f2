/-
**Log patterns: `LogFormatter` and its parser.**

A pattern is text with directives `%x` and `%x{...}`. `LogFormatter::init` cuts it into triples,
here `Entry`, and makes a `FormatItem` of each. It sets `m_isError` at a brace that is not closed
and at a name that is not in the table; `Logger::setFormatter` ignores such a pattern.

* `LogFormatter.init` — the parser. The index into the pattern is the rest of it here, and what the
  inner loop has passed is a number of characters to skip.
* `LogFormatter` — a formatter carries that its items are those of its pattern.
* `LogFormatter.ext_pattern` — so **a formatter is its pattern**.
-/

import Mathlib.Data.List.Basic

namespace Sylar.Log

/-! ### The parser -/

/-- A triple of `init`: text (the third component `0`), or a directive and its format (`1`). -/
inductive Entry
  | text (str : List Char)
  | directive (str fmt : List Char)
deriving DecidableEq

/-- `vec`, `nstr` and `m_isError`. -/
structure Parse where
  vec : List Entry := []
  nstr : List Char := []
  isError : Bool := false
deriving DecidableEq

namespace Parse

variable (p : Parse)

/-- `nstr.append(1, c)`. -/
def append (c : Char) : Parse := { p with nstr := p.nstr ++ [c] }

/-- `if (!nstr.empty())`, the text before a directive or before the end. -/
def flush : Parse :=
  if p.nstr ≠ [] then { p with vec := p.vec ++ [.text p.nstr], nstr := [] } else p

/-- `vec.emplace_back(str, fmt, 1)`, after the text before it. -/
def directive (str fmt : List Char) : Parse :=
  let p := p.flush
  { p with vec := p.vec ++ [.directive str fmt] }

/-- The brace is not closed; `nstr` stays as it is. -/
def patternError : Parse :=
  { p with vec := p.vec ++ [.text "<<pattern_error>>".toList], isError := true }

end Parse

/-- What the inner loop ends with, by `fmt_status`. -/
inductive Scan
  /-- `0`: there is no format -/
  | plain (str : List Char)
  /-- `1`: the format is not closed -/
  | unclosed
  /-- `2` -/
  | closed (str fmt : List Char)
deriving DecidableEq

/-- The inner loop with `fmt_status == 1`: everything after the `{` belongs to the format. -/
def scanFmt (str fmt : List Char) : List Char → Scan
  | [] => .unclosed
  | c :: rest =>
      if !c.isAlpha && c ≠ '{' && c ≠ '}' then .unclosed
      else if c = '}' then .closed str fmt
      else scanFmt str (fmt ++ [c]) rest

/-- The inner loop with `fmt_status == 0`, from the character after the `%`. -/
def scanStr (str : List Char) : List Char → Scan
  | [] => .plain str
  | c :: rest =>
      if !c.isAlpha && c ≠ '{' && c ≠ '}' then .plain str
      else if c = '{' then scanFmt str [] rest
      else scanStr (str ++ [c]) rest

/-- The loop over the pattern. The first `skip` characters are behind `i` already. -/
def parse : Nat → Parse → List Char → Parse
  | _, p, [] => p
  | skip + 1, p, _ :: rest => parse skip p rest
  | 0, p, c :: rest =>
      if c ≠ '%' then parse 0 (p.append c) rest
      else if rest.head? = some '%' then parse 0 (p.append '%') rest
      else
        match scanStr [] rest with
        | .plain str => parse str.length (p.directive str []) rest
        | .unclosed => parse 0 p.patternError rest
        | .closed str fmt => parse (str.length + 1 + fmt.length + 1) (p.directive str fmt) rest

/-- The triples of a pattern. -/
def entries (pattern : String) : Parse := (parse 0 {} pattern.toList).flush

/-! ### The items -/

/-- The classes derived from `LogFormatter::FormatItem`, with what their objects keep. -/
inductive FormatItem
  | message
  | normalString (str : List Char)
  | level
  | filename
  | name
  | newLine
  | line
  | elapse
  | threadId
  | threadName
  | fiberId
  | tab
  | dateTime (format : List Char)
deriving DecidableEq

/-- `DateTimeFormatItem(format)`. -/
def FormatItem.ofFormat (format : List Char) : FormatItem :=
  .dateTime (if format = [] then "%Y-%m-%d %H:%M:%S".toList else format)

/-- `s_format_items`. -/
def formatItems (str fmt : List Char) : Option FormatItem :=
  match str with
  | ['m'] => some .message
  | ['p'] => some .level
  | ['r'] => some .elapse
  | ['c'] => some .name
  | ['t'] => some .threadId
  | ['n'] => some .newLine
  | ['F'] => some .fiberId
  | ['T'] => some .tab
  | ['d'] => some (.ofFormat fmt)
  | ['f'] => some .filename
  | ['l'] => some .line
  | ['N'] => some .threadName
  | _ => none

/-- The item of a triple. For a name that is not in the table it is a `MessageFormatItem`, which
drops the text it is given. -/
def Entry.item : Entry → FormatItem
  | .text str => .normalString str
  | .directive str fmt => (formatItems str fmt).getD .message

/-- Whether a triple sets `m_isError`. -/
def Entry.isUnknown : Entry → Bool
  | .text _ => false
  | .directive str fmt => (formatItems str fmt).isNone

/-- `LogFormatter::init`: `m_items` and `m_isError`. -/
def init (pattern : String) : List FormatItem × Bool :=
  let p := entries pattern
  (p.vec.map Entry.item, p.isError || p.vec.any Entry.isUnknown)

/-! ### The formatter -/

/-- A formatter, as its constructor leaves it. -/
structure LogFormatter where
  pattern : String
  items : List FormatItem
  isError : Bool
  built : (items, isError) = init pattern
deriving DecidableEq

/-- `LogFormatter(pattern)`. -/
def LogFormatter.ofPattern (pattern : String) : LogFormatter :=
  ⟨pattern, (init pattern).1, (init pattern).2, rfl⟩

/-- **A formatter is its pattern.** -/
theorem LogFormatter.ext_pattern {f g : LogFormatter} (same : f.pattern = g.pattern) : f = g := by
  obtain ⟨pattern, items, isError, built⟩ := f
  obtain ⟨pattern', items', isError', built'⟩ := g
  obtain rfl : pattern = pattern' := same
  obtain ⟨rfl, rfl⟩ := Prod.mk.inj (built.trans built'.symm)
  rfl

@[simp] theorem LogFormatter.pattern_ofPattern (pattern : String) :
    (LogFormatter.ofPattern pattern).pattern = pattern := rfl

/-- The pattern of a logger that none was set for. -/
def defaultPattern : String := "%d%T%t%T%N%T%F%T[%p]%T[%c]%T<%f:%l>%T%m%n"

/-- A pattern that `Logger::setFormatter` takes over when it is configured. -/
def Usable (pattern : String) : Prop :=
  pattern ≠ "" ∧ (LogFormatter.ofPattern pattern).isError = false

instance (pattern : String) : Decidable (Usable pattern) :=
  inferInstanceAs (Decidable (_ ∧ _))

/-- The pattern every logger starts with is one of them. -/
theorem usable_defaultPattern : Usable defaultPattern := by decide +kernel

end Sylar.Log
