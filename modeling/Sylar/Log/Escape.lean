/-
**Percent signs in log patterns: `%%`.**

A `%` before another one is appended to `nstr`, and the walk goes on at the other one, which is not
skipped: it is the first of the next pair, or it begins a directive.

* `escape` — a text with every `%` doubled; `Written` — the pattern of it writes the text.
* `parse_percents`, `parse_escape` — the walk over percent signs, and over an escaped text up to its
  first directive. Of `n + 1` percent signs `n` are text.
* `beforePercent_output` — what is written for an escaped text begins like the text.
* `written_iff` — **an escaped text is written exactly when there was nothing to escape**;
  `percent_notWritten`.
-/

import Sylar.Log.Scanner
import Sylar.Log.FileAppender

namespace Sylar.Log

open Sylar.Library

/-! ### Escaping -/

/-- Every `%` doubled. -/
def escapeChars (l : List Char) : List Char := l.flatMap fun c => if c = '%' then [c, c] else [c]

/-- The pattern that a text is escaped to. -/
def escape (s : String) : String := String.ofList (escapeChars s.toList)

section Escape

variable {l u v w rest : List Char}

theorem escapeChars_append : escapeChars (u ++ v) = escapeChars u ++ escapeChars v :=
  List.flatMap_append

theorem escapeChars_cons {c : Char} (notPercent : c ≠ '%') :
    escapeChars (c :: l) = c :: escapeChars l := by
  rw [escapeChars, List.flatMap_cons, if_neg notPercent]
  rfl

/-- There is nothing to escape. -/
theorem escapeChars_of_noPercent (noPercent : '%' ∉ l) : escapeChars l = l := by
  induction l with
  | nil => rfl
  | cons c l ih =>
    obtain ⟨notHere, later⟩ := not_or.mp (mt List.mem_cons.mpr noPercent)
    rw [escapeChars_cons (Ne.symm notHere), ih later]

theorem escapeChars_replicate (n : Nat) :
    escapeChars (List.replicate n '%') = List.replicate (2 * n) '%' := by
  induction n with
  | zero => rfl
  | succ n ih =>
    rw [List.replicate_succ, Nat.mul_succ, List.replicate_succ, List.replicate_succ, ← ih]
    rfl

theorem head_escapeChars (notPercent : l.head? ≠ some '%') :
    (escapeChars l).head? ≠ some '%' := by
  cases l with
  | nil => exact notPercent
  | cons c l =>
    have other : c ≠ '%' := fun percent => notPercent (congrArg some percent)
    rw [escapeChars_cons other]
    exact notPercent

/-- What an escaped text begins with, if it has no `%`, is what the text begins with. -/
theorem exists_of_escapeChars (split : escapeChars l = w ++ rest) (noPercent : '%' ∉ w) :
    ∃ later, l = w ++ later ∧ rest = escapeChars later := by
  induction w generalizing l with
  | nil => exact ⟨l, rfl, split.symm⟩
  | cons c w ih =>
    obtain ⟨notHere, inside⟩ := not_or.mp (mt List.mem_cons.mpr noPercent)
    cases l with
    | nil => cases split
    | cons d l =>
      by_cases percent : d = '%'
      · subst percent
        exact absurd (List.cons.inj split).1 notHere
      · rw [escapeChars_cons percent] at split
        obtain ⟨rfl, behind⟩ := List.cons.inj split
        obtain ⟨later, rfl, same⟩ := ih behind inside
        exact ⟨later, rfl, same⟩

/-- The percent signs that a text begins with. -/
theorem exists_replicate (l : List Char) :
    ∃ n v, l = List.replicate n '%' ++ v ∧ v.head? ≠ some '%' := by
  induction l with
  | nil => exact ⟨0, [], rfl, by simp⟩
  | cons c l ih =>
    by_cases percent : c = '%'
    · obtain ⟨n, v, rfl, other⟩ := ih
      exact ⟨n + 1, v, by rw [percent]; rfl, other⟩
    · exact ⟨0, c :: l, rfl, by simpa using percent⟩

/-- **A text around its first percent signs.** -/
theorem exists_percents (percent : '%' ∈ l) :
    ∃ u n v, l = u ++ (List.replicate (n + 1) '%' ++ v) ∧ '%' ∉ u ∧ v.head? ≠ some '%' := by
  obtain ⟨u, later, rfl, before⟩ := List.eq_append_cons_of_mem percent
  obtain ⟨n, v, rfl, other⟩ := exists_replicate later
  exact ⟨u, n, v, rfl, before, other⟩

/-- A text up to its first `%`. -/
def beforePercent (l : List Char) : List Char := l.takeWhile (· ≠ '%')

theorem beforePercent_append (noPercent : '%' ∉ u) :
    beforePercent (u ++ v) = u ++ beforePercent v :=
  List.takeWhile_append_of_pos fun _ member =>
    decide_eq_true fun percent => noPercent (percent ▸ member)

/-- It does not reach further than a part and what the rest has before its first `%`. -/
theorem length_beforePercent (u v : List Char) :
    (beforePercent (u ++ v)).length ≤ u.length + (beforePercent v).length := by
  unfold beforePercent
  rw [List.takeWhile_append]
  split
  · exact (List.length_append).le
  · exact (List.takeWhile_prefix _).length_le.trans (Nat.le_add_right _ _)

end Escape

/-! ### The walk -/

section Walk

variable {p : Parse} {u v : List Char} {n : Nat}

/-- **All but the last of the percent signs are text.** -/
theorem parse_percents (n : Nat) :
    parse 0 p (List.replicate (n + 1) '%' ++ v) =
      parse 0 { p with nstr := p.nstr ++ List.replicate n '%' } ('%' :: v) := by
  induction n generalizing p with
  | zero => simp
  | succ n ih =>
    rw [List.replicate_succ, List.cons_append, parse, if_neg (by simp),
      if_pos (by simp [List.replicate_succ]), ih]
    simp [Parse.append, List.replicate_succ]

/-- The triples of a directive, with the text before it. -/
theorem directive_text {str fmt : List Char} (some' : p.nstr ≠ []) :
    (p.directive str fmt).vec = p.vec ++ [.text p.nstr, .directive str fmt] := by
  rw [directive_vec, Parse.flush, if_pos some', List.append_assoc]
  rfl

/-- **The walk over an escaped text up to its first directive**, which begins with the last of the
percent signs. -/
theorem parse_escape (none : p.nstr = []) (noPercent : '%' ∉ u) (other : v.head? ≠ some '%') :
    let l := escapeChars (u ++ (List.replicate (n + 1) '%' ++ v))
    let text := u ++ List.replicate (2 * n + 1) '%'
    (parse 0 p l).isError = true ∨ ∃ str fmt later p', Found (escapeChars v) str fmt later ∧
      parse 0 p l = parse 0 p' later ∧ p'.nstr = [] ∧
      p'.vec = p.vec ++ [.text text, .directive str fmt] := by
  intro l text
  have reached : parse 0 p l = parse 0 { p with nstr := text } ('%' :: escapeChars v) := by
    simp only [l, text]
    rw [escapeChars_append, escapeChars_append, escapeChars_of_noPercent noPercent,
      escapeChars_replicate, parse_append noPercent, Nat.mul_succ, parse_percents (2 * n + 1), none,
      List.nil_append]
  rw [reached]
  refine (parse_percent (head_escapeChars other)).imp_right ?_
  rintro ⟨str, fmt, later, found, same⟩
  exact ⟨str, fmt, later, _, found, same, directive_nstr .., directive_text (by simp [text])⟩

/-- The triples that the walk adds. -/
theorem exists_more (p : Parse) (l : List Char) :
    ∃ more, (parse 0 p l).flush.vec = p.vec ++ more :=
  (parse_vec.trans vec_isPrefix_flush).imp fun _ same => same.symm

end Walk

/-! ### What is written -/

/-- An event none of whose parts begins with the letter that stands for it. -/
def plainEvent : LogEvent := {
  file := "?", line := 0, elapse := 0, threadId := 0, threadName := "?", fiberId := 0, time := 0
  content := "?", loggerName := "?" }

section Output

variable (strftime : List Char → Nat → List Char)

/-- `strftime`, as documented: a format without conversions is copied, as far as the buffer goes,
and the default one begins with the year. -/
structure StrftimeLaws : Prop where
  copied : ∀ format time, '%' ∉ format → (strftime format time).length ≤ format.length
  dated : ∀ time, ∃ c ∈ (strftime "%Y-%m-%d %H:%M:%S".toList time).head?, c ≠ 'd'

/-- What is written for a triple. -/
def Entry.output (entry : Entry) : List Char :=
  entry.item.format strftime .debug plainEvent

/-- What is written for triples. -/
def output (vec : List Entry) : List Char := (vec.map (Entry.output strftime)).flatten

/-- **The pattern of an escaped text writes the text**, for every event and by both overloads. -/
def Written (s : String) : Prop :=
  let formatter := LogFormatter.ofPattern (escape s)
  formatter.isError = false ∧ ∀ level event,
    formatter.format strftime level event = s.toList ∧
    ∀ (ofs : FileStream) (content : List Char), ofs.Appending content →
      (formatter.formatTo strftime ofs level event).Appending (content ++ s.toList)

/-- The formatter of a pattern writes what its triples do. -/
theorem format_ofPattern (pattern : String) :
    (LogFormatter.ofPattern pattern).format strftime .debug plainEvent =
      output strftime (entries pattern).vec := by
  unfold output Entry.output
  simp [LogFormatter.ofPattern, LogFormatter.format, init, Function.comp_def]

variable {strftime} {str fmt : List Char} {item : FormatItem}

/-- **What a directive without a format writes does not begin with its letter.** -/
theorem head_format (laws : StrftimeLaws strftime) (known : formatItems str [] = some item) :
    ∃ x, str = [x] ∧ ∃ c ∈ (item.format strftime .debug plainEvent).head?, c ≠ x := by
  have zero : (Int.repr 0).toList = ['0'] := by decide
  unfold formatItems at known
  split at known <;> cases known
  case h_9 => exact ⟨'d', rfl, laws.dated 0⟩
  all_goals exact ⟨_, rfl, by simp [FormatItem.format, plainEvent, Level.toString, zero]⟩

/-- Only a date has to do with its format. -/
theorem formatItems_cases (known : formatItems str fmt = some item) :
    formatItems str [] = some item ∨ (str = ['d'] ∧ fmt ≠ [] ∧ item = .dateTime fmt) := by
  unfold formatItems at known
  split at known <;> cases known
  case h_9 =>
    by_cases none : fmt = []
    · exact .inl (by rw [none]; rfl)
    · exact .inr ⟨rfl, none, by rw [FormatItem.ofFormat, if_neg none]⟩
  all_goals exact .inl rfl

theorem output_text (text : List Char) (more : List Entry) :
    output strftime (.text text :: more) = text ++ output strftime more := rfl

/-- **What is written for an escaped text begins like the text**, up to the first `%`. -/
theorem beforePercent_output {p : Parse} {l : List Char} (none : p.nstr = [])
    (noError : (parse 0 p (escapeChars l)).isError = false) :
    ∃ more, (parse 0 p (escapeChars l)).flush.vec = p.vec ++ more ∧
      beforePercent (output strftime more) = beforePercent l := by
  by_cases percent : '%' ∈ l
  · obtain ⟨u, n, v, rfl, noPercent, other⟩ := exists_percents percent
    rcases parse_escape (n := n) none noPercent other with
      error | ⟨str, fmt, later, p', -, same, -, begins⟩
    · cases noError.symm.trans error
    · -- the text before the first directive goes on with a `%`
      obtain ⟨more, vec⟩ := exists_more p' later
      rw [← same, begins, List.append_assoc] at vec
      refine ⟨_, vec, ?_⟩
      rw [List.cons_append, output_text, List.append_assoc, beforePercent_append noPercent,
        beforePercent_append noPercent]
      rfl
  · have text := parse_append (p := p) (l := []) percent
    rw [List.append_nil, none, List.nil_append] at text
    rw [escapeChars_of_noPercent percent, text]
    by_cases empty : l = []
    · subst empty
      exact ⟨[], by simp [parse, Parse.flush], rfl⟩
    · exact ⟨[.text l], by simp [parse, Parse.flush, empty], congrArg _ (List.append_nil l)⟩

/-- **A directive is not what was escaped.** -/
theorem format_append_ne {v more later : List Char} (laws : StrftimeLaws strftime)
    (known : formatItems str fmt = some item) (found : Found (escapeChars v) str fmt later)
    (goesOn : ∀ l, later = escapeChars l → beforePercent more = beforePercent l) :
    item.format strftime .debug plainEvent ++ more ≠ v := by
  intro same
  rcases formatItems_cases known with letter | ⟨rfl, some', rfl⟩
  · -- it begins with another letter
    obtain ⟨x, rfl, c, first, other⟩ := head_format laws letter
    obtain ⟨rest, written⟩ := List.head?_eq_some_iff.mp first
    have begins : ∃ w, escapeChars v = [x] ++ w ∧ '%' ∉ [x] := by
      cases found with
      | plain split noPercent => exact ⟨_, split, noPercent⟩
      | closed split noPercent => exact ⟨_, split, noPercent.1⟩
    obtain ⟨w, split, noPercent⟩ := begins
    obtain ⟨l, rfl, -⟩ := exists_of_escapeChars split noPercent
    rw [written] at same
    exact other (List.cons.inj same).1
  · -- a format without `%`: the date is not longer than it
    cases found with
    | plain => exact some' rfl
    | closed split noPercent =>
      have inBraces : '%' ∉ ['d'] ++ '{' :: (fmt ++ ['}']) := by simp [noPercent.2]
      have split' : escapeChars v = (['d'] ++ '{' :: (fmt ++ ['}'])) ++ later := by
        rw [split]
        simp
      obtain ⟨l, rfl, text⟩ := exists_of_escapeChars split' inBraces
      have short : (strftime fmt 0).length ≤ fmt.length := laws.copied fmt 0 noPercent.2
      have bound := length_beforePercent (strftime fmt 0) more
      have begins : beforePercent (strftime fmt 0 ++ more) = _ :=
        (congrArg beforePercent same).trans (beforePercent_append inBraces)
      rw [begins, goesOn l text] at bound
      simp only [List.length_append, List.length_cons, List.length_nil] at bound
      omega

/-- A text without `%` is one triple, or none. -/
theorem entries_escape {s : String} (noPercent : '%' ∉ s.toList) :
    entries (escape s) = ({ nstr := s.toList } : Parse).flush := by
  have text := parse_append (p := {}) (l := []) noPercent
  rw [List.append_nil] at text
  rw [entries, escape, String.toList_ofList, escapeChars_of_noPercent noPercent, text]
  rfl

/-- **What is written with a `%`** is another text. -/
theorem output_escape_ne (laws : StrftimeLaws strftime) {l : List Char} (percent : '%' ∈ l)
    (noError : (parse 0 {} (escapeChars l)).isError = false)
    (known : ∀ entry ∈ (parse 0 {} (escapeChars l)).flush.vec, entry.isUnknown = false) :
    output strftime (parse 0 {} (escapeChars l)).flush.vec ≠ l := by
  obtain ⟨u, n, v, rfl, noPercent, other⟩ := exists_percents percent
  rcases parse_escape (p := {}) (n := n) rfl noPercent other with
    error | ⟨str, fmt, later, p', found, same, none, begins⟩
  · cases noError.symm.trans error
  · obtain ⟨more, vec⟩ := exists_more p' later
    have goesOn (l : List Char) (escaped : later = escapeChars l) :
        beforePercent (output strftime more) = beforePercent l := by
      subst escaped
      obtain ⟨more', vec', like⟩ := beforePercent_output none (same ▸ noError)
      rwa [List.append_cancel_left (vec.symm.trans vec')]
    rw [← same, begins, List.nil_append] at vec
    rw [vec] at known ⊢
    have isKnown : (formatItems str fmt).isNone = false := known (.directive str fmt) (by simp)
    obtain ⟨item, inTable⟩ := Option.isSome_iff_exists.mp (Option.isNone_eq_false_iff.mp isKnown)
    have directive : output strftime (.directive str fmt :: more) =
        item.format strftime .debug plainEvent ++ output strftime more := by
      simp [output, Entry.output, Entry.item, inTable]
    intro written
    rw [List.cons_append, List.singleton_append, output_text, directive, List.append_assoc]
      at written
    have percents := List.append_cancel_left written
    rw [show 2 * n + 1 = n + 1 + n by omega, List.replicate_add, List.append_assoc] at percents
    have behind := List.append_cancel_left percents
    cases n with
    | zero => exact format_append_ne laws inTable found goesOn behind
    | succ n => exact other (by rw [← behind]; rfl)

/-- **An escaped text is written** if and only if it has no `%`. -/
theorem written_iff (laws : StrftimeLaws strftime) (s : String) :
    Written strftime s ↔ '%' ∉ s.toList := by
  constructor
  · rintro ⟨noError, writes⟩ percent
    have written := (writes .debug plainEvent).1
    rw [format_ofPattern, entries, escape, String.toList_ofList] at written
    simp only [LogFormatter.ofPattern, init, entries, escape, String.toList_ofList,
      Bool.or_eq_false_iff, flush_isError, List.any_eq_false, Bool.not_eq_true] at noError
    exact output_escape_ne laws percent noError.1 noError.2 written
  · intro noPercent
    have writes (level : Level) (event : LogEvent) :
        (LogFormatter.ofPattern (escape s)).format strftime level event = s.toList := by
      simp only [LogFormatter.ofPattern, LogFormatter.format, init, entries_escape noPercent]
      by_cases empty : s.toList = [] <;>
        simp [Parse.flush, empty, Entry.item, FormatItem.format]
    refine ⟨?_, fun level event => ⟨writes level event, fun ofs content appending => ?_⟩⟩
    · simp only [LogFormatter.ofPattern, init, entries_escape noPercent]
      by_cases empty : s.toList = [] <;> simp [Parse.flush, empty, Entry.isUnknown]
    · have appended := (LogFormatter.ofPattern (escape s)).formatTo_appending strftime appending
        level event
      rwa [writes level event] at appended

end Output

/-- A `strftime` that knows the default format only. -/
def epochTime (format : List Char) (_ : Nat) : List Char :=
  if '%' ∈ format then "1970-01-01 00:00:00".toList else format

/-- A text without `%` is written. -/
theorem written_iff_text : StrftimeLaws epochTime ∧ Written epochTime "a: b" := by
  have laws : StrftimeLaws epochTime :=
    ⟨fun format _ noPercent => by rw [epochTime, if_neg noPercent], fun _ => ⟨'1', rfl, by decide⟩⟩
  exact ⟨laws, (written_iff laws "a: b").mpr (by decide)⟩

/-- **`%%` is an error.** -/
theorem percent_notWritten : escape "%" = "%%" ∧ ¬ Written epochTime "%" := by
  refine ⟨by decide +kernel, fun written => absurd written.1 ?_⟩
  decide +kernel

end Sylar.Log
