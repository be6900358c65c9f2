/-
**Which patterns parse back: text, directives, and directives with formats.**

* `Segment` — a piece of a pattern, with its text and the item it stands for; `WellFormed` — pieces
  whose borders can be seen in the text.
* `parse_bare`, `parse_braced`, `parse_notLettered` — the walk over one piece; the last is **a
  format with a character that is no letter**, which counts as not closed.
* `parse_segments`, `parse_segments_isError` — the walk over all of them.
* `parses_back_iff` — **a pattern parses back exactly when its formats are of letters and `{`**;
  `dateFormat_rejected` — no format of a date is.
-/

import Sylar.Log.Scanner

namespace Sylar.Log

/-- A piece of a pattern. -/
inductive Segment
  | literal (str : List Char)
  /-- `%x` -/
  | bare (x : List Char)
  /-- `%x{f}` -/
  | braced (x f : List Char)
deriving DecidableEq

namespace Segment

/-- How it is written. -/
def text : Segment → List Char
  | .literal str => str
  | .bare x => '%' :: x
  | .braced x f => '%' :: (x ++ '{' :: (f ++ ['}']))

/-- What it stands for. -/
def item : Segment → Option FormatItem
  | .literal str => some (.normalString str)
  | .bare x => formatItems x []
  | .braced x f => formatItems x f

/-- A piece that can stand in a pattern: text that is not empty and has no `%`; a name in
`s_format_items`; a format without `}`. -/
def Ok : Segment → Prop
  | .literal str => str ≠ [] ∧ '%' ∉ str
  | .bare x => (formatItems x []).isSome = true
  | .braced x f => (formatItems x []).isSome = true ∧ '}' ∉ f

/-- Pieces that can follow one another: not text after text, and no text after a name that would go
on with it. -/
def Fits : Segment → Segment → Prop
  | .literal _, .literal _ => False
  | .bare _, .literal str => ∀ c ∈ str.head?, c.isAlpha = false ∧ c ≠ '{' ∧ c ≠ '}'
  | _, _ => True

/-- The format, if there is one, is of letters and `{`. -/
def Lettered : Segment → Prop
  | .braced _ f => ∀ c ∈ f, inFormat c = true
  | _ => True

instance : DecidablePred Ok
  | .literal str => inferInstanceAs (Decidable (str ≠ [] ∧ '%' ∉ str))
  | .bare x => inferInstanceAs (Decidable ((formatItems x []).isSome = true))
  | .braced x f => inferInstanceAs (Decidable ((formatItems x []).isSome = true ∧ '}' ∉ f))

instance : DecidablePred Lettered
  | .braced _ f => List.decidableBAll _ f
  | .literal _ | .bare _ => isTrue trivial

/-- The triple it becomes. -/
def entry : Segment → Entry
  | .literal str => .text str
  | .bare x => .directive x []
  | .braced x f => .directive x f

end Segment

/-- The pieces of a pattern. -/
structure WellFormed (segments : List Segment) : Prop where
  each : ∀ segment ∈ segments, segment.Ok
  apart : segments.IsChain Segment.Fits

/-- The text of a pattern. -/
def patternText (segments : List Segment) : List Char := segments.flatMap Segment.text

/-- **The pattern parses back**: without an error, into one item for each piece, in order. -/
def ParsesBack (segments : List Segment) : Prop :=
  let formatter := LogFormatter.ofPattern (String.ofList (patternText segments))
  formatter.isError = false ∧ formatter.items.map some = segments.map Segment.item

/-! ### The table -/

/-- The names in the table are of letters, at least one. -/
theorem letters_of_formatItems {x f : List Char} (known : (formatItems x f).isSome = true) :
    x ≠ [] ∧ ∀ c ∈ x, c.isAlpha = true := by
  unfold formatItems at known
  split at known <;> first | exact ⟨by simp, List.forall_mem_singleton.mpr rfl⟩ | cases known

/-- Whether a name is in the table does not depend on the format. -/
theorem isSome_formatItems (x f : List Char) :
    (formatItems x f).isSome = (formatItems x []).isSome := by
  unfold formatItems
  split <;> rfl

/-! ### The walk over one piece -/

section Pieces

variable {p : Parse} {x f l : List Char}

/-- A name does not begin with `%`. -/
theorem head_of_letters (some' : x ≠ []) (letters : ∀ c ∈ x, c.isAlpha = true) :
    (x ++ l).head? ≠ some '%' := by
  obtain ⟨c, rest, rfl⟩ := List.exists_cons_of_ne_nil some'
  intro percent
  have letter := letters c List.mem_cons_self
  rw [Option.some.inj percent] at letter
  cases letter

/-- What the walk does at a name of letters. -/
theorem parse_name (some' : x ≠ []) (letters : ∀ c ∈ x, c.isAlpha = true) :
    parse 0 p ('%' :: (x ++ l)) =
      match scanStr x l with
      | .plain str => parse str.length (p.directive str []) (x ++ l)
      | .unclosed => parse 0 p.patternError (x ++ l)
      | .closed str fmt =>
          parse (str.length + 1 + fmt.length + 1) (p.directive str fmt) (x ++ l) := by
  rw [parse, if_neg (by simp), if_neg (head_of_letters some' letters), scanStr_append letters]
  rfl

/-- **A bare directive.** -/
theorem parse_bare (some' : x ≠ []) (letters : ∀ c ∈ x, c.isAlpha = true)
    (stops : ∀ c ∈ l.head?, c.isAlpha = false ∧ c ≠ '{' ∧ c ≠ '}') :
    parse 0 p ('%' :: (x ++ l)) = parse 0 (p.directive x []) l := by
  rw [parse_name some' letters, scanStr_stop stops]
  exact parse_skip x

/-- **A directive with a format of letters.** -/
theorem parse_braced (some' : x ≠ []) (letters : ∀ c ∈ x, c.isAlpha = true)
    (lettered : ∀ c ∈ f, inFormat c = true) :
    parse 0 p ('%' :: (x ++ '{' :: (f ++ '}' :: l))) = parse 0 (p.directive x f) l := by
  rw [parse_name some' letters, scanStr_open, scanFmt_append lettered, List.nil_append]
  have passed := parse_skip (p := p.directive x f) (l := l) (x ++ '{' :: (f ++ ['}']))
  simpa [scanFmt, Nat.add_assoc, Nat.add_comm, Nat.add_left_comm] using passed

/-- **A directive with another format.** -/
theorem parse_notLettered (some' : x ≠ []) (letters : ∀ c ∈ x, c.isAlpha = true)
    (open' : '}' ∉ f) (outside : ∃ c ∈ f, inFormat c = false) :
    (parse 0 p ('%' :: (x ++ '{' :: (f ++ '}' :: l)))).isError = true := by
  rw [parse_name some' letters, scanStr_open, scanFmt_stop open' outside]
  exact parse_isError rfl

end Pieces

/-! ### The walk over all of them -/

section Segments

variable {segment : Segment} {rest : List Segment}

theorem WellFormed.tail (wellFormed : WellFormed (segment :: rest)) : WellFormed rest :=
  ⟨fun s member => wellFormed.each s (List.mem_cons_of_mem segment member),
    wellFormed.apart.of_cons⟩

/-- What follows a bare directive does not go on with its name. -/
theorem WellFormed.stops {x : List Char} (wellFormed : WellFormed (.bare x :: rest)) :
    ∀ c ∈ (patternText rest).head?, c.isAlpha = false ∧ c ≠ '{' ∧ c ≠ '}' := by
  cases rest with
  | nil => exact fun c member => by cases member
  | cons next rest =>
    have fits : Segment.Fits (.bare x) next := (List.isChain_cons_cons.mp wellFormed.apart).1
    cases next with
    | literal str =>
      have some' : str ≠ [] := (wellFormed.tail.each _ List.mem_cons_self).1
      obtain ⟨c, str, rfl⟩ := List.exists_cons_of_ne_nil some'
      exact fits
    | bare y | braced y f =>
      rintro c ⟨⟩
      decide

/-- Where the walk is when a piece begins: there is no text before text. -/
def Ready (p : Parse) (segments : List Segment) : Prop :=
  p.nstr = [] ∨ ∀ str, segments.head? ≠ some (.literal str)

/-- **The walk over the first piece.** -/
theorem parse_segment (wellFormed : WellFormed (segment :: rest)) {p : Parse}
    (ready : Ready p (segment :: rest)) (lettered : segment.Lettered) :
    ∃ p', parse 0 p (patternText (segment :: rest)) = parse 0 p' (patternText rest) ∧
      Ready p' rest ∧ p'.isError = p.isError ∧ p'.flush.vec = p.flush.vec ++ [segment.entry] := by
  have ok := wellFormed.each segment List.mem_cons_self
  cases segment with
  | literal str =>
    obtain ⟨some', noPercent⟩ := ok
    have none : p.nstr = [] := ready.resolve_right fun notText => notText str rfl
    refine ⟨{ p with nstr := p.nstr ++ str }, parse_append noPercent, .inr fun str' head => ?_,
      rfl, ?_⟩
    · -- no text after text
      obtain ⟨others, rfl⟩ := List.head?_eq_some_iff.mp head
      exact (List.isChain_cons_cons.mp wellFormed.apart).1
    · simp [Parse.flush, none, some', Segment.entry]
  | bare x =>
    obtain ⟨some', letters⟩ := letters_of_formatItems ok
    exact ⟨p.directive x [], parse_bare some' letters wellFormed.stops, .inl (directive_nstr ..),
      directive_isError .., by simp [Parse.flush, directive_vec, Segment.entry]⟩
  | braced x f =>
    obtain ⟨some', letters⟩ := letters_of_formatItems ok.1
    refine ⟨p.directive x f, ?_, .inl (directive_nstr ..), directive_isError .., ?_⟩
    · rw [← parse_braced some' letters lettered]
      simp [patternText, Segment.text]
    · simp [Parse.flush, directive_vec, Segment.entry]

/-- **The walk over the pieces**, if the formats are of letters. -/
theorem parse_segments {segments : List Segment} (wellFormed : WellFormed segments) {p : Parse}
    (ready : Ready p segments) (lettered : ∀ segment ∈ segments, segment.Lettered) :
    (parse 0 p (patternText segments)).isError = p.isError ∧
      (parse 0 p (patternText segments)).flush.vec =
        p.flush.vec ++ segments.map Segment.entry := by
  induction segments generalizing p with
  | nil => exact ⟨rfl, (List.append_nil _).symm⟩
  | cons segment rest ih =>
    obtain ⟨first, later⟩ := List.forall_mem_cons.mp lettered
    obtain ⟨p', same, ready', error, vec⟩ := parse_segment wellFormed ready first
    obtain ⟨errors, vecs⟩ := ih wellFormed.tail ready' later
    rw [same, errors, vecs, error, vec, List.append_assoc, List.map_cons, List.singleton_append]
    exact ⟨rfl, rfl⟩

/-- **The walk over the pieces**, if a format has another character. -/
theorem parse_segments_isError {segments : List Segment} (wellFormed : WellFormed segments)
    {p : Parse} (ready : Ready p segments)
    (other : ¬ ∀ segment ∈ segments, segment.Lettered) :
    (parse 0 p (patternText segments)).isError = true := by
  induction segments generalizing p with
  | nil => exact absurd (fun _ member => absurd member List.not_mem_nil) other
  | cons segment rest ih =>
    by_cases first : segment.Lettered
    · obtain ⟨p', same, ready', -, -⟩ := parse_segment wellFormed ready first
      rw [same]
      exact ih wellFormed.tail ready' fun later => other (List.forall_mem_cons.mpr ⟨first, later⟩)
    · have ok := wellFormed.each segment List.mem_cons_self
      cases segment with
      | literal | bare => exact absurd trivial first
      | braced x f =>
        obtain ⟨some', letters⟩ := letters_of_formatItems ok.1
        have outside : ∃ c ∈ f, inFormat c = false := by
          simpa [Segment.Lettered] using first
        have stopped := parse_notLettered (p := p) (l := patternText rest) some' letters ok.2 outside
        simpa [patternText, Segment.text] using stopped

/-- The item of a piece, from its triple. -/
theorem item_entry (ok : segment.Ok) :
    some segment.entry.item = segment.item ∧ segment.entry.isUnknown = false := by
  cases segment with
  | literal str => exact ⟨rfl, rfl⟩
  | bare x =>
    obtain ⟨item, known⟩ := Option.isSome_iff_exists.mp ok
    simp [Segment.entry, Segment.item, Entry.item, Entry.isUnknown, known]
  | braced x f =>
    obtain ⟨item, known⟩ := Option.isSome_iff_exists.mp ((isSome_formatItems x f).trans ok.1)
    simp [Segment.entry, Segment.item, Entry.item, Entry.isUnknown, known]

end Segments

/-- **A pattern parses back** if and only if every format in braces is of letters and `{`. -/
theorem parses_back_iff (segments : List Segment) (wellFormed : WellFormed segments) :
    ParsesBack segments ↔ ∀ segment ∈ segments, segment.Lettered := by
  have ready : Ready {} segments := .inl rfl
  unfold ParsesBack
  simp only [LogFormatter.ofPattern, init, entries, String.toList_ofList, flush_isError]
  constructor
  · rintro ⟨noError, -⟩
    by_contra other
    rw [parse_segments_isError wellFormed ready other] at noError
    cases noError
  · intro lettered
    obtain ⟨error, vec⟩ := parse_segments wellFormed ready lettered
    have items := fun segment member => item_entry (wellFormed.each segment member)
    rw [error, vec]
    constructor
    · simpa [Parse.flush] using fun segment member => (items segment member).2
    · simpa [Parse.flush] using fun segment member => (items segment member).1

/-- A pattern of the three kinds of pieces, with a format of letters. -/
def lettersPattern : List Segment :=
  [.literal "at ".toList, .braced ['d'] "abc".toList, .bare ['m'], .literal " ".toList, .bare ['n']]

/-- Well formed, and it parses back. -/
theorem parses_back_letters : WellFormed lettersPattern ∧ ParsesBack lettersPattern := by
  have wellFormed : WellFormed lettersPattern := ⟨by decide, by simp [lettersPattern, Segment.Fits]⟩
  exact ⟨wellFormed, (parses_back_iff lettersPattern wellFormed).mpr (by decide)⟩

/-- **The format of a date is not closed.** -/
theorem dateFormat_rejected :
    let segments := [Segment.braced ['d'] "%Y-%m-%d".toList]
    WellFormed segments ∧ ¬ ParsesBack segments := by
  refine ⟨⟨by decide, .singleton _⟩, fun parsesBack => absurd parsesBack.1 ?_⟩
  decide +kernel

end Sylar.Log
