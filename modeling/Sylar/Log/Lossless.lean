/-
**Nothing of a pattern is lost: `LogFormatter::init` with its indices.**

The parser of `Formatter` walks over the rest of the pattern. The code has the index `i` into it, a
second one `n` that runs ahead, and `substr`; here they are as they stand, each use checked, and
each triple keeps whether it was in braces.

* `innerLoop`, `outerLoop`, `initAt` — the loops; `none` for an index or a position out of range,
  and for a loop that does not end.
* `innerLoop_scanStr`, `outerLoop_parse` — **they do what `scanStr` and `parse` do**, within one
  round for each character and one more.
* `Walk.Covers` — text and directives so far are what was passed; every round keeps it until the
  first error.
* `init_lossless` — **the triples of a pattern without an error are the pattern**.
-/

import Sylar.Log.Directives

namespace Sylar.Log

/-! ### The loops -/

/-- `m_pattern.substr(pos, count)`; it throws when `pos` is beyond the end. -/
def substr (pattern : List Char) (pos count : Nat) : Option (List Char) :=
  if pos ≤ pattern.length then some ((pattern.drop pos).take count) else none

/-- The variables of the inner loop. -/
structure Inner where
  n : Nat
  fmtStatus : Nat := 0
  fmtBegin : Nat := 0
  str : List Char := []
  fmt : List Char := []

/-- `while (n < m_pattern.size())`, of the directive at `i`. -/
def innerLoop (pattern : List Char) (i : Nat) : Nat → Inner → Option Inner
  | 0, _ => none
  | fuel + 1, s =>
      if s.n < pattern.length then
        match pattern[s.n]? with
        | none => none
        | some c =>
            if !c.isAlpha && c ≠ '{' && c ≠ '}' then some s
            else if s.fmtStatus = 0 ∧ c = '{' then
              match substr pattern (i + 1) (s.n - i - 1) with
              | none => none
              | some str =>
                  innerLoop pattern i fuel
                    { s with str, fmtStatus := 1, fmtBegin := s.n, n := s.n + 1 }
            else if s.fmtStatus = 1 ∧ c = '}' then
              match substr pattern (s.fmtBegin + 1) (s.n - s.fmtBegin - 1) with
              | none => none
              | some fmt => some { s with fmt, fmtStatus := 2 }
            else innerLoop pattern i fuel { s with n := s.n + 1 }
      else some s

/-- The variables of the outer loop. A directive in `vec` is `bare` or `braced`. -/
structure Walk where
  i : Nat := 0
  vec : List Segment := []
  nstr : List Char := []
  isError : Bool := false

namespace Walk

variable (s : Walk)

/-- `if (!nstr.empty())`. -/
def flush : Walk :=
  if s.nstr ≠ [] then { s with vec := s.vec ++ [.literal s.nstr], nstr := [] } else s

/-- `vec.emplace_back(str, fmt, 1)`, after the text before it; the loop goes on at `i`. -/
def directive (segment : Segment) (i : Nat) : Walk :=
  let s := s.flush
  { s with vec := s.vec ++ [segment], i }

end Walk

/-- `for (size_t i = 0; i < m_pattern.size(); ++i)`. -/
def outerLoop (pattern : List Char) : Nat → Walk → Option Walk
  | 0, _ => none
  | fuel + 1, s =>
      if s.i < pattern.length then
        match pattern[s.i]? with
        | none => none
        | some c =>
            if c ≠ '%' then
              outerLoop pattern fuel { s with nstr := s.nstr ++ [c], i := s.i + 1 }
            else if s.i + 1 < pattern.length ∧ pattern[s.i + 1]? = some '%' then
              outerLoop pattern fuel { s with nstr := s.nstr ++ ['%'], i := s.i + 1 }
            else
              match innerLoop pattern s.i fuel { n := s.i + 1 } with
              | none => none
              | some inner =>
                  if inner.fmtStatus = 0 then
                    match substr pattern (s.i + 1) (inner.n - s.i - 1) with
                    | none => none
                    | some str =>
                        -- `i = n - 1`, and `++i`
                        outerLoop pattern fuel (s.directive (.bare str) (inner.n - 1 + 1))
                  else if inner.fmtStatus = 1 then
                    -- the message has the rest of the pattern
                    match substr pattern s.i pattern.length with
                    | none => none
                    | some _ =>
                        outerLoop pattern fuel { s with
                          vec := s.vec ++ [.literal "<<pattern_error>>".toList], isError := true,
                          i := s.i + 1 }
                  else
                    -- `i = n`, and `++i`
                    outerLoop pattern fuel
                      (s.directive (.braced inner.str inner.fmt) (inner.n + 1))
      else some s

/-- `LogFormatter::init` up to the table. -/
def initAt (pattern : String) : Option Walk :=
  (outerLoop pattern.toList (pattern.toList.length + 1) {}).map Walk.flush

/-! ### The inner loop -/

section InnerLoop

variable {pattern u l : List Char} {c : Char} {i fuel : Nat} {s : Inner}

theorem substr_append (u v w : List Char) {pos count : Nat} (begins : pos = u.length)
    (long : count = v.length) : substr (u ++ (v ++ w)) pos count = some v := by
  subst begins long
  rw [substr, if_pos (by simp), List.drop_left, List.take_left]

/-- One round, at a character. -/
theorem innerLoop_at (split : pattern = u ++ c :: l) (at' : s.n = u.length) :
    innerLoop pattern i (fuel + 1) s =
      if !c.isAlpha && c ≠ '{' && c ≠ '}' then some s
      else if s.fmtStatus = 0 ∧ c = '{' then
        (substr pattern (i + 1) (s.n - i - 1)).bind fun str =>
          innerLoop pattern i fuel { s with str, fmtStatus := 1, fmtBegin := s.n, n := s.n + 1 }
      else if s.fmtStatus = 1 ∧ c = '}' then
        (substr pattern (s.fmtBegin + 1) (s.n - s.fmtBegin - 1)).bind fun fmt =>
          some { s with fmt, fmtStatus := 2 }
      else innerLoop pattern i fuel { s with n := s.n + 1 } := by
  have inside : s.n < pattern.length := by simp [split, at']
  have here : pattern[s.n]? = some c := by simp [split, at']
  rw [innerLoop, if_pos inside, here]
  simp only
  congr 2
  · cases substr pattern (i + 1) (s.n - i - 1) <;> rfl
  · congr 1
    cases substr pattern (s.fmtBegin + 1) (s.n - s.fmtBegin - 1) <;> rfl

/-- Behind the last character. -/
theorem innerLoop_end (behind : s.n = pattern.length) :
    innerLoop pattern i (fuel + 1) s = some s := by
  rw [innerLoop, if_neg (by omega)]

/-- What the inner loop of the directive at `i` leaves. -/
def Inner.Finds (i : Nat) (s : Inner) : Scan → Prop
  | .plain str => s.fmtStatus = 0 ∧ s.n = i + 1 + str.length
  | .unclosed => s.fmtStatus = 1
  | .closed str fmt =>
      s.fmtStatus = 2 ∧ s.str = str ∧ s.fmt = fmt ∧ s.n = i + 1 + str.length + 1 + fmt.length

/-- **Behind a brace the loop does what `scanFmt` does.** -/
theorem innerLoop_scanFmt {f : List Char} (split : pattern = u ++ (f ++ l))
    (status : s.fmtStatus = 1) (begins : s.fmtBegin + 1 = u.length)
    (named : u.length = i + 1 + s.str.length + 1) (at' : s.n = u.length + f.length)
    (enough : l.length < fuel) :
    ∃ r, innerLoop pattern i fuel s = some r ∧ r.Finds i (scanFmt s.str f l) := by
  induction l generalizing f s fuel with
  | nil =>
    obtain ⟨fuel, rfl⟩ := Nat.exists_eq_succ_of_ne_zero (Nat.ne_zero_of_lt enough)
    exact ⟨s, innerLoop_end (by simp [split, at']), status⟩
  | cons c l ih =>
    obtain ⟨fuel, rfl⟩ := Nat.exists_eq_succ_of_ne_zero (Nat.ne_zero_of_lt enough)
    have split' : pattern = (u ++ f) ++ c :: l := by rw [split, List.append_assoc]
    rw [innerLoop_at split' (by simp [at']), scanFmt]
    by_cases stops : (!c.isAlpha && c ≠ '{' && c ≠ '}') = true
    · rw [if_pos stops, if_pos stops]
      exact ⟨s, rfl, status⟩
    · rw [if_neg stops, if_neg stops, if_neg (by simp [status])]
      by_cases closes : c = '}'
      · have fmt : substr pattern (s.fmtBegin + 1) (s.n - s.fmtBegin - 1) = some f := by
          rw [split]
          exact substr_append u f _ begins (by omega)
        rw [if_pos ⟨status, closes⟩, if_pos closes, fmt]
        exact ⟨_, rfl, rfl, rfl, rfl, by simp only; omega⟩
      · rw [if_neg (fun both => closes both.2), if_neg closes]
        refine ih (f := f ++ [c]) (by simp [split]) status begins named ?_ ?_
        · simp only [List.length_append, List.length_singleton]
          omega
        · simp only [List.length_cons] at enough
          omega

/-- **In the name it does what `scanStr` does.** -/
theorem innerLoop_scanStr {x : List Char} (split : pattern = u ++ (x ++ l))
    (begins : u.length = i + 1) (status : s.fmtStatus = 0) (at' : s.n = i + 1 + x.length)
    (enough : l.length < fuel) :
    ∃ r, innerLoop pattern i fuel s = some r ∧ r.Finds i (scanStr x l) := by
  induction l generalizing x s fuel with
  | nil =>
    obtain ⟨fuel, rfl⟩ := Nat.exists_eq_succ_of_ne_zero (Nat.ne_zero_of_lt enough)
    exact ⟨s, innerLoop_end (by simp [split, at', begins]), status, at'⟩
  | cons c l ih =>
    obtain ⟨fuel, rfl⟩ := Nat.exists_eq_succ_of_ne_zero (Nat.ne_zero_of_lt enough)
    have split' : pattern = (u ++ x) ++ c :: l := by rw [split, List.append_assoc]
    rw [innerLoop_at split' (by simp [at', begins]), scanStr]
    have shorter : l.length < fuel := by
      simp only [List.length_cons] at enough
      omega
    by_cases stops : (!c.isAlpha && c ≠ '{' && c ≠ '}') = true
    · rw [if_pos stops, if_pos stops]
      exact ⟨s, rfl, status, at'⟩
    · rw [if_neg stops, if_neg stops]
      by_cases opens : c = '{'
      · have str : substr pattern (i + 1) (s.n - i - 1) = some x := by
          rw [split]
          exact substr_append u x _ begins.symm (by omega)
        rw [if_pos ⟨status, opens⟩, if_pos opens, str]
        refine innerLoop_scanFmt (u := u ++ (x ++ [c])) (by simp [split]) rfl ?_ ?_ ?_ shorter <;>
          simp [at', begins, Nat.add_assoc]
      · rw [if_neg (fun both => opens both.2), if_neg (by simp [status]), if_neg opens]
        refine ih (x := x ++ [c]) (by simp [split]) status ?_ shorter
        simp [at', Nat.add_assoc]

end InnerLoop

/-! ### The outer loop -/

namespace Walk

variable {s : Walk} {passed : List Char}

/-- The walk of `Formatter`: whether a directive was in braces is forgotten. -/
def parsed (s : Walk) : Parse := ⟨s.vec.map Segment.entry, s.nstr, s.isError⟩

/-- **What was passed is in the triples and in `nstr`**, as long as there is no error. -/
def Covers (s : Walk) (passed : List Char) : Prop :=
  s.isError = false → patternText s.vec ++ s.nstr = passed

theorem parsed_flush : s.flush.parsed = s.parsed.flush := by
  unfold flush Parse.flush
  by_cases none : s.nstr = []
  · simp [parsed, none]
  · simp [parsed, none, Segment.entry]

theorem flush_nstr_nil : s.flush.nstr = [] := by
  unfold flush
  split
  next => rfl
  next none => exact not_not.mp none

theorem isError_flush : s.flush.isError = s.isError := by
  unfold flush
  split <;> rfl

theorem Covers.flush (covers : s.Covers passed) : s.flush.Covers passed := by
  intro noError
  rw [← covers (isError_flush.symm.trans noError)]
  unfold Walk.flush
  split <;> simp [patternText, Segment.text]

theorem parsed_directive (segment : Segment) (i : Nat) {str fmt : List Char}
    (entry : segment.entry = .directive str fmt) :
    (s.directive segment i).parsed = s.parsed.directive str fmt := by
  unfold directive Parse.directive
  rw [← parsed_flush, ← entry]
  simp [parsed]

/-- A directive, with the text before it. -/
theorem Covers.directive (covers : s.Covers passed) (segment : Segment) (i : Nat) :
    (s.directive segment i).Covers (passed ++ segment.text) := by
  intro noError
  have flushed := covers.flush noError
  rw [flush_nstr_nil, List.append_nil] at flushed
  simp only [Walk.directive]
  rw [flush_nstr_nil, List.append_nil, ← flushed]
  simp [patternText]

/-- A character of text. -/
theorem Covers.append (covers : s.Covers passed) (c : Char) :
    ({ s with nstr := s.nstr ++ [c], i := s.i + 1 } : Walk).Covers (passed ++ [c]) := by
  intro noError
  rw [← covers noError]
  exact (List.append_assoc ..).symm

end Walk

section OuterLoop

variable {pattern u l : List Char} {c : Char} {fuel : Nat} {s : Walk}

/-- What the look at `m_pattern[i + 1]` sees. -/
theorem getElem?_next (at' : s.i = u.length) : (u ++ c :: l)[s.i + 1]? = l.head? := by
  rw [at', List.getElem?_append_right (Nat.le_add_right _ _), List.head?_eq_getElem?,
    Nat.add_sub_cancel_left]
  rfl

/-- One round, at a character that is not a `%`. -/
theorem outerLoop_text (split : pattern = u ++ c :: l) (at' : s.i = u.length) (text : c ≠ '%') :
    outerLoop pattern (fuel + 1) s =
      outerLoop pattern fuel { s with nstr := s.nstr ++ [c], i := s.i + 1 } := by
  have inside : s.i < pattern.length := by simp [split, at']
  have here : pattern[s.i]? = some c := by simp [split, at']
  rw [outerLoop, if_pos inside, here]
  simp only
  rw [if_pos text]

/-- At a `%` before another one. -/
theorem outerLoop_pair (split : pattern = u ++ '%' :: l) (at' : s.i = u.length)
    (pair : l.head? = some '%') :
    outerLoop pattern (fuel + 1) s =
      outerLoop pattern fuel { s with nstr := s.nstr ++ ['%'], i := s.i + 1 } := by
  obtain ⟨l, rfl⟩ := List.head?_eq_some_iff.mp pair
  have inside : s.i < pattern.length := by simp [split, at']
  have here : pattern[s.i]? = some '%' := by simp [split, at']
  have next : s.i + 1 < pattern.length ∧ pattern[s.i + 1]? = some '%' := by simp [split, at']
  rw [outerLoop, if_pos inside, here]
  simp only
  rw [if_neg (by simp), if_pos next]

/-- **At a directive.** -/
theorem outerLoop_percent (split : pattern = u ++ '%' :: l) (at' : s.i = u.length)
    (single : l.head? ≠ some '%') (enough : l.length < fuel) :
    outerLoop pattern (fuel + 1) s =
      match scanStr [] l with
      | .plain str => outerLoop pattern fuel (s.directive (.bare str) (s.i + 1 + str.length))
      | .unclosed => outerLoop pattern fuel { s with
          vec := s.vec ++ [.literal "<<pattern_error>>".toList], isError := true, i := s.i + 1 }
      | .closed str fmt =>
          outerLoop pattern fuel
            (s.directive (.braced str fmt) (s.i + 1 + str.length + 1 + fmt.length + 1)) := by
  have inside : s.i < pattern.length := by simp [split, at']
  have here : pattern[s.i]? = some '%' := by simp [split, at']
  have next : ¬ (s.i + 1 < pattern.length ∧ pattern[s.i + 1]? = some '%') := by
    rintro ⟨-, percent⟩
    rw [split, getElem?_next at'] at percent
    exact single percent
  have split' : pattern = (u ++ ['%']) ++ ([] ++ l) := by simp [split]
  obtain ⟨r, ran, finds⟩ := innerLoop_scanStr (i := s.i) (s := { n := s.i + 1 }) split'
    (by simp [at']) rfl rfl enough
  rw [outerLoop, if_pos inside, here]
  simp only
  rw [if_neg (by simp), if_neg next, ran]
  rcases scanStr_cases [] l with unclosed | ⟨str, later, plain, rest, -⟩ |
    ⟨str, fmt, later, closed, rest, -⟩
  · rw [unclosed] at finds ⊢
    have status : r.fmtStatus = 1 := finds
    simp [status, substr, Nat.le_of_lt inside]
  · rw [List.nil_append] at plain
    rw [plain] at finds ⊢
    obtain ⟨status, ends⟩ := finds
    have name : substr pattern (s.i + 1) (r.n - s.i - 1) = some str := by
      rw [split', List.nil_append, rest]
      exact substr_append _ _ _ (by simp [at']) (by omega)
    simp only [status, name, if_true]
    rw [show r.n - 1 + 1 = s.i + 1 + str.length by omega]
  · rw [List.nil_append] at closed
    rw [closed] at finds ⊢
    obtain ⟨status, rfl, rfl, ends⟩ := finds
    simp [status, ends]

/-- Where the loop is: `l` is still to come, and what was passed is covered. -/
structure Walk.Reaches (s : Walk) (pattern l : List Char) : Prop where
  split : ∃ u, pattern = u ++ l ∧ s.i = u.length ∧ s.Covers u

/-- **One directive.** -/
theorem Walk.Reaches.directive (segment : Segment)
    (reaches : s.Reaches pattern (segment.text ++ l)) {i : Nat}
    (ends : i = s.i + segment.text.length) : (s.directive segment i).Reaches pattern l := by
  obtain ⟨u, split, at', covers⟩ := reaches
  refine ⟨u ++ segment.text, by rw [split, List.append_assoc], ?_, covers.directive segment i⟩
  rw [List.length_append, ← at', ← ends]
  rfl

/-- **One character of text.** -/
theorem Walk.Reaches.append (reaches : s.Reaches pattern (c :: l)) :
    ({ s with nstr := s.nstr ++ [c], i := s.i + 1 } : Walk).Reaches pattern l := by
  obtain ⟨u, split, at', covers⟩ := reaches
  exact ⟨u ++ [c], by simp [split], by simp [at'], covers.append c⟩

/-- **One round**: the loop and `parse` pass the same, and with the same triples. -/
theorem outerLoop_step (reaches : s.Reaches pattern (c :: l)) (enough : l.length < fuel) :
    ∃ s' l', outerLoop pattern (fuel + 1) s = outerLoop pattern fuel s' ∧
      s'.Reaches pattern l' ∧ l'.length ≤ l.length ∧
      parse 0 s.parsed (c :: l) = parse 0 s'.parsed l' := by
  obtain ⟨u, split, at', -⟩ := id reaches
  by_cases text : c = '%'
  · subst text
    by_cases pair : l.head? = some '%'
    · refine ⟨_, l, outerLoop_pair split at' pair, reaches.append, Nat.le_refl _, ?_⟩
      rw [parse, if_neg (by simp), if_pos pair]
      rfl
    · rw [outerLoop_percent split at' pair enough, parse, if_neg (by simp), if_neg pair]
      rcases scanStr_cases [] l with unclosed | ⟨str, later, plain, rfl, -⟩ |
        ⟨str, fmt, later, closed, rfl, -⟩
      · rw [unclosed]
        refine ⟨_, l, rfl, ⟨u ++ ['%'], by simp [split], by simp [at'], ?_⟩, Nat.le_refl _, ?_⟩
        · intro noError
          cases noError
        · simp [Walk.parsed, Parse.patternError, Segment.entry]
      · rw [plain, List.nil_append]
        refine ⟨_, later, rfl, Walk.Reaches.directive (.bare str) reaches ?_, by simp, ?_⟩
        · simp [Segment.text, Nat.add_assoc, Nat.add_comm 1]
        · rw [Walk.parsed_directive _ _ rfl]
          exact parse_skip str
      · rw [closed, List.nil_append]
        have passed := parse_skip (p := s.parsed.directive str fmt) (l := later)
          (str ++ '{' :: (fmt ++ ['}']))
        refine ⟨_, later, rfl, Walk.Reaches.directive (.braced str fmt) ?_ ?_, ?_, ?_⟩
        · simpa [Segment.text] using reaches
        · simp only [Segment.text, List.length_cons, List.length_append, List.length_nil]
          omega
        · simp only [List.length_append, List.length_cons]
          omega
        · rw [Walk.parsed_directive _ _ rfl]
          simpa [Nat.add_assoc, Nat.add_comm, Nat.add_left_comm] using passed
  · refine ⟨_, l, outerLoop_text split at' text, reaches.append, Nat.le_refl _, ?_⟩
    rw [parse, if_pos text]
    rfl

/-- **The outer loop does what `parse` does**, and covers the pattern. -/
theorem outerLoop_parse (reaches : s.Reaches pattern l) (enough : l.length < fuel) :
    ∃ r, outerLoop pattern fuel s = some r ∧ r.parsed = parse 0 s.parsed l ∧ r.Covers pattern := by
  induction fuel generalizing l s with
  | zero => exact absurd enough (Nat.not_lt_zero _)
  | succ fuel ih =>
    cases l with
    | nil =>
      obtain ⟨u, split, at', covers⟩ := reaches
      obtain rfl : pattern = u := split.trans (List.append_nil u)
      exact ⟨s, by rw [outerLoop, if_neg (by omega)], rfl, covers⟩
    | cons c l =>
      have shorter : l.length < fuel := Nat.lt_of_succ_lt_succ enough
      obtain ⟨s', l', same, reaches', fewer, walks⟩ := outerLoop_step reaches shorter
      rw [same, walks]
      exact ih reaches' (Nat.lt_of_le_of_lt fewer shorter)

end OuterLoop

/-! ### The triples and the items -/

/-- The item of a triple that is known. -/
theorem item_of_known {segment : Segment} (known : segment.entry.isUnknown = false) :
    some segment.entry.item = segment.item := by
  cases segment with
  | literal str => rfl
  | bare x | braced x f =>
    obtain ⟨item, inTable⟩ := Option.isSome_iff_exists.mp (Option.isNone_eq_false_iff.mp known)
    simp [Segment.entry, Segment.item, Entry.item, inTable]

/-- **Nothing of a pattern is lost**: both loops end, within the pattern. Without an error the
triples they leave spell the pattern, the names are in the table, and each triple has its item, in
order. -/
structure Lossless (pattern : String) (walk : Walk) : Prop where
  ends : initAt pattern = some walk
  triples : walk.vec.map Segment.entry = (entries pattern).vec
  spelled : (LogFormatter.ofPattern pattern).isError = false →
    patternText walk.vec = pattern.toList
  named : (LogFormatter.ofPattern pattern).isError = false →
    ∀ str fmt, .directive str fmt ∈ (entries pattern).vec → (formatItems str fmt).isSome = true
  items : (LogFormatter.ofPattern pattern).isError = false →
    (LogFormatter.ofPattern pattern).items.map some = walk.vec.map Segment.item

/-- **The triples of a pattern without an error are the pattern**, for every pattern. -/
theorem init_lossless (pattern : String) : ∃ walk, Lossless pattern walk := by
  have start : ({} : Walk).Reaches pattern.toList pattern.toList := ⟨[], rfl, rfl, fun _ => rfl⟩
  obtain ⟨w, ran, parsed, covers⟩ := outerLoop_parse start (Nat.lt_succ_self _)
  have same : w.flush.parsed = entries pattern := by
    rw [Walk.parsed_flush, parsed]
    rfl
  have triples : w.flush.vec.map Segment.entry = (entries pattern).vec := congrArg Parse.vec same
  have noError (usable : (LogFormatter.ofPattern pattern).isError = false) :
      w.flush.isError = false ∧ ∀ entry ∈ (entries pattern).vec, entry.isUnknown = false := by
    have both : ((entries pattern).isError || (entries pattern).vec.any Entry.isUnknown) = false :=
      usable
    obtain ⟨closed, known⟩ := Bool.or_eq_false_iff.mp both
    refine ⟨(congrArg Parse.isError same).trans closed, fun entry member => ?_⟩
    exact Bool.eq_false_iff.mpr (List.any_eq_false.mp known entry member)
  refine ⟨w.flush, by rw [initAt, ran]; rfl, triples, fun usable => ?_, fun usable => ?_,
    fun usable => ?_⟩
  · have spelled := covers.flush (noError usable).1
    rwa [Walk.flush_nstr_nil, List.append_nil] at spelled
  · intro str fmt member
    exact Option.isNone_eq_false_iff.mp ((noError usable).2 _ member)
  · show ((entries pattern).vec.map Entry.item).map some = _
    rw [← triples, List.map_map, List.map_map]
    refine List.map_congr_left fun segment member => item_of_known ?_
    exact (noError usable).2 _ (triples ▸ List.mem_map_of_mem member)

/-- Text, a braced directive and a bare one, without an error. -/
theorem init_lossless_mixed : ∃ walk, initAt "at %d{H} %m" = some walk ∧
    walk.vec = [.literal "at ".toList, .braced ['d'] ['H'], .literal [' '], .bare ['m']] ∧
    patternText walk.vec = "at %d{H} %m".toList ∧
    (LogFormatter.ofPattern "at %d{H} %m").items.map some = walk.vec.map Segment.item := by
  obtain ⟨walk, lossless⟩ := init_lossless "at %d{H} %m"
  have usable : (LogFormatter.ofPattern "at %d{H} %m").isError = false := by decide +kernel
  have walked : (initAt "at %d{H} %m").map Walk.vec =
      some [.literal "at ".toList, .braced ['d'] ['H'], .literal [' '], .bare ['m']] := by
    decide +kernel
  rw [lossless.ends] at walked
  exact ⟨walk, lossless.ends, Option.some.inj walked, lossless.spelled usable, lossless.items usable⟩

/-- Text with a pair of percent signs, and a format in empty braces. -/
example : ((initAt "a%%d{}").map Walk.vec) =
    some [.literal "a%".toList, .braced ['d'] []] := by decide +kernel

end Sylar.Log
