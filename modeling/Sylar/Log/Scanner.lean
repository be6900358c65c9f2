/-
**The scanner of log patterns, piece by piece.**

`init` walks over the pattern; at a `%` an inner loop looks ahead for a name, and for a format in
braces. It stops at whatever is neither a letter nor a brace, inside the braces too.

* `scanStr_cases`, `scanFmt_cases` — what the inner loop can find in a text.
* `scanStr_append`, `scanFmt_append`, `scanFmt_stop` — what it does with letters, and where it
  stops.
* `parse_append`, `parse_skip`, `parse_percent` — the walk over text, over what the inner loop has
  passed, and **at a directive**.
* `parse_isError`, `parse_vec` — an error stays, and so do the triples.
-/

import Sylar.Log.Formatter

namespace Sylar.Log

/-- What the inner loop passes in a format: letters, and `{`. -/
def inFormat (c : Char) : Bool := c.isAlpha || c = '{'

/-- What a `%` comes to. -/
inductive Found (rest : List Char) : List Char → List Char → List Char → Prop
  | plain {str later : List Char} (split : rest = str ++ later) (noPercent : '%' ∉ str) :
      Found rest str [] later
  | closed {str fmt later : List Char} (split : rest = str ++ '{' :: (fmt ++ '}' :: later))
      (noPercent : '%' ∉ str ∧ '%' ∉ fmt) : Found rest str fmt later

/-! ### The inner loop -/

section Scan

variable {str fmt l : List Char} {c : Char}

theorem scanFmt_cons_inFormat (inside : inFormat c = true) :
    scanFmt str fmt (c :: l) = scanFmt str (fmt ++ [c]) l := by
  have notClosed : c ≠ '}' := by
    rintro rfl
    cases inside
  rw [inFormat, Bool.or_eq_true, decide_eq_true_eq] at inside
  rw [scanFmt, if_neg, if_neg notClosed]
  rcases inside with letter | brace
  · simp [letter]
  · simp [brace]

theorem scanFmt_cons_stop (outside : inFormat c = false) (notClosed : c ≠ '}') :
    scanFmt str fmt (c :: l) = .unclosed := by
  rw [inFormat, Bool.or_eq_false_iff, decide_eq_false_iff_not] at outside
  rw [scanFmt, if_pos]
  simp [outside, notClosed]

/-- **Letters and braces belong to the format.** -/
theorem scanFmt_append {f : List Char} (inside : ∀ c ∈ f, inFormat c = true) :
    scanFmt str fmt (f ++ l) = scanFmt str (fmt ++ f) l := by
  induction f generalizing fmt with
  | nil => simp
  | cons c f ih =>
    obtain ⟨first, rest⟩ := List.forall_mem_cons.mp inside
    rw [List.cons_append, scanFmt_cons_inFormat first, ih rest, List.append_assoc,
      List.singleton_append]

/-- **Anything else stops the loop**, and the format is not closed. -/
theorem scanFmt_stop {f : List Char} (open' : '}' ∉ f)
    (outside : ∃ c ∈ f, inFormat c = false) : scanFmt str fmt (f ++ l) = .unclosed := by
  induction f generalizing fmt with
  | nil =>
    obtain ⟨c, member, -⟩ := outside
    cases member
  | cons c f ih =>
    obtain ⟨notClosed, later⟩ := not_or.mp (mt List.mem_cons.mpr open')
    rw [List.cons_append]
    cases here : inFormat c with
    | false => exact scanFmt_cons_stop here (Ne.symm notClosed)
    | true =>
      rw [scanFmt_cons_inFormat here]
      refine ih later ?_
      obtain ⟨d, member, stops⟩ := outside
      rcases List.mem_cons.mp member with rfl | inside
      · cases here.symm.trans stops
      · exact ⟨d, inside, stops⟩

/-- **What can be in the braces.** -/
theorem scanFmt_cases (str fmt l : List Char) :
    scanFmt str fmt l = .unclosed ∨ ∃ f later, scanFmt str fmt l = .closed str (fmt ++ f) ∧
      l = f ++ '}' :: later ∧ '%' ∉ f := by
  induction l generalizing fmt with
  | nil => exact .inl rfl
  | cons c l ih =>
    cases inside : inFormat c with
    | true =>
      rw [scanFmt_cons_inFormat inside]
      refine (ih (fmt ++ [c])).imp_right ?_
      rintro ⟨f, later, same, split, noPercent⟩
      refine ⟨c :: f, later, ?_, by rw [split, List.cons_append], ?_⟩
      · rw [same, List.append_assoc, List.singleton_append]
      · rintro (_ | ⟨_, member⟩)
        · cases inside
        · exact noPercent member
    | false =>
      by_cases closed : c = '}'
      · subst closed
        exact .inr ⟨[], l, by rw [List.append_nil]; rfl, rfl, List.not_mem_nil⟩
      · exact .inl (scanFmt_cons_stop inside closed)

theorem scanStr_cons_alpha (letter : c.isAlpha = true) :
    scanStr str (c :: l) = scanStr (str ++ [c]) l := by
  have notOpen : c ≠ '{' := by
    rintro rfl
    cases letter
  rw [scanStr, if_neg (by simp [letter]), if_neg notOpen]

/-- **Letters belong to the name.** -/
theorem scanStr_append {x : List Char} (letters : ∀ c ∈ x, c.isAlpha = true) :
    scanStr str (x ++ l) = scanStr (str ++ x) l := by
  induction x generalizing str with
  | nil => simp
  | cons c x ih =>
    obtain ⟨first, rest⟩ := List.forall_mem_cons.mp letters
    rw [List.cons_append, scanStr_cons_alpha first, ih rest, List.append_assoc,
      List.singleton_append]

/-- The loop ends before what is neither a letter nor a brace. -/
theorem scanStr_stop (stops : ∀ c ∈ l.head?, c.isAlpha = false ∧ c ≠ '{' ∧ c ≠ '}') :
    scanStr str l = .plain str := by
  cases l with
  | nil => rfl
  | cons c l =>
    obtain ⟨notLetter, notOpen, notClosed⟩ := stops c rfl
    rw [scanStr, if_pos (by simp [notLetter, notOpen, notClosed])]

theorem scanStr_open : scanStr str ('{' :: l) = scanFmt str [] l := rfl

/-- **What can be behind a `%`.** -/
theorem scanStr_cases (str l : List Char) :
    scanStr str l = .unclosed ∨
      (∃ x later, scanStr str l = .plain (str ++ x) ∧ l = x ++ later ∧ '%' ∉ x) ∨
      ∃ x f later, scanStr str l = .closed (str ++ x) f ∧ l = x ++ '{' :: (f ++ '}' :: later) ∧
        '%' ∉ x ∧ '%' ∉ f := by
  induction l generalizing str with
  | nil => exact .inr (.inl ⟨[], [], by simp [scanStr], rfl, List.not_mem_nil⟩)
  | cons c l ih =>
    rw [scanStr]
    split
    next => exact .inr (.inl ⟨[], c :: l, by simp, rfl, List.not_mem_nil⟩)
    next passes =>
      have notPercent : '%' ≠ c := by
        rintro rfl
        exact passes rfl
      split
      next opens =>
        subst opens
        refine (scanFmt_cases str [] l).imp_right fun ⟨f, later, same, split, noPercent⟩ => ?_
        exact .inr ⟨[], f, later, by simpa using same, by rw [split]; rfl, List.not_mem_nil,
          noPercent⟩
      next =>
        have longer {x : List Char} (noPercent : '%' ∉ x) : '%' ∉ c :: x := by
          simp [notPercent, noPercent]
        refine (ih (str ++ [c])).imp_right (Or.imp ?_ ?_)
        · rintro ⟨x, later, same, split, noPercent⟩
          exact ⟨c :: x, later, by simpa using same, by rw [split]; rfl, longer noPercent⟩
        · rintro ⟨x, f, later, same, split, noPercent, inBraces⟩
          exact ⟨c :: x, f, later, by simpa using same, by rw [split]; rfl, longer noPercent,
            inBraces⟩

end Scan

/-! ### The walk -/

section Walk

variable {p : Parse} {l : List Char}

/-- **Text**: it is appended to `nstr`. -/
theorem parse_append {u : List Char} (noPercent : '%' ∉ u) :
    parse 0 p (u ++ l) = parse 0 { p with nstr := p.nstr ++ u } l := by
  induction u generalizing p with
  | nil => simp
  | cons c u ih =>
    obtain ⟨notHere, later⟩ := not_or.mp (mt List.mem_cons.mpr noPercent)
    rw [List.cons_append, parse, if_pos (Ne.symm notHere), ih later]
    simp [Parse.append]

/-- What the inner loop has passed. -/
theorem parse_skip (w : List Char) : parse w.length p (w ++ l) = parse 0 p l := by
  induction w with
  | nil => rfl
  | cons c w ih => exact ih

@[simp] theorem directive_isError (str fmt : List Char) :
    (p.directive str fmt).isError = p.isError := by
  unfold Parse.directive Parse.flush
  split <;> rfl

@[simp] theorem flush_isError : p.flush.isError = p.isError := by
  unfold Parse.flush
  split <;> rfl

@[simp] theorem flush_nstr : p.flush.nstr = [] := by
  unfold Parse.flush
  split
  next => rfl
  next none => exact not_not.mp none

@[simp] theorem directive_nstr (str fmt : List Char) : (p.directive str fmt).nstr = [] := flush_nstr

theorem directive_vec (str fmt : List Char) :
    (p.directive str fmt).vec = p.flush.vec ++ [.directive str fmt] := rfl

/-- **An error stays.** -/
theorem parse_isError {skip : Nat} (error : p.isError = true) :
    (parse skip p l).isError = true := by
  induction l generalizing skip p with
  | nil => cases skip <;> exact error
  | cons c l ih =>
    cases skip with
    | succ skip => exact ih error
    | zero =>
      rw [parse]
      split
      · exact ih error
      · split
        · exact ih error
        · split
          · exact ih ((directive_isError ..).trans error)
          · exact ih rfl
          · exact ih ((directive_isError ..).trans error)

theorem vec_isPrefix_flush : p.vec <+: p.flush.vec := by
  unfold Parse.flush
  split
  · exact List.prefix_append _ _
  · exact List.prefix_rfl

theorem vec_isPrefix_directive (str fmt : List Char) : p.vec <+: (p.directive str fmt).vec :=
  vec_isPrefix_flush.trans (List.prefix_append _ _)

/-- **The triples stay.** -/
theorem parse_vec {skip : Nat} : p.vec <+: (parse skip p l).vec := by
  induction l generalizing skip p with
  | nil => cases skip <;> exact List.prefix_rfl
  | cons c l ih =>
    cases skip with
    | succ skip => exact ih
    | zero =>
      rw [parse]
      split
      · exact ih (p := p.append c)
      · split
        · exact ih (p := p.append '%')
        · split
          · exact (vec_isPrefix_directive ..).trans ih
          · exact (List.prefix_append _ _).trans (ih (p := p.patternError))
          · exact (vec_isPrefix_directive ..).trans ih

/-- **At a directive**: an error, or a name and a format, and the walk goes on behind them. -/
theorem parse_percent (single : l.head? ≠ some '%') :
    (parse 0 p ('%' :: l)).isError = true ∨ ∃ str fmt later, Found l str fmt later ∧
      parse 0 p ('%' :: l) = parse 0 (p.directive str fmt) later := by
  rw [parse, if_neg (by simp), if_neg single]
  rcases scanStr_cases [] l with unclosed | ⟨str, later, plain, split, noPercent⟩ |
    ⟨str, fmt, later, closed, split, noPercent⟩
  · rw [unclosed]
    exact .inl (parse_isError rfl)
  · rw [plain, split]
    exact .inr ⟨str, [], later, .plain rfl noPercent, parse_skip str⟩
  · rw [closed, split]
    refine .inr ⟨str, fmt, later, .closed rfl noPercent, ?_⟩
    have passed := parse_skip (p := p.directive str fmt) (l := later)
      (str ++ '{' :: (fmt ++ ['}']))
    simpa [Nat.add_assoc, Nat.add_comm, Nat.add_left_comm] using passed

end Walk

end Sylar.Log
