/-
**An output stream on a file, as the standard library documents it.**

Nobody else writes to the file or removes it. A stream that has failed writes nothing; opening a file
for output creates it or empties it, and clears the stream.

* `FileStream.close`, `FileStream.openOut`, `FileStream.write` — the operations.
* `FileStream.Usable` — a stream that has failed is not open; every operation here keeps it.
* `reopened_of_usable` — **closing and opening again empties the file.**
* `Appending`, `Appending.write` — after that, what is written is appended.
-/

import Mathlib.Data.List.Basic

namespace Sylar.Library

/-- A stream with its file; `none` is a file that is not there. -/
structure FileStream where
  file : Option (List Char)
  isOpen : Bool := false
  failed : Bool := false
  position : Nat := 0
deriving DecidableEq

namespace FileStream

variable {s : FileStream}

/-- `close()`: it fails if the stream is not open. -/
def close (s : FileStream) : FileStream :=
  if s.isOpen then { s with isOpen := false } else { s with failed := true }

/-- `open(name)` with the default mode: it fails if the stream is open. -/
def openOut (s : FileStream) : FileStream :=
  if s.isOpen then { s with failed := true }
  else { file := some [], isOpen := true, failed := false, position := 0 }

/-- `s << text`. -/
def write (s : FileStream) (text : List Char) : FileStream :=
  if s.failed = false ∧ s.isOpen = true then
    let content := s.file.getD []
    { s with
      file := some (content.take s.position ++ text ++ content.drop (s.position + text.length))
      position := s.position + text.length }
  else { s with failed := true }

/-- What the file holds. -/
def contents (s : FileStream) : List Char := s.file.getD []

/-- A stream that has failed is not open. -/
def Usable (s : FileStream) : Prop := s.failed = true → s.isOpen = false

/-- **The stream is open, at the end of the file**, which holds `content`. -/
structure Appending (s : FileStream) (content : List Char) : Prop where
  file : s.file = some content
  isOpen : s.isOpen = true
  failed : s.failed = false
  position : s.position = content.length

theorem Appending.usable {content : List Char} (appending : Appending s content) : Usable s :=
  fun failed => absurd (appending.failed.symm.trans failed) Bool.false_ne_true

/-- **Closing and opening again empties the file.** -/
theorem reopened_of_usable (usable : s.Usable) :
    Appending (if s.failed = false then s.close else s).openOut [] := by
  have closed : (if s.failed = false then s.close else s).isOpen = false := by
    split
    next =>
      unfold close
      split
      next => rfl
      next shut => exact Bool.eq_false_iff.mpr shut
    next failed => exact usable ((Bool.not_eq_false _).mp failed)
  unfold openOut
  rw [if_neg (Bool.eq_false_iff.mp closed)]
  exact ⟨rfl, rfl, rfl, rfl⟩

/-- **What is written is appended.** -/
theorem Appending.write {content : List Char} (appending : Appending s content)
    (text : List Char) : Appending (s.write text) (content ++ text) := by
  unfold FileStream.write
  rw [if_pos ⟨appending.failed, appending.isOpen⟩]
  refine ⟨?_, appending.isOpen, appending.failed, ?_⟩
  · simp [appending.file, appending.position]
  · simp [appending.position]

/-- The same of several writes. -/
theorem Appending.foldl_write {content : List Char} (appending : Appending s content)
    (texts : List (List Char)) : Appending (texts.foldl FileStream.write s) (content ++ texts.flatten) := by
  induction texts generalizing s content with
  | nil => simpa using appending
  | cons text rest ih =>
    have next := ih (appending.write text)
    rwa [List.append_assoc] at next

end FileStream

end Sylar.Library
