/-
**Whether the listener gets through the two sets.**

The loop over the new value has a case for a name that is not in the old value and one for a
definition that has changed. `find` compares by name, and what is the same under its name falls
through both: `logger` is still null when the shared tail of the loop dereferences it. The sets need
only differ somewhere for the listener to run.

* `Processed` — both sets, through to their last element.
* `listener_safe_iff` — **the listener processes every element exactly when no definition of the new
  value is in the old one**; `unchanged_dereferenced` — one of two definitions is changed.
-/

import Sylar.Log.Dump

namespace Sylar.Log

open Sylar.Library

/-- **Every element is processed**: those of the new value are configured, under their names; those
of the old value that have no successor are silenced. -/
structure Processed (oldValue newValue : DefineSet) (m m' : LoggerManager) : Prop where
  defined : ∀ d ∈ newValue.elems,
    m'.logger d.name = some ((base oldValue m.root d (m.logger d.name)).configured d)
  removed : ∀ d ∈ oldValue.elems, newValue.find d.name = none →
    ∃ l, m'.logger d.name = some l ∧ l.level = .level100 ∧ l.appenders = []

/-- A run of the listener that gets through has processed every element. -/
theorem processed_of_listener {oldValue newValue : DefineSet} {m m' : LoggerManager}
    (named : m.Named) (ran : listener oldValue newValue m = some m') :
    Processed oldValue newValue m m' := by
  obtain ⟨-, -, wrote⟩ := wrote_listener oldValue newValue named ran
  constructor
  · intro d member
    rw [wrote, DefineSet.find_of_mem member]
    rfl
  · intro d member gone
    rw [wrote, gone, DefineSet.find_of_mem member]
    simp only [kept, gone]
    exact ⟨_, rfl, rfl, rfl⟩

/-- A set has the definition under its name exactly when it has the definition. -/
theorem DefineSet.find_name_eq_some_iff {s : DefineSet} {d : LogDefine} :
    s.find d.name = some d ↔ d ∈ s.elems :=
  DefineSet.find_eq_some_iff.trans (and_iff_left rfl)

/-- **The listener dereferences no null pointer and processes every element** if and only if no
definition of the new value is in the old one as it is. -/
theorem listener_safe_iff (s : Holders) (reached : holders.Reachable s)
    (oldValue newValue : DefineSet) (typed : newValue.Typed) :
    (∃ m', listener oldValue newValue s.manager = some m' ∧
      Processed oldValue newValue s.manager m') ↔
      ∀ d ∈ newValue.elems, d ∉ oldValue.elems := by
  have named := named_of_reachable reached
  have runs : (listener oldValue newValue s.manager).isSome = true ↔
      ∀ d ∈ newValue.elems, d ∉ oldValue.elems := by
    rw [listener_isSome oldValue newValue named, and_iff_left typed]
    exact forall₂_congr fun d _ => not_congr DefineSet.find_name_eq_some_iff
  rw [← runs, Option.isSome_iff_exists]
  constructor
  · rintro ⟨m', ran, -⟩
    exact ⟨m', ran⟩
  · rintro ⟨m', ran⟩
    exact ⟨m', ran, processed_of_listener named ran⟩

/-- A definition that stays as it is. -/
def keptDefine : LogDefine := { name := "a", level := .info, appenders := [{ type := 2 }] }

/-- An old value, with another definition. -/
def twoDefines : DefineSet := ⟨[keptDefine, { name := "b" }], by decide⟩

/-- A new value, in which the other definition has changed. -/
def oneChanged : DefineSet := ⟨[keptDefine, { name := "b", level := .info }], by decide⟩

/-- A new value, in which the first has changed, the other is gone and there is a third. -/
def allChanged : DefineSet :=
  ⟨[{ keptDefine with level := .warn }, { name := "c", appenders := [{ type := 1 }] }], by decide⟩

/-- With every definition changed, added or removed, the listener gets through. -/
theorem listener_safe_changed :
    ∃ m', listener twoDefines allChanged Holders.start.manager = some m' ∧
      Processed twoDefines allChanged Holders.start.manager m' :=
  (listener_safe_iff .start (.start rfl) twoDefines allChanged (by decide)).mpr (by decide)

/-- **One of two definitions is changed**, and the listener dereferences a null pointer at the
other. -/
theorem unchanged_dereferenced :
    twoDefines ≠ oneChanged ∧ twoDefines.Typed ∧ oneChanged.Typed ∧
      listener twoDefines oneChanged Holders.start.manager = none := by
  refine ⟨by decide, by decide, by decide, Option.not_isSome_iff_eq_none.mp fun isSome => ?_⟩
  have changed := (listener_isSome twoDefines oneChanged LoggerManager.Named.fresh).mp isSome
  exact changed.1 keptDefine List.mem_cons_self rfl

end Sylar.Log
