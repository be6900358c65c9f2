/-
**What a sequence of logging configurations leaves.**

`setValue` is called with one value after the other. The logger of a name lives through the values
that have the name: it is made when the name is added, every later definition is put on top of what
is there, and a removal ends it. A `Ledger` records just that, the definitions of each name since it
was added.

* `Represents` — **the manager has what its ledger says**: every logger is a new one with the
  definitions of its streak put on it in turn. `represents_setValue`, `represents_install`.
* `Overrides` — a definition leaves nothing of the earlier ones: they have no appenders, and the
  pattern is its own, or still the default. `config_configured_iff`.
* `depends_on_latest_iff` — **the last value alone decides** exactly when no value repeats a
  definition of the one before it and every definition overrides its streak.
-/

import Mathlib.Data.List.Induction
import Sylar.Log.Listener

namespace Sylar.Log

open Sylar.Library

/-! ### What is compared -/

/-- The state after the values are set one after the other. -/
def install (values : List DefineSet) : Option Logging := values.foldlM Logging.setValue .start

/-- The configuration of the logger that `getLogger` returns. -/
def LoggerManager.configOf (m : LoggerManager) (name : String) : LoggerConfig :=
  let (m, logger) := m.getLogger name
  (m.heap logger).config

/-- **The configuration depends on the last value only.** -/
def DependsOnLatest (history : List DefineSet) (v : DefineSet) : Prop :=
  ∃ s alone, install (history ++ [v]) = some s ∧ install [v] = some alone ∧
    ∀ d ∈ v.elems, s.manager.configOf d.name = alone.manager.configOf d.name

/-! ### The ledger -/

/-- The value, and by name the definitions since the name was added. -/
structure Ledger where
  value : DefineSet
  streak : String → List LogDefine

namespace Ledger

def start : Ledger := ⟨.empty, fun _ => []⟩

def setValue (l : Ledger) (v : DefineSet) : Ledger :=
  if v = l.value then l
  else ⟨v, fun name => (v.find name).elim [] fun d => l.streak name ++ [d]⟩

theorem streak_setValue {l : Ledger} {v : DefineSet} (changed : v ≠ l.value) (name : String) :
    (l.setValue v).streak name = (v.find name).elim [] fun d => l.streak name ++ [d] := by
  rw [setValue, if_neg changed]

/-- After a value is set it is the value. -/
theorem value_setValue (l : Ledger) (v : DefineSet) : (l.setValue v).value = v := by
  unfold setValue
  split
  next same => exact same.symm
  next => rfl

/-- The value is the old one, or has none of its definitions. -/
def Accepts (l : Ledger) (v : DefineSet) : Prop :=
  v = l.value ∨ ∀ d ∈ v.elems, d ∉ l.value.elems

instance (l : Ledger) (v : DefineSet) : Decidable (l.Accepts v) :=
  inferInstanceAs (Decidable (_ ∨ _))

/-- The same for values that are set one after the other. -/
def AcceptsAll : Ledger → List DefineSet → Prop
  | _, [] => True
  | l, v :: values => l.Accepts v ∧ (l.setValue v).AcceptsAll values

instance AcceptsAll.decide : (l : Ledger) → (values : List DefineSet) → Decidable (l.AcceptsAll values)
  | _, [] => isTrue trivial
  | l, v :: values =>
      have := AcceptsAll.decide (l.setValue v) values
      inferInstanceAs (Decidable (_ ∧ _))

end Ledger

/-- The ledger after the values are set one after the other. -/
def ledger (values : List DefineSet) : Ledger := values.foldl Ledger.setValue .start

/-- The pattern that definitions leave: the last one that can be used, or the default. -/
def patternOf (definitions : List LogDefine) : String :=
  definitions.foldl (fun pattern d => if Usable d.formatter then d.formatter else pattern)
    defaultPattern

/-- **Nothing of the earlier definitions shows through.** -/
def Overrides (earlier : List LogDefine) (d : LogDefine) : Prop :=
  (∀ e ∈ earlier, e.appenders = []) ∧ (Usable d.formatter ∨ patternOf earlier = defaultPattern)

instance (earlier : List LogDefine) (d : LogDefine) : Decidable (Overrides earlier d) :=
  inferInstanceAs (Decidable ((∀ e ∈ earlier, e.appenders = []) ∧ (_ ∨ _)))

/-- **The condition**: no value repeats a definition of a different one before it, and every
definition of the last value overrides the earlier ones of its streak. -/
def Covered (history : List DefineSet) (v : DefineSet) : Prop :=
  Ledger.start.AcceptsAll (history ++ [v]) ∧
    ∀ d ∈ v.elems, Overrides ((ledger (history ++ [v])).streak d.name).dropLast d

instance (history : List DefineSet) (v : DefineSet) : Decidable (Covered history v) :=
  inferInstanceAs (Decidable (_ ∧ ∀ d ∈ v.elems, _))

/-! ### Definitions on top of each other -/

namespace Logger

/-- A new logger with the definitions put on it in turn. -/
def replay (name : String) (definitions : List LogDefine) : Logger :=
  definitions.foldl configured { name }

theorem replay_concat (name : String) (earlier : List LogDefine) (d : LogDefine) :
    replay name (earlier ++ [d]) = (replay name earlier).configured d := List.foldl_concat ..

theorem pattern_configured (l : Logger) (d : LogDefine) :
    (l.configured d).formatter.pattern =
      if Usable d.formatter then d.formatter else l.formatter.pattern := by
  unfold configured
  split <;> rfl

theorem pattern_replay (name : String) (definitions : List LogDefine) :
    (replay name definitions).formatter.pattern = patternOf definitions := by
  induction definitions using List.reverseRecOn with
  | nil => rfl
  | append_singleton earlier d ih =>
    rw [replay_concat, pattern_configured, ih, patternOf, patternOf, List.foldl_concat]

/-- Appenders are only ever added. -/
theorem appenders_replay_eq_nil (name : String) (definitions : List LogDefine) :
    (replay name definitions).appenders = [] ↔ ∀ d ∈ definitions, d.appenders = [] := by
  induction definitions using List.reverseRecOn with
  | nil => simp [replay]
  | append_singleton earlier d ih =>
    rw [replay_concat, List.forall_mem_append, ← ih, configured]
    simp

/-- **A definition makes of a logger what it makes of a new one** when the logger has no appenders
and the pattern is the definition's, or still the default. -/
theorem config_configured_iff (l : Logger) (name : String) (d : LogDefine) :
    (l.configured d).config = (configured { name } d).config ↔
      l.appenders = [] ∧ (Usable d.formatter ∨ l.formatter.pattern = defaultPattern) := by
  constructor
  · intro same
    have patterns := congrArg LoggerConfig.pattern same
    have lengths := congrArg (fun c => c.appenders.length) same
    simp only [config, configured, List.map_append, List.length_append, List.length_map] at lengths
    refine ⟨List.eq_nil_of_length_eq_zero (by simpa using lengths), ?_⟩
    by_cases usable : Usable d.formatter
    · exact .inl usable
    · change (l.configured d).formatter.pattern = (configured { name } d).formatter.pattern at patterns
      rw [pattern_configured, pattern_configured, if_neg usable, if_neg usable] at patterns
      exact .inr patterns
  · rintro ⟨bare, usable | default⟩
    · simp [config, configured, bare, usable]
    · have formatter : l.formatter = .ofPattern defaultPattern :=
        LogFormatter.ext_pattern (by simpa using default)
      simp [config, configured, bare, formatter]

/-- The last definition of a streak decides exactly when it overrides the others. -/
theorem config_replay_iff (name : String) (earlier : List LogDefine) (d : LogDefine) :
    (replay name (earlier ++ [d])).config = (replay name [d]).config ↔ Overrides earlier d := by
  rw [replay_concat, show replay name [d] = configured { name } d from rfl, config_configured_iff,
    appenders_replay_eq_nil, pattern_replay]
  rfl

end Logger

/-! ### The manager has what its ledger says -/

/-- **Every logger is a new one with the definitions of its streak put on it.** The streak ends with
the definition that the value has; a name that the value does not have has none. -/
structure Represents (s : Logging) (l : Ledger) : Prop where
  named : s.manager.Named
  value : s.value = l.value
  logger : ∀ {name d}, l.value.find name = some d →
    s.manager.logger name = some (Logger.replay name (l.streak name))
  ends : ∀ {name d}, l.value.find name = some d → ∃ earlier, l.streak name = earlier ++ [d]
  absent : ∀ {name}, l.value.find name = none → l.streak name = []

theorem Represents.start : Represents .start .start where
  named := .fresh
  value := rfl
  logger := fun found => by cases found
  ends := fun found => by cases found
  absent := fun _ => rfl

section Steps

variable {s s' : Logging} {l : Ledger} {v : DefineSet}

/-- **`setValue` runs through exactly on the values that the ledger accepts.** -/
theorem isSome_setValue (represents : Represents s l) (typed : v.Typed) :
    (s.setValue v).isSome = true ↔ l.Accepts v := by
  unfold Logging.setValue Ledger.Accepts
  rw [represents.value]
  by_cases same : v = l.value
  · simp [same]
  · rw [if_neg same, Option.isSome_map, listener_isSome _ _ represents.named]
    simp only [same, typed, and_true, false_or]
    refine forall₂_congr fun d member => not_congr ?_
    exact ⟨fun found => (DefineSet.find_eq_some_iff.mp found).1, DefineSet.find_of_mem⟩

/-- **A value that is set is recorded.** -/
theorem represents_setValue (represents : Represents s l) (ran : s.setValue v = some s') :
    Represents s' (l.setValue v) := by
  unfold Logging.setValue at ran
  rw [represents.value] at ran
  by_cases same : v = l.value
  · rw [if_pos same] at ran
    obtain rfl := Option.some.inj ran
    rw [Ledger.setValue, if_pos same]
    exact represents
  · rw [if_neg same] at ran
    obtain ⟨m, listened, rfl⟩ := Option.map_eq_some_iff.mp ran
    obtain ⟨named, -, wrote⟩ := wrote_listener _ _ represents.named listened
    have value := l.value_setValue v
    refine ⟨named, value.symm, fun {name d} found => ?_, fun {name d} found => ?_,
      fun {name} found => ?_⟩ <;> rw [value] at found <;>
      simp only [Ledger.streak_setValue same, found, Option.elim_some, Option.elim_none]
    · have own : d.name = name := (DefineSet.find_eq_some_iff.mp found).2
      have before : base l.value s.manager.root d (s.manager.logger name) =
          Logger.replay name (l.streak name) := by
        unfold base
        rw [own]
        cases oldHas : l.value.find name with
        | none => rw [represents.absent oldHas]; rfl
        | some e => rw [represents.logger oldHas]; rfl
      rw [wrote name, found, Logger.replay_concat, ← before]
      rfl
    · exact ⟨l.streak name, rfl⟩

/-- The values that the ledger accepts run through one after the other. -/
theorem isSome_install (represents : Represents s l) {values : List DefineSet}
    (typed : ∀ w ∈ values, w.Typed) :
    (values.foldlM Logging.setValue s).isSome = true ↔ l.AcceptsAll values := by
  induction values generalizing s l with
  | nil => simp [Ledger.AcceptsAll]
  | cons v values ih =>
    obtain ⟨first, rest⟩ := List.forall_mem_cons.mp typed
    rw [List.foldlM_cons, Ledger.AcceptsAll, ← isSome_setValue represents first]
    cases ran : s.setValue v with
    | none => simp
    | some s' =>
      rw [← ih (represents_setValue represents ran) rest]
      simp

/-- **Values that are set one after the other are recorded.** -/
theorem represents_install (represents : Represents s l) {values : List DefineSet}
    (ran : values.foldlM Logging.setValue s = some s') :
    Represents s' (values.foldl Ledger.setValue l) := by
  induction values generalizing s l with
  | nil =>
    obtain rfl := Option.some.inj ran
    exact represents
  | cons v values ih =>
    rw [List.foldlM_cons] at ran
    obtain ⟨middle, first, rest⟩ := Option.bind_eq_some_iff.mp ran
    exact ih (represents_setValue represents first) rest

end Steps

/-! ### The last value -/

theorem Represents.configOf {s : Logging} {l : Ledger} (represents : Represents s l)
    {name : String} {d : LogDefine} (found : l.value.find name = some d) :
    s.manager.configOf name = (Logger.replay name (l.streak name)).config := by
  have picked := LoggerManager.Picked.getLogger represents.named name
  show ((s.manager.getLogger name).1.heap (s.manager.getLogger name).2).config = _
  rw [picked.object, represents.logger found, Option.getD_some]

theorem value_ledger_concat (history : List DefineSet) (v : DefineSet) :
    (ledger (history ++ [v])).value = v := by
  rw [ledger, List.foldl_concat, Ledger.value_setValue]

/-- A value that is set alone gives each name its own definition. -/
theorem streak_alone {v : DefineSet} {d : LogDefine} (member : d ∈ v.elems) :
    (ledger [v]).streak d.name = [d] := by
  have differs : v ≠ Ledger.start.value := by
    rintro rfl
    cases member
  show (Ledger.setValue .start v).streak d.name = [d]
  rw [Ledger.streak_setValue differs, DefineSet.find_of_mem member]
  rfl

theorem acceptsAll_alone (v : DefineSet) : Ledger.start.AcceptsAll [v] :=
  ⟨.inr fun _ _ none => (List.not_mem_nil none).elim, trivial⟩

/-- **The last value alone decides the configuration exactly when it covers the history.** -/
theorem depends_on_latest_iff (history : List DefineSet) (v : DefineSet)
    (typed : ∀ w ∈ history ++ [v], w.Typed) : DependsOnLatest history v ↔ Covered history v := by
  have typedLast : ∀ w ∈ [v], w.Typed := fun w member =>
    typed w (List.mem_append_right history member)
  obtain ⟨alone, ranAlone⟩ :=
    Option.isSome_iff_exists.mp ((isSome_install .start typedLast).mpr (acceptsAll_alone v))
  have recordedAlone := represents_install .start ranAlone
  have runs := isSome_install .start typed
  -- of two runs, the loggers of a definition agree exactly when it overrides its streak
  have agree : ∀ s, install (history ++ [v]) = some s → ∀ d ∈ v.elems,
      (s.manager.configOf d.name = alone.manager.configOf d.name ↔
        Overrides ((ledger (history ++ [v])).streak d.name).dropLast d) := by
    intro s ran d member
    have recorded := represents_install .start ran
    have found : (ledger (history ++ [v])).value.find d.name = some d := by
      rw [value_ledger_concat]
      exact DefineSet.find_of_mem member
    have foundAlone : (ledger [v]).value.find d.name = some d := by
      rw [← List.nil_append [v], value_ledger_concat]
      exact DefineSet.find_of_mem member
    obtain ⟨earlier, streak⟩ := recorded.ends found
    change (ledger (history ++ [v])).streak d.name = earlier ++ [d] at streak
    rw [recorded.configOf found, recordedAlone.configOf foundAlone]
    change (Logger.replay d.name ((ledger (history ++ [v])).streak d.name)).config =
      (Logger.replay d.name ((ledger [v]).streak d.name)).config ↔ _
    rw [streak, streak_alone member, List.dropLast_concat, Logger.config_replay_iff]
  constructor
  · rintro ⟨s, alone', ran, ranAlone', same⟩
    obtain rfl := Option.some.inj (ranAlone.symm.trans ranAlone')
    exact ⟨runs.mp (Option.isSome_iff_exists.mpr ⟨s, ran⟩),
      fun d member => (agree s ran d member).mp (same d member)⟩
  · rintro ⟨accepted, overrides⟩
    obtain ⟨s, ran⟩ := Option.isSome_iff_exists.mp (runs.mpr accepted)
    exact ⟨s, alone, ran, ranAlone,
      fun d member => (agree s ran d member).mpr (overrides d member)⟩

/-- The logger `system`, alone. -/
def systemOnly (level : Level) (appenders : List LogAppenderDefine) : DefineSet :=
  .single { name := "system", level, appenders }

/-- The first value gives `system` no appender, and the default pattern stays. -/
theorem depends_on_latest_iff_bare :
    (∀ w ∈ [systemOnly .debug []] ++ [systemOnly .error [{ type := 2 }]], w.Typed) ∧
      DependsOnLatest [systemOnly .debug []] (systemOnly .error [{ type := 2 }]) :=
  ⟨by decide, (depends_on_latest_iff _ _ (by decide)).mpr (by decide +kernel)⟩

/-- **Appenders pile up**: when only the level of `system` changes, its logger has the appender of
the first value and that of the second. -/
theorem appenders_pile_up :
    (∀ w ∈ [systemOnly .debug [{ type := 2 }]] ++ [systemOnly .error [{ type := 2 }]], w.Typed) ∧
      ¬ DependsOnLatest [systemOnly .debug [{ type := 2 }]] (systemOnly .error [{ type := 2 }]) := by
  refine ⟨by decide, ?_⟩
  rintro ⟨s, alone, ran, ranAlone, same⟩
  have both : (install ([systemOnly .debug [{ type := 2 }]] ++
      [systemOnly .error [{ type := 2 }]])).map
        (fun s => (s.manager.configOf "system").appenders.length) = some 2 := by decide +kernel
  have one : (install [systemOnly .error [{ type := 2 }]]).map
      (fun s => (s.manager.configOf "system").appenders.length) = some 1 := by decide +kernel
  rw [ran, Option.map_some] at both
  rw [ranAlone, Option.map_some] at one
  have agree : s.manager.configOf "system" = alone.manager.configOf "system" :=
    same _ (List.mem_singleton_self _)
  rw [agree, Option.some.inj one] at both
  cases both

end Sylar.Log
