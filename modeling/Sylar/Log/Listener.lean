/-
**What the listener does, by name.**

The manager is looked at through the names: `logger name` is the object under `name`. A round of
either of the listener's loops writes that of one name, and the names of a set differ, so the
listener writes each name once.

* `LoggerManager.Named` — a logger is kept under its own name, so no two names share one.
* `Logger.configured`, `configure_eq` — what a definition does to its logger: level and formatter are
  replaced, the appenders are added to those that are there.
* `Picked` — the logger that a round has in hand; `Picked.write` and `Picked.addLogger` keep it, and
  `Picked.wrote` ends the round.
* `wrote_define`, `wrote_remove` — what one round of each loop leaves.
* `listener_isSome` — **the listener runs through exactly when no definition is unchanged**, and
  every appender has a type.
* `wrote_listener` — **what it leaves under a name.**
-/

import Sylar.Log.Manager

namespace Sylar.Log

open Sylar.Library

/-! ### One definition -/

/-- A type that the listener makes an appender for. -/
def LogAppenderDefine.Typed (a : LogAppenderDefine) : Prop := a.type = 1 ∨ a.type = 2

instance (a : LogAppenderDefine) : Decidable a.Typed := inferInstanceAs (Decidable (_ ∨ _))

def LogDefine.Typed (d : LogDefine) : Prop := ∀ a ∈ d.appenders, a.Typed

instance (d : LogDefine) : Decidable d.Typed :=
  inferInstanceAs (Decidable (∀ a ∈ d.appenders, a.Typed))

def DefineSet.Typed (s : DefineSet) : Prop := ∀ d ∈ s.elems, d.Typed

instance (s : DefineSet) : Decidable s.Typed := inferInstanceAs (Decidable (∀ d ∈ s.elems, d.Typed))

/-- The class of the appender that is made for a definition with a type. -/
def LogAppenderDefine.kind (a : LogAppenderDefine) : AppenderKind :=
  if a.type = 1 then .fileLogAppender a.file else .stdoutLogAppender

namespace Logger

/-- What a definition does to its logger. -/
def configured (l : Logger) (i : LogDefine) : Logger :=
  let formatter := if Usable i.formatter then .ofPattern i.formatter else l.formatter
  { l with
    level := i.level
    formatter
    appenders := l.appenders ++ i.appenders.map fun a => ⟨a.kind, a.level, some formatter⟩ }

/-- What the removal of its definition does to a logger. -/
def removed (l : Logger) : Logger := (l.setLevel .level100).clearAppenders

theorem addDefined_eq (l : Logger) (a : LogAppenderDefine) :
    l.addDefined a = if a.Typed
      then some { l with appenders := l.appenders ++ [⟨a.kind, a.level, some l.formatter⟩] }
      else none := by
  unfold addDefined LogAppenderDefine.make LogAppenderDefine.Typed LogAppenderDefine.kind
  by_cases file : a.type = 1
  · simp [file, addAppender]
  · by_cases stdout : a.type = 2
    · simp [stdout, addAppender]
    · simp [file, stdout]

/-- The loop over the appenders. -/
theorem foldlM_addDefined :
    ∀ (appenders : List LogAppenderDefine) (l : Logger),
      appenders.foldlM addDefined l = if ∀ a ∈ appenders, a.Typed
        then some { l with appenders :=
          l.appenders ++ appenders.map fun a => ⟨a.kind, a.level, some l.formatter⟩ }
        else none
  | [], l => by simp
  | a :: appenders, l => by
      rw [List.foldlM_cons, addDefined_eq]
      by_cases typed : a.Typed
      · rw [if_pos typed, Option.bind_eq_bind, Option.bind_some, foldlM_addDefined appenders]
        simp [typed]
      · simp [typed]

/-- **`configure` runs through on a definition whose appenders have types.** -/
theorem configure_eq (l : Logger) (i : LogDefine) :
    l.configure i = if i.Typed then some (l.configured i) else none := by
  have formatted : (if i.formatter ≠ "" then (l.setLevel i.level).setFormatter i.formatter
      else l.setLevel i.level) = { l with
        level := i.level
        formatter := if Usable i.formatter then .ofPattern i.formatter else l.formatter } := by
    by_cases blank : i.formatter = ""
    · simp [blank, Usable, setLevel]
    · cases wrong : (LogFormatter.ofPattern i.formatter).isError with
      | false => simp [blank, wrong, Usable, setFormatter, setLevel]
      | true => simp [blank, wrong, Usable, setFormatter, setLevel]
  unfold configure
  simp only [formatted]
  exact foldlM_addDefined i.appenders _

end Logger

/-! ### The manager by name -/

namespace LoggerManager

variable {m m' : LoggerManager}

/-- What the manager has under a name. -/
def logger (m : LoggerManager) (name : String) : Option Logger :=
  (m.loggers.lookup name).map m.heap

/-- **A logger is kept under its own name.** -/
structure Named (m : LoggerManager) : Prop where
  made : ∀ {name id}, m.loggers.lookup name = some id → id < m.made
  name : ∀ {name id}, m.loggers.lookup name = some id → (m.heap id).name = name

theorem Named.fresh : LoggerManager.fresh.Named where
  made := fun {name id} held => by
    by_cases root : name = "root"
    · subst root
      rw [LoggerManager.fresh, AList.lookup_insert] at held
      cases held
      exact Nat.zero_lt_one
    · rw [LoggerManager.fresh, AList.lookup_insert_ne root, AList.lookup_empty] at held
      cases held
  name := fun {name id} held => by
    by_cases root : name = "root"
    · exact root.symm
    · rw [LoggerManager.fresh, AList.lookup_insert_ne root, AList.lookup_empty] at held
      cases held

/-- A new object is under no name. -/
theorem Named.lookup_ne_made (named : m.Named) (name : String) :
    m.loggers.lookup name ≠ some m.made := fun held => absurd (named.made held) (Nat.lt_irrefl _)

theorem lookup_addLogger (name other : String) (id : LoggerId) :
    (m.addLogger name id).loggers.lookup other =
      if other = name then some id else m.loggers.lookup other := by
  unfold addLogger
  by_cases same : other = name
  · subst same
    rw [if_pos rfl, AList.lookup_insert]
  · rw [if_neg same, AList.lookup_insert_ne same]

theorem lookup_getLogger (name other : String) :
    (m.getLogger name).1.loggers.lookup other =
      if other = name then some (m.getLogger name).2 else m.loggers.lookup other := by
  unfold getLogger
  cases held : m.loggers.lookup name with
  | some id =>
    by_cases same : other = name
    · rw [if_pos same, same, held]
    · rw [if_neg same]
  | none => exact lookup_addLogger name other _

/-- What `getLogger` returns is under the name. -/
theorem lookup_getLogger_self (name : String) :
    (m.getLogger name).1.loggers.lookup name = some (m.getLogger name).2 := by
  rw [lookup_getLogger, if_pos rfl]

/-! ### One round -/

/-- The round for `name` has the logger `id` in hand, with the value `l`: no other name is touched
yet, and `id` is under no other name. -/
structure Picked (m m' : LoggerManager) (name : String) (id : LoggerId) (l : Logger) : Prop where
  named : m'.Named
  root : m'.root = m.root
  made : id < m'.made
  only : ∀ {other}, m'.loggers.lookup other = some id → other = name
  object : m'.heap id = l
  own : l.name = name
  others : ∀ {other}, other ≠ name → m'.logger other = m.logger other

/-- A round left `after` under `name`. -/
structure Wrote (m m' : LoggerManager) (name : String) (after : Option Logger) : Prop where
  named : m'.Named
  root : m'.root = m.root
  logger : m'.logger = Function.update m.logger name after

namespace Picked

variable {name : String} {id : LoggerId} {l : Logger}

theorem newLogger (named : m.Named) (own : l.name = name) :
    Picked m (m.newLogger l).1 name m.made l where
  named :=
    { made := fun held => Nat.lt_succ_of_lt (named.made held)
      name := fun {other id} held => by
        show (Function.update m.heap m.made l id).name = other
        rw [Function.update_of_ne (Nat.ne_of_lt (named.made held)), named.name held] }
  root := rfl
  made := Nat.lt_succ_self _
  only := fun held => absurd held (named.lookup_ne_made _)
  object := Function.update_self ..
  own := own
  others := fun {other} _ => by
    show (m.loggers.lookup other).map (Function.update m.heap m.made l) = _
    unfold LoggerManager.logger
    cases held : m.loggers.lookup other with
    | none => rfl
    | some id =>
      rw [Option.map_some, Option.map_some,
        Function.update_of_ne (Nat.ne_of_lt (named.made held))]

theorem addLogger (picked : Picked m m' name id l) :
    Picked m (m'.addLogger name id) name id l where
  named :=
    { made := fun held => by
        rw [lookup_addLogger] at held
        split at held
        next =>
          obtain rfl := Option.some.inj held
          exact picked.made
        next => exact picked.named.made held
      name := fun held => by
        rw [lookup_addLogger] at held
        split at held
        next same =>
          obtain rfl := Option.some.inj held
          exact (congrArg Logger.name picked.object).trans (picked.own.trans same.symm)
        next => exact picked.named.name held }
  root := picked.root
  made := picked.made
  only := fun held => by
    rw [lookup_addLogger] at held
    split at held
    next same => exact same
    next => exact picked.only held
  object := picked.object
  own := picked.own
  others := fun differ => by
    rw [← picked.others differ]
    unfold LoggerManager.logger
    rw [lookup_addLogger, if_neg differ]
    rfl

theorem write (picked : Picked m m' name id l) (after : Logger) (own : after.name = name) :
    Picked m (m'.write id after) name id after where
  named :=
    { made := picked.named.made
      name := fun {other held} under => by
        show (Function.update m'.heap id after held).name = other
        by_cases here : held = id
        · subst here
          rw [Function.update_self, own, picked.only under]
        · rw [Function.update_of_ne here]
          exact picked.named.name under }
  root := picked.root
  made := picked.made
  only := picked.only
  object := Function.update_self ..
  own := own
  others := fun {other} differ => by
    rw [← picked.others differ]
    unfold LoggerManager.logger
    show (m'.loggers.lookup other).map (Function.update m'.heap id after) = _
    cases under : m'.loggers.lookup other with
    | none => rfl
    | some held =>
      have apart : held ≠ id := by
        rintro rfl
        exact differ (picked.only under)
      rw [Option.map_some, Option.map_some, Function.update_of_ne apart]

/-- The logger in hand is the manager's, made for the name if there is none. -/
theorem getLogger (named : m.Named) (name : String) :
    Picked m (m.getLogger name).1 name (m.getLogger name).2
      ((m.logger name).getD { name, root := some m.root }) := by
  unfold LoggerManager.getLogger LoggerManager.logger
  cases held : m.loggers.lookup name with
  | some id =>
    exact ⟨named, rfl, named.made held,
      fun {other} also => (named.name also).symm.trans (named.name held), rfl, named.name held,
      fun _ => rfl⟩
  | none =>
    have made : Picked m _ name m.made { name, root := some m.root } := .newLogger named rfl
    exact made.addLogger

/-- **The round is over** when the logger in hand is under the name. -/
theorem wrote (picked : Picked m m' name id l) (held : m'.loggers.lookup name = some id) :
    Wrote m m' name (some l) where
  named := picked.named
  root := picked.root
  logger := by
    funext other
    by_cases same : other = name
    · subst same
      rw [Function.update_self, LoggerManager.logger, held, Option.map_some, picked.object]
    · rw [Function.update_of_ne same, picked.others same]

end Picked

end LoggerManager

/-! ### The two loops -/

/-- What the logger of a definition is before it is configured: a new one if the name is not in the
old value, else the one under the name, which `getLogger` makes if there is none. -/
def base (oldValue : DefineSet) (root : LoggerId) (i : LogDefine) (before : Option Logger) : Logger :=
  match oldValue.find i.name with
  | none => { name := i.name }
  | some _ => before.getD { name := i.name, root := some root }

/-- What a round of the loop over the new value leaves under the name of its definition. -/
def defined (oldValue : DefineSet) (root : LoggerId) (i : LogDefine) (before : Option Logger) :
    Option Logger := some ((base oldValue root i before).configured i)

/-- What a round of the loop over the old value leaves under the name of its definition. -/
def kept (newValue : DefineSet) (root : LoggerId) (i : LogDefine) (before : Option Logger) :
    Option Logger :=
  match newValue.find i.name with
  | some _ => before
  | none => some (before.getD { name := i.name, root := some root }).removed

section Rounds

variable (oldValue newValue : DefineSet) {m m' : LoggerManager} {i : LogDefine}

/-- `pick` has a logger in hand unless the definition is unchanged. -/
theorem pick_cases (named : m.Named) :
    (oldValue.find i.name = some i ∧ pick oldValue m i = (m, none)) ∨
      ∃ m' id, oldValue.find i.name ≠ some i ∧ pick oldValue m i = (m', some id) ∧
        LoggerManager.Picked m m' i.name id (base oldValue m.root i (m.logger i.name)) := by
  unfold pick base
  cases found : oldValue.find i.name with
  | none =>
    exact .inr ⟨_, _, by simp, rfl, LoggerManager.Picked.newLogger named rfl⟩
  | some it =>
    by_cases changed : i ≠ it
    · refine .inr ⟨_, _, fun same => changed (Option.some.inj same).symm, ?_,
        LoggerManager.Picked.getLogger named i.name⟩
      simp only [if_pos changed]
    · obtain rfl := not_not.mp changed
      exact .inl ⟨rfl, if_neg changed⟩

/-- **One round of the loop over the new value.** -/
theorem define_cases (named : m.Named) :
    (¬ (oldValue.find i.name ≠ some i ∧ i.Typed) ∧ define oldValue m i = none) ∨
      ∃ m', (oldValue.find i.name ≠ some i ∧ i.Typed) ∧ define oldValue m i = some m' ∧
        LoggerManager.Wrote m m' i.name (defined oldValue m.root i (m.logger i.name)) := by
  unfold define
  rcases pick_cases oldValue (i := i) named with
    ⟨unchanged, isNull⟩ | ⟨m', id, differs, inHand, picked⟩
  · exact .inl ⟨fun both => both.1 unchanged, by simp [isNull]⟩
  · simp only [inHand, Option.bind_some, picked.object, Logger.configure_eq]
    by_cases typed : i.Typed
    · refine .inr ⟨_, ⟨differs, typed⟩, by rw [if_pos typed, Option.map_some], ?_⟩
      have configured := picked.write ((base oldValue m.root i _).configured i) picked.own
      exact configured.addLogger.wrote ((LoggerManager.lookup_addLogger ..).trans (if_pos rfl))
    · exact .inl ⟨fun both => typed both.2, by rw [if_neg typed, Option.map_none]⟩

/-- A round runs through unless the definition is unchanged, or an appender has no type. -/
theorem isSome_define (named : m.Named) :
    (define oldValue m i).isSome = true ↔ oldValue.find i.name ≠ some i ∧ i.Typed := by
  rcases define_cases oldValue (i := i) named with ⟨stops, isNone⟩ | ⟨m', runs, isSome, _⟩
  · rw [isNone]
    exact ⟨fun isSome => absurd isSome Bool.false_ne_true, fun runs => absurd runs stops⟩
  · rw [isSome]
    exact ⟨fun _ => runs, fun _ => rfl⟩

theorem wrote_define (named : m.Named) (ran : define oldValue m i = some m') :
    LoggerManager.Wrote m m' i.name (defined oldValue m.root i (m.logger i.name)) := by
  rcases define_cases oldValue (i := i) named with ⟨_, isNone⟩ | ⟨m'', _, isSome, wrote⟩
  · cases isNone.symm.trans ran
  · obtain rfl := Option.some.inj (isSome.symm.trans ran)
    exact wrote

/-- **One round of the loop over the old value.** -/
theorem wrote_remove (named : m.Named) :
    LoggerManager.Wrote m (remove newValue m i) i.name
      (kept newValue m.root i (m.logger i.name)) := by
  unfold remove kept
  cases newValue.find i.name with
  | some _ => exact ⟨named, rfl, (Function.update_eq_self ..).symm⟩
  | none =>
    have picked := LoggerManager.Picked.getLogger named i.name
    simp only [picked.object]
    have removed := picked.write (Logger.removed _) picked.own
    exact removed.wrote (LoggerManager.lookup_getLogger_self _)

/-- What both loops keep. -/
def Steady (root : LoggerId) (m : LoggerManager) : Prop := m.Named ∧ m.root = root

theorem writes_define (root : LoggerId) :
    Writes (Steady root) LoggerManager.logger LogDefine.name (defined oldValue root)
      (fun i => oldValue.find i.name ≠ some i ∧ i.Typed) (define oldValue) where
  isSome := fun steady => isSome_define oldValue steady.1
  keeps := fun steady ran => by
    have wrote := wrote_define oldValue steady.1 ran
    exact ⟨wrote.named, wrote.root.trans steady.2⟩
  writes := fun steady ran => by
    rw [(wrote_define oldValue steady.1 ran).logger, steady.2]

theorem writes_remove (root : LoggerId) :
    Writes (Steady root) LoggerManager.logger LogDefine.name (kept newValue root)
      (fun _ => True) (fun m i => some (remove newValue m i)) where
  isSome := fun _ => by simp
  keeps := fun {m i m'} steady ran => by
    obtain rfl := Option.some.inj ran
    have wrote := wrote_remove newValue (i := i) steady.1
    exact ⟨wrote.named, wrote.root.trans steady.2⟩
  writes := fun {m i m'} steady ran => by
    obtain rfl := Option.some.inj ran
    rw [(wrote_remove newValue (i := i) steady.1).logger, steady.2]

/-- The loop over the old value, as one whose body may fail. -/
theorem foldlM_remove (items : List LogDefine) (m : LoggerManager) :
    items.foldlM (fun m i => some (remove newValue m i)) m =
      some (items.foldl (remove newValue) m) := List.foldlM_pure ..

/-- **The listener runs through exactly when no definition is unchanged**, and every appender has a
type. -/
theorem listener_isSome (named : m.Named) :
    (listener oldValue newValue m).isSome = true ↔
      (∀ d ∈ newValue.elems, oldValue.find d.name ≠ some d) ∧ newValue.Typed := by
  unfold listener
  rw [Option.isSome_map, (writes_define oldValue m.root).isSome_foldlM ⟨named, rfl⟩]
  exact ⟨fun all => ⟨fun d member => (all d member).1, fun d member => (all d member).2⟩,
    fun both d member => ⟨both.1 d member, both.2 d member⟩⟩

/-- **What the listener leaves under a name.** -/
theorem wrote_listener (named : m.Named) (ran : listener oldValue newValue m = some m') :
    m'.Named ∧ m'.root = m.root ∧ ∀ name, m'.logger name =
      match newValue.find name with
      | some d => defined oldValue m.root d (m.logger name)
      | none =>
          match oldValue.find name with
          | some d => kept newValue m.root d (m.logger name)
          | none => m.logger name := by
  obtain ⟨middle, first, rfl⟩ := Option.map_eq_some_iff.mp ran
  have defines := writes_define oldValue m.root
  have removes := writes_remove newValue m.root
  have steady := foldlM_invariant defines.keeps ⟨named, rfl⟩ first
  have last := foldlM_remove newValue oldValue.elems middle
  obtain ⟨ends, root⟩ := foldlM_invariant removes.keeps steady last
  refine ⟨ends, root, fun name => ?_⟩
  have defining : middle.logger name = (newValue.find name).elim (m.logger name)
      fun d => defined oldValue m.root d (m.logger name) :=
    defines.view_foldlM newValue.names_differ ⟨named, rfl⟩ first name
  have removing : (oldValue.elems.foldl (remove newValue) middle).logger name =
      (oldValue.find name).elim (middle.logger name)
        fun d => kept newValue m.root d (middle.logger name) :=
    removes.view_foldlM oldValue.names_differ steady last name
  rw [removing, defining]
  cases newHas : newValue.find name with
  | none => cases oldValue.find name <;> rfl
  | some d =>
    -- the removing loop finds the name in the new value and leaves it
    cases oldHas : oldValue.find name with
    | none => rfl
    | some e =>
      have sameName : e.name = name := (DefineSet.find_eq_some_iff.mp oldHas).2
      simp [kept, sameName, newHas]

end Rounds

end Sylar.Log
