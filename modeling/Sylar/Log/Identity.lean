/-
**Which object a name stands for.**

`getLogger` is called all over the program, often once, into a static `g_logger`; the listener of
`g_log_defines` changes loggers. What a holder has stays in step with the configuration as long as
the manager keeps the same object under the name. A definition whose name is not in the old value
gets a new object, also where the manager has one for the name already.

* `Points` — what a piece of the listener does to the pointers: those of the `added` names are new,
  the others stay. `Points.trans` composes it; `points_listener` — **what the listener does.**
* `Stable` — two calls of `getLogger` for a name return the same object, `root` stays the root
  logger, and the configuration is on the object that is returned.
* `logger_stable` — **it is stable as long as no name is added that a logger was returned for.**
* `unstable_of_held` — an added name that a logger was returned for breaks it.
-/

import Sylar.Library.Machine
import Sylar.Log.Listener

namespace Sylar.Log

open Sylar.Library

/-! ### The program -/

/-- The configuration and its manager. The other field records the results of `getLogger`. -/
structure Holders where
  logging : Logging
  returned : List (String × LoggerId)

/-- A call. -/
inductive Call
  | getLogger (name : String)
  /-- `g_log_defines->setValue` -/
  | setValue (v : DefineSet)
deriving DecidableEq

namespace Holders

variable (s : Holders)

def manager : LoggerManager := s.logging.manager

/-- One call. -/
def next : Call → Option Holders
  | .getLogger name =>
      let (m, logger) := s.manager.getLogger name
      some ⟨{ s.logging with manager := m }, (name, logger) :: s.returned⟩
  | .setValue v => (s.logging.setValue v).map fun logging => { s with logging }

/-- The fresh manager, before any call. -/
def start : Holders := ⟨.start, []⟩

end Holders

/-- The program's runs. -/
def holders : Machine Holders Call := ⟨fun s => s = .start, Holders.next⟩

/-- **What `getLogger` and the listener keep** holds of the manager in every run. -/
theorem manager_invariant {P : LoggerManager → Prop} (fresh : P .fresh)
    (gets : ∀ {m} name, P m → P (m.getLogger name).1)
    (listens : ∀ {m m' oldValue newValue}, P m → listener oldValue newValue m = some m' → P m')
    {s : Holders} (reached : holders.Reachable s) : P s.manager := by
  refine reached.invariant (P := fun s => P s.manager) ?_ fun s call s' holds _ stepped => ?_
  · rintro s rfl
    exact fresh
  · cases call with
    | getLogger name =>
      cases stepped
      exact gets name holds
    | setValue v =>
      obtain ⟨logging, set, rfl⟩ := Option.map_eq_some_iff.mp stepped
      unfold Logging.setValue at set
      split at set
      next =>
        cases set
        exact holds
      next =>
        obtain ⟨m, ran, rfl⟩ := Option.map_eq_some_iff.mp set
        exact listens holds ran

/-! ### What should hold -/

/-- **A name stands for one object**, and the configuration is on it. -/
structure Stable (s : Holders) : Prop where
  same : ∀ {name a b}, (name, a) ∈ s.returned → (name, b) ∈ s.returned → a = b
  held : ∀ {name a}, (name, a) ∈ s.returned → s.manager.loggers.lookup name = some a
  root : s.manager.loggers.lookup "root" = some s.manager.getRoot
  reaches : ∀ {name a d}, (name, a) ∈ s.returned → s.logging.value.find name = some d →
    ∃ before : Logger, s.manager.heap a = before.configured d

/-- **The condition**: a name that an update adds is not `root`, and no logger was returned for it. -/
def Unheld (s : Holders) : Call → Prop
  | .getLogger _ => True
  | .setValue v => ∀ d ∈ v.elems, s.logging.value.find d.name = none →
      d.name ≠ "root" ∧ ∀ p ∈ s.returned, p.1 ≠ d.name

instance Unheld.decide (s : Holders) : (call : Call) → Decidable (Unheld s call)
  | .getLogger _ => isTrue trivial
  | .setValue v => inferInstanceAs (Decidable (∀ d ∈ v.elems, _ → _ ∧ ∀ p ∈ s.returned, _))

/-! ### The pointers -/

namespace LoggerManager

variable {m m' m'' : LoggerManager} {added later : String → Prop}

/-- The pointers from `m` to `m'`: under the `added` names there are new objects, and what was under
another name is there still. -/
structure Points (m m' : LoggerManager) (added : String → Prop) : Prop where
  grows : m.made ≤ m'.made
  stays : ∀ {name id}, ¬ added name → m.loggers.lookup name = some id →
    m'.loggers.lookup name = some id
  fresh : ∀ {name}, added name → ∃ id, m.made ≤ id ∧ m'.loggers.lookup name = some id

namespace Points

theorem refl (m : LoggerManager) : Points m m fun _ => False :=
  ⟨Nat.le_refl _, fun _ held => held, False.elim⟩

/-- **One after the other**, when the second adds none of the names of the first. -/
theorem trans (first : Points m m' added) (second : Points m' m'' later)
    (apart : ∀ name, added name → ¬ later name) :
    Points m m'' fun name => added name ∨ later name where
  grows := Nat.le_trans first.grows second.grows
  stays := fun neither held =>
    second.stays (fun adds => neither (.inr adds)) (first.stays (fun adds => neither (.inl adds)) held)
  fresh := fun {name} adds => by
    rcases adds with adds | adds
    · obtain ⟨id, new, held⟩ := first.fresh adds
      exact ⟨id, new, second.stays (apart name adds) held⟩
    · obtain ⟨id, new, held⟩ := second.fresh adds
      exact ⟨id, Nat.le_trans first.grows new, held⟩

theorem congr (points : Points m m' added) (same : ∀ name, later name ↔ added name) :
    Points m m' later := by
  rwa [funext fun name => propext (same name)]

end Points

/-- `getLogger` adds a logger, and takes none away. -/
theorem points_getLogger (m : LoggerManager) (name : String) :
    Points m (m.getLogger name).1 fun _ => False where
  grows := by
    unfold getLogger
    cases m.loggers.lookup name with
    | some id => exact Nat.le_refl _
    | none => exact Nat.le_succ _
  stays := fun {other id} _ held => by
    rw [lookup_getLogger]
    split
    next same =>
      subst same
      simp only [getLogger, held]
    next => exact held
  fresh := False.elim

end LoggerManager

section Listener

open LoggerManager

variable (oldValue newValue : DefineSet) {m m' : LoggerManager}

/-- A round of the loop over the new value adds the name of its definition, if it is not in the old
value. -/
theorem points_define {i : LogDefine} (ran : define oldValue m i = some m') :
    Points m m' fun name => name = i.name ∧ oldValue.find name = none := by
  unfold define pick at ran
  cases found : oldValue.find i.name with
  | none =>
    simp only [found, Option.bind_some] at ran
    obtain ⟨l, -, rfl⟩ := Option.map_eq_some_iff.mp ran
    refine ⟨Nat.le_succ _, fun {name id} other held => ?_, fun {name} adds => ?_⟩
    · have differs : name ≠ i.name := fun same => other ⟨same, same ▸ found⟩
      rw [lookup_addLogger, if_neg differs]
      exact held
    · refine ⟨m.made, Nat.le_refl _, ?_⟩
      rw [lookup_addLogger, if_pos adds.1]
      rfl
  | some it =>
    have points := points_getLogger m i.name
    simp only [found] at ran
    split at ran
    next =>
      obtain ⟨l, -, rfl⟩ := Option.map_eq_some_iff.mp ran
      refine ⟨points.grows, fun {name id} _ held => ?_, fun {name} adds => ?_⟩
      · -- the logger that is put under the name is the one that is there
        have still := points.stays not_false held
        rw [lookup_addLogger]
        split
        next same => rw [← still, same, lookup_getLogger_self]
        next => exact still
      · rw [adds.1, found] at adds
        cases adds.2
    next => cases ran

theorem points_remove (m : LoggerManager) (i : LogDefine) :
    Points m (remove newValue m i) fun _ => False := by
  unfold remove
  cases newValue.find i.name with
  | some _ => exact .refl m
  | none =>
    have points := points_getLogger m i.name
    exact ⟨points.grows, points.stays, points.fresh⟩

theorem points_foldlM_define :
    ∀ {items : List LogDefine} {m m' : LoggerManager},
      (items.Pairwise fun a b => a.name ≠ b.name) → items.foldlM (define oldValue) m = some m' →
      Points m m' fun name => (∃ i ∈ items, i.name = name) ∧ oldValue.find name = none
  | [], m, m', _, ran => by
      obtain rfl := Option.some.inj ran
      exact (Points.refl m).congr fun name => by simp
  | i :: items, m, m', apart, ran => by
      rw [List.foldlM_cons] at ran
      obtain ⟨middle, first, rest⟩ := Option.bind_eq_some_iff.mp ran
      obtain ⟨differ, apart⟩ := List.pairwise_cons.mp apart
      refine ((points_define oldValue first).trans (points_foldlM_define apart rest)
        fun name adds again => ?_).congr fun name => ?_
      · obtain ⟨⟨j, member, same⟩, -⟩ := again
        exact differ j member (adds.1.symm.trans same.symm)
      · rw [← or_and_right, List.exists_mem_cons_iff, eq_comm]

theorem points_foldl_remove :
    ∀ (items : List LogDefine) (m : LoggerManager),
      Points m (items.foldl (remove newValue) m) fun _ => False
  | [], m => .refl m
  | i :: items, m =>
      ((points_remove newValue m i).trans (points_foldl_remove items _)
        fun _ adds _ => adds).congr fun _ => (or_self_iff).symm

/-- **The listener puts new objects under the names that are added, and no others.** -/
theorem points_listener (ran : listener oldValue newValue m = some m') :
    Points m m' fun name => (newValue.find name).isSome = true ∧ oldValue.find name = none := by
  obtain ⟨middle, first, rfl⟩ := Option.map_eq_some_iff.mp ran
  refine ((points_foldlM_define oldValue newValue.names_differ first).trans
    (points_foldl_remove newValue oldValue.elems middle) fun _ _ adds => adds).congr fun name => ?_
  rw [or_false]
  refine and_congr_left fun _ => ?_
  rw [Option.isSome_iff_exists]
  exact exists_congr fun d => DefineSet.find_eq_some_iff

end Listener

/-! ### Every run -/

/-- What a run keeps: the pointers that were returned, and the configuration by name. -/
structure Kept (s : Holders) : Prop where
  named : s.manager.Named
  held : ∀ {name a}, (name, a) ∈ s.returned → s.manager.loggers.lookup name = some a
  root : s.manager.loggers.lookup "root" = some s.manager.root
  configured : ∀ {name d}, s.logging.value.find name = some d →
    ∃ before : Logger, s.manager.logger name = some (before.configured d)

theorem Kept.start : Kept .start where
  named := .fresh
  held := fun member => absurd member List.not_mem_nil
  root := by decide
  configured := fun found => by cases found

/-- **What is kept is what should hold.** -/
theorem Kept.stable {s : Holders} (kept : Kept s) : Stable s where
  same := fun first second =>
    Option.some.inj ((kept.held first).symm.trans (kept.held second))
  held := kept.held
  root := kept.root
  reaches := fun {name a d} member found => by
    obtain ⟨before, under⟩ := kept.configured found
    rw [LoggerManager.logger, kept.held member, Option.map_some] at under
    exact ⟨before, Option.some.inj under⟩

section Steps

variable {s : Holders}

theorem Kept.getLogger (kept : Kept s) (name : String) :
    Kept ⟨{ s.logging with manager := (s.manager.getLogger name).1 },
      (name, (s.manager.getLogger name).2) :: s.returned⟩ := by
  have picked := LoggerManager.Picked.getLogger kept.named name
  have points := LoggerManager.points_getLogger s.manager name
  have self := LoggerManager.lookup_getLogger_self (m := s.manager) name
  refine ⟨picked.named, fun {other a} member => ?_, ?_, fun {other d} found => ?_⟩
  · rcases List.mem_cons.mp member with same | earlier
    · obtain ⟨rfl, rfl⟩ := Prod.mk.inj same
      exact self
    · exact points.stays not_false (kept.held earlier)
  · exact (points.stays not_false kept.root).trans (congrArg some picked.root.symm)
  · obtain ⟨before, under⟩ := kept.configured found
    refine ⟨before, ?_⟩
    show (s.manager.getLogger name).1.logger other = _
    rw [(picked.wrote self).logger]
    by_cases same : other = name
    · subst same
      rw [Function.update_self, under, Option.getD_some]
    · rw [Function.update_of_ne same, under]

theorem Kept.setValue (kept : Kept s) {v : DefineSet} {logging : Logging}
    (unheld : Unheld s (.setValue v)) (ran : s.logging.setValue v = some logging) :
    Kept { s with logging } := by
  unfold Logging.setValue at ran
  split at ran
  next =>
    obtain rfl := Option.some.inj ran
    exact kept
  next =>
    obtain ⟨m, listened, rfl⟩ := Option.map_eq_some_iff.mp ran
    obtain ⟨named, root, wrote⟩ := wrote_listener _ _ kept.named listened
    have points := points_listener _ _ listened
    -- the names with a holder, and `root`, are not added
    have apart : ∀ {name}, (v.find name).isSome = true ∧ s.logging.value.find name = none →
        name ≠ "root" ∧ ∀ p ∈ s.returned, p.1 ≠ name := by
      rintro name ⟨has, absent⟩
      obtain ⟨d, found⟩ := Option.isSome_iff_exists.mp has
      obtain ⟨member, rfl⟩ := DefineSet.find_eq_some_iff.mp found
      exact unheld d member absent
    refine ⟨named, fun {name a} member => ?_, ?_, fun {name d} found => ?_⟩
    · exact points.stays (fun adds => (apart adds).2 _ member rfl) (kept.held member)
    · exact (points.stays (fun adds => (apart adds).1 rfl) kept.root).trans
        (congrArg some root.symm)
    · refine ⟨base s.logging.value s.manager.root d (s.manager.logger name), (wrote name).trans ?_⟩
      change v.find name = some d at found
      simp only [found]
      rfl

/-- **One call.** -/
theorem Kept.next (kept : Kept s) {call : Call} {s' : Holders} (unheld : Unheld s call)
    (stepped : s.next call = some s') : Kept s' := by
  cases call with
  | getLogger name =>
    obtain rfl := Option.some.inj stepped
    exact kept.getLogger name
  | setValue v =>
    obtain ⟨logging, ran, rfl⟩ := Option.map_eq_some_iff.mp stepped
    exact kept.setValue unheld ran

theorem kept_of_reachable (reached : holders.ReachableWhen Unheld s) : Kept s := by
  refine reached.invariant (P := Kept) ?_ fun s call s' kept unheld stepped =>
    kept.next unheld stepped
  rintro _ rfl
  exact .start

end Steps

/-- **A name stands for one object as long as no update adds a name that a logger was returned
for.** -/
theorem logger_stable {s : Holders} (reached : holders.ReachableWhen Unheld s) : Stable s :=
  (kept_of_reachable reached).stable

/-- The update comes first, and `getLogger` after it, before and after another update. -/
theorem logger_stable_updated : ∃ s, holders.ReachableWhen Unheld s ∧ Stable s ∧
    s.returned.length = 2 := by
  have run : ∃ s, holders.ReachableWhen Unheld s ∧ decide (s.returned.length = 2) = true :=
    Machine.reachableWhen_of_replay (m := holders) (s := .start) rfl
      [.setValue (.single { name := "system", level := .debug }), .getLogger "system",
        .setValue (.single { name := "system", level := .error }), .getLogger "system"] _
      (by decide +kernel)
  obtain ⟨s, reached, two⟩ := run
  exact ⟨s, reached, logger_stable reached, of_decide_eq_true two⟩

/-- **The first update takes `system` from its holder**: `getLogger` returned a logger before, and
returns another one after. -/
theorem replaced_logger : ∃ s, holders.Reachable s ∧ ¬ Stable s := by
  have run : ∃ s, holders.Reachable s ∧
      decide (s.returned = [("system", 2), ("system", 1)]) = true :=
    Machine.reachable_of_replay (m := holders) (s := .start) rfl
      [.getLogger "system", .setValue (.single { name := "system", level := .error }),
        .getLogger "system"] _ (by decide +kernel)
  obtain ⟨s, reached, results⟩ := run
  have returned : s.returned = [("system", 2), ("system", 1)] := of_decide_eq_true results
  refine ⟨s, reached, fun stable => ?_⟩
  have first : ("system", 1) ∈ s.returned := by simp [returned]
  have second : ("system", 2) ∈ s.returned := by simp [returned]
  exact absurd (stable.same first second) (by decide)

/-- **An added name that a logger was returned for breaks it.** -/
theorem unstable_of_held {s s' : Holders} (reached : holders.ReachableWhen Unheld s)
    {call : Call} (stepped : s.next call = some s') (held : ¬ Unheld s call) : ¬ Stable s' := by
  have kept := kept_of_reachable reached
  cases call with
  | getLogger name => exact absurd trivial held
  | setValue v =>
    obtain ⟨logging, ran, rfl⟩ := Option.map_eq_some_iff.mp stepped
    rintro ⟨-, holds, isRoot, -⟩
    refine held fun d member absent => ?_
    have changed : v ≠ s.logging.value := by
      rintro rfl
      rw [DefineSet.find_of_mem member] at absent
      cases absent
    rw [Logging.setValue, if_neg changed] at ran
    obtain ⟨m, listened, rfl⟩ := Option.map_eq_some_iff.mp ran
    obtain ⟨-, root, -⟩ := wrote_listener _ _ kept.named listened
    obtain ⟨id, new, under⟩ := (points_listener _ _ listened).fresh
      ⟨Option.isSome_iff_exists.mpr ⟨d, DefineSet.find_of_mem member⟩, absent⟩
    -- the new object is none of those that were there
    have replaced : ∀ {a}, a < s.manager.made → m.loggers.lookup d.name ≠ some a := by
      intro a old still
      obtain rfl := Option.some.inj (under.symm.trans still)
      exact absurd old (Nat.not_lt.mpr new)
    refine ⟨fun same => ?_, fun p returned same => ?_⟩
    · have old : m.root < s.manager.made := root ▸ kept.named.made kept.root
      exact replaced old (same ▸ isRoot)
    · have old : p.2 < s.manager.made := kept.named.made (kept.held returned)
      exact replaced old (same ▸ holds returned)

end Sylar.Log
