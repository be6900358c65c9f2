/-
**Where an event goes: `Logger::log`.**

A logger passes an event to its appenders, and if it has none, to the logger its `m_root` points to.
`getLogger` sets that pointer in the logger it makes; the listener, which makes the loggers that are
added to the configuration, does not.

* `LoggerManager.log` — the call, with the depth of its recursion bounded; `Delivery` — an event
  passed to an appender.
* `Linked` — **in every run `m_root` is null or the root logger, whose own is null**, so that the
  recursion ends: `log_eq`.
* `delivery_law_iff` — **when every logger delivers as it should**; `message_vanishes` — a logger
  that an update added, without appenders.
-/

import Sylar.Log.Identity
import Sylar.Log.FileAppender

namespace Sylar.Log

open Sylar.Library

/-- `i->log(self, level, event)`. -/
structure Delivery where
  self : LoggerId
  appender : LogAppender
deriving DecidableEq

namespace LoggerManager

variable (m : LoggerManager)

/-- Each appender of a logger gets the event. -/
def toAppenders (id : LoggerId) : List Delivery := (m.heap id).appenders.map fun i => ⟨id, i⟩

/-- `Logger::log`; `none` when it has not returned from so many calls. -/
def log (level : Level) : Nat → LoggerId → Option (List Delivery)
  | 0, _ => none
  | depth + 1, id =>
      if (m.heap id).level.value ≤ level.value then
        if (m.heap id).appenders ≠ [] then some (m.toAppenders id)
        else
          match (m.heap id).root with
          | some root => log level depth root
          | none => some []
      else some []

/-- **Where the event should go**: to the logger's appenders, or else to those of the root logger,
provided that its level lets it through. -/
def law (level : Level) (id : LoggerId) : List Delivery :=
  if (m.heap id).appenders ≠ [] then m.toAppenders id
  else if (m.heap m.root).level.value ≤ level.value then m.toAppenders m.root
  else []

/-- **`m_root` is null, or the root logger**, whose own is null. -/
structure Linked : Prop where
  made : m.root < m.made
  last : (m.heap m.root).root = none
  links : ∀ id, (m.heap id).root = none ∨ (m.heap id).root = some m.root

/-! ### The links in every run -/

namespace Linked

variable {m : LoggerManager} {m' : LoggerManager}

theorem fresh : LoggerManager.fresh.Linked := ⟨Nat.zero_lt_one, rfl, fun _ => .inl rfl⟩

/-- Writing a logger and leaving its `m_root`. -/
theorem write (linked : m.Linked) {id : LoggerId} {l : Logger}
    (same : l.root = (m.heap id).root) : (m.write id l).Linked := by
  have roots : ∀ other, ((m.write id l).heap other).root = (m.heap other).root := by
    intro other
    show (Function.update m.heap id l other).root = _
    rcases eq_or_ne other id with rfl | apart
    · rw [Function.update_self, same]
    · rw [Function.update_of_ne apart]
  exact ⟨linked.made, (roots m.root).trans linked.last, fun other =>
    (roots other).symm ▸ linked.links other⟩

/-- A new logger, with a link to the root logger or without. -/
theorem newLogger (linked : m.Linked) {l : Logger} (link : l.root = none ∨ l.root = some m.root) :
    (m.newLogger l).1.Linked := by
  have rootApart : m.root ≠ m.made := Nat.ne_of_lt linked.made
  refine ⟨Nat.lt_succ_of_lt linked.made, ?_, fun other => ?_⟩
  · show (Function.update m.heap m.made l m.root).root = none
    rw [Function.update_of_ne rootApart, linked.last]
  · show (Function.update m.heap m.made l other).root = none ∨
      (Function.update m.heap m.made l other).root = some m.root
    rcases eq_or_ne other m.made with rfl | apart
    · rw [Function.update_self]
      exact link
    · rw [Function.update_of_ne apart]
      exact linked.links other

theorem addLogger (linked : m.Linked) (name : String) (id : LoggerId) :
    (m.addLogger name id).Linked := ⟨linked.made, linked.last, linked.links⟩

theorem getLogger (linked : m.Linked) (name : String) : (m.getLogger name).1.Linked := by
  unfold LoggerManager.getLogger
  split
  · exact linked
  · exact (linked.newLogger (.inr rfl)).addLogger name _

theorem pick (linked : m.Linked) (oldValue : DefineSet) (i : LogDefine) :
    (pick oldValue m i).1.Linked := by
  unfold Log.pick
  split
  · exact linked.newLogger (.inl rfl)
  · split
    · exact linked.getLogger i.name
    · exact linked

/-- A definition leaves `m_root`. -/
theorem configure_root {l l' : Logger} {i : LogDefine} (ran : l.configure i = some l') :
    l'.root = l.root := by
  rw [Logger.configure_eq] at ran
  obtain ⟨-, same⟩ := Option.ite_none_right_eq_some.mp ran
  exact Option.some.inj same ▸ rfl

/-- One round of the loop over the new value. -/
theorem define (linked : m.Linked) {oldValue : DefineSet} {i : LogDefine}
    (ran : define oldValue m i = some m') : m'.Linked := by
  obtain ⟨logger, -, ran⟩ := Option.bind_eq_some_iff.mp ran
  obtain ⟨l, configured, rfl⟩ := Option.map_eq_some_iff.mp ran
  exact ((linked.pick oldValue i).write (configure_root configured)).addLogger i.name logger

/-- One round of the loop over the old value. -/
theorem remove (linked : m.Linked) (newValue : DefineSet) (i : LogDefine) :
    (remove newValue m i).Linked := by
  unfold Log.remove
  split
  · exact linked
  · exact (linked.getLogger i.name).write rfl

theorem listener (linked : m.Linked) {oldValue newValue : DefineSet}
    (ran : listener oldValue newValue m = some m') : m'.Linked := by
  obtain ⟨middle, first, rfl⟩ := Option.map_eq_some_iff.mp ran
  have defined : middle.Linked :=
    foldlM_invariant (fun linked once => linked.define once) linked first
  exact List.foldlRecOn oldValue.elems _ defined fun _ linked i _ => linked.remove newValue i

/-- **The links, in every run.** -/
theorem reachable {s : Holders} (reached : holders.Reachable s) : s.manager.Linked :=
  manager_invariant fresh (fun name linked => linked.getLogger name)
    (fun linked ran => linked.listener ran) reached

/-! ### The call -/

variable {level : Level} {id : LoggerId}

/-- The root logger passes the event on to no one. -/
theorem log_root (linked : m.Linked) (level : Level) (depth : Nat) :
    m.log level (depth + 1) m.root =
      some (if (m.heap m.root).level.value ≤ level.value then m.toAppenders m.root else []) := by
  unfold log
  rw [linked.last]
  split
  next passes =>
    split
    next => rfl
    next none => rw [toAppenders, not_not.mp none, List.map_nil]
  next => rfl

/-- **What `Logger::log` does with an event that passes**, at any depth from two on. -/
theorem log_eq (linked : m.Linked) (enough : (m.heap id).level.value ≤ level.value)
    (depth : Nat) :
    m.log level (depth + 2) id =
      some (if (m.heap id).appenders ≠ [] ∨ (m.heap id).root ≠ none then m.law level id
        else []) := by
  unfold log law
  rw [if_pos enough]
  by_cases some : (m.heap id).appenders ≠ []
  · simp [some]
  · rcases linked.links id with none | root
    · simp [some, none]
    · simp only [root, linked.log_root, some, if_false]
      simp

end Linked

end LoggerManager

/-- **A logger delivers as it should** — an event that its level lets through, exactly once to each
appender — if and only if it has appenders, or its `m_root` is set, or the root logger would not
deliver the event either. -/
theorem delivery_law_iff (s : Holders) (reached : holders.Reachable s) (id : LoggerId)
    (level : Level) (enough : (s.manager.heap id).level.value ≤ level.value) :
    (∀ depth, s.manager.log level (depth + 2) id = some (s.manager.law level id)) ↔
      (s.manager.heap id).appenders ≠ [] ∨ (s.manager.heap id).root ≠ none ∨
        level.value < (s.manager.heap s.manager.root).level.value ∨
        (s.manager.heap s.manager.root).appenders = [] := by
  have logged := (LoggerManager.Linked.reachable reached).log_eq enough
  by_cases linked : (s.manager.heap id).appenders ≠ [] ∨ (s.manager.heap id).root ≠ none
  · refine iff_of_true (fun depth => (logged depth).trans (congrArg some (if_pos linked))) ?_
    rw [← or_assoc]
    exact .inl linked
  · have silent : ∀ depth, s.manager.log level (depth + 2) id = some [] := fun depth =>
      (logged depth).trans (congrArg some (if_neg linked))
    obtain ⟨none, noRoot⟩ := not_or.mp linked
    rw [or_iff_right none, or_iff_right noRoot]
    simp only [silent, forall_const, Option.some.injEq, LoggerManager.law, if_neg none]
    split
    next passes =>
      rw [eq_comm, LoggerManager.toAppenders, List.map_eq_nil_iff]
      exact (or_iff_right (Nat.not_lt.mpr passes)).symm
    next stops => exact iff_of_true rfl (.inl (Nat.lt_of_not_le stops))

/-- `getLogger` makes a logger, and the event goes to the standard output of the root logger. -/
theorem delivery_law_made : ∃ s : Holders, holders.Reachable s ∧ ("a", 1) ∈ s.returned ∧
    (s.manager.law .info 1).map (fun d => (d.self, d.appender.kind)) = [(0, .stdoutLogAppender)] ∧
    ∀ depth, s.manager.log .info (depth + 2) 1 = some (s.manager.law .info 1) := by
  have run : ∃ s, holders.Reachable s ∧ decide (("a", 1) ∈ s.returned ∧
      (s.manager.law .info 1).map (fun d => (d.self, d.appender.kind)) =
        [(0, .stdoutLogAppender)] ∧
      (s.manager.heap 1).level.value ≤ Level.info.value ∧ (s.manager.heap 1).root ≠ none) = true :=
    Machine.reachable_of_replay (m := holders) (s := .start) rfl [.getLogger "a"] _
      (by decide +kernel)
  obtain ⟨s, reached, check⟩ := run
  obtain ⟨returned, law, enough, linked⟩ := of_decide_eq_true check
  exact ⟨s, reached, returned, law, (delivery_law_iff s reached 1 .info enough).mpr (.inr (.inl linked))⟩

/-- **An update adds the logger**, and the event goes nowhere. -/
theorem message_vanishes : ∃ s, holders.Reachable s ∧ ("a", 1) ∈ s.returned ∧
    1 ≠ s.manager.root ∧ (s.manager.heap 1).level.value ≤ Level.info.value ∧
    s.manager.log .info 2 1 = some [] ∧ s.manager.law .info 1 ≠ [] := by
  have run : ∃ s, holders.Reachable s ∧ decide (("a", 1) ∈ s.returned ∧
      1 ≠ s.manager.root ∧ (s.manager.heap 1).level.value ≤ Level.info.value ∧
      s.manager.log .info 2 1 = some [] ∧ s.manager.law .info 1 ≠ []) = true :=
    Machine.reachable_of_replay (m := holders) (s := .start) rfl
      [.setValue (.single { name := "a", level := .info }), .getLogger "a"] _ (by decide +kernel)
  obtain ⟨s, reached, check⟩ := run
  exact ⟨s, reached, of_decide_eq_true check⟩

end Sylar.Log
