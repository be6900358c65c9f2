/-
**The timeout of `connect`, and the variable it is configured by.**

`tcp_connect_timeout` is a variable of the configuration, and `connect` uses a copy of it,
`s_connect_timeout`, which `_Hook_initer` makes before `main`. The listener that `_Hook_initer` adds
logs a change and leaves the copy as it is.

* `reconfiguration` — the machine: the variable is changed, by `setValue`, `fromString` and
  `LoadFromYaml`, and `connect` arms timers; `connects` records the value of the variable at each, and
  the period it armed.
* `period_of_arm` — the period of a call is the timeout it was made with.
* `Copied` — **the copy is that of the value before `main`**.
* `connects_current_iff` — **a timer has the current period exactly when the variable has the value
  it had then**; `reconfigured_ignored`.
-/

import Mathlib.Algebra.Group.Int.Defs
import Sylar.Config.Load
import Sylar.Hook.Connect

namespace Sylar.Hook

open Sylar.Library Sylar.Library.Yaml
open Sylar.Config (ConfigVar ConfigVarBase Notice Registry Types)
open Sylar.EventTable (SchedulerId)
open Sylar.Timers (Address)

/-! ### The variable and its copy -/

/-- The variables of type `int`, with `boost::lexical_cast<int>`. -/
abbrev ints (lexicalCast : String → Option Int32) : Types Unit where
  Val _ := Int32
  equal _ := inferInstance
  cast _ := lexicalCast

/-- The conversion of `int` to `uint64_t`. -/
def toUInt64 (value : Int32) : UInt64 := UInt64.ofInt value.toInt

/-- The listener of `_Hook_initer`: a message. -/
def timeoutChanged (sConnectTimeout : UInt64) (_ : Notice Int32) : UInt64 := sConnectTimeout

/-- A `connect` that got `EINPROGRESS`: the value of the variable then, and the period of the timer
it armed, if it armed one. -/
structure ArmedConnect where
  value : Int32
  period : Option UInt64
deriving DecidableEq

/-- The registry and the copy. The last fields record the value of the variable before `main`, and
the calls of `connect`. -/
structure Reconfiguration (lexicalCast : String → Option Int32) where
  registry : Registry (ints lexicalCast)
  sConnectTimeout : UInt64
  initial : Int32
  connects : List ArmedConnect

/-- A call of the program. -/
inductive ConfigEvent
  | setValue (value : Int32)
  | fromString (val : String)
  | loadFromYaml (root : Node)
  /-- `connect`, in a state `at` before its timer; the object gets the address `a` -/
  | connect (fd : Nat) (scheduler : SchedulerId) (fiber : FiberId) (onTimeout : Callback)
      (before : Connecting) (a : Address)

variable {lexicalCast : String → Option Int32}

/-- A variable of the registry. -/
def varOf (registry : Registry (ints lexicalCast)) (object : Nat) : Option (ConfigVar Int32) :=
  (registry.heap[object]?).map fun v => v.var

namespace Reconfiguration

variable (object key : Nat) (s : Reconfiguration lexicalCast)

/-- What the listener is told by a change of the registry. -/
def told (registry : Registry (ints lexicalCast)) : List (Notice Int32) :=
  match varOf s.registry object, varOf registry object with
  | some before, some after =>
      (after.called.drop before.called.length).filter (·.key = key)
  | _, _ => []

/-- A change of the registry, and the listener. -/
def reconfigured (registry : Registry (ints lexicalCast)) : Reconfiguration lexicalCast :=
  { s with
    registry
    sConnectTimeout := (s.told object key registry).foldl timeoutChanged s.sConnectTimeout }

/-- `connect_with_timeout(..., s_connect_timeout)`. -/
def call (fd : Nat) (scheduler : SchedulerId) (fiber : FiberId) (onTimeout : Callback) :
    ConnectCall := ⟨fd, s.sConnectTimeout, scheduler, fiber, onTimeout⟩

/-- The timer of `connect`. -/
def connect (c : ConnectCall) (before : Connecting) (a : Address) :
    Option (Reconfiguration lexicalCast) :=
  match varOf s.registry object, before.arm c a with
  | some var, some after =>
      some { s with
        connects := s.connects ++
          [⟨var.val, after.around.timer.map fun a => (after.around.timers.timer a).ms⟩] }
  | _, _ => none

/-- One call. -/
def next (yaml : Text) : ConfigEvent → Option (Reconfiguration lexicalCast)
  | .setValue value =>
      some (s.reconfigured object key (s.registry.update object
        (fun v => ⟨v.type, (v.var.setValue value).1⟩) fun v => v.var.setValue_name value))
  | .fromString val =>
      some (s.reconfigured object key
        (s.registry.update object (·.fromString val) fun v => v.fromString_getName val))
  | .loadFromYaml root => some (s.reconfigured object key (s.registry.loadFromYaml yaml root))
  | .connect fd scheduler fiber onTimeout before a =>
      s.connect object (s.call fd scheduler fiber onTimeout) before a

end Reconfiguration

/-- The runs from `main` on: the variable is `object`, with the listener of `_Hook_initer` under
`key`, and the copy was just made. -/
def reconfiguration (yaml : Text) (lexicalCast : String → Option Int32) (object key : Nat) :
    Machine (Reconfiguration lexicalCast) ConfigEvent where
  start s := ∃ var, varOf s.registry object = some var ∧
    key ∈ var.cbs.map Config.Listener.key ∧ s.sConnectTimeout = toUInt64 var.val ∧
    s.initial = var.val ∧ s.connects = []
  step s := s.next object key yaml

/-- **The timer has the value of the variable for its period**, and there is none for `-1`. -/
def ArmedConnect.Current (r : ArmedConnect) : Prop :=
  match r.period with
  | some period => r.value.toInt ≠ -1 ∧ (period.toNat : Int) = r.value.toInt
  | none => r.value.toInt = -1

/-! ### The copy -/

section Copy

variable {yaml : Text} {object key : Nat} {s s' : Reconfiguration lexicalCast}

/-- **What a call arms**: the timeout it was made with. -/
theorem period_of_arm {c : ConnectCall} {before after : Connecting} {a : Address}
    (armed : before.arm c a = some after) :
    after.around.timer.map (fun a => (after.around.timers.timer a).ms) =
      if c.timeoutMs = noTimeout then none else some c.timeoutMs := by
  obtain ⟨-, around, ran, rfl⟩ := Connecting.arm_cases armed
  exact Suspension.period_of_arm ran

/-- The listener changes nothing. -/
theorem foldl_timeoutChanged (calls : List (Notice Int32)) (sConnectTimeout : UInt64) :
    calls.foldl timeoutChanged sConnectTimeout = sConnectTimeout := by
  induction calls with
  | nil => rfl
  | cons call rest ih => exact ih

/-- What every call of `connect` arms. -/
def initialPeriod (s : Reconfiguration lexicalCast) : Option UInt64 :=
  if toUInt64 s.initial = noTimeout then none else some (toUInt64 s.initial)

/-- **The copy is that of the value before `main`**, and so are the periods. -/
structure Copied (s : Reconfiguration lexicalCast) : Prop where
  copy : s.sConnectTimeout = toUInt64 s.initial
  periods : ∀ r ∈ s.connects, r.period = initialPeriod s

/-- A change of the registry. -/
theorem Copied.reconfigured (copied : Copied s) (registry : Registry (ints lexicalCast)) :
    Copied (s.reconfigured object key registry) :=
  ⟨(foldl_timeoutChanged _ _).trans copied.copy, copied.periods⟩

/-- **The step lemma.** -/
theorem Copied.next (copied : Copied s) {event : ConfigEvent}
    (stepped : s.next object key yaml event = some s') : Copied s' := by
  cases event with
  | setValue value =>
    cases stepped
    exact copied.reconfigured _
  | fromString val =>
    cases stepped
    exact copied.reconfigured _
  | loadFromYaml root =>
    cases stepped
    exact copied.reconfigured _
  | connect fd scheduler fiber onTimeout before a =>
    have stepped : s.connect object (s.call fd scheduler fiber onTimeout) before a = some s' := stepped
    unfold Reconfiguration.connect at stepped
    split at stepped
    next var after found armed =>
      cases stepped
      refine ⟨copied.copy, fun r member => ?_⟩
      rcases List.mem_append.mp member with old | new
      · exact copied.periods r old
      · rw [List.mem_singleton.mp new]
        refine (period_of_arm armed).trans ?_
        rw [Reconfiguration.call, copied.copy]
        rfl
    next => cases stepped

theorem copied_of_reachable (reached : (reconfiguration yaml lexicalCast object key).Reachable s) :
    Copied s := by
  refine reached.invariant ?_ fun s event s' copied _ stepped => copied.next stepped
  rintro s ⟨var, -, -, copy, initial, connects⟩
  refine ⟨by rw [copy, initial], fun r member => ?_⟩
  rw [connects] at member
  cases member

end Copy

/-! ### The conversion -/

theorem toNat_toUInt64 (value : Int32) :
    ((toUInt64 value).toNat : Int) = value.toInt % 2 ^ 64 := by
  have same : (toUInt64 value).toNat = (value.toInt % 2 ^ 64).toNat % 2 ^ 64 := rfl
  omega

/-- `-1` is the value that stands for none. -/
theorem toUInt64_eq_noTimeout {value : Int32} :
    toUInt64 value = noTimeout ↔ value.toInt = -1 := by
  have exact' := toNat_toUInt64 value
  have least := value.le_toInt
  have most := value.toInt_lt
  have none : noTimeout.toNat = 2 ^ 64 - 1 := by decide
  rw [← UInt64.toNat_inj, none]
  omega

/-- **When a period is current**, of a call that used the copy of an earlier value. -/
theorem current_iff {r : ArmedConnect} {initial : Int32}
    (period : r.period =
      if toUInt64 initial = noTimeout then none else some (toUInt64 initial)) :
    r.Current ↔ r.value = initial ∧ -1 ≤ r.value.toInt := by
  have exact' := toNat_toUInt64 initial
  have least := initial.le_toInt
  have most := initial.toInt_lt
  have least' := r.value.le_toInt
  have most' := r.value.toInt_lt
  rw [← Int32.toInt_inj]
  unfold ArmedConnect.Current
  by_cases none : toUInt64 initial = noTimeout
  · rw [period, if_pos none]
    have value := toUInt64_eq_noTimeout.mp none
    show r.value.toInt = -1 ↔ _
    omega
  · rw [period, if_neg none]
    have value := mt toUInt64_eq_noTimeout.mpr none
    show r.value.toInt ≠ -1 ∧ ((toUInt64 initial).toNat : Int) = r.value.toInt ↔ _
    omega

/-! ### Main result -/

/-- **`connect` uses the current timeout** if and only if the variable has the value it had before
`main`, and that is not below `-1`: for all calls of any run. -/
theorem connects_current_iff {yaml : Text} {object key : Nat} {s : Reconfiguration lexicalCast}
    (reached : (reconfiguration yaml lexicalCast object key).Reachable s) :
    (∀ r ∈ s.connects, r.Current) ↔
      ∀ r ∈ s.connects, r.value = s.initial ∧ -1 ≤ r.value.toInt :=
  forall₂_congr fun r member => current_iff ((copied_of_reachable reached).periods r member)

/-! ### Runs of a program -/

/-- A cast that knows one number. -/
def castSeven (val : String) : Option Int32 := if val = "7" then some 7 else none

/-- `tcp_connect_timeout`, with the listener of `_Hook_initer` under the key `1`. -/
def timeoutVar : ConfigVar Int32 :=
  { ConfigVar.new "tcp_connect_timeout" 5000 "tcp connect timeout" with
    cbs := [⟨1, fun _ _ => true⟩], distinct := by decide }

/-- Before `main`. -/
def Reconfiguration.start : Reconfiguration castSeven where
  registry := Registry.empty.insert ⟨(), timeoutVar⟩ rfl
  sConnectTimeout := 5000
  initial := 5000
  connects := []

theorem Reconfiguration.start_starts :
    (reconfiguration Config.plainText castSeven 0 1).start .start :=
  ⟨timeoutVar, rfl, List.mem_singleton_self 1, rfl, rfl, rfl⟩

/-- A call of `connect` before its timer. -/
def armConnect : ConfigEvent :=
  .connect 5 0 7 1 { Connecting.initial 100 none with
    pc := .arm, around := { Suspension.initial 100 none with pc := .arm } } 3

theorem connects_current_iff_unchanged : ∃ s : Reconfiguration castSeven,
    (reconfiguration Config.plainText castSeven 0 1).Reachable s ∧
      s.connects = [⟨5000, some 5000⟩] ∧ ∀ r ∈ s.connects, r.Current := by
  obtain ⟨s, reached, state⟩ :=
    Machine.reachable_of_replay Reconfiguration.start_starts [.setValue 5000, armConnect]
      (fun s => s.connects = [⟨5000, some 5000⟩] ∧ s.initial = 5000) (by decide +kernel)
  obtain ⟨connects, initial⟩ := of_decide_eq_true state
  refine ⟨s, reached, connects, (connects_current_iff reached).mpr ?_⟩
  rw [connects, initial]
  exact List.forall_mem_singleton.mpr ⟨rfl, by decide⟩

/-- **A new value is ignored**: after a document with `tcp_connect_timeout: 7`, a timer of 5000
milliseconds. -/
theorem reconfigured_ignored : ∃ s : Reconfiguration castSeven,
    (reconfiguration Config.plainText castSeven 0 1).Reachable s ∧
      s.connects = [⟨7, some 5000⟩] ∧ ¬ ∀ r ∈ s.connects, r.Current := by
  obtain ⟨s, reached, state⟩ :=
    Machine.reachable_of_replay Reconfiguration.start_starts
      [.loadFromYaml (.map [("tcp_connect_timeout", .scalar "7")]), armConnect]
      (fun s => s.connects = [⟨7, some 5000⟩]) (by decide +kernel)
  have connects := of_decide_eq_true state
  refine ⟨s, reached, connects, fun current => ?_⟩
  obtain ⟨-, period⟩ := current ⟨7, some 5000⟩ (connects ▸ List.mem_singleton_self _)
  exact absurd period (by decide)

end Sylar.Hook
