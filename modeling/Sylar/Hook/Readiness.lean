/-
**What a suspended call waits for.**

A hook passes the event it is about to `do_io`, and `do_io` registers `(Event) 1` and lets its timeout
cancel `(Event) 1`, whatever it was passed: that is `READ`.

* `WaitsForOwn` — what should hold from the suspension on: the event of the hook is registered, the
  timeout cancels it, and nothing else wakes the fiber than a report of it, the timeout, or its
  cancellation.
* `waits_read` — what is registered; `wakes_of_next` — what can wake the fiber.
* `waits_for_own_iff` — **a call waits for its own event exactly when that is `READ`**;
  `send_waits_read`.
-/

import Sylar.EventTable.Waking
import Sylar.Hook.Cleanup

namespace Sylar.Hook

open Sylar.Library
open Sylar.EventTable (Event Operation Traced)

variable {c : IoCall} {s s' : Suspension}

/-- The segments of the others, while the call is suspended. -/
def meanwhile (c : IoCall) (s : Suspension) : Machine Suspension Segment where
  start t := t = s
  step t segment := if Suspension.own segment then none else t.next c segment

/-- What may wake the call: a report of its event, its timeout, a cancellation of its event. -/
def Segment.Wakes (c : IoCall) : Segment → Prop
  | .operate _ operation => operation.Wakes c.fd c.hook.event
  | .runTimeout _ | .close _ => True
  | _ => False

/-- **The call waits for the event of its hook**, from its suspension in `s` on. -/
structure WaitsForOwn (c : IoCall) (s : Suspension) : Prop where
  registered : ∀ i event, s.table.waits c.fiber i event = true ↔ i = c.fd ∧ event = c.hook.event
  cancels : ∀ t, (meanwhile c s).Reachable t → ∀ fault t', t.tinfo = some none →
    t.next c (.runTimeout fault) = some t' →
    EventTable.perform t.table fault (.cancelEvent c.fd c.hook.event) = some t'.table
  wakes : ∀ t, (meanwhile c s).Reachable t → ∀ segment t', (meanwhile c s).step t segment = some t' →
    c.task ∉ t.table.scheduled → c.task ∈ t'.table.scheduled → segment.Wakes c

/-! ### The registration -/

/-- **`READ` is registered.** -/
theorem waits_read (registered : Registered c s) {fault : Bool}
    (stepped : s.next c (.register fault) = some s') (suspends : s'.pc = .suspended) :
    ∀ i event, s'.table.waits c.fiber i event = true ↔ i = c.fd ∧ event = .read := by
  have traced : Registered c s' := registered.next stepped
  obtain ⟨-, ⟨table, -, rfl⟩ | ⟨table, progress, table', called, committed, rfl⟩⟩ :=
    Suspension.register_cases stepped
  · rw [Suspension.cancelTimer_eq] at suspends
    cases suspends
  · refine fun i event => ⟨traced.only i event, ?_⟩
    rintro ⟨rfl, rfl⟩
    exact EventTable.waits_of_register called committed

/-! ### While the call is suspended -/

section Meanwhile

variable {t t' : Suspension}

/-- The others do not move the call. -/
theorem meanwhile_suspended (suspended : s.pc = .suspended) (registered : Registered c s)
    (reached : (meanwhile c s).Reachable t) : t.pc = .suspended ∧ Registered c t := by
  refine reached.invariant (P := fun t => t.pc = .suspended ∧ Registered c t) ?_
    fun t segment t' held _ stepped => ?_
  · rintro t rfl
    exact ⟨suspended, registered⟩
  · obtain ⟨other, stepped⟩ := Option.ite_none_left_eq_some.mp stepped
    have stays := Suspension.stays_of_next (Bool.eq_false_iff.mpr other) stepped
    exact ⟨stays.pc.trans held.1, held.2.next stepped⟩

/-- **What can wake the fiber**: what triggers the event it waits for. -/
theorem wakes_of_next {i n : Nat} {event : Event} (traced : Traced t.table c.fiber i event n)
    {segment : Segment} (other : Suspension.own segment = false) (stepped : t.next c segment = some t')
    (before : c.task ∉ t.table.scheduled) (after : c.task ∈ t'.table.scheduled) :
    (∃ fault, segment = .runTimeout fault) ∨ (∃ fault, segment = .close fault) ∨
      ∃ fault operation, segment = .operate fault operation ∧ operation.Wakes i event := by
  cases Suspension.effect_of_next other stepped with
  | timesOut | late => exact .inl ⟨_, rfl⟩
  | closes => exact .inr (.inl ⟨_, rfl⟩)
  | operates spares performed =>
    exact .inr (.inr ⟨_, _, rfl, traced.wakes_of_perform rfl performed before after⟩)
  | serves => exact absurd (List.mem_of_mem_erase after) before
  | runs | expires | timers | ticks | reopens | writes => exact absurd after before

end Meanwhile

/-! ### Main result -/

/-- **A call waits for the event of its hook** if and only if that is `READ`: at every suspension, in
every run. -/
theorem waits_for_own_iff (reached : (suspension c).Reachable s) {fault : Bool}
    (stepped : s.next c (.register fault) = some s') (suspends : s'.pc = .suspended) :
    WaitsForOwn c s' ↔ c.hook.event = .read := by
  have registered : Registered c s := (rounds_of_reachable reached).2.1
  have waits := waits_read registered stepped suspends
  constructor
  · intro own
    exact ((own.registered c.fd .read).mp ((waits c.fd .read).mpr ⟨rfl, rfl⟩)).2.symm
  · intro read
    refine ⟨fun i event => read ▸ waits i event, fun t later fault t' alive ran => ?_,
      fun t later segment t' ran before after => ?_⟩
    · obtain ⟨-, ⟨-, table, performed, rfl⟩ | ⟨set, -⟩⟩ := Suspension.runTimeout_cases ran
      · rw [read]
        exact performed
      · exact absurd alive set
    · obtain ⟨other, ran⟩ := Option.ite_none_left_eq_some.mp ran
      have held : Registered c t :=
        (meanwhile_suspended suspends (registered.next stepped) later).2
      rcases wakes_of_next held (Bool.eq_false_iff.mpr other) ran before after with
        ⟨fault, rfl⟩ | ⟨fault, rfl⟩ | ⟨fault, operation, rfl, wakes⟩
      · trivial
      · trivial
      · rw [Segment.Wakes, read]
        exact wakes

/-- `recv` waits for its own. -/
theorem waits_for_own_recv : ∃ s, (suspension recvCall).Reachable s ∧ s.pc = .suspended ∧
    WaitsForOwn recvCall s := by
  obtain ⟨s, reached, state⟩ :=
    Machine.reachable_of_replay (m := suspension recvCall) (s := .initial 100 none) ⟨_, _, rfl⟩
      [.reopen 1, .setCtx (socketCtx 10), .lookup, .attempt (.error .eagain), .arm 3]
      (fun s => (s.next recvCall (.register false)).map (·.pc) = some .suspended)
      (by decide +kernel)
  obtain ⟨s', stepped, suspends⟩ := Option.map_eq_some_iff.mp (of_decide_eq_true state)
  exact ⟨s', .step (e := .register false) reached trivial stepped, suspends,
    (waits_for_own_iff reached stepped suspends).mpr rfl⟩

/-- `send` on the same descriptor. -/
def sendCall : IoCall := { recvCall with hook := .send }

/-- **A sender waits for data**: a report that the descriptor can be written leaves it where it is,
one that it can be read wakes it. -/
theorem send_waits_read :
    ∃ s, (suspension sendCall).Reachable s ∧ s.pc = .suspended ∧
      s.table.waits 7 5 .write = false ∧ s.table.waits 7 5 .read = true ∧
      (s.next sendCall (.operate false (.report 5 EventTable.epollOut))).map (·.table.scheduled) =
        some [] ∧
      (s.next sendCall (.operate false (.report 5 EventTable.epollIn))).map (·.table.scheduled) =
        some [sendCall.task] ∧ ¬ WaitsForOwn sendCall s := by
  obtain ⟨s, reached, state⟩ :=
    Machine.reachable_of_replay (m := suspension sendCall) (s := .initial 100 none) ⟨_, _, rfl⟩
      waitTen
      (fun s => s.pc = .suspended ∧ s.table.waits 7 5 .write = false ∧
        s.table.waits 7 5 .read = true ∧
        (s.next sendCall (.operate false (.report 5 EventTable.epollOut))).map
          (·.table.scheduled) = some [] ∧
        (s.next sendCall (.operate false (.report 5 EventTable.epollIn))).map
          (·.table.scheduled) = some [sendCall.task])
      (by decide +kernel)
  obtain ⟨pc, write, read, output, input⟩ := of_decide_eq_true state
  refine ⟨s, reached, pc, write, read, output, input, fun own => ?_⟩
  have waits := (own.registered 5 .write).mpr ⟨rfl, rfl⟩
  cases write.symm.trans waits

end Sylar.Hook
