/-
**What a timeout means after `setsockopt`.**

The hooked `setsockopt` turns a `timeval` into milliseconds, rounding down, and stores them in the
context; `do_io` reads the stored number at its start and arms a timer with it whenever it waits,
unless the number is `-1`.

* `Meant` — what should hold: no timer for a zero `timeval`, otherwise a period that is not shorter.
* `Stored` — **from `setsockopt` to the timer the number is kept**, by whatever runs in between.
* `meant_iff` — the number is what was meant exactly for whole milliseconds other than zero.
* `timeout_meant_iff` — **so is the timer of every later call**; `zero_armed`.
-/

import Mathlib.Algebra.Group.Int.Defs
import Sylar.Hook.Cleanup
import Sylar.Hook.Descriptors

namespace Sylar.Hook

open Sylar.Library
open Sylar.Timers (Address)

/-- What `setsockopt` stores of a `timeval`. -/
def storedTimeout (sec usec : Int) : UInt64 := UInt64.ofInt (sec * 1000 + usec.tdiv 1000)

/-- **A timer has the meaning of a `timeval`**: there is none for zero, and otherwise its period, in
milliseconds, is not shorter. -/
def Meant (sec usec : Int) (period : Option UInt64) : Prop :=
  if sec = 0 ∧ usec = 0 then period = none
  else ∃ ms ∈ period, sec * 1000000 + usec ≤ ms.toNat * 1000

namespace Suspension

variable (c : IoCall) (s : Suspension)

/-- The part of the layer that `setsockopt` acts on. -/
def layer : Layer := ⟨fun _ => none, s.fdMgr, [], none⟩

/-- `setsockopt` of a timeout of the descriptor, on a thread with hooks. -/
def setsockopt (type : TimeoutOption) (sec usec : Int) : Suspension :=
  { s with fdMgr := (s.layer.setsockopt true c.fd type sec usec).table }

/-- The period of the call's timer, if it has one. -/
def period : Option UInt64 := s.timer.map fun a => (s.timers.timer a).ms

end Suspension

/-- The runs from a state on. -/
def following (c : IoCall) (s : Suspension) : Machine Suspension Segment :=
  ⟨(· = s), Suspension.next c⟩

/-- Until the call has looked at the context nobody sets its timeout again, and nobody closes the
descriptor. -/
def Keeps (c : IoCall) (s : Suspension) : Segment → Prop
  | .setCtx ctx =>
      s.pc = .lookup → ∀ held ∈ s.context c,
        ctx.getTimeout c.hook.timeoutSo = held.getTimeout c.hook.timeoutSo
  | .close _ => s.pc ≠ .lookup
  | _ => True

instance Keeps.decide (c : IoCall) (s : Suspension) : (segment : Segment) →
    Decidable (Keeps c s segment)
  | .setCtx _ => inferInstanceAs (Decidable (_ → ∀ held ∈ s.context c, _))
  | .close _ => inferInstanceAs (Decidable (s.pc ≠ .lookup))
  | .lookup | .attempt _ | .arm _ | .register _ | .resume | .runTimeout _ | .runOther _ | .expire _
  | .timers _ | .operate _ _ | .serve _ | .tick _ | .reopen _ => isTrue trivial

/-! ### What `setsockopt` writes -/

section Setsockopt

variable {c : IoCall} {s : Suspension} {ctx : FdCtx} {type other : TimeoutOption}

theorem FdCtx.getTimeout_setTimeout (timeout : UInt64) :
    (ctx.setTimeout type timeout).getTimeout type = timeout := by
  cases type <;> rfl

/-- **The other direction is left alone.** -/
theorem FdCtx.getTimeout_setTimeout_of_ne (distinct : other ≠ type) (timeout : UInt64) :
    (ctx.setTimeout type timeout).getTimeout other = ctx.getTimeout other := by
  cases type <;> cases other <;> first | rfl | exact absurd rfl distinct

/-- **The context afterwards.** -/
theorem context_setsockopt (held : s.context c = some ctx) (type : TimeoutOption)
    (sec usec : Int) :
    (s.setsockopt c type sec usec).context c =
      some (ctx.setTimeout type (storedTimeout sec usec)) := by
  obtain ⟨held', found, rfl⟩ := Option.map_eq_some_iff.mp held
  have entry : s.fdMgr.entry c.fd = some held' := by
    rw [FdManger.getFdCtx_false] at found
    exact found
  have written : (s.setsockopt c type sec usec).fdMgr = s.fdMgr.setCtx held'
      ((s.fdMgr.ctx held').setTimeout type (storedTimeout sec usec)) := by
    unfold Suspension.setsockopt Suspension.layer Layer.setsockopt
    rw [if_pos rfl, Layer.held_eq, entry]
    rfl
  unfold Suspension.context
  rw [written, FdManger.getFdCtx_false]
  show ((s.fdMgr.entry c.fd).map (Function.update s.fdMgr.ctx held' _)) = _
  rw [entry, Option.map_some, Function.update_self]

end Setsockopt

/-! ### From `setsockopt` to the timer -/

section Stored

variable {c : IoCall} {s s' : Suspension}

/-- Only `afterContext` leads into the loop from outside, and nothing leads back. -/
theorem Pc.afterContext_inLoop {ctx : Option FdCtx} (inside : (Pc.afterContext ctx).inLoop = true) :
    Pc.afterContext ctx = .attempt := by
  unfold afterContext at inside ⊢
  split
  next => cases inside
  next ctx =>
    dsimp only at inside ⊢
    by_cases closed : ctx.isClosed = true
    · rw [if_pos closed] at inside
      cases inside
    · rw [if_neg closed] at inside ⊢
      split at inside
      next => cases inside
      next passes => rw [if_neg passes]

theorem Pc.afterContext_ne_lookup (ctx : Option FdCtx) : Pc.afterContext ctx ≠ .lookup := by
  unfold afterContext
  split
  · exact Pc.noConfusion
  · split
    · exact Pc.noConfusion
    · split <;> exact Pc.noConfusion

/-- **`do_io` reads the timeout at its start.** -/
theorem timeout_of_lookup (stepped : s.lookup c = some s') (inside : s'.pc.inLoop = true) :
    s'.timeout = ((s.context c).map (·.getTimeout c.hook.timeoutSo)).getD noTimeout := by
  unfold Suspension.lookup at stepped
  split at stepped
  next =>
    split at stepped
    next =>
      cases stepped
      rfl
    next pc other =>
      cases stepped
      exact absurd (Pc.afterContext_inLoop inside) other
  next => cases stepped

/-- After its start the call keeps the timeout, and stays where it is or leaves the loop. -/
theorem own_of_next {segment : Segment} (own : Suspension.own segment = true)
    (later : segment ≠ .lookup) (stepped : s.next c segment = some s') :
    s'.timeout = s.timeout ∧ s'.pc ≠ .lookup ∧ (s'.pc.inLoop = true → s.pc.inLoop = true) := by
  cases segment with
  | lookup => exact absurd rfl later
  | attempt r =>
    obtain ⟨before, rfl⟩ | ⟨before, rfl⟩ := Suspension.attempt_cases stepped
    · exact ⟨rfl, Pc.noConfusion, nofun⟩
    · refine ⟨rfl, ?_, fun _ => by rw [before]; rfl⟩
      show Pc.afterResult r ≠ .lookup
      unfold Pc.afterResult
      split <;> exact Pc.noConfusion
  | arm a =>
    obtain ⟨before, rfl | ⟨-, -, rfl⟩⟩ := Suspension.arm_cases stepped
    · exact ⟨rfl, Pc.noConfusion, fun _ => by rw [before]; rfl⟩
    · exact ⟨rfl, Pc.noConfusion, fun _ => by rw [before]; rfl⟩
  | register fault =>
    obtain ⟨before, ⟨table, -, rfl⟩ | ⟨_, _, table, -, -, rfl⟩⟩ := Suspension.register_cases stepped
    · rw [Suspension.cancelTimer_eq]
      exact ⟨rfl, Pc.noConfusion, nofun⟩
    · exact ⟨rfl, Pc.noConfusion, fun _ => by rw [before]; rfl⟩
  | resume =>
    obtain ⟨before, -, rfl⟩ := Suspension.resume_cases stepped
    rw [Suspension.cancelTimer_eq]
    refine ⟨rfl, ?_, fun _ => by rw [before]; rfl⟩
    show Pc.afterResumed _ ≠ .lookup
    unfold Pc.afterResumed
    split <;> exact Pc.noConfusion
  | runTimeout | runOther | expire | timers | operate | serve | tick | close | reopen | setCtx =>
    cases own

/-- What the others write of the context. -/
theorem context_of_next {segment : Segment} (other : Suspension.own segment = false)
    (stepped : s.next c segment = some s') {ctx : FdCtx} (held : s.context c = some ctx) :
    s'.context c = s.context c ∨ (∃ fault, segment = .close fault) ∨
      ∃ written, segment = .setCtx written ∧ s'.context c = some written := by
  cases Suspension.effect_of_next other stepped with
  | timesOut | late | runs | expires | timers | operates | serves | ticks => exact .inl rfl
  | closes => exact .inr (.inl ⟨_, rfl⟩)
  | reopens =>
    obtain ⟨id, found, -⟩ := Option.map_eq_some_iff.mp held
    rw [FdManger.getFdCtx_false] at found
    have kept : (s.fdMgr.getFdCtx c.fd true).1 = s.fdMgr := by
      rw [FdManger.getFdCtx_true, show s.fdMgr.entry c.fd = some id from found]
    refine .inl ?_
    unfold Suspension.context
    rw [kept]
  | @writes written id found =>
    refine .inr (.inr ⟨written, rfl, ?_⟩)
    rw [FdManger.getFdCtx_false] at found
    unfold Suspension.context
    rw [FdManger.getFdCtx_false]
    show ((s.fdMgr.entry c.fd).map (Function.update s.fdMgr.ctx id written)) = _
    rw [show s.fdMgr.entry c.fd = some id from found, Option.map_some, Function.update_self]

/-- **The number that was stored**: in the context until the call has looked at it, and then with the
call. -/
structure Stored (c : IoCall) (timeout : UInt64) (s : Suspension) : Prop where
  context : s.pc = .lookup → ∃ ctx, s.context c = some ctx ∧
    ctx.getTimeout c.hook.timeoutSo = timeout
  timeout : s.pc.inLoop = true → s.timeout = timeout

/-- **The step lemma.** -/
theorem Stored.next {timeout : UInt64} (stored : Stored c timeout s) {segment : Segment}
    (keeps : Keeps c s segment) (stepped : s.next c segment = some s') : Stored c timeout s' := by
  by_cases own : Suspension.own segment = true
  · by_cases start : segment = .lookup
    · subst start
      obtain ⟨before, after⟩ := Suspension.lookup_cases stepped
      obtain ⟨ctx, held, same⟩ := stored.context before
      have pc : s'.pc = Pc.afterContext (s.context c) := by
        obtain ⟨goes, _, rfl⟩ | ⟨-, rfl⟩ := after
        · exact goes.symm
        · rfl
      refine ⟨fun again => absurd (pc.symm.trans again) (Pc.afterContext_ne_lookup _),
        fun inside => (timeout_of_lookup stepped inside).trans ?_⟩
      rw [held]
      exact same
    · obtain ⟨kept, past, back⟩ := own_of_next own start stepped
      exact ⟨fun again => absurd again past, fun inside => kept.trans (stored.timeout (back inside))⟩
  · have other := Bool.eq_false_iff.mpr own
    have stays := Suspension.stays_of_next other stepped
    refine ⟨fun before => ?_, fun inside => stays.timeout.trans (stored.timeout (stays.pc ▸ inside))⟩
    have before : s.pc = .lookup := stays.pc.symm.trans before
    obtain ⟨ctx, held, same⟩ := stored.context before
    rcases context_of_next other stepped held with kept | ⟨fault, rfl⟩ | ⟨written, rfl, kept⟩
    · exact ⟨ctx, kept.trans held, same⟩
    · exact absurd before keeps
    · exact ⟨written, kept, (keeps before ctx held).trans same⟩

theorem stored_following {timeout : UInt64} (stored : Stored c timeout s)
    (later : (following c s).ReachableWhen (Keeps c) s') : Stored c timeout s' := by
  refine later.invariant ?_ fun t segment t' stored keeps stepped => stored.next keeps stepped
  rintro t rfl
  exact stored

end Stored

/-! ### The number -/

section Number

variable {sec usec : Int}

/-- The stored number, in the range where the multiplication does not overflow. -/
theorem toNat_storedTimeout (sec_nonneg : 0 ≤ sec) (sec_lt : sec * 1000 < 2 ^ 62)
    (usec_nonneg : 0 ≤ usec) (usec_lt : usec < 1000000) :
    ((storedTimeout sec usec).toNat : Int) = sec * 1000 + usec / 1000 := by
  have same : (storedTimeout sec usec).toNat =
      ((sec * 1000 + usec.tdiv 1000) % 2 ^ 64).toNat % 2 ^ 64 := rfl
  have division : usec.tdiv 1000 = usec / 1000 := Int.tdiv_eq_ediv_of_nonneg usec_nonneg
  omega

/-- It is not the one that stands for none. -/
theorem storedTimeout_ne_noTimeout (sec_nonneg : 0 ≤ sec) (sec_lt : sec * 1000 < 2 ^ 62)
    (usec_nonneg : 0 ≤ usec) (usec_lt : usec < 1000000) :
    storedTimeout sec usec ≠ noTimeout := by
  have number := toNat_storedTimeout sec_nonneg sec_lt usec_nonneg usec_lt
  have none : noTimeout.toNat = 2 ^ 64 - 1 := by decide
  intro same
  rw [same, none] at number
  omega

/-- **A period of the stored number is meant for whole milliseconds other than zero.** -/
theorem meant_iff (sec_nonneg : 0 ≤ sec) (sec_lt : sec * 1000 < 2 ^ 62)
    (usec_nonneg : 0 ≤ usec) (usec_lt : usec < 1000000) :
    Meant sec usec (some (storedTimeout sec usec)) ↔
      ¬ (sec = 0 ∧ usec = 0) ∧ usec % 1000 = 0 := by
  have number := toNat_storedTimeout sec_nonneg sec_lt usec_nonneg usec_lt
  unfold Meant
  by_cases zero : sec = 0 ∧ usec = 0
  · rw [if_pos zero]
    exact ⟨nofun, fun whole => absurd zero whole.1⟩
  · rw [if_neg zero]
    constructor
    · rintro ⟨ms, same, least⟩
      obtain rfl := Option.mem_some_iff.mp same
      exact ⟨zero, by omega⟩
    · rintro ⟨-, whole⟩
      exact ⟨storedTimeout sec usec, rfl, by omega⟩

end Number

/-! ### Main result -/

/-- **Socket timeouts keep their meaning** if and only if they are whole milliseconds other than
zero: at every timer of every later call, whatever runs in between, and always without a change of
the other direction. -/
theorem timeout_meant_iff {c : IoCall} {s t t' : Suspension} {ctx : FdCtx} {sec usec : Int}
    (sec_nonneg : 0 ≤ sec) (sec_lt : sec * 1000 < 2 ^ 62) (usec_nonneg : 0 ≤ usec)
    (usec_lt : usec < 1000000) (begins : s.pc = .lookup) (held : s.context c = some ctx)
    (later : (following c (s.setsockopt c c.hook.timeoutSo sec usec)).ReachableWhen (Keeps c) t)
    {a : Address} (armed : t.next c (.arm a) = some t') :
    Meant sec usec t'.period ∧
        (∀ other ≠ c.hook.timeoutSo,
          ((s.setsockopt c c.hook.timeoutSo sec usec).context c).map (·.getTimeout other) =
            some (ctx.getTimeout other)) ↔
      ¬ (sec = 0 ∧ usec = 0) ∧ usec % 1000 = 0 := by
  have written := context_setsockopt held c.hook.timeoutSo sec usec
  have stored : Stored c (storedTimeout sec usec) t := by
    refine stored_following ⟨fun _ => ⟨_, written, FdCtx.getTimeout_setTimeout _⟩, fun inside => ?_⟩
      later
    rw [show (s.setsockopt c c.hook.timeoutSo sec usec).pc = .lookup from begins] at inside
    cases inside
  have before : t.pc = .arm := (Suspension.arm_cases armed).1
  have period : t'.period = some (storedTimeout sec usec) := by
    have kept : t.timeout = storedTimeout sec usec := stored.timeout (by rw [before]; rfl)
    rw [Suspension.period, Suspension.period_of_arm armed, kept,
      if_neg (storedTimeout_ne_noTimeout sec_nonneg sec_lt usec_nonneg usec_lt)]
  have others : ∀ other ≠ c.hook.timeoutSo,
      ((s.setsockopt c c.hook.timeoutSo sec usec).context c).map (·.getTimeout other) =
        some (ctx.getTimeout other) := fun other distinct => by
    rw [written]
    exact congrArg some (FdCtx.getTimeout_setTimeout_of_ne distinct _)
  rw [period, meant_iff sec_nonneg sec_lt usec_nonneg usec_lt |>.symm]
  exact and_iff_left others

/-- A descriptor with a context, before the call. -/
def unlimited : Suspension :=
  { Suspension.initial 100 (some 1) with
    fdMgr := ((FdManger.empty.getFdCtx 5 true).1).setCtx 0 (socketCtx noTimeout) }

/-- The call gets `EAGAIN`. -/
def untilArm : List Segment := [.lookup, .attempt (.error .eagain)]

theorem timeout_meant_iff_seconds :
    ∃ t : Suspension, (following recvCall
      (unlimited.setsockopt recvCall .rcvtimeo 3 7000)).ReachableWhen (Keeps recvCall) t ∧
        t.period = some 3007 ∧ Meant 3 7000 t.period := by
  have run : ∃ t, (following recvCall (unlimited.setsockopt recvCall .rcvtimeo 3 7000)).ReachableWhen
      (Keeps recvCall) t ∧ ((t.next recvCall (.arm 3)).map (·.period) == some (some 3007)) = true :=
    Machine.reachableWhen_of_replay rfl untilArm _ (by decide +kernel)
  obtain ⟨t, later, state⟩ := run
  obtain ⟨t', armed, period⟩ := Option.map_eq_some_iff.mp (beq_iff_eq.mp state)
  have held : unlimited.context recvCall = some (socketCtx noTimeout) := by decide +kernel
  have kept := timeout_meant_iff (by decide) (by decide) (by decide) (by decide) rfl held later armed
  exact ⟨t', .step (e := .arm 3) later trivial armed, period, (kept.mpr ⟨by decide, by decide⟩).1⟩

/-- **No timeout becomes a timeout at once**: for the kernel a zero `timeval` stands for none. -/
theorem zero_armed :
    ∃ t t', (following recvCall (unlimited.setsockopt recvCall .rcvtimeo 0 0)).Reachable t ∧
      t.next recvCall (.arm 3) = some t' ∧ t'.period = some 0 ∧ ¬ Meant 0 0 t'.period := by
  obtain ⟨t, later, state⟩ :=
    Machine.reachable_of_replay
      (m := following recvCall (unlimited.setsockopt recvCall .rcvtimeo 0 0)) rfl untilArm
      (fun t => (t.next recvCall (.arm 3)).map (·.period) == some (some 0)) (by decide +kernel)
  obtain ⟨t', armed, period⟩ := Option.map_eq_some_iff.mp (beq_iff_eq.mp state)
  refine ⟨t, t', later, armed, period, ?_⟩
  rw [period, Meant, if_pos ⟨rfl, rfl⟩]
  exact Option.some_ne_none 0

end Sylar.Hook
