/-
**`do_io` cleans up after itself, and times out only when due.**

A call may go round its loop many times; each round arms a timer and registers the event. Callbacks of
earlier rounds may still be queued, and find the `timer_info` of the call as long as that lasts.

* `Rounds` — **the timers**: one that the call has armed is in the set only if it is that of the
  present round, which is cancelled when the round ends.
* `EventTable.Traced` — the registration: there, or in the queue, only while the call is suspended.
* `Lasting` — the `timer_info` does not outlast the call.
* `Timed` — what has expired was due, so many milliseconds after the first timer was armed.
* `cleans_up` — **what that gives when the call returns.**
-/

import Sylar.Hook.Suspension

namespace Sylar.Hook

open Sylar.Library
open Sylar.Timers (Address Placed)
open Sylar.EventTable (IOManager Traced)

variable {c : IoCall} {s s' : Suspension}

/-! ### The registration -/

/-- **The others move the fiber from its slot to the queue at most**, whatever it waits for. -/
theorem Suspension.traced_of_next {i n : Nat} {event : EventTable.Event}
    (traced : Traced s.table c.fiber i event n) {segment : Segment}
    (other : Suspension.own segment = false) (stepped : s.next c segment = some s') :
    Traced s'.table c.fiber i event n := by
  cases Suspension.effect_of_next other stepped with
  | timesOut _ _ performed =>
    refine traced.perform ?_ performed
    trivial
  | operates spares performed => exact traced.perform spares performed
  | serves => exact traced.serve _
  | closes performed =>
    rcases performed with performed | rfl
    · refine (traced.perform ?_ performed).withInterest _
      trivial
    · exact traced.withInterest _
  | late | runs | expires | timers | ticks | reopens | writes => exact traced

/-- How often the fiber can be in the table and the queue. -/
def Pc.registrations : Pc → Nat
  | .suspended => 1
  | _ => 0

/-- Where the fiber is. -/
def Registered (c : IoCall) (s : Suspension) : Prop :=
  Traced s.table c.fiber c.fd .read s.pc.registrations

namespace Registered

theorem afterContext (ctx : Option FdCtx) : (Pc.afterContext ctx).registrations = 0 := by
  unfold Pc.afterContext
  split
  · rfl
  · split
    · rfl
    · split <;> rfl

theorem afterResult (r : IoResult) : (Pc.afterResult r).registrations = 0 := by
  unfold Pc.afterResult
  split <;> rfl

theorem afterResumed (cancelled : Option Errno) :
    (Pc.afterResumed cancelled).registrations = 0 := by
  cases cancelled <;> rfl

/-- A step of a call that is awake. -/
theorem awake (registered : Registered c s) {pc : Pc} (before : s.pc = pc)
    (none : pc.registrations = 0) (table : s'.table = s.table)
    (after : s'.pc.registrations = 0) : Registered c s' := by
  unfold Registered at *
  rw [table, after]
  rw [before, none] at registered
  exact registered

/-- **The step lemma.** -/
theorem next (registered : Registered c s) {segment : Segment}
    (stepped : s.next c segment = some s') : Registered c s' := by
  cases segment with
  | lookup =>
    obtain ⟨before, ⟨-, timeout, rfl⟩ | ⟨-, rfl⟩⟩ := Suspension.lookup_cases stepped
    · exact registered.awake before rfl rfl rfl
    · exact registered.awake before rfl rfl (afterContext _)
  | attempt r =>
    rcases Suspension.attempt_cases stepped with ⟨before, rfl⟩ | ⟨before, rfl⟩
    · exact registered.awake before rfl rfl rfl
    · exact registered.awake before rfl rfl (afterResult r)
  | arm a =>
    obtain ⟨before, rfl | ⟨-, -, rfl⟩⟩ := Suspension.arm_cases stepped
    · exact registered.awake before rfl rfl rfl
    · exact registered.awake before rfl rfl rfl
  | register fault =>
    obtain ⟨before, ⟨table, called, rfl⟩ | ⟨table, progress, table', called, committed, rfl⟩⟩ :=
      Suspension.register_cases stepped
    · unfold Registered at registered
      rw [before] at registered
      rw [Suspension.cancelTimer_eq]
      exact (registered.ctl called).1
    · unfold Registered at registered
      rw [before] at registered
      exact registered.register (Option.some_ne_none _) called committed
  | resume =>
    obtain ⟨before, queued, rfl⟩ := Suspension.resume_cases stepped
    unfold Registered at *
    rw [before] at registered
    rw [Suspension.cancelTimer_eq]
    show Traced _ _ _ _ (Pc.afterResumed s.tinfo.join).registrations
    rw [afterResumed]
    exact registered.resume queued rfl
  | runTimeout | runOther | expire | timers | operate | serve | tick | close | reopen | setCtx =>
    unfold Registered
    rw [(Suspension.stays_of_next rfl stepped).pc]
    exact Suspension.traced_of_next registered rfl stepped

end Registered

/-! ### The timers -/

/-- **The timers of the call**: made, not recurring, the only ones with its closure; in the set only
in the round that armed them, and then with their callback. -/
structure Rounds (c : IoCall) (s : Suspension) : Prop where
  placed : Placed s.timers []
  made : ∀ a ∈ s.armed, a ∈ s.timers.created ∧ (s.timers.timer a).recurring = false
  ours : ∀ a, (s.timers.timer a).cb = some c.onTimeout → a ∈ s.armed
  live : ∀ a ∈ s.armed, a ∈ s.timers.timers →
    s.timer = some a ∧ (s.timers.timer a).cb ≠ none ∧ (s.pc = .register ∨ s.pc = .suspended)

namespace Rounds

/-- Between two rounds none of them is in the set. -/
theorem out (rounds : Rounds c s) (between : s.pc ≠ .register ∧ s.pc ≠ .suspended) :
    ∀ a ∈ s.armed, a ∉ s.timers.timers := by
  intro a member inside
  rcases (rounds.live a member inside).2.2 with register | suspended
  · exact between.1 register
  · exact between.2 suspended

/-- Only the call's place has changed. -/
theorem of_out (rounds : Rounds c s) (timers : s'.timers = s.timers) (armed : s'.armed = s.armed)
    (out : ∀ a ∈ s.armed, a ∉ s.timers.timers) : Rounds c s' := by
  refine ⟨timers ▸ rounds.placed, fun a member => ?_, fun a cb => ?_, fun a member inside => ?_⟩
  · rw [armed] at member
    rw [timers]
    exact rounds.made a member
  · rw [timers] at cb
    rw [armed]
    exact rounds.ours a cb
  · rw [armed] at member
    rw [timers] at inside
    exact absurd inside (out a member)

/-- The timers and the call's place are the same. -/
theorem stays (rounds : Rounds c s) (stays : Suspension.Stays s s')
    (timers : s'.timers = s.timers) : Rounds c s' := by
  refine ⟨timers ▸ rounds.placed, fun a member => ?_, fun a cb => ?_, fun a member inside => ?_⟩
  · rw [stays.armed] at member
    rw [timers]
    exact rounds.made a member
  · rw [timers] at cb
    rw [stays.armed]
    exact rounds.ours a cb
  · rw [stays.armed] at member
    rw [timers] at inside ⊢
    rw [stays.timer, stays.pc]
    exact rounds.live a member inside

/-- **A timer is armed.** -/
theorem arm (rounds : Rounds c s) (before : s.pc = .arm) {a : Address}
    (fresh : a ∉ s.timers.created) :
    Rounds c { s with
      pc := .register
      timers := (Timers.addTimer s.timers a s.now s.timeout (some c.onTimeout) false).1
      timer := some a
      armed := a :: s.armed
      first := s.first.or (some s.now) } := by
  have out := rounds.out (by rw [before]; exact ⟨nofun, nofun⟩)
  have kept : ∀ b, b ≠ a →
      (Timers.addTimer s.timers a s.now s.timeout (some c.onTimeout) false).1.timer b =
        s.timers.timer b := fun b other => Timers.write_timer_of_ne other _
  have other : ∀ b ∈ s.armed, b ≠ a := fun b member same => fresh (same ▸ (rounds.made b member).1)
  refine ⟨rounds.placed.addTimer fresh _ _ _ _, fun b member => ?_, fun b cb => ?_,
    fun b member inside => ?_⟩
  · rcases List.mem_cons.mp member with rfl | old
    · refine ⟨List.mem_cons_self, ?_⟩
      exact congrArg Timers.Timer.recurring (Timers.write_timer_self s.timers b _)
    · dsimp only
      rw [kept b (other b old)]
      exact ⟨List.mem_cons_of_mem a (rounds.made b old).1, (rounds.made b old).2⟩
  · rcases eq_or_ne b a with rfl | another
    · exact List.mem_cons_self
    · dsimp only at cb
      rw [kept b another] at cb
      exact List.mem_cons_of_mem a (rounds.ours b cb)
  · rcases List.mem_cons.mp member with rfl | old
    · refine ⟨rfl, ?_, Or.inl rfl⟩
      have cb := congrArg Timers.Timer.cb (Timers.write_timer_self s.timers b
        { recurring := false, ms := s.timeout, next := s.now + s.timeout, cb := some c.onTimeout })
      exact fun none => by cases cb.symm.trans none
    · rcases Timers.mem_insertTimer.mp inside with same | before'
      · exact absurd same (other b old)
      · exact absurd before' (out b old)

/-- **The round ends**: its timer is cancelled. -/
theorem cancelTimer (rounds : Rounds c s) :
    Rounds c s.cancelTimer ∧ ∀ a ∈ s.cancelTimer.armed, a ∉ s.cancelTimer.timers.timers := by
  cases current : s.timer with
  | none =>
    have same : s.cancelTimer = s := by
      unfold Suspension.cancelTimer
      rw [current]
    rw [same]
    refine ⟨rounds, fun a member inside => ?_⟩
    cases current.symm.trans (rounds.live a member inside).1
  | some a =>
    have cancelled : s.cancelTimer = { s with timers := (Timers.cancel s.timers a).1 } := by
      unfold Suspension.cancelTimer
      rw [current]
    rw [cancelled, Timers.cancel_eq rounds.placed.sorted]
    split
    next spent =>
      have out : ∀ b ∈ s.armed, b ∉ s.timers.timers := fun b member inside => by
        obtain ⟨same, armed, -⟩ := rounds.live b member inside
        cases current.symm.trans same
        exact armed spent
      exact ⟨rounds, out⟩
    next =>
      have out : ∀ b ∈ s.armed, b ∉ (Timers.disarm s.timers a).timers := fun b member inside => by
        obtain ⟨other, inside⟩ := rounds.placed.sorted.mem_disarm.mp inside
        cases current.symm.trans (rounds.live b member inside).1
        exact other rfl
      refine ⟨⟨rounds.placed.disarm a, fun b member => ?_, fun b cb => ?_, fun b member inside =>
        absurd inside (out b member)⟩, out⟩
      · refine ⟨(rounds.made b member).1, ?_⟩
        rw [Timers.disarm_timer]
        rcases eq_or_ne b a with rfl | other
        · rw [Function.update_self]
          exact (rounds.made b member).2
        · rw [Function.update_of_ne other]
          exact (rounds.made b member).2
      · rw [Timers.disarm_timer] at cb
        rcases eq_or_ne b a with rfl | other
        · rw [Function.update_self] at cb
          cases cb
        · rw [Function.update_of_ne other] at cb
          exact rounds.ours b cb

/-- **Expired timers leave the set for good.** -/
theorem expire (rounds : Rounds c s) (probe : Address) (queue : List (Option Callback)) :
    Rounds c { s with timers := (Timers.listExpiredCbs s.timers s.now probe).1, queue } := by
  refine ⟨rounds.placed.listExpiredCbs s.now probe, fun a member => ?_, fun a cb => ?_,
    fun a member inside => ?_⟩
  · dsimp only
    rw [Timers.listExpiredCbs_created, Timers.listExpiredCbs_recurring]
    exact rounds.made a member
  · exact rounds.ours a (Timers.listExpiredCbs_cb cb)
  · obtain ⟨inside, same⟩ :=
      (Timers.oneShot_listExpiredCbs rounds.placed (rounds.made a member).2).2 inside
    dsimp only
    rw [same]
    exact rounds.live a member inside

/-- A call of the others on a timer of theirs. -/
theorem timers (rounds : Rounds c s) {call : Timers.Call} (others : s.Others c call)
    {timers : Timers.TimerManager} (stepped : Timers.step s.timers call = some timers) :
    Rounds c { s with timers } ∧
      ∀ a ∈ s.armed, timers.timer a = s.timers.timer a := by
  have handled : call.handle ≠ none := by
    cases call with
    | listExpiredCbs => exact others.elim
    | addTimer | cancel | refresh | reset => exact Option.some_ne_none _
  have apart : ∀ a ∈ s.armed, call.handle ≠ some a := fun a member same => by
    cases call with
    | listExpiredCbs => cases same
    | addTimer b now ms cb recurring =>
      cases same
      exact (Option.ite_none_left_eq_some.mp stepped).1 (rounds.made a member).1
    | cancel b | refresh b _ | reset b _ _ _ =>
      cases same
      exact others member
  have kept : ∀ a ∈ s.armed, timers.timer a = s.timers.timer a ∧
      (a ∈ timers.timers ↔ a ∈ s.timers.timers) := fun a member =>
    Timers.step_other rounds.placed stepped handled (apart a member)
  refine ⟨⟨rounds.placed.step stepped, fun a member => ?_, fun a cb => ?_, fun a member inside => ?_⟩,
    fun a member => (kept a member).1⟩
  · refine ⟨Timers.created_of_step rounds.placed stepped (rounds.made a member).1, ?_⟩
    exact (congrArg Timers.Timer.recurring (kept a member).1).trans (rounds.made a member).2
  · rcases Timers.cb_of_step rounds.placed stepped handled cb with old | ⟨now, ms, recurring, rfl⟩
    · exact rounds.ours a old
    · exact absurd rfl others
  · dsimp only
    rw [(kept a member).1]
    exact rounds.live a member ((kept a member).2.mp inside)

/-- **The step lemma.** -/
theorem next (rounds : Rounds c s) {segment : Segment} (stepped : s.next c segment = some s') :
    Rounds c s' := by
  cases segment with
  | lookup =>
    obtain ⟨before, ⟨-, timeout, rfl⟩ | ⟨-, rfl⟩⟩ := Suspension.lookup_cases stepped
    · exact rounds.of_out rfl rfl (rounds.out (by rw [before]; exact ⟨nofun, nofun⟩))
    · exact rounds.of_out rfl rfl (rounds.out (by rw [before]; exact ⟨nofun, nofun⟩))
  | attempt r =>
    rcases Suspension.attempt_cases stepped with ⟨before, rfl⟩ | ⟨before, rfl⟩
    · exact rounds.of_out rfl rfl (rounds.out (by rw [before]; exact ⟨nofun, nofun⟩))
    · exact rounds.of_out rfl rfl (rounds.out (by rw [before]; exact ⟨nofun, nofun⟩))
  | arm a =>
    obtain ⟨before, rfl | ⟨-, fresh, rfl⟩⟩ := Suspension.arm_cases stepped
    · exact rounds.of_out rfl rfl (rounds.out (by rw [before]; exact ⟨nofun, nofun⟩))
    · exact rounds.arm before fresh
  | register fault =>
    obtain ⟨before, ⟨table, -, rfl⟩ | ⟨table, progress, table', -, -, rfl⟩⟩ :=
      Suspension.register_cases stepped
    · have moved : Rounds c { s with table } := ⟨rounds.placed, rounds.made, rounds.ours, rounds.live⟩
      exact moved.cancelTimer.1.of_out rfl rfl moved.cancelTimer.2
    · refine ⟨rounds.placed, rounds.made, rounds.ours, fun a member inside => ?_⟩
      obtain ⟨same, armed, -⟩ := rounds.live a member inside
      exact ⟨same, armed, Or.inr rfl⟩
  | resume =>
    obtain ⟨before, queued, rfl⟩ := Suspension.resume_cases stepped
    have moved : Rounds c
        { s with table := { s.table with scheduled := s.table.scheduled.erase c.task } } :=
      ⟨rounds.placed, rounds.made, rounds.ours, rounds.live⟩
    exact moved.cancelTimer.1.of_out rfl rfl moved.cancelTimer.2
  | runTimeout | runOther | tick =>
    cases Suspension.effect_of_next rfl stepped <;>
      exact ⟨rounds.placed, rounds.made, rounds.ours, rounds.live⟩
  | expire probe =>
    cases Suspension.effect_of_next rfl stepped
    exact rounds.expire probe _
  | timers call =>
    cases Suspension.effect_of_next rfl stepped with
    | timers others called => exact (rounds.timers others called).1
  | operate | serve | close | reopen | setCtx =>
    have stays := Suspension.stays_of_next rfl stepped
    exact rounds.stays stays (Suspension.untimed_of_next rfl rfl stepped).1

end Rounds

/-! ### The `timer_info` -/

/-- In the loop of `do_io`. -/
def Pc.inLoop : Pc → Bool
  | .attempt | .arm | .register | .suspended => true
  | .stray | .lookup | .direct | .returned _ => false

/-- **The `timer_info` lasts no longer than the loop.** -/
def Lasting (s : Suspension) : Prop := s.pc.inLoop = false → s.tinfo = none

namespace Lasting

theorem goes (s : Suspension) {pc : Pc} (leaves : pc.inLoop = false → pc.over = true) :
    Lasting (s.goes pc) := by
  intro out
  show (if pc.over then none else s.tinfo) = none
  rw [if_pos (leaves out)]

theorem next (lasting : Lasting s) {segment : Segment} (stepped : s.next c segment = some s') :
    Lasting s' := by
  cases segment with
  | lookup =>
    obtain ⟨before, ⟨-, timeout, rfl⟩ | ⟨-, rfl⟩⟩ := Suspension.lookup_cases stepped
    · exact Bool.noConfusion
    · exact fun _ => lasting (by rw [before]; rfl)
  | attempt r =>
    rcases Suspension.attempt_cases stepped with ⟨before, rfl⟩ | ⟨before, rfl⟩
    · exact goes s.called fun _ => rfl
    · refine goes s.called fun out => ?_
      match r, out with
      | .value _, _ | .error .ebadf, _ | .error .etimedout, _ | .error (.other _), _ => rfl
  | arm a =>
    obtain ⟨before, rfl | ⟨-, -, rfl⟩⟩ := Suspension.arm_cases stepped
    · exact Bool.noConfusion
    · exact Bool.noConfusion
  | register fault =>
    obtain ⟨before, ⟨table, -, rfl⟩ | ⟨table, progress, table', -, -, rfl⟩⟩ :=
      Suspension.register_cases stepped
    · exact goes _ fun _ => rfl
    · exact Bool.noConfusion
  | resume =>
    obtain ⟨before, queued, rfl⟩ := Suspension.resume_cases stepped
    refine goes _ fun out => ?_
    cases cancelled : s.tinfo.join with
    | none =>
      rw [cancelled] at out
      cases out
    | some e => rfl
  | runTimeout | runOther | expire | timers | operate | serve | tick | close | reopen | setCtx =>
    have stays := Suspension.stays_of_next rfl stepped
    intro out
    rw [stays.pc] at out
    have gone := lasting out
    rcases stays.tinfo with same | ⟨alive, -⟩
    · exact same.trans gone
    · cases gone.symm.trans alive

end Lasting

/-! ### The clock -/

/-- `fd_timeout` milliseconds have passed since the call armed its first timer. -/
def Due (s : Suspension) : Prop :=
  ∃ t, s.first = some t ∧ t.toNat + s.timeout.toNat ≤ s.now.toNat

/-- The clock does not run backwards, and a timer that is armed does not pass its end. -/
def Steady (s : Suspension) : Segment → Prop
  | .tick now => s.now ≤ now
  | .arm _ => s.timeout ≠ noTimeout → s.now.toNat + s.timeout.toNat < 2 ^ 64
  | _ => True

instance Steady.decide (s : Suspension) : (segment : Segment) → Decidable (Steady s segment)
  | .tick now => inferInstanceAs (Decidable (s.now ≤ now))
  | .arm _ => inferInstanceAs
      (Decidable (s.timeout ≠ noTimeout → s.now.toNat + s.timeout.toNat < 2 ^ 64))
  | .lookup | .attempt _ | .register _ | .resume | .runTimeout _ | .runOther _ | .expire _
  | .timers _ | .operate _ _ | .serve _ | .close _ | .reopen _ | .setCtx _ => isTrue trivial

/-- **What has expired was due.** -/
structure Timed (c : IoCall) (s : Suspension) : Prop where
  fresh : s.pc = .lookup → s.first = none
  begun : ∀ t, s.first = some t → t.toNat ≤ s.now.toNat
  due : ∀ a ∈ s.armed, ∃ t, s.first = some t ∧
    t.toNat + s.timeout.toNat ≤ (s.timers.timer a).next.toNat
  queued : some c.onTimeout ∈ s.queue → Due s
  cancelled : ∀ e, s.tinfo = some (some e) → e = .etimedout ∧ Due s
  returned : s.pc = .returned (.fails (some .etimedout)) → Due s

namespace Timed

/-- **The clock goes on**, and what is due stays due. -/
theorem move (timed : Timed c s) (first : s'.first = s.first) (timeout : s'.timeout = s.timeout)
    (now : s.now.toNat ≤ s'.now.toNat) (armed : s'.armed = s.armed)
    (next : ∀ a ∈ s.armed, (s'.timers.timer a).next = (s.timers.timer a).next)
    (queue : some c.onTimeout ∈ s'.queue → some c.onTimeout ∈ s.queue ∨ Due s)
    (tinfo : ∀ e, s'.tinfo = some (some e) →
      s.tinfo = some (some e) ∨ (e = .etimedout ∧ Due s))
    (pc : s'.pc = .lookup → s.pc = .lookup)
    (returned : s'.pc = .returned (.fails (some .etimedout)) →
      s.pc = .returned (.fails (some .etimedout)) ∨ Due s) : Timed c s' := by
  have later : Due s → Due s' := fun ⟨t, begins, passed⟩ =>
    ⟨t, first.trans begins, by rw [timeout]; exact Nat.le_trans passed now⟩
  refine ⟨fun before => first.trans (timed.fresh (pc before)), fun t begins => ?_,
    fun a member => ?_, fun member => ?_, fun e set => ?_, fun ends => ?_⟩
  · exact Nat.le_trans (timed.begun t (first.symm.trans begins)) now
  · rw [armed] at member
    rw [first, timeout, next a member]
    exact timed.due a member
  · rcases queue member with old | due
    · exact later (timed.queued old)
    · exact later due
  · rcases tinfo e set with old | ⟨same, due⟩
    · exact ⟨(timed.cancelled e old).1, later (timed.cancelled e old).2⟩
    · exact ⟨same, later due⟩
  · rcases returned ends with old | due
    · exact later (timed.returned old)
    · exact later due

/-- **The first timer of the call**, or a later one. -/
theorem arm (timed : Timed c s) (rounds : Rounds c s) {a : Address}
    (fresh : a ∉ s.timers.created) (fits : s.now.toNat + s.timeout.toNat < 2 ^ 64) :
    Timed c { s with
      pc := .register
      timers := (Timers.addTimer s.timers a s.now s.timeout (some c.onTimeout) false).1
      timer := some a
      armed := a :: s.armed
      first := s.first.or (some s.now) } := by
  have begins : ∃ t, s.first.or (some s.now) = some t ∧ t.toNat ≤ s.now.toNat := by
    cases first : s.first with
    | none => exact ⟨s.now, rfl, Nat.le_refl _⟩
    | some t => exact ⟨t, rfl, timed.begun t first⟩
  have kept : ∀ t, s.first = some t → s.first.or (some s.now) = some t := fun t first => by
    rw [first]
    rfl
  have later : Due s → Due { s with
      pc := .register
      timers := (Timers.addTimer s.timers a s.now s.timeout (some c.onTimeout) false).1
      timer := some a
      armed := a :: s.armed
      first := s.first.or (some s.now) } := fun ⟨t, first, passed⟩ => ⟨t, kept t first, passed⟩
  refine ⟨nofun, fun t same => ?_, fun b member => ?_, fun member => later (timed.queued member),
    fun e set => ⟨(timed.cancelled e set).1, later (timed.cancelled e set).2⟩, nofun⟩
  · obtain ⟨t', begun, le⟩ := begins
    cases begun.symm.trans same
    exact le
  · rcases List.mem_cons.mp member with rfl | old
    · obtain ⟨t, begun, le⟩ := begins
      refine ⟨t, begun, ?_⟩
      have next := congrArg Timers.Timer.next (Timers.write_timer_self s.timers b
        { recurring := false, ms := s.timeout, next := s.now + s.timeout, cb := some c.onTimeout })
      show t.toNat + s.timeout.toNat ≤ (Timers.Timer.next _).toNat
      rw [Timers.addTimer, Timers.insertTimer_timer]
      dsimp only
      rw [next, UInt64.toNat_add, Nat.mod_eq_of_lt fits]
      exact Nat.add_le_add_right le _
    · obtain ⟨t, first, le⟩ := timed.due b old
      have other : b ≠ a := fun same => fresh (same ▸ (rounds.made b old).1)
      refine ⟨t, kept t first, ?_⟩
      have same := congrArg Timers.Timer.next (Timers.write_timer_of_ne (m := s.timers) other
        { recurring := false, ms := s.timeout, next := s.now + s.timeout, cb := some c.onTimeout })
      show t.toNat + s.timeout.toNat ≤ (Timers.Timer.next _).toNat
      rw [Timers.addTimer, Timers.insertTimer_timer]
      dsimp only
      rw [same]
      exact le

/-- Cancelling moves no timer. -/
theorem next_cancelTimer (rounds : Rounds c s) (a : Address) :
    (s.cancelTimer.timers.timer a).next = (s.timers.timer a).next := by
  unfold Suspension.cancelTimer
  split
  next b _ =>
    dsimp only
    rw [Timers.cancel_eq rounds.placed.sorted]
    split
    · rfl
    · rw [Timers.disarm_timer]
      rcases eq_or_ne a b with rfl | other
      · rw [Function.update_self]
      · rw [Function.update_of_ne other]
  next => rfl

/-- No test of the context returns `ETIMEDOUT`. -/
theorem afterContext_ne (ctx : Option FdCtx) :
    Pc.afterContext ctx ≠ .returned (.fails (some .etimedout)) ∧ Pc.afterContext ctx ≠ .lookup := by
  unfold Pc.afterContext
  split
  · exact ⟨nofun, nofun⟩
  · split
    · exact ⟨nofun, nofun⟩
    · split <;> exact ⟨nofun, nofun⟩

/-- What `fun` gives is passed on as it is. -/
theorem afterResult_ne (r : IoResult) :
    Pc.afterResult r ≠ .returned (.fails (some .etimedout)) ∧ Pc.afterResult r ≠ .lookup := by
  unfold Pc.afterResult
  split <;> exact ⟨nofun, nofun⟩

theorem afterResumed_ne_lookup (cancelled : Option Errno) :
    Pc.afterResumed cancelled ≠ .lookup := by
  cases cancelled <;> exact nofun

/-- The call returns what `cancelled` says. -/
theorem cancelled_of_returned {cancelled : Option Errno} {e : Errno}
    (returns : Pc.afterResumed cancelled = .returned (.fails (some e))) : cancelled = some e := by
  cases cancelled with
  | none => cases returns
  | some e' =>
    cases returns
    rfl

/-- Nothing is due before the first timer. -/
theorem lookup (timed : Timed c s) (before : s.pc = .lookup) (pc : Pc)
    (after : pc ≠ .returned (.fails (some .etimedout)) ∧ pc ≠ .lookup) (timeout : UInt64)
    {tinfo : Option (Option Errno)} (unset : tinfo = s.tinfo ∨ tinfo = some none) :
    Timed c { s with pc, timeout, tinfo } := by
  have none := timed.fresh before
  have never : ¬ Due s := fun ⟨t, begins, _⟩ => by cases none.symm.trans begins
  refine ⟨fun same => absurd same after.2, timed.begun, fun a member => ?_,
    fun member => absurd (timed.queued member) never, fun e set => ?_,
    fun same => absurd same after.1⟩
  · obtain ⟨t, begins, -⟩ := timed.due a member
    cases none.symm.trans begins
  · rcases unset with same | alive
    · exact absurd (timed.cancelled e (same.symm.trans set)).2 never
    · cases alive.symm.trans set

/-- A call that goes on, or returns. -/
theorem goes (timed : Timed c s) {pc : Pc} (later : pc ≠ .lookup)
    (returned : pc = .returned (.fails (some .etimedout)) → Due s) : Timed c (s.goes pc) := by
  refine timed.move rfl rfl (Nat.le_refl _) rfl (fun _ _ => rfl) Or.inl (fun _ set => Or.inl ?_)
    (fun same => absurd same later) fun same => Or.inr (returned same)
  change (if pc.over then none else s.tinfo) = _ at set
  split at set
  · cases set
  · exact set

/-- Nothing of the call's clock has changed. -/
theorem same (timed : Timed c s) (first : s'.first = s.first) (timeout : s'.timeout = s.timeout)
    (now : s'.now = s.now) (armed : s'.armed = s.armed)
    (next : ∀ a ∈ s.armed, (s'.timers.timer a).next = (s.timers.timer a).next)
    (queue : s'.queue = s.queue) (tinfo : s'.tinfo = s.tinfo) (pc : s'.pc = s.pc) : Timed c s' :=
  timed.move first timeout (Nat.le_of_eq (congrArg UInt64.toNat now.symm)) armed next
    (fun member => Or.inl (queue ▸ member)) (fun _ set => Or.inl (tinfo.symm.trans set))
    (fun before => pc.symm.trans before) (fun ends => Or.inl (pc.symm.trans ends))

theorem cancelTimer (timed : Timed c s) (rounds : Rounds c s) : Timed c s.cancelTimer := by
  have next := next_cancelTimer rounds
  rw [Suspension.cancelTimer_eq] at next ⊢
  exact timed.same rfl rfl rfl rfl (fun a _ => next a) rfl rfl rfl

/-- **What expires is due.** -/
theorem expire (timed : Timed c s) (rounds : Rounds c s) {probe : Address}
    (fresh : probe ∉ s.timers.created) :
    Timed c { s with
      timers := (Timers.listExpiredCbs s.timers s.now probe).1
      queue := s.queue ++ (Timers.listExpiredCbs s.timers s.now probe).2 } := by
  refine timed.move rfl rfl (Nat.le_refl _) rfl (fun a member => ?_) (fun member => ?_)
    (fun _ => Or.inl) id Or.inl
  · exact (Timers.oneShot_listExpiredCbs rounds.placed (rounds.made a member).2).1
  · rcases List.mem_append.mp member with old | expired
    · exact Or.inl old
    · obtain ⟨a, cb, reached⟩ := Timers.mem_listExpiredCbs rounds.placed fresh expired
      obtain ⟨t, begins, le⟩ := timed.due a (rounds.ours a cb)
      exact Or.inr ⟨t, begins, Nat.le_trans le (UInt64.le_iff_toNat_le.mp reached)⟩

/-- **The step lemma.** -/
theorem next (timed : Timed c s) (rounds : Rounds c s) {segment : Segment}
    (steady : Steady s segment) (stepped : s.next c segment = some s') : Timed c s' := by
  cases segment with
  | lookup =>
    obtain ⟨before, ⟨-, timeout, rfl⟩ | ⟨-, rfl⟩⟩ := Suspension.lookup_cases stepped
    · exact timed.lookup before .attempt ⟨nofun, nofun⟩ timeout (Or.inr rfl)
    · exact timed.lookup before _ (afterContext_ne _) s.timeout (Or.inl rfl)
  | attempt r =>
    have called : Timed c s.called := timed.same rfl rfl rfl rfl (fun _ _ => rfl) rfl rfl rfl
    rcases Suspension.attempt_cases stepped with ⟨before, rfl⟩ | ⟨before, rfl⟩
    · exact called.goes nofun nofun
    · exact called.goes (afterResult_ne r).2 fun same => absurd same (afterResult_ne r).1
  | arm a =>
    obtain ⟨before, rfl | ⟨limited, fresh, rfl⟩⟩ := Suspension.arm_cases stepped
    · exact timed.move rfl rfl (Nat.le_refl _) rfl (fun _ _ => rfl) Or.inl (fun _ => Or.inl) nofun
        nofun
    · exact timed.arm rounds fresh (steady limited)
  | register fault =>
    obtain ⟨before, ⟨table, -, rfl⟩ | ⟨table, progress, table', -, -, rfl⟩⟩ :=
      Suspension.register_cases stepped
    · have moved : Rounds c { s with table } := ⟨rounds.placed, rounds.made, rounds.ours, rounds.live⟩
      have same : Timed c { s with table } :=
        timed.same rfl rfl rfl rfl (fun _ _ => rfl) rfl rfl rfl
      exact (same.cancelTimer moved).goes nofun nofun
    · exact timed.move rfl rfl (Nat.le_refl _) rfl (fun _ _ => rfl) Or.inl (fun _ => Or.inl) nofun
        nofun
  | resume =>
    obtain ⟨before, queued, rfl⟩ := Suspension.resume_cases stepped
    have moved : Rounds c
        { s with table := { s.table with scheduled := s.table.scheduled.erase c.task } } :=
      ⟨rounds.placed, rounds.made, rounds.ours, rounds.live⟩
    have same : Timed c
        { s with table := { s.table with scheduled := s.table.scheduled.erase c.task } } :=
      timed.same rfl rfl rfl rfl (fun _ _ => rfl) rfl rfl rfl
    refine (same.cancelTimer moved).goes (afterResumed_ne_lookup _) fun returns => ?_
    have cancelled : s.tinfo = some (some .etimedout) :=
      Option.join_eq_some_iff.mp (cancelled_of_returned returns)
    refine ((same.cancelTimer moved).cancelled .etimedout ?_).2
    rw [Suspension.cancelTimer_eq]
    exact cancelled
  | runTimeout fault =>
    obtain ⟨queued, ⟨-, table, -, rfl⟩ | ⟨-, rfl⟩⟩ := Suspension.runTimeout_cases stepped
    · refine timed.move rfl rfl (Nat.le_refl _) rfl (fun _ _ => rfl)
        (fun member => Or.inl (List.mem_of_mem_erase member)) (fun e set => Or.inr ?_) id Or.inl
      cases set
      exact ⟨rfl, timed.queued queued⟩
    · exact timed.move rfl rfl (Nat.le_refl _) rfl (fun _ _ => rfl)
        (fun member => Or.inl (List.mem_of_mem_erase member)) (fun _ => Or.inl) id Or.inl
  | runOther cb =>
    cases Suspension.effect_of_next rfl stepped
    exact timed.move rfl rfl (Nat.le_refl _) rfl (fun _ _ => rfl)
      (fun member => Or.inl (List.mem_of_mem_erase member)) (fun _ => Or.inl) id Or.inl
  | expire probe =>
    cases Suspension.effect_of_next rfl stepped with
    | expires fresh => exact timed.expire rounds fresh
  | timers call =>
    cases Suspension.effect_of_next rfl stepped with
    | timers others called =>
      refine timed.same rfl rfl rfl rfl (fun a member => ?_) rfl rfl rfl
      exact congrArg Timers.Timer.next ((rounds.timers others called).2 a member)
  | tick now =>
    cases Suspension.effect_of_next rfl stepped
    exact timed.move rfl rfl (UInt64.le_iff_toNat_le.mp steady) rfl (fun _ _ => rfl) Or.inl
      (fun _ => Or.inl) id Or.inl
  | operate | serve | close | reopen | setCtx =>
    have stays := Suspension.stays_of_next rfl stepped
    obtain ⟨timers, queue, now, tinfo⟩ := Suspension.untimed_of_next rfl rfl stepped
    exact timed.same stays.first stays.timeout now stays.armed (fun a _ => by rw [timers]) queue
      tinfo stays.pc

end Timed

/-! ### Main result -/

/-- **What a call leaves behind**: no timer of its own in the set, its fiber in no slot, and callbacks
that do nothing. -/
structure CleanedUp (c : IoCall) (s : Suspension) : Prop where
  timers : ∀ a ∈ s.armed, a ∉ s.timers.timers
  registration : ∀ fd event, (s.table.slotOf fd event).fiber ≠ some c.fiber
  callbacks : ∀ fault s', s.next c (.runTimeout fault) = some s' →
    s' = { s with queue := s.queue.erase (some c.onTimeout) }

theorem rounds_initial (c : IoCall) (now : UInt64) (file : Option Nat) :
    Rounds c (.initial now file) where
  placed := Timers.placed_empty
  made a member := by cases member
  ours a cb := by cases cb
  live a member := by cases member

theorem registered_initial (c : IoCall) (now : UInt64) (file : Option Nat) :
    Registered c (.initial now file) := EventTable.traced_initial c.fiber c.fd .read

theorem timed_initial (c : IoCall) (now : UInt64) (file : Option Nat) :
    Timed c (.initial now file) where
  fresh _ := rfl
  begun t begins := by cases begins
  due a member := by cases member
  queued member := by cases member
  cancelled e set := by cases set
  returned ends := by cases ends

/-- What holds in every run. -/
theorem rounds_of_reachable {ok : Suspension → Segment → Prop}
    (reached : (suspension c).ReachableWhen ok s) :
    Rounds c s ∧ Registered c s ∧ Lasting s := by
  refine reached.invariant (P := fun s => Rounds c s ∧ Registered c s ∧ Lasting s) ?_
    fun s segment s' holds _ stepped => ?_
  · rintro s ⟨now, file, rfl⟩
    exact ⟨rounds_initial c now file, registered_initial c now file, fun _ => rfl⟩
  · exact ⟨holds.1.next stepped, holds.2.1.next stepped, holds.2.2.next stepped⟩

/-- **`do_io` cleans up on every path, and times out only when due**: whatever the function and
`add_event` return, however the segments are interleaved, when the call returns it has cleaned up; and
when the clock does not run backwards, it returns `ETIMEDOUT` of its own only after `fd_timeout`
milliseconds. -/
theorem cleans_up (c : IoCall) :
    (∀ s r, (suspension c).Reachable s → s.pc = .returned r → CleanedUp c s) ∧
      ∀ s, (suspension c).ReachableWhen Steady s →
        s.pc = .returned (.fails (some .etimedout)) → Due s := by
  constructor
  · intro s r reached returned
    obtain ⟨rounds, registered, lasting⟩ := rounds_of_reachable reached
    refine ⟨rounds.out (by rw [returned]; exact ⟨nofun, nofun⟩), fun fd event held => ?_,
      fun fault s' ran => ?_⟩
    · unfold Registered at registered
      rw [returned] at registered
      cases registered.not_waits.symm.trans (EventTable.waits_eq_true.mpr held)
    · have gone : s.tinfo = none := lasting (by rw [returned]; rfl)
      obtain ⟨-, ⟨alive, -⟩ | ⟨-, same⟩⟩ := Suspension.runTimeout_cases ran
      · cases gone.symm.trans alive
      · exact same
  · intro s reached returned
    have both : Rounds c s ∧ Timed c s := by
      refine reached.invariant (P := fun s => Rounds c s ∧ Timed c s) ?_
        fun s segment s' holds steady stepped => ?_
      · rintro s ⟨now, file, rfl⟩
        exact ⟨rounds_initial c now file, timed_initial c now file⟩
      · exact ⟨holds.1.next stepped, holds.2.next holds.1 steady stepped⟩
    exact both.2.returned returned

/-- The first timer expires, but its callback is run in the second round. -/
def secondRound : List Segment :=
  waitTen ++ [.tick 110, .expire 4, .operate false (.report 5 1), .resume,
    .attempt (.error .eagain), .arm 6, .register false, .runTimeout false, .resume]

theorem cleans_up_secondRound :
    ∃ s : Suspension, (suspension recvCall).ReachableWhen Steady s ∧ s.armed = [6, 3] ∧
      s.first = some 100 ∧ CleanedUp recvCall s ∧ Due s := by
  have run : ∃ s, (suspension recvCall).ReachableWhen Steady s ∧
      decide (s.armed = [6, 3] ∧ s.first = some 100 ∧
        s.pc = .returned (.fails (some .etimedout))) = true :=
    Machine.reachableWhen_of_replay (m := suspension recvCall) (s := .initial 100 none)
      ⟨_, _, rfl⟩ secondRound _ (by decide +kernel)
  obtain ⟨s, reached, state⟩ := run
  obtain ⟨armed, first, returned⟩ := of_decide_eq_true state
  exact ⟨s, reached, armed, first, (cleans_up recvCall).1 s _ reached.reachable returned,
    (cleans_up recvCall).2 s reached returned⟩

end Sylar.Hook
