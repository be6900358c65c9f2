/-
**`IOManager::stopping()`: four observations at four times.**

An idle worker reads the timers, then the number of events, then the queue and the number of active
workers. A popped task is in neither of the last two until its worker has counted itself, and what a
task or `list_expired_cbs` arms after the first reads is not seen.

* `active_eq` — `m_active_thread_count` is the number of workers between `++` and `--`, in every run.
* `Pool.quiescent` — what a `true` of `stopping()` should mean; `unsound` records one that does not.
* `stopping_unsound` — **each of the windows gives a wrong `true`.**
* `Observable` — the condition: no window is open when it matters.
* `stopping_sound` — **under it every `true` is right, in every run.**
-/

import Sylar.Library.Tally
import Sylar.Scheduler.Moves

namespace Sylar.Scheduler

open Sylar.Library

variable {n : Nat}

/-! ### The active workers -/

/-- The stages between `++m_active_thread_count` and `--m_active_thread_count`. -/
def Stage.isActive : Stage → Bool
  | .counted | .entered | .executing | .leaving | .back => true
  | .chosen | .uncounted | .rescheduling | .holding | .finished => false

/-- The stages of the idle fiber after "no timer" was read in `stopping()`. -/
def IdleStage.readNoTimer : IdleStage → Bool
  | .pending | .last => true
  | .timeout | .wait | .blocked | .woken | .listed .. | .reports | .triggered | .left => false

/-- The stages after "no event" was read as well. -/
def IdleStage.readNoEvent : IdleStage → Bool
  | .last => true
  | .timeout | .pending | .wait | .blocked | .woken | .listed .. | .reports | .triggered
  | .left => false

namespace Pc

/-- The worker is counted in `m_active_thread_count`. -/
def isActive : Pc → Bool
  | .tickling _ after => after.isActive
  | .task stage _ _ => stage.isActive
  | .top | .dispatch _ | .idle _ | .exited => false

/-- The worker's next step is `--m_active_thread_count`. -/
def uncounts : Pc → Bool
  | .task .back _ _ => true
  | _ => false

/-- The worker has read that there is no timer, and is still evaluating `stopping()`. -/
def readNoTimer : Pc → Bool
  | .tickling _ after => after.readNoTimer
  | .idle stage => stage.readNoTimer
  | .top | .dispatch _ | .task .. | .exited => false

/-- The worker has read that there is no event either. -/
def readNoEvent : Pc → Bool
  | .tickling _ after => after.readNoEvent
  | .idle stage => stage.readNoEvent
  | .top | .dispatch _ | .task .. | .exited => false

@[simp] theorem isActive_tickleIf (needTickle : Bool) (after : Pc) :
    (tickleIf needTickle after).isActive = after.isActive := by
  cases needTickle <;> rfl

@[simp] theorem readNoTimer_tickleIf (needTickle : Bool) (after : Pc) :
    (tickleIf needTickle after).readNoTimer = after.readNoTimer := by
  cases needTickle <;> rfl

@[simp] theorem readNoEvent_tickleIf (needTickle : Bool) (after : Pc) :
    (tickleIf needTickle after).readNoEvent = after.readNoEvent := by
  cases needTickle <;> rfl

theorem readNoTimer_of_readNoEvent {pc : Pc} (read : pc.readNoEvent = true) :
    pc.readNoTimer = true := by
  induction pc with
  | tickling write after ih => exact ih read
  | idle stage =>
    match stage, read with
    | .last, _ => rfl
  | _ => cases read

end Pc

/-- The counter is the number of active workers. -/
def ActiveCounted (s : Pool n) : Prop := s.activeThreadCount = tally Pc.isActive s.pc

variable {s s' t : Pool n} {w : Fin n} {pc : Pc}

namespace ActiveCounted

/-- A worker moves, and the counter with it. -/
theorem goto {before : Pc} (counted : ActiveCounted s) (from' : s.pc w = before)
    (moved : t.pc = Function.update s.pc w pc)
    (count : t.activeThreadCount + before.isActive.toNat =
      s.activeThreadCount + pc.isActive.toNat) : ActiveCounted t := by
  have moves := tally_update Pc.isActive s.pc w pc
  unfold ActiveCounted at counted ⊢
  rw [from'] at moves
  rw [moved]
  omega

/-- The active worker itself is counted. -/
theorem pos (counted : ActiveCounted s) (active : (s.pc w).isActive = true) :
    0 < s.activeThreadCount := by
  unfold ActiveCounted at counted
  rw [counted]
  exact tally_pos active

/-- **Every step keeps the count.** -/
theorem next {event : Event n} (counted : ActiveCounted s) (move : Move s event s') :
    ActiveCounted s' := by
  cases move
  case scan from' _ | expire from' _ _ _ | rearm from' | scheduleCbs from' | trigger from' _ |
      reschedule from' =>
    refine counted.goto from' rfl ?_
    rw [Pc.isActive_tickleIf]
    rfl
  case uncount w b f from' =>
    have active := counted.pos (w := w) (by rw [from']; rfl)
    exact counted.goto from' rfl (Nat.sub_add_cancel active)
  case testNone from' _ | testSome from' _ | write from' | skip from' _ | choose from' _ |
      reuse from' _ _ | renew from' _ | exit from' _ _ | idle from' _ _ | count from' |
      enter from' _ | switch from' _ | leave from' _ _ | save from' | readReady from' _ |
      readOver from' _ | readFinished from' _ | readOther from' _ | hold from' | reset from' _ |
      noTimer from' _ | someTimer from' | noPending from' _ | somePending from' | stops from' _ |
      stays from' | block from' | wake from' | endTrigger from' | swapOut from' | endIdle from' =>
    exact counted.goto from' rfl rfl
  case drain | addTimer | cancelTimer | addEvent | delEvent | schedule | scheduleBatch |
      testTickleNone | testTickleSome | writeTickle | testOtherNone | testOtherSome | writeOther |
      newFiber | stop =>
    exact counted

end ActiveCounted

theorem activeCounted_initial : ActiveCounted (Pool.initial n) := by
  unfold ActiveCounted
  symm
  rw [show (Pool.initial n).activeThreadCount = 0 from rfl, tally_eq_zero_iff]
  intro w
  rfl

/-- **`m_active_thread_count` is the number of workers between `++` and `--`, in every run.** -/
theorem active_eq (reached : (pool n).Reachable s) : s.activeThreadCount = tally Pc.isActive s.pc := by
  apply reached.invariant (P := ActiveCounted)
  · rintro s rfl
    exact activeCounted_initial
  · intro s event s' counted _ stepped
    exact counted.next (move_of_next stepped)

/-! ### The condition -/

namespace Pool

variable (s : Pool n)

/-- Nobody who evaluates `stopping()` has read "none" of what there is now. -/
def Unread : Prop :=
  (∀ w, (s.pc w).readNoTimer = true → s.timers = 0) ∧
    ∀ w, (s.pc w).readNoEvent = true → s.pendingEventCount = 0

/-- Whoever holds a popped task counts as active. -/
def HeldCounted : Prop := ∀ w, s.holds (s.pc w) → (s.pc w).isActive = true

instance : Decidable s.Unread := inferInstanceAs (Decidable (_ ∧ _))

instance : Decidable s.HeldCounted :=
  inferInstanceAs (Decidable (∀ w, s.holds (s.pc w) → (s.pc w).isActive = true))

end Pool

/-- **The condition on a step**, once `m_stopping` is set: at the last observation of an empty queue
whoever holds a task is counted; and no timer or event that an evaluation in progress has missed loses
its last active worker, or comes from no active worker. -/
def Observable (s : Pool n) : Event n → Prop
  | .work w =>
      s.stopping = true →
        ((s.pc w).readNoEvent = true → s.fibers = [] → s.HeldCounted) ∧
          ((s.pc w).uncounts = true → 1 < s.activeThreadCount ∨ s.Unread)
  | .rearm _ _ =>
      s.stopping = true → 0 < s.activeThreadCount ∨ ∀ w, (s.pc w).readNoTimer = false
  | .stop => 0 < s.activeThreadCount ∨ s.Unread
  | _ => True

instance (s : Pool n) (event : Event n) : Decidable (Observable s event) :=
  match event with
  | .work w =>
      inferInstanceAs (Decidable (s.stopping = true →
        ((s.pc w).readNoEvent = true → s.fibers = [] → s.HeldCounted) ∧
          ((s.pc w).uncounts = true → 1 < s.activeThreadCount ∨ s.Unread)))
  | .rearm _ _ =>
      inferInstanceAs (Decidable (s.stopping = true →
        0 < s.activeThreadCount ∨ ∀ w, (s.pc w).readNoTimer = false))
  | .stop => inferInstanceAs (Decidable (_ ∨ _))
  | .leave .. | .wake _ | .expire .. | .drain _ | .trigger .. | .swapOut _ | .addTimer ..
  | .cancelTimer _ | .addEvent .. | .delEvent .. | .schedule .. | .scheduleBatch _ | .testTickle
  | .writeTickle | .testOther | .writeOther | .newFiber _ => isTrue trivial

/-! ### The invariant -/

/-- Once `m_stopping` is set, some worker is active or no evaluation has missed anything. -/
structure Observed (s : Pool n) : Prop where
  seen : s.stopping = true → 0 < s.activeThreadCount ∨ s.Unread
  sound : s.unsound = false

/-- What holds of every place, and of the new place of the worker that moves, holds after the move. -/
theorem reads_goto (reads : Pc → Bool) {p q : Prop} (moved : t.pc = Function.update s.pc w pc)
    (here : reads pc = true → q) (others : ∀ v, reads (s.pc v) = true → p) (weaker : p → q) :
    ∀ v, reads (t.pc v) = true → q := by
  intro v read
  rw [moved] at read
  rcases eq_or_ne v w with rfl | other
  · rw [Function.update_self] at read
    exact here read
  · rw [Function.update_of_ne other] at read
    exact weaker (others v read)

theorem Pool.Unread.goto {before : Pc} (unread : s.Unread) (from' : s.pc w = before)
    (moved : t.pc = Function.update s.pc w pc)
    (noTimer : pc.readNoTimer = true → before.readNoTimer = true ∨ t.timers = 0)
    (noEvent : pc.readNoEvent = true → before.readNoEvent = true ∨ t.pendingEventCount = 0)
    (timers : t.timers ≤ s.timers) (events : t.pendingEventCount ≤ s.pendingEventCount) :
    t.Unread := by
  subst from'
  have timersZero : s.timers = 0 → t.timers = 0 := fun zero => Nat.eq_zero_of_le_zero (zero ▸ timers)
  have eventsZero : s.pendingEventCount = 0 → t.pendingEventCount = 0 := fun zero =>
    Nat.eq_zero_of_le_zero (zero ▸ events)
  constructor
  · apply reads_goto _ moved _ unread.1 timersZero
    intro read
    exact (noTimer read).elim (fun old => timersZero (unread.1 w old)) id
  · apply reads_goto _ moved _ unread.2 eventsZero
    intro read
    exact (noEvent read).elim (fun old => eventsZero (unread.2 w old)) id

namespace Observed

/-- A worker moves; there are no more timers and events than before, and no fewer active workers. -/
theorem goto {before : Pc} (observed : Observed s) (from' : s.pc w = before)
    (moved : t.pc = Function.update s.pc w pc)
    (noTimer : pc.readNoTimer = true → before.readNoTimer = true ∨ t.timers = 0)
    (noEvent : pc.readNoEvent = true → before.readNoEvent = true ∨ t.pendingEventCount = 0)
    (stopping : t.stopping = s.stopping) (sound : t.unsound = false)
    (active : s.activeThreadCount ≤ t.activeThreadCount) (timers : t.timers ≤ s.timers)
    (events : t.pendingEventCount ≤ s.pendingEventCount) : Observed t where
  seen set := by
    rcases observed.seen (stopping ▸ set) with some' | unread
    · exact Or.inl (Nat.lt_of_lt_of_le some' active)
    · exact Or.inr (unread.goto from' moved noTimer noEvent timers events)
  sound := sound

/-- Another thread, or the running task of an active worker. -/
theorem stay (observed : Observed s) (pcs : t.pc = s.pc) (stopping : t.stopping = s.stopping)
    (unsound : t.unsound = s.unsound) (active : t.activeThreadCount = s.activeThreadCount)
    (more : 0 < s.activeThreadCount ∨
      t.timers ≤ s.timers ∧ t.pendingEventCount ≤ s.pendingEventCount) : Observed t where
  seen set := by
    rw [active]
    rcases more with some' | ⟨timers, events⟩
    · exact Or.inl some'
    · refine (observed.seen (stopping ▸ set)).imp_right fun unread => ?_
      unfold Pool.Unread
      rw [pcs]
      exact ⟨fun v read => Nat.eq_zero_of_le_zero (unread.1 v read ▸ timers),
        fun v read => Nat.eq_zero_of_le_zero (unread.2 v read ▸ events)⟩
  sound := unsound.trans observed.sound

/-- **A `true` of `stopping()` is right.** -/
theorem quiescent (observed : Observed s) (counted : ActiveCounted s) (from' : s.pc w = .idle .last)
    (held : s.stopping = true → s.fibers = [] → s.HeldCounted)
    (stopping : schedulerStopping s.autoStop s.stopping s.fibers s.activeThreadCount = true) :
    s.quiescent := by
  unfold schedulerStopping at stopping
  simp only [Bool.and_eq_true, List.isEmpty_iff, beq_iff_eq] at stopping
  obtain ⟨⟨⟨-, set⟩, empty⟩, none⟩ := stopping
  obtain ⟨timersRead, eventsRead⟩ := (observed.seen set).resolve_left (by omega)
  refine ⟨timersRead w (by rw [from']; rfl), eventsRead w (by rw [from']; rfl), empty, fun v holds => ?_⟩
  have active := held set empty v holds
  have pos := counted.pos active
  omega

/-- **A step that meets the condition keeps the invariant.** -/
theorem next {event : Event n} (observed : Observed s) (counted : ActiveCounted s)
    (ok : Observable s event) (move : Move s event s') : Observed s' := by
  have sound := observed.sound
  cases move
  case scan from' _ | scheduleCbs from' | trigger from' _ | reschedule from' =>
    refine observed.goto from' rfl ?_ ?_ rfl sound (Nat.le_refl _) (Nat.le_refl _) (Nat.le_refl _)
    · rw [Pc.readNoTimer_tickleIf]
      nofun
    · rw [Pc.readNoEvent_tickleIf]
      nofun
  case expire cbs kept later front from' enough again _ =>
    refine observed.goto from' rfl ?_ ?_ rfl sound (Nat.le_refl _) ?_ (Nat.le_refl _)
    · rw [Pc.readNoTimer_tickleIf]
      nofun
    · rw [Pc.readNoEvent_tickleIf]
      nofun
    · show s.timers - cbs.length + kept ≤ s.timers
      omega
  case rearm w cbs later front from' =>
    refine ⟨fun set => (ok set).imp_right fun nobody => ?_, sound⟩
    have reads : ∀ v, ((s.goto w (.tickleIf front (.idle (.listed cbs later)))).pc v).readNoTimer =
        true → False := by
      refine reads_goto _ rfl ?_ ?_ id
      · rw [Pc.readNoTimer_tickleIf]
        nofun
      · intro v read
        exact Bool.false_ne_true ((nobody v).symm.trans read)
    exact ⟨fun v read => (reads v read).elim,
      fun v read => (reads v (Pc.readNoTimer_of_readNoEvent read)).elim⟩
  case uncount w b f from' =>
    refine ⟨fun set => ?_, sound⟩
    rcases (ok set).2 (by rw [from']; rfl) with another | unread
    · exact Or.inl (Nat.sub_pos_of_lt another)
    · exact Or.inr (unread.goto from' rfl nofun nofun (Nat.le_refl _) (Nat.le_refl _))
  case stops w from' stopping =>
    have quiescent := observed.quiescent counted from' (fun set => (ok set).1 (by rw [from']; rfl))
      stopping
    refine observed.goto from' rfl nofun nofun rfl ?_ (Nat.le_refl _) (Nat.le_refl _)
      (Nat.le_refl _)
    show (s.unsound || decide (¬ s.quiescent)) = false
    rw [sound, decide_eq_false (not_not.mpr quiescent)]
    rfl
  case noTimer from' none =>
    exact observed.goto from' rfl (fun _ => Or.inr none) nofun rfl sound (Nat.le_refl _)
      (Nat.le_refl _) (Nat.le_refl _)
  case noPending from' none =>
    exact observed.goto from' rfl (fun _ => Or.inl rfl) (fun _ => Or.inr none) rfl sound
      (Nat.le_refl _) (Nat.le_refl _) (Nat.le_refl _)
  case testNone from' _ | testSome from' _ | write from' =>
    exact observed.goto from' rfl Or.inl Or.inl rfl sound (Nat.le_refl _) (Nat.le_refl _)
      (Nat.le_refl _)
  case skip from' _ | choose from' _ | reuse from' _ _ | renew from' _ | exit from' _ _ |
      idle from' _ _ | enter from' _ | switch from' _ | leave from' _ _ | save from' |
      readReady from' _ | readOver from' _ | readFinished from' _ | readOther from' _ | hold from' |
      reset from' _ | someTimer from' | somePending from' | stays from' | block from' | wake from' |
      swapOut from' | endIdle from' =>
    exact observed.goto from' rfl nofun nofun rfl sound (Nat.le_refl _) (Nat.le_refl _)
      (Nat.le_refl _)
  case count from' =>
    exact observed.goto from' rfl nofun nofun rfl sound (Nat.le_succ _) (Nat.le_refl _)
      (Nat.le_refl _)
  case endTrigger from' =>
    exact observed.goto from' rfl nofun nofun rfl sound (Nat.le_refl _) (Nat.le_refl _)
      (Nat.sub_le _ _)
  case addTimer w front b f from' | addEvent w cb b f from' =>
    exact observed.stay rfl rfl rfl rfl (Or.inl (counted.pos (w := w) (by rw [from']; rfl)))
  case cancelTimer =>
    exact observed.stay rfl rfl rfl rfl (Or.inr ⟨Nat.sub_le _ _, Nat.le_refl _⟩)
  case delEvent =>
    exact observed.stay rfl rfl rfl rfl (Or.inr ⟨Nat.le_refl _, Nat.sub_le _ _⟩)
  case drain | schedule | scheduleBatch | testTickleNone | testTickleSome | writeTickle |
      testOtherNone | testOtherSome | writeOther | newFiber =>
    exact observed.stay rfl rfl rfl rfl (Or.inr ⟨Nat.le_refl _, Nat.le_refl _⟩)
  case stop =>
    exact ⟨fun _ => ok, sound⟩

end Observed

/-! ### Runs -/

theorem observed_initial : Observed (Pool.initial n) where
  seen set := by cases set
  sound := rfl

/-- **Under the condition, in every run, whenever `stopping()` returned true the scheduler was
quiescent.** -/
theorem stopping_sound (reached : (pool n).ReachableWhen Observable s) : s.unsound = false := by
  have both : ActiveCounted s ∧ Observed s := by
    apply reached.invariant
    · rintro s rfl
      exact ⟨activeCounted_initial, observed_initial⟩
    · rintro s event s' ⟨counted, observed⟩ ok stepped
      have move := move_of_next stepped
      exact ⟨counted.next move, observed.next counted ok move⟩
  exact both.2.sound

/-- A worker runs a task to its end, and the other one finds everything done. -/
def stopsAfterTask : List (Event 2) :=
  List.flatten [
    [.schedule (.cb (some 7)) (-1)],
    List.replicate 5 (.work 0),
    [.addTimer 0 true, .cancelTimer 0, .leave 0 .term],
    List.replicate 4 (.work 0),
    [.stop],
    List.replicate 5 (.work 1)]

theorem stopping_sound_afterTask :
    ∃ s : Pool 2, (pool 2).ReachableWhen Observable s ∧ s.idleTerm 1 = true ∧ s.unsound = false := by
  have run : ∃ s, (pool 2).ReachableWhen Observable s ∧ s.idleTerm 1 = true :=
    Machine.reachableWhen_of_replay rfl stopsAfterTask (fun s : Pool 2 => s.idleTerm 1)
      (by decide +kernel)
  obtain ⟨s, reached, ended⟩ := run
  exact ⟨s, reached, ended, stopping_sound reached⟩

/-! ### The windows -/

/-- Worker 0 has popped a task and not counted itself. -/
def poppedUncounted : List (Event 2) :=
  List.flatten [
    [.schedule (.cb (some 7)) (-1), .work 0, .stop],
    List.replicate 5 (.work 1)]

/-- Worker 0 has run a fiber that yielded `READY`, and not queued it again. -/
def readyUncounted : List (Event 2) :=
  List.flatten [
    [.schedule (.cb (some 7)) (-1)],
    List.replicate 5 (.work 0),
    [.leave 0 .ready, .work 0, .work 0, .stop],
    List.replicate 5 (.work 1)]

/-- Worker 1 reads that there is no timer; then the task of worker 0 adds one, and ends. -/
def armedAfterRead : List (Event 2) :=
  List.flatten [
    [.schedule (.cb (some 7)) (-1)],
    List.replicate 5 (.work 0),
    List.replicate 3 (.work 1),
    [.addTimer 0 true, .leave 0 .term, .work 0, .work 0, .stop, .work 1, .work 1]]

/-- Worker 1 reads that there is no event; then the task of worker 0 adds one, and ends. -/
def registeredAfterRead : List (Event 2) :=
  List.flatten [
    [.schedule (.cb (some 7)) (-1)],
    List.replicate 5 (.work 0),
    List.replicate 4 (.work 1),
    [.addEvent 0 none, .leave 0 .hold, .work 0, .work 0, .stop, .work 1]]
/-- Worker 0 has taken out two recurring timers and armed the first again; a task of worker 1 cancels
that one, and worker 1 reads that there is no timer; then worker 0 arms the second. -/
def rearmedAfterRead : List (Event 2) :=
  List.flatten [
    [.schedule (.cb (some 7)) (-1)],
    List.replicate 5 (.work 0),
    [.addTimer 0 true, .addTimer 0 false, .leave 0 .term],
    List.replicate 8 (.work 0),
    [.wake 0, .expire 0 [some 8, some 9] 1 1 false, .schedule (.cb (some 7)) (-1)],
    List.replicate 5 (.work 1),
    [.cancelTimer 1, .leave 1 .term],
    List.replicate 8 (.work 1),
    [.stop, .rearm 0 false, .work 1]]
/-- **A `true` of `stopping()` can be wrong**, in each of the windows. -/
theorem stopping_unsound :
    (∃ s, (pool 2).Reachable s ∧ s.unsound = true) ∧
      ∀ events ∈ [readyUncounted, armedAfterRead, registeredAfterRead, rearmedAfterRead],
        ((pool 2).replay (Pool.initial 2) events).map Pool.unsound = some true := by
  constructor
  · exact Machine.reachable_of_replay rfl poppedUncounted Pool.unsound (by decide +kernel)
  · decide +kernel

end Sylar.Scheduler
