/-
**Wake-ups: a queued task and the workers that sleep.**

`schedule` tickles only if the queue was empty, `tickle()` writes only if a worker counts as idle,
and a worker leaves the lock before it counts itself. A byte in the pipe wakes some worker, not the
one that a task is pinned to.

* `Pc.asleep` — the worker goes to sleep, or sleeps, without another look at the queue; `Pc.awake` —
  it looks at the queue first.
* `Pool.wakeUps` — the bytes in the pipe and the tickles in progress.
* `LostWakeup` — a task whose workers all sleep, and no wake-up under way.
* `lost_wakeup` — **it is reached.**
* `Harmless` — the condition: no step of the four kinds that take a wake-up away, or need one and send
  none, happens while a task depends on it.
* `no_lost_wakeup` — **under it no run loses a wake-up.**
-/

import Sylar.Library.Tally
import Sylar.Scheduler.Handoff

namespace Sylar.Scheduler

open Sylar.Library

variable {n : Nat}

/-! ### Who is asleep, and what is under way -/

/-- The stages of the idle fiber up to the return of `epoll_wait`. -/
def IdleStage.asleep : IdleStage → Bool
  | .timeout | .pending | .last | .wait | .blocked => true
  | .woken | .listed .. | .reports | .triggered | .left => false

namespace Pc

/-- The worker has found nothing to run, and sleeps or goes to sleep. -/
def asleep (idleTerm : Bool) : Pc → Bool
  | .tickling _ after => after.asleep idleTerm
  | .dispatch ft => decide (Nothing ft) && !idleTerm
  | .idle stage => stage.asleep
  | .top | .task .. | .exited => false

/-- The worker looks at the queue before it sleeps. -/
def awake : Pc → Bool
  | .tickling _ after => after.awake
  | .dispatch ft => !decide (Nothing ft)
  | .idle stage => !stage.asleep
  | .top | .task .. => true
  | .exited => false

/-- The worker is inside `tickle()`. -/
def isTickling : Pc → Bool
  | .tickling .. => true
  | _ => false

/-- The fiber whose `EXEC` a worker has written, until the fiber leaves. -/
def executes : Pc → Option FiberId
  | .task .entered _ f | .task .executing _ f => some f
  | _ => none

/-- The worker is about to read `m_idle_thread_count` in `tickle()`. -/
def tests : Pc → Bool
  | .tickling false _ => true
  | _ => false

/-- The fiber that a worker is about to write `HOLD` to. -/
def holds : Pc → Option FiberId
  | .task .holding _ f => some f
  | _ => none

@[simp] theorem asleep_tickleIf (idleTerm needTickle : Bool) (after : Pc) :
    (tickleIf needTickle after).asleep idleTerm = after.asleep idleTerm := by
  cases needTickle <;> rfl

@[simp] theorem awake_tickleIf (needTickle : Bool) (after : Pc) :
    (tickleIf needTickle after).awake = after.awake := by
  cases needTickle <;> rfl

theorem names_of_executes {pc : Pc} {f : FiberId} (executes : pc.executes = some f) :
    pc.names = some f := by
  match pc, executes with
  | .task .entered _ _, rfl => rfl
  | .task .executing _ _, rfl => rfl

/-- Nobody is both. -/
theorem not_awake_of_asleep {idleTerm : Bool} {pc : Pc} (asleep : pc.asleep idleTerm = true) :
    pc.awake = false := by
  induction pc with
  | tickling write after ih => exact ih asleep
  | dispatch ft =>
    have nothing := (Bool.and_eq_true_iff.mp asleep).1
    show (!decide (Nothing ft)) = false
    rw [nothing]
    rfl
  | idle stage =>
    show (!stage.asleep) = false
    rw [show stage.asleep = true from asleep]
    rfl
  | _ => cases asleep

end Pc

namespace Pool

variable (s : Pool n)

def asleep (w : Fin n) : Bool := (s.pc w).asleep (s.idleTerm w)

def awake (w : Fin n) : Bool := (s.pc w).awake

/-- The bytes in the pipe, and the tickles of `schedule` and `run()` in progress. -/
def wakeUps : Nat := s.tickleBytes + s.toTest + s.toWrite + tally Pc.isTickling s.pc

/-- Some worker will look at the queue, or none is asleep. -/
def attended : Prop := (∃ w, s.awake w = true) ∨ ∀ w, s.asleep w = false

instance : Decidable s.attended := inferInstanceAs (Decidable (_ ∨ _))

/-- The task is pinned to a worker that is asleep. -/
def sleeper (it : FiberAndThread) : Prop := ∃ w : Fin n, it.thread = threadId w ∧ s.asleep w = true

instance (it : FiberAndThread) : Decidable (s.sleeper it) :=
  inferInstanceAs (Decidable (∃ _ : Fin n, _ ∧ _))

end Pool

/-- **A lost wake-up**: a task is queued, the workers that may run it are all blocked (or have left
`run()`), the pipe is empty and no tickle is in progress. -/
def LostWakeup (s : Pool n) : Prop :=
  s.wakeUps = 0 ∧ ∃ it ∈ s.fibers, it.runnable s.state ∧
    (∃ w : Fin n, it.allows (threadId w) ∧ s.pc w = .idle .blocked) ∧
    ∀ w : Fin n, it.allows (threadId w) → s.pc w = .idle .blocked ∨ s.pc w = .exited

instance (s : Pool n) : Decidable (LostWakeup s) := inferInstanceAs (Decidable (_ ∧ ∃ it ∈ s.fibers, _))

/-! ### The condition -/

namespace Pool

variable (s : Pool n)

/-- Where `tickle()` reads that nobody is idle: nothing is queued, or another wake-up is under way,
or some worker will look at the queue and no queued task is pinned to one that will not. -/
def MissHarmless : Prop :=
  s.fibers = [] ∨ 1 < s.wakeUps ∨
    s.attended ∧ ∀ it ∈ s.fibers, it.runnable s.state → ¬ s.sleeper it

/-- Where a worker empties the pipe: a tickle is still in progress, or no queued task is pinned to a
worker that is asleep. -/
def DrainHarmless : Prop :=
  s.tickleBytes < s.wakeUps ∨ ∀ it ∈ s.fibers, it.runnable s.state → ¬ s.sleeper it

/-- Where a task is queued: the queue is empty (and `schedule` tickles), or a wake-up is under way,
or the task is not pinned to a worker that is asleep. -/
def ScheduleHarmless (it : FiberAndThread) : Prop :=
  s.fibers = [] ∨ 0 < s.wakeUps ∨ (it.runnable s.state → ¬ s.sleeper it)

/-- Where `EXEC` is overwritten: a wake-up is under way, or the fiber is not queued for a worker that
is asleep. -/
def ReleaseHarmless (f : FiberId) : Prop :=
  0 < s.wakeUps ∨ ∀ it ∈ s.fibers, it.fiberOrCb.names = some f → ¬ s.sleeper it

instance : Decidable s.MissHarmless := inferInstanceAs (Decidable (_ ∨ _ ∨ _ ∧ ∀ it ∈ s.fibers, _))

instance : Decidable s.DrainHarmless := inferInstanceAs (Decidable (_ ∨ ∀ it ∈ s.fibers, _))

instance (it : FiberAndThread) : Decidable (s.ScheduleHarmless it) :=
  inferInstanceAs (Decidable (_ ∨ _ ∨ (_ → _)))

instance (f : FiberId) : Decidable (s.ReleaseHarmless f) :=
  inferInstanceAs (Decidable (_ ∨ ∀ it ∈ s.fibers, _))

end Pool

/-- **The condition on a step.** -/
def Harmless (s : Pool n) : Event n → Prop
  | .work w =>
      ((s.pc w).tests = true → s.idleThreadCount = 0 → s.MissHarmless) ∧
        ∀ f ∈ (s.pc w).holds, s.state f = .exec → s.ReleaseHarmless f
  | .testTickle => s.idleThreadCount = 0 → s.MissHarmless
  | .drain _ => s.DrainHarmless
  | .schedule fc thread => s.ScheduleHarmless ⟨fc, thread⟩
  | .leave w _ => ∀ f ∈ (s.pc w).executes, s.ReleaseHarmless f
  | _ => True

instance (s : Pool n) (event : Event n) : Decidable (Harmless s event) :=
  match event with
  | .work w =>
      inferInstanceAs (Decidable (((s.pc w).tests = true → s.idleThreadCount = 0 → s.MissHarmless) ∧
        ∀ f ∈ (s.pc w).holds, s.state f = .exec → s.ReleaseHarmless f))
  | .testTickle => inferInstanceAs (Decidable (s.idleThreadCount = 0 → s.MissHarmless))
  | .drain _ => inferInstanceAs (Decidable s.DrainHarmless)
  | .schedule fc thread => inferInstanceAs (Decidable (s.ScheduleHarmless ⟨fc, thread⟩))
  | .leave w _ => inferInstanceAs (Decidable (∀ f ∈ (s.pc w).executes, s.ReleaseHarmless f))
  | .wake _ | .expire .. | .rearm .. | .trigger .. | .swapOut _ | .addTimer .. | .cancelTimer _
  | .addEvent .. | .delEvent .. | .scheduleBatch _ | .writeTickle | .testOther | .writeOther
  | .newFiber _ | .stop => isTrue trivial

/-! ### The invariant -/

/-- Who is executed is executed by somebody; while tasks are queued somebody looks at the queue or is
woken; and whom a task is pinned to is woken. -/
structure Watched (s : Pool n) : Prop where
  executed : ∀ f, s.state f = .exec → ∃ w, (s.pc w).executes = some f
  queue : s.fibers ≠ [] → 0 < s.wakeUps ∨ s.attended
  pinned : ∀ it ∈ s.fibers, it.runnable s.state → s.sleeper it → 0 < s.wakeUps

variable {s s' t : Pool n} {w : Fin n} {pc : Pc}

/-- A worker that executes a fiber is awake. -/
theorem awake_of_executes {f : FiberId} (executes : (s.pc w).executes = some f) :
    s.awake w = true := by
  unfold Pool.awake
  match s.pc w, executes with
  | .task .entered _ _, rfl => rfl
  | .task .executing _ _, rfl => rfl

theorem Pool.sleeper.mono {it : FiberAndThread} (sleeper : t.sleeper it)
    (asleep : ∀ v, t.asleep v = true → s.asleep v = true) : s.sleeper it := by
  obtain ⟨v, pinned, sleeps⟩ := sleeper
  exact ⟨v, pinned, asleep v sleeps⟩

theorem Pool.attended.mono (attended : s.attended)
    (asleep : ∀ v, t.asleep v = true → s.asleep v = true)
    (awake : ∀ v, s.awake v = true → t.awake v = true) : t.attended := by
  rcases attended with ⟨v, wakes⟩ | none
  · exact Or.inl ⟨v, awake v wakes⟩
  · refine Or.inr fun v => Bool.eq_false_iff.mpr fun sleeps => ?_
    exact Bool.false_ne_true ((none v).symm.trans (asleep v sleeps))

/-- The wake-ups change by what the moving worker does. -/
theorem wakeUps_goto (moved : t.pc = Function.update s.pc w pc)
    (bytes : t.tickleBytes = s.tickleBytes) (tests : t.toTest = s.toTest)
    (writes : t.toWrite = s.toWrite) :
    t.wakeUps + (s.pc w).isTickling.toNat = s.wakeUps + pc.isTickling.toNat := by
  have moves := tally_update Pc.isTickling s.pc w pc
  unfold Pool.wakeUps
  rw [moved, bytes, tests, writes]
  omega

/-- A worker outside `tickle()` takes no wake-up away. -/
theorem wakeUps_le (moved : t.pc = Function.update s.pc w pc)
    (outside : (s.pc w).isTickling = false) (bytes : t.tickleBytes = s.tickleBytes)
    (tests : t.toTest = s.toTest) (writes : t.toWrite = s.toWrite) : s.wakeUps ≤ t.wakeUps := by
  have counted := wakeUps_goto moved bytes tests writes
  rw [outside] at counted
  exact Nat.le_of_add_right_le counted.ge

/-- Who is in `tickle()` is a wake-up. -/
theorem wakeUps_pos (tickling : (s.pc w).isTickling = true) : 0 < s.wakeUps := by
  have counted := tally_pos (f := s.pc) tickling
  unfold Pool.wakeUps
  omega

namespace Watched

/-- **A step that puts nobody to sleep, takes no wake-up away, and queues nothing that needs one.** -/
theorem mono (watched : Watched s) (asleep : ∀ v, t.asleep v = true → s.asleep v = true)
    (awake : ∀ v, s.awake v = true → t.awake v = true) (wakeUps : s.wakeUps ≤ t.wakeUps)
    (executed : ∀ f, t.state f = .exec → ∃ w, (t.pc w).executes = some f)
    (queue : t.fibers ≠ [] → s.fibers ≠ [] ∨ 0 < t.wakeUps ∨ t.attended)
    (pinned : ∀ it ∈ t.fibers, it.runnable t.state → t.sleeper it →
      0 < t.wakeUps ∨ it ∈ s.fibers ∧ it.runnable s.state) : Watched t where
  executed := executed
  queue filled := by
    rcases queue filled with before | after
    · rcases watched.queue before with woken | attended
      · exact Or.inl (Nat.lt_of_lt_of_le woken wakeUps)
      · exact Or.inr (attended.mono asleep awake)
    · exact after
  pinned it member runnable sleeper := by
    rcases pinned it member runnable sleeper with woken | ⟨before, couldRun⟩
    · exact woken
    · have woken := watched.pinned it before couldRun (sleeper.mono asleep)
      exact Nat.lt_of_lt_of_le woken wakeUps

end Watched

/-- Where a worker moves, the others sleep and wake as before. -/
theorem asleep_goto (moved : t.pc = Function.update s.pc w pc)
    (others : ∀ v, v ≠ w → t.idleTerm v = s.idleTerm v)
    (sleeps : pc.asleep (t.idleTerm w) = true → s.asleep w = true) :
    ∀ v, t.asleep v = true → s.asleep v = true := by
  intro v asleep
  unfold Pool.asleep at asleep
  rw [moved] at asleep
  rcases eq_or_ne v w with rfl | other
  · rw [Function.update_self] at asleep
    exact sleeps asleep
  · rw [Function.update_of_ne other, others v other] at asleep
    exact asleep

theorem awake_goto (moved : t.pc = Function.update s.pc w pc)
    (wakes : s.awake w = true → pc.awake = true) :
    ∀ v, s.awake v = true → t.awake v = true := by
  intro v awake
  unfold Pool.awake
  rw [moved]
  rcases eq_or_ne v w with rfl | other
  · rw [Function.update_self]
    exact wakes awake
  · rw [Function.update_of_ne other]
    exact awake

theorem threadId_ne (w : Fin n) : threadId w ≠ -1 := by
  unfold threadId
  omega

namespace Watched

/-- **A worker moves.** It is not put to sleep, and if it executed a fiber it still does or has
written the fiber's state. -/
theorem move (watched : Watched s) (moved : t.pc = Function.update s.pc w pc)
    (others : ∀ v, v ≠ w → t.idleTerm v = s.idleTerm v)
    (sleeps : pc.asleep (t.idleTerm w) = true → s.asleep w = true)
    (wakes : s.awake w = true → pc.awake = true) (wakeUps : s.wakeUps ≤ t.wakeUps)
    (wrote : ∀ f, t.state f = .exec → pc.executes = some f ∨ s.state f = .exec)
    (lets : ∀ f, (s.pc w).executes = some f → pc.executes = some f ∨ t.state f ≠ .exec)
    (queue : t.fibers ≠ [] → s.fibers ≠ [] ∨ 0 < t.wakeUps ∨ pc.awake = true)
    (pinned : ∀ it ∈ t.fibers, it.runnable t.state → s.sleeper it →
      0 < t.wakeUps ∨ it ∈ s.fibers ∧ it.runnable s.state) : Watched t := by
  have asleep := asleep_goto moved others sleeps
  apply watched.mono asleep (awake_goto moved wakes) wakeUps
  · intro f exec
    rcases wrote f exec with here | before
    · exact ⟨w, by rw [moved, Function.update_self]; exact here⟩
    · obtain ⟨v, executes⟩ := watched.executed f before
      rcases eq_or_ne v w with rfl | other
      · have here := (lets f executes).resolve_right fun left => left exec
        exact ⟨v, by rw [moved, Function.update_self]; exact here⟩
      · exact ⟨v, by rw [moved, Function.update_of_ne other]; exact executes⟩
  · intro filled
    refine (queue filled).imp_right (Or.imp_right fun here => Or.inl ⟨w, ?_⟩)
    unfold Pool.awake
    rw [moved, Function.update_self]
    exact here
  · intro it member runnable sleeper
    exact pinned it member runnable (sleeper.mono asleep)

/-- Another thread queues tasks; it tickles if the queue was empty. -/
theorem queued {more : List FiberAndThread} (watched : Watched s) (pcs : t.pc = s.pc)
    (idleTerm : t.idleTerm = s.idleTerm) (state : t.state = s.state)
    (fibers : t.fibers = s.fibers ++ more) (wakeUps : s.wakeUps ≤ t.wakeUps)
    (told : s.fibers = [] → more ≠ [] → 0 < t.wakeUps)
    (new : ∀ it ∈ more, it.runnable s.state → s.sleeper it → 0 < t.wakeUps) : Watched t := by
  have asleep : ∀ v, t.asleep v = true → s.asleep v = true := by
    intro v
    unfold Pool.asleep
    rw [pcs, idleTerm]
    exact id
  refine watched.mono asleep ?_ wakeUps ?_ ?_ ?_
  · intro v
    unfold Pool.awake
    rw [pcs]
    exact id
  · rw [pcs, state]
    exact watched.executed
  · intro filled
    by_cases empty : s.fibers = []
    · rw [fibers, empty] at filled
      exact Or.inr (Or.inl (told empty filled))
    · exact Or.inl empty
  · intro it member runnable sleeper
    rw [fibers] at member
    rw [state] at runnable
    rcases List.mem_append.mp member with before | member
    · exact Or.inr ⟨before, runnable⟩
    · exact Or.inl (new it member runnable (sleeper.mono asleep))

/-- Another thread leaves the queue and the workers alone, and takes no wake-up away. -/
theorem stay (watched : Watched s) (pcs : t.pc = s.pc) (idleTerm : t.idleTerm = s.idleTerm)
    (state : t.state = s.state) (fibers : t.fibers = s.fibers) (wakeUps : s.wakeUps ≤ t.wakeUps) :
    Watched t :=
  watched.queued pcs idleTerm state (fibers.trans (List.append_nil _).symm) wakeUps
    (fun _ filled => absurd rfl filled) nofun

/-- A worker that executes nothing moves, and no state is written. -/
theorem executed_goto (watched : Watched s) (moved : t.pc = Function.update s.pc w pc)
    (state : t.state = s.state) (executes : ∀ f, (s.pc w).executes ≠ some f) :
    ∀ f, t.state f = .exec → ∃ v, (t.pc v).executes = some f := by
  intro f exec
  rw [state] at exec
  obtain ⟨v, before⟩ := watched.executed f exec
  have other : v ≠ w := by
    rintro rfl
    exact executes f before
  exact ⟨v, by rw [moved, Function.update_of_ne other]; exact before⟩

/-- **The scan**: what it leaves without a tickle cannot be run, and who executes it is awake. -/
theorem scan {ft : FiberOrCb} {left : List FiberAndThread} {tickleMe : Bool} (watched : Watched s)
    (from' : s.pc w = .top) (scanned : Scanned s.state s.fibers ft left tickleMe)
    (moved : t.pc = Function.update s.pc w (.tickleIf tickleMe (.dispatch ft)))
    (state : t.state = s.state) (fibers : t.fibers = left) : Watched t := by
  have executed := watched.executed_goto moved state (by rw [from']; nofun)
  have told : tickleMe = true → 0 < t.wakeUps := by
    rintro rfl
    apply wakeUps_pos (w := w)
    rw [moved, Function.update_self]
    rfl
  refine ⟨executed, fun filled => ?_, fun it member runnable _ => ?_⟩
  · rcases scanned.told with tickles | none
    · exact Or.inl (told tickles)
    · rw [fibers] at filled
      obtain ⟨it, member⟩ := List.exists_mem_of_ne_nil left filled
      have stuck := none it member
      unfold FiberAndThread.runnable at stuck
      push Not at stuck
      obtain ⟨f, -, exec⟩ := stuck
      rw [← state] at exec
      obtain ⟨v, executes⟩ := executed f exec
      exact Or.inr (Or.inl ⟨v, awake_of_executes executes⟩)
  · rw [fibers] at member
    rw [state] at runnable
    exact told (scanned.told.resolve_right fun none => none it member runnable)

/-- A worker in `tickle()` goes on, and no wake-up is lost. -/
theorem tickle {write : Bool} {after : Pc} (watched : Watched s)
    (from' : s.pc w = .tickling write after) (moved : t.pc = Function.update s.pc w pc)
    (idleTerm : t.idleTerm = s.idleTerm)
    (sleeps : pc.asleep (s.idleTerm w) = true → after.asleep (s.idleTerm w) = true)
    (wakes : after.awake = true → pc.awake = true) (wakeUps : s.wakeUps ≤ t.wakeUps)
    (state : t.state = s.state) (fibers : t.fibers = s.fibers) : Watched t := by
  have asleep : pc.asleep (t.idleTerm w) = true → s.asleep w = true := by
    unfold Pool.asleep
    rw [from', idleTerm]
    exact sleeps
  have awake : s.awake w = true → pc.awake = true := by
    unfold Pool.awake
    rw [from']
    exact wakes
  apply watched.move moved (fun v _ => congrFun idleTerm v) asleep awake wakeUps
  · intro f exec
    exact Or.inr (state ▸ exec)
  · intro f executes
    rw [from'] at executes
    cases executes
  · intro filled
    exact Or.inl (fibers ▸ filled)
  · intro it member runnable _
    exact Or.inr ⟨fibers ▸ member, state ▸ runnable⟩

/-- A worker outside `tickle()` moves; the queue, the fibers' states and the tickles of others stay. -/
theorem goto {before : Pc} (watched : Watched s) (from' : s.pc w = before)
    (moved : t.pc = Function.update s.pc w pc)
    (others : ∀ v, v ≠ w → t.idleTerm v = s.idleTerm v)
    (sleeps : pc.asleep (t.idleTerm w) = true → before.asleep (s.idleTerm w) = true)
    (wakes : before.awake = true → pc.awake = true) (outside : before.isTickling = false)
    (executes : ∀ f, before.executes = some f → pc.executes = some f)
    (bytes : t.tickleBytes = s.tickleBytes) (tests : t.toTest = s.toTest)
    (writes : t.toWrite = s.toWrite) (state : t.state = s.state) (fibers : t.fibers = s.fibers) :
    Watched t := by
  subst from'
  apply watched.move moved others sleeps wakes (wakeUps_le moved outside bytes tests writes)
  · intro f exec
    exact Or.inr (state ▸ exec)
  · intro f before
    exact Or.inl (executes f before)
  · intro filled
    exact Or.inl (fibers ▸ filled)
  · intro it member runnable _
    exact Or.inr ⟨fibers ▸ member, state ▸ runnable⟩

/-- A worker outside `tickle()` queues tasks that are pinned to nobody and moves on, awake. -/
theorem append {before : Pc} {more : List FiberAndThread} (watched : Watched s)
    (from' : s.pc w = before) (moved : t.pc = Function.update s.pc w pc)
    (idleTerm : t.idleTerm = s.idleTerm) (awake : pc.awake = true)
    (outside : before.isTickling = false) (executes : before.executes = none)
    (bytes : t.tickleBytes = s.tickleBytes) (tests : t.toTest = s.toTest)
    (writes : t.toWrite = s.toWrite) (state : t.state = s.state)
    (fibers : t.fibers = s.fibers ++ more) (unpinned : ∀ it ∈ more, it.thread = -1) :
    Watched t := by
  subst from'
  apply watched.move moved (fun v _ => congrFun idleTerm v) _ (fun _ => awake)
    (wakeUps_le moved outside bytes tests writes)
  · intro f exec
    exact Or.inr (state ▸ exec)
  · intro f before
    exact nomatch executes.symm.trans before
  · intro _
    exact Or.inr (Or.inr awake)
  · intro it member runnable ⟨v, pinned, _⟩
    rw [fibers] at member
    rcases List.mem_append.mp member with before | new
    · exact Or.inr ⟨before, state ▸ runnable⟩
    · rw [unpinned it new] at pinned
      exact absurd pinned (threadId_ne v).symm
  · intro asleep
    exact absurd ((Pc.not_awake_of_asleep asleep).symm.trans awake) Bool.false_ne_true

/-- A worker outside `tickle()` writes a fiber and moves on, awake. -/
theorem write {before : Pc} {f : FiberId} {new : Fiber} (watched : Watched s)
    (from' : s.pc w = before) (moved : t.pc = Function.update s.pc w pc)
    (fiber : t.fiber = Function.update s.fiber f new) (idleTerm : t.idleTerm = s.idleTerm)
    (awake : pc.awake = true) (outside : before.isTickling = false)
    (bytes : t.tickleBytes = s.tickleBytes) (tests : t.toTest = s.toTest)
    (writes : t.toWrite = s.toWrite) (fibers : t.fibers = s.fibers)
    (wrote : new.state = .exec → pc.executes = some f)
    (executed : ∀ g, before.executes = some g → g = f)
    (release : s.state f = .exec → new.state = .exec ∨ s.ReleaseHarmless f) : Watched t := by
  subst from'
  have here : t.state f = new.state := by
    show (t.fiber f).state = _
    rw [fiber, Function.update_self]
  have elsewhere : ∀ g, g ≠ f → t.state g = s.state g := by
    intro g other
    show (t.fiber g).state = _
    rw [fiber, Function.update_of_ne other]
    rfl
  have wakeUps := wakeUps_le moved outside bytes tests writes
  apply watched.move moved (fun v _ => congrFun idleTerm v) _ (fun _ => awake) wakeUps
  · intro g exec
    rcases eq_or_ne g f with rfl | other
    · exact Or.inl (wrote (here ▸ exec))
    · exact Or.inr (elsewhere g other ▸ exec)
  · intro g executes
    obtain rfl := executed g executes
    by_cases exec : t.state g = .exec
    · exact Or.inl (wrote (here ▸ exec))
    · exact Or.inr exec
  · intro filled
    exact Or.inl (fibers ▸ filled)
  · intro it member runnable sleeper
    rw [fibers] at member
    by_cases released : it.fiberOrCb = .fiber (some f) ∧ s.state f = .exec
    · rcases release released.2 with still | woken | none
      · exact absurd (here.trans still) (runnable f released.1)
      · exact Or.inl (Nat.lt_of_lt_of_le woken wakeUps)
      · exact absurd sleeper (none it member (by rw [released.1]; rfl))
    · refine Or.inr ⟨member, fun g content exec => ?_⟩
      rcases eq_or_ne g f with rfl | other
      · exact released ⟨content, exec⟩
      · exact runnable g content ((elsewhere g other).trans exec)
  · intro asleep
    exact absurd ((Pc.not_awake_of_asleep asleep).symm.trans awake) Bool.false_ne_true

/-- A tickle that finds nobody idle is lost, where that is harmless. -/
theorem missed (harmless : s.MissHarmless)
    (asleep : ∀ v, t.asleep v = true → s.asleep v = true)
    (awake : ∀ v, s.awake v = true → t.awake v = true)
    (executed : ∀ f, t.state f = .exec → ∃ w, (t.pc w).executes = some f)
    (fibers : t.fibers = s.fibers) (state : t.state = s.state)
    (wakeUps : s.wakeUps ≤ t.wakeUps + 1) : Watched t where
  executed := executed
  queue filled := by
    rcases harmless with empty | another | ⟨attended, -⟩
    · exact absurd (fibers.trans empty) filled
    · exact Or.inl (by omega)
    · exact Or.inr (attended.mono asleep awake)
  pinned it member runnable sleeper := by
    rw [fibers] at member
    rw [state] at runnable
    rcases harmless with empty | another | ⟨-, none⟩
    · rw [empty] at member
      cases member
    · omega
    · exact absurd (sleeper.mono asleep) (none it member runnable)

end Watched

/-- A fiber that is yet to be made is not being executed. -/
theorem Watched.fresh (watched : Watched s) (made : Made s) : s.state s.nextFiber ≠ .exec := by
  intro exec
  obtain ⟨w, executes⟩ := watched.executed _ exec
  exact Nat.lt_irrefl _ (made _ (.hand w (Pc.names_of_executes executes)))

/-- Resetting a fiber releases nothing: it is not being executed. -/
theorem not_exec_of_reusable {state : State}
    (reusable : state = .init ∨ state = .term ∨ state = .excpt) :
    state ≠ .exec := by
  rcases reusable with rfl | rfl | rfl <;> nofun

/-- **A step that meets the condition keeps the invariant.** -/
theorem Watched.next {event : Event n} (watched : Watched s) (made : Made s)
    (ok : Harmless s event) (move : Move s event s') : Watched s' := by
  cases move
  case scan w ft left tickleMe from' scanned =>
    exact watched.scan from' (scan_scanned scanned) rfl rfl rfl
  case testNone w after from' none =>
    have counted := wakeUps_goto (s := s) (t := s.goto w after) rfl rfl rfl rfl
    rw [from'] at counted
    refine Watched.missed (ok.1 (by rw [from']; rfl) none) ?_ ?_
      (watched.executed_goto rfl rfl (by rw [from']; nofun)) rfl rfl
      (Nat.le_of_add_right_le counted.ge)
    · refine asleep_goto rfl (fun _ _ => rfl) ?_
      unfold Pool.asleep
      rw [from']
      exact id
    · refine awake_goto rfl ?_
      unfold Pool.awake
      rw [from']
      exact id
  case testSome w after from' some =>
    have counted := wakeUps_goto (s := s) (t := s.goto w (.tickling true after)) rfl rfl rfl rfl
    rw [from'] at counted
    exact watched.tickle from' rfl rfl id id (Nat.le_of_add_le_add_right counted.ge) rfl rfl
  case write w after from' =>
    refine watched.tickle from' rfl rfl id id ?_ rfl rfl
    have moves := tally_update Pc.isTickling s.pc w after
    rw [from', show (Pc.tickling true after).isTickling.toNat = 1 from rfl] at moves
    simp only [Pool.wakeUps, Pool.goto]
    omega
  case skip from' _ | choose from' _ | count from' | uncount from' | readReady from' _ |
      readOver from' _ | readFinished from' _ | readOther from' _ | wake from' | endTrigger from' |
      swapOut from' | endIdle from' =>
    exact watched.goto from' rfl (fun _ _ => rfl) nofun (fun _ => rfl) rfl nofun rfl rfl rfl rfl rfl
  case noTimer from' _ | someTimer from' | noPending from' _ | somePending from' | stays from' |
      block from' =>
    exact watched.goto from' rfl (fun _ _ => rfl) (fun _ => rfl) nofun rfl nofun rfl rfl rfl rfl rfl
  case stops from' _ =>
    exact watched.goto from' rfl (fun v other => Function.update_of_ne other _ _) nofun
      (fun _ => rfl) rfl nofun rfl rfl rfl rfl rfl
  case exit w ft from' nothing dead =>
    refine watched.goto from' rfl (fun _ _ => rfl) nofun ?_ rfl nofun rfl rfl rfl rfl rfl
    intro awake
    exact absurd awake (by simp [Pc.awake, nothing])
  case idle w ft from' nothing alive =>
    refine watched.goto from' rfl (fun _ _ => rfl) ?_ ?_ rfl nofun rfl rfl rfl rfl rfl
    · intro _
      simp [Pc.asleep, nothing, alive]
    · intro awake
      exact absurd awake (by simp [Pc.awake, nothing])
  case expire from' _ _ _ | rearm from' =>
    refine watched.goto from' rfl (fun _ _ => rfl) ?_ (fun _ => ?_) rfl nofun rfl rfl rfl rfl rfl
    · rw [Pc.asleep_tickleIf]
      nofun
    · rw [Pc.awake_tickleIf]
      rfl
  case reschedule from' | trigger from' _ =>
    refine watched.append from' rfl rfl ?_ rfl rfl rfl rfl rfl rfl rfl ?_
    · rw [Pc.awake_tickleIf]
      rfl
    · intro it member
      obtain rfl := List.mem_singleton.mp member
      rfl
  case scheduleCbs from' =>
    refine watched.append from' rfl rfl ?_ rfl rfl rfl rfl rfl rfl rfl ?_
    · rw [Pc.awake_tickleIf]
      rfl
    · intro it member
      obtain ⟨c, -, rfl⟩ := List.mem_map.mp member
      rfl
  case reuse w c f from' keeps reusable =>
    exact watched.write from' rfl rfl rfl rfl rfl rfl rfl rfl rfl nofun nofun
      fun exec => absurd exec (not_exec_of_reusable reusable)
  case renew w c from' none =>
    exact watched.write from' rfl rfl rfl rfl rfl rfl rfl rfl rfl nofun nofun
      fun exec => absurd exec (watched.fresh made)
  case enter w b f from' out =>
    exact watched.write from' rfl rfl rfl rfl rfl rfl rfl rfl rfl (fun _ => rfl) nofun
      fun _ => Or.inl rfl
  case switch w b f from' alive =>
    refine watched.write from' rfl rfl rfl rfl rfl rfl rfl rfl rfl (fun _ => rfl) ?_ Or.inl
    rintro g ⟨⟩
    rfl
  case leave w b f outcome from' outcomes raises =>
    refine watched.write from' rfl rfl rfl rfl rfl rfl rfl rfl rfl ?_ ?_ ?_
    · rintro rfl
      rcases outcomes with other | other | other | other <;> cases other
    · rintro g ⟨⟩
      rfl
    · intro _
      exact Or.inr (ok f (by rw [from']; rfl))
  case save w b f from' =>
    refine watched.goto from' rfl (fun _ _ => rfl) nofun (fun _ => rfl) rfl nofun rfl rfl rfl ?_ rfl
    funext g
    show (Function.update s.fiber f _ g).state = (s.fiber g).state
    rcases eq_or_ne g f with rfl | other
    · rw [Function.update_self]
    · rw [Function.update_of_ne other]
  case hold w b f from' =>
    exact watched.write from' rfl rfl rfl rfl rfl rfl rfl rfl rfl nofun nofun
      fun exec => Or.inr (ok.2 f (by rw [from']; rfl) exec)
  case reset w b f from' reusable =>
    exact watched.write from' rfl rfl rfl rfl rfl rfl rfl rfl rfl nofun nofun
      fun exec => absurd exec (not_exec_of_reusable reusable)
  case drain w from' =>
    refine ⟨watched.executed, fun _ => Or.inr (Or.inl ⟨w, ?_⟩), fun it member runnable sleeper => ?_⟩
    · unfold Pool.awake
      rw [from']
      rfl
    · rcases ok with inProgress | none
      · simp only [Pool.wakeUps] at inProgress ⊢
        omega
      · exact absurd sleeper (none it member runnable)
  case schedule fc thread known =>
    have told : s.fibers = [] → s.toTest < s.toTest + s.fibers.isEmpty.toNat := by
      intro empty
      rw [empty]
      exact Nat.lt_succ_self _
    refine watched.queued rfl rfl rfl rfl ?_ ?_ ?_
    · simp only [Pool.wakeUps]
      omega
    · intro empty _
      have := told empty
      simp only [Pool.wakeUps]
      omega
    · intro it member runnable sleeper
      obtain rfl := List.mem_singleton.mp member
      rcases ok with empty | woken | none
      · have := told empty
        simp only [Pool.wakeUps]
        omega
      · simp only [Pool.wakeUps] at woken ⊢
        omega
      · exact absurd sleeper (none runnable)
  case scheduleBatch fcs known =>
    refine watched.queued rfl rfl rfl rfl ?_ ?_ ?_
    · simp only [Pool.wakeUps]
      omega
    · intro empty more
      have some' : fcs ≠ [] := fun none => more (congrArg (List.map _) none)
      have told : (s.fibers.isEmpty && !fcs.isEmpty).toNat = 1 := by
        rw [empty, List.isEmpty_eq_false_iff.mpr some']
        rfl
      simp only [Pool.wakeUps, told]
      omega
    · rintro it member - ⟨v, pinned, -⟩
      obtain ⟨fc, -, rfl⟩ := List.mem_map.mp member
      exact absurd pinned.symm (threadId_ne v)
  case testTickleNone rest some' none =>
    refine Watched.missed (ok none) (fun _ => id) (fun _ => id) watched.executed rfl rfl ?_
    simp only [Pool.wakeUps]
    omega
  case testTickleSome rest some' _ | writeTickle rest some' | writeOther rest some' =>
    refine watched.stay rfl rfl rfl rfl ?_
    simp only [Pool.wakeUps]
    omega
  case addTimer | cancelTimer | addEvent | delEvent | testOtherNone | testOtherSome | stop =>
    exact watched.stay rfl rfl rfl rfl (Nat.le_refl _)
  case newFiber cb =>
    have other {f : FiberId} (exec : s.state f = .exec) :
        (Function.update s.fiber s.nextFiber { cb } f).state = .exec := by
      rw [Function.update_of_ne]
      · exact exec
      · rintro rfl
        exact watched.fresh made exec
    refine watched.mono (fun _ => id) (fun _ => id) (Nat.le_refl _) ?_ Or.inl ?_
    · intro f exec
      apply watched.executed f
      have notNew : f ≠ s.nextFiber := by
        rintro rfl
        exact nomatch (congrArg Fiber.state (Function.update_self s.nextFiber _ s.fiber)).symm.trans exec
      exact (congrArg Fiber.state (Function.update_of_ne notNew _ s.fiber)).symm.trans exec
    · intro it member runnable _
      exact Or.inr ⟨member, fun f content exec => runnable f content (other exec)⟩

/-! ### Runs -/

theorem watched_initial : Watched (Pool.initial n) where
  executed f exec := by cases exec
  queue filled := absurd rfl filled
  pinned it member := by cases member

theorem watched_of_reachable (reached : (pool n).ReachableWhen Harmless s) :
    Made s ∧ Watched s := by
  apply reached.invariant
  · rintro s rfl
    exact ⟨made_initial, watched_initial⟩
  · rintro s event s' ⟨made, watched⟩ ok stepped
    have move := move_of_next stepped
    exact ⟨made.step move, watched.next made ok move⟩

/-- A blocked worker is asleep. -/
theorem asleep_of_blocked (blocked : s.pc w = .idle .blocked) : s.asleep w = true := by
  unfold Pool.asleep
  rw [blocked]
  rfl

/-- **Under the condition, in every run, no wake-up is lost.** -/
theorem no_lost_wakeup (reached : (pool n).ReachableWhen Harmless s) : ¬ LostWakeup s := by
  have watched := (watched_of_reachable reached).2
  rintro ⟨none, it, member, runnable, ⟨w, allowed, blocked⟩, all⟩
  rcases allowed with unpinned | pinned
  · rcases watched.queue (List.ne_nil_of_mem member) with woken | ⟨v, awake⟩ | nobody
    · omega
    · unfold Pool.awake at awake
      rcases all v (Or.inl unpinned) with here | here <;> rw [here] at awake <;> cases awake
    · exact Bool.false_ne_true ((nobody w).symm.trans (asleep_of_blocked blocked))
  · have woken := watched.pinned it member runnable ⟨w, pinned, asleep_of_blocked blocked⟩
    omega

/-- A worker counts itself idle, blocks, and is told of the task that is queued then. -/
theorem no_lost_wakeup_toldWhenIdle :
    ∃ s : Pool 1, (pool 1).ReachableWhen Harmless s ∧ (s.pc 0 = .idle .blocked ∧ s.fibers ≠ []) ∧
      ¬ LostWakeup s := by
  have run : ∃ s, (pool 1).ReachableWhen Harmless s ∧
      decide (s.pc 0 = .idle .blocked ∧ s.fibers ≠ []) = true :=
    Machine.reachableWhen_of_replay rfl
      (List.replicate 6 (.work 0) ++ [.schedule (.cb (some 7)) (-1), .testTickle, .writeTickle]) _
      (by decide +kernel)
  obtain ⟨s, reached, check⟩ := run
  exact ⟨s, reached, of_decide_eq_true check, no_lost_wakeup reached⟩

/-! ### The four windows -/

/-- The worker has found the queue empty and does not count as idle yet; `tickle()` writes nothing. -/
def missedTickle : List (Event 1) :=
  List.flatten [
    [.work 0, .schedule (.cb (some 7)) (-1), .testTickle],
    List.replicate 5 (.work 0)]

/-- A task that is pinned to the blocked worker 1 is queued behind one for worker 0. -/
def queuedBehind : List (Event 2) :=
  List.flatten [
    [.schedule (.cb (some 7)) (-1), .testTickle],
    List.replicate 5 (.work 0),
    List.replicate 6 (.work 1),
    [.schedule (.cb (some 8)) 0, .testTickle, .writeTickle,
      .wake 1, .expire 1 [] 0 0 false, .work 1, .drain 1, .swapOut 1],
    List.replicate 8 (.work 1),
    [.schedule (.cb (some 9)) 1]]

/-- The byte for the blocked worker 1 is read by worker 0. -/
def readByOther : List (Event 2) :=
  List.flatten [
    List.replicate 6 (.work 0),
    List.replicate 6 (.work 1),
    [.schedule (.cb (some 7)) 1, .testTickle, .writeTickle,
      .wake 0, .expire 0 [] 0 0 false, .work 0, .drain 0]]

/-- Worker 1 skips the fiber that is pinned to it while worker 0 executes it, and blocks. -/
def skippedWhileExecuted : List (Event 2) :=
  List.flatten [
    [.newFiber (some 7), .schedule (.fiber (some 0)) (-1), .testTickle],
    List.replicate 5 (.work 0),
    [.schedule (.fiber (some 0)) 1, .testTickle],
    List.replicate 6 (.work 1),
    [.leave 0 .hold]]
/-- **Wake-ups are lost**, in each of the four windows. -/
theorem lost_wakeup :
    (∃ s, (pool 1).Reachable s ∧ LostWakeup s) ∧
      ∀ events ∈ [queuedBehind, readByOther, skippedWhileExecuted],
        ((pool 2).replay (Pool.initial 2) events).map (fun s => decide (LostWakeup s)) =
          some true := by
  constructor
  · have lost := Machine.reachable_of_replay (m := pool 1) rfl missedTickle
      (fun s => decide (LostWakeup s)) (by decide +kernel)
    simpa only [decide_eq_true_eq] using lost
  · decide +kernel

end Sylar.Scheduler
