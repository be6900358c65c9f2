/-
**A finished fiber is not resumed.**

`MainFunc` ends a fiber with `TERM` or, when its callback throws, with `EXCPT`, and swaps out for the
last time; what stands after that only fails an assertion. `run()` tests a popped fiber against
`TERM` alone, and a fiber can be queued more than once.

* `NotResumed` — what should hold: no `swapIn` on a fiber that is past its last `swapOut`, and none on
  an idle fiber that has ended.
* `thrown_resumed` — **a queued fiber whose task threw breaks it.**
* `Tested` — the condition: no popped fiber is `EXCPT`. Between workers the `HandOff` is needed, too;
  with one worker it always holds (`handOff_one`).
* `finished_not_resumed` — **under it no run breaks it**, and the root fiber is never past its end.
-/

import Sylar.Scheduler.Handoff
import Sylar.Scheduler.Shutdown

namespace Sylar.Scheduler

open Sylar.Library

variable {n : Nat}

/-! ### The property and the condition -/

/-- A stage at which the fiber is to run, runs, or is to become `HOLD`. -/
def Stage.isAlive : Stage → Bool
  | .chosen | .counted | .entered | .executing | .holding => true
  | .leaving | .back | .uncounted | .rescheduling | .finished => false

/-- The worker is inside its idle fiber. -/
def Pc.idles : Pc → Bool
  | .tickling _ after => after.idles
  | .idle stage => stage != .left
  | .top | .dispatch _ | .task .. | .exited => false

@[simp] theorem Pc.idles_tickleIf (needTickle : Bool) (after : Pc) :
    (tickleIf needTickle after).idles = after.idles := by
  cases needTickle <;> rfl

/-- **No finished fiber is resumed.** -/
structure NotResumed (s : Pool n) : Prop where
  /-- `run()` is to call `swapIn` only on a fiber that has not ended since its last `reset` -/
  counted : ∀ w b f, s.pc w = .task .counted b f → (s.fiber f).atEnd = false
  /-- and `swapIn` switches to no context past the last `swapOut` of `MainFunc` -/
  entered : ∀ w b f, s.pc w = .task .entered b f → (s.fiber f).atEnd = false
  /-- nor is an idle fiber entered that has ended -/
  idle : ∀ w, (s.pc w).idles = true → s.idleTerm w = false

/-- The popped fiber whose state the next step of a worker tests. -/
def Pool.tests (s : Pool n) (w : Fin n) : Option FiberId :=
  match s.pc w with
  | .dispatch (.fiber (some f)) => some f
  | _ => none

/-- **The condition on a step**: a popped fiber has not ended by an exception. -/
def Tested (s : Pool n) : Event n → Prop
  | .work w => ∀ f ∈ s.tests w, s.state f ≠ .excpt
  | _ => True

instance (s : Pool n) (event : Event n) : Decidable (Tested s event) :=
  match event with
  | .work w => inferInstanceAs (Decidable (∀ f ∈ s.tests w, s.state f ≠ .excpt))
  | .leave .. | .wake _ | .expire .. | .rearm .. | .drain _ | .trigger .. | .swapOut _
  | .addTimer .. | .cancelTimer _ | .addEvent .. | .delEvent .. | .schedule .. | .scheduleBatch _
  | .testTickle | .writeTickle | .testOther | .writeOther | .newFiber _ | .stop => isTrue trivial

/-- **One worker has no other to hand a fiber to.** -/
theorem handOff_one (s : Pool 1) (event : Event 1) : HandOff s event := by
  cases event with
  | work w =>
    intro f takes v window
    obtain rfl : v = w := Subsingleton.elim v w
    unfold Pool.takes at takes
    split at takes
    next top =>
      rw [top] at window
      cases window
    next loads =>
      rw [loads] at window
      cases window
    next => cases takes
  | _ => trivial

/-! ### The invariant -/

variable {s s' t : Pool n} {event : Event n} {v w : Fin n} {f : FiberId}

/-- What a stage says about the end of the fiber. -/
def Unfinished (fiber : FiberId → Fiber) : Pc → Prop
  | .tickling _ after => Unfinished fiber after
  | .task stage _ f => stage.isAlive = true → (fiber f).atEnd = false
  | .top | .dispatch _ | .idle _ | .exited => True

theorem unfinished_tickleIf {fiber : FiberId → Fiber} {needTickle : Bool} {after : Pc} :
    Unfinished fiber (.tickleIf needTickle after) ↔ Unfinished fiber after := by
  cases needTickle <;> rfl

/-- It is about the fiber that the worker holds. -/
theorem Unfinished.congr {fiber fiber' : FiberId → Fiber} {pc : Pc}
    (unfinished : Unfinished fiber pc) (same : ∀ f, pc.grip = some f → fiber' f = fiber f) :
    Unfinished fiber' pc := by
  induction pc with
  | tickling write after ih => exact ih unfinished same
  | task stage b f =>
    intro alive
    have holds : stage ≠ .rescheduling := by
      rintro rfl
      cases alive
    rw [same f (if_neg holds)]
    exact unfinished alive
  | _ => trivial

/-- **The invariant**: a context at its end has its state, and no worker is to enter it. -/
structure Ended (s : Pool n) : Prop where
  state : ∀ f, (s.fiber f).atEnd = true → s.state f = .term ∨ s.state f = .excpt
  alive : ∀ w, Unfinished s.fiber (s.pc w)
  idle : ∀ w, (s.pc w).idles = true → s.idleTerm w = false

theorem Ended.notResumed (ended : Ended s) : NotResumed s where
  counted w b f here := by
    have alive := ended.alive w
    rw [here] at alive
    exact alive rfl
  entered w b f here := by
    have alive := ended.alive w
    rw [here] at alive
    exact alive rfl
  idle := ended.idle

namespace Ended

/-- At a stage at which the fiber is alive. -/
theorem atEnd_eq_false {stage : Stage} {b : Branch} (ended : Ended s)
    (from' : s.pc w = .task stage b f) (alive : stage.isAlive = true) :
    (s.fiber f).atEnd = false := by
  have unfinished := ended.alive w
  rw [from'] at unfinished
  exact unfinished alive

/-- A fiber whose state is not final has not ended. -/
theorem not_over (ended : Ended s) (open' : s.state f ≠ .term) (open'' : s.state f ≠ .excpt) :
    (s.fiber f).atEnd = false := by
  by_contra atEnd
  rcases ended.state f (Bool.eq_true_of_not_eq_false atEnd) with state | state
  · exact open' state
  · exact open'' state

/-- A step that writes one fiber. -/
theorem state_write {g : FiberId} {new : Fiber} (ended : Ended s)
    (wrote : t.fiber = Function.update s.fiber g new)
    (final : new.atEnd = true → new.state = .term ∨ new.state = .excpt) :
    ∀ f, (t.fiber f).atEnd = true → t.state f = .term ∨ t.state f = .excpt := by
  intro f atEnd
  unfold Pool.state
  rw [wrote] at atEnd ⊢
  rcases eq_or_ne f g with rfl | other
  · rw [Function.update_self] at atEnd ⊢
    exact final atEnd
  · rw [Function.update_of_ne other] at atEnd ⊢
    exact ended.state f atEnd

/-- **A final state is written where the context ends**, and nowhere is it overwritten. -/
theorem state_next (ended : Ended s) (move : Move s event s') :
    ∀ f, (s'.fiber f).atEnd = true → s'.state f = .term ∨ s'.state f = .excpt := by
  cases move
  case enter w b g from' out =>
    refine ended.state_write rfl fun atEnd => ?_
    rw [ended.atEnd_eq_false from' rfl] at atEnd
    cases atEnd
  case hold w b g from' =>
    refine ended.state_write rfl fun atEnd => ?_
    rw [ended.atEnd_eq_false from' rfl] at atEnd
    cases atEnd
  case switch w b g from' _ | save w b g from' =>
    exact ended.state_write rfl (ended.state g)
  case leave w b g outcome from' outcomes raises =>
    refine ended.state_write rfl fun atEnd => ?_
    rcases outcomes with rfl | rfl | rfl | rfl
    · cases atEnd
    · cases atEnd
    · exact Or.inl rfl
    · exact Or.inr rfl
  case reuse | renew | reset | newFiber => exact ended.state_write rfl nofun
  all_goals exact ended.state

end Ended

/-- The worker that moves is at its new place. -/
theorem unfinished_goto {pc : Pc} (moved : t.pc = Function.update s.pc w pc)
    (here : Unfinished t.fiber pc) : Unfinished t.fiber (t.pc w) := by
  rw [moved, Function.update_self]
  exact here

/-- The worker that moves. -/
theorem unfinished_self (ended : Ended s) (ok : Tested s event) (move : Move s event s')
    (here : event.worker = some v) : Unfinished s'.fiber (s'.pc v) := by
  have alive := ended.alive v
  cases move
  case scan | expire | rearm | scheduleCbs | trigger | reschedule =>
    cases here
    exact unfinished_goto rfl (unfinished_tickleIf.mpr (by trivial))
  case testNone from' _ | testSome from' _ | write from' =>
    cases here
    rw [from'] at alive
    exact unfinished_goto rfl alive
  case choose w f from' notTerm =>
    cases here
    have notExcpt : s.state f ≠ .excpt := ok f (by simp only [Pool.tests, from', Option.mem_some])
    exact unfinished_goto rfl fun _ => ended.not_over notTerm notExcpt
  case readOther w b f from' other =>
    cases here
    exact unfinished_goto rfl fun _ => ended.not_over other.2.1 other.2.2
  case count w b f from' =>
    cases here
    exact unfinished_goto rfl fun _ => ended.atEnd_eq_false from' rfl
  case reuse w c g from' keeps reusable =>
    cases here
    refine unfinished_goto rfl fun _ => ?_
    exact congrArg Fiber.atEnd (Function.update_self g _ s.fiber)
  case renew w c from' none =>
    cases here
    refine unfinished_goto rfl fun _ => ?_
    exact congrArg Fiber.atEnd (Function.update_self s.nextFiber _ s.fiber)
  case enter w b f from' _ | switch w b f from' _ =>
    cases here
    refine unfinished_goto rfl fun _ => ?_
    exact (congrArg Fiber.atEnd (Function.update_self f _ s.fiber)).trans
      (ended.atEnd_eq_false from' rfl)
  case leave | save | uncount | readReady | readFinished =>
    cases here
    exact unfinished_goto rfl nofun
  case drain | addTimer | cancelTimer | addEvent | delEvent => exact alive
  case schedule | scheduleBatch | testTickleNone | testTickleSome | writeTickle | testOtherNone |
      testOtherSome | writeOther | newFiber | stop => cases here
  case skip | exit | idle | readOver | hold | reset | noTimer | someTimer | noPending |
      somePending | stops | stays | block | wake | endTrigger | swapOut | endIdle =>
    cases here
    exact unfinished_goto rfl trivial

/-- A worker moves, and no idle fiber ends. -/
theorem idle_goto {pc : Pc} (ended : Ended s) (moved : t.pc = Function.update s.pc w pc)
    (same : t.idleTerm = s.idleTerm) (here : pc.idles = true → s.idleTerm w = false) :
    ∀ v, (t.pc v).idles = true → t.idleTerm v = false := by
  intro v idles
  rw [same]
  rw [moved] at idles
  rcases eq_or_ne v w with rfl | other
  · rw [Function.update_self] at idles
    exact here idles
  · rw [Function.update_of_ne other] at idles
    exact ended.idle v idles

/-- **A worker enters its idle fiber only while that has not ended.** -/
theorem idle_next (ended : Ended s) (move : Move s event s') :
    ∀ v, (s'.pc v).idles = true → s'.idleTerm v = false := by
  -- the worker that moves has `pc` before
  have stays {pc : Pc} {w : Fin n} (from' : s.pc w = pc) (idles : pc.idles = true) :
      s.idleTerm w = false := ended.idle w (by rw [from']; exact idles)
  cases move
  case scan | reschedule => exact idle_goto ended rfl rfl (by rw [Pc.idles_tickleIf]; nofun)
  case expire from' _ _ _ | rearm from' | scheduleCbs from' | trigger from' _ =>
    exact idle_goto ended rfl rfl fun _ => stays from' rfl
  case testNone from' _ | testSome from' _ | write from' =>
    exact idle_goto ended rfl rfl fun idles => stays from' idles
  case idle alive => exact idle_goto ended rfl rfl fun _ => alive
  case noTimer from' _ | someTimer from' | noPending from' _ | somePending from' | stays from' |
      block from' | wake from' | endTrigger from' =>
    exact idle_goto ended rfl rfl fun _ => stays from' rfl
  case stops w from' stopping =>
    intro v idles
    dsimp only [Pool.goto] at idles ⊢
    rcases eq_or_ne v w with rfl | other
    · rw [Function.update_self] at idles
      cases idles
    · rw [Function.update_of_ne other] at idles ⊢
      exact ended.idle v idles
  case drain | addTimer | cancelTimer | addEvent | delEvent | schedule | scheduleBatch |
      testTickleNone | testTickleSome | writeTickle | testOtherNone | testOtherSome | writeOther |
      newFiber | stop => exact ended.idle
  case skip | choose | reuse | renew | exit | count | enter | switch | leave | save | uncount |
      readReady | readOver | readFinished | readOther | hold | reset | swapOut | endIdle =>
    exact idle_goto ended rfl rfl nofun

/-- **A step that meets the condition keeps the invariant.** -/
theorem Ended.next (ended : Ended s) (made : Made s) (handed : Handed s) (handOff : HandOff s event)
    (tested : Tested s event) (move : Move s event s') : Ended s' where
  state := ended.state_next move
  alive v := by
    by_cases here : event.worker = some v
    · exact unfinished_self ended tested move here
    · rw [move.pc_eq here]
      apply (ended.alive v).congr
      intro f grip
      exact handed.fiber_eq made handOff move grip here
  idle := idle_next ended move

theorem ended_initial : Ended (Pool.initial n) where
  state f atEnd := by cases atEnd
  alive w := trivial
  idle w := nofun

/-- The condition on a step of any number of workers. -/
def Resumable (s : Pool n) (event : Event n) : Prop := HandOff s event ∧ Tested s event

instance (s : Pool n) (event : Event n) : Decidable (Resumable s event) :=
  inferInstanceAs (Decidable (_ ∧ _))

theorem ended_of_reachable (reached : (pool n).ReachableWhen Resumable s) : Ended s := by
  have invariant : Made s ∧ Handed s ∧ Ended s := by
    apply reached.invariant (P := fun s => Made s ∧ Handed s ∧ Ended s)
    · rintro s rfl
      exact ⟨made_initial, handed_initial, ended_initial⟩
    · rintro s event s' ⟨made, handed, ended⟩ ⟨handOff, tested⟩ stepped
      have move := move_of_next stepped
      exact ⟨made.step move, handed.next made handOff move,
        ended.next made handed handOff tested move⟩
  exact invariant.2.2

/-- **Under the condition, in every run, no finished fiber is resumed**; with one worker the test is
all there is to it. The root fiber is not entered past its end in any run. -/
theorem finished_not_resumed (n m : Nat) (kind : Kind) :
    (∀ s : Pool n, (pool n).ReachableWhen Resumable s → NotResumed s) ∧
    (∀ s : Pool 1, (pool 1).ReachableWhen Tested s → NotResumed s) ∧
    ∀ s : Shutdown m, (shutdown kind m).Reachable s →
      ∀ call ∈ s.stops, call.pc = .marking → s.pool.pc 0 ≠ .exited := by
  refine ⟨fun s reached => (ended_of_reachable reached).notResumed, fun s reached => ?_,
    fun s reached call _ _ => (stuck_of_reachable reached).runs 0⟩
  have both : (pool 1).ReachableWhen Resumable s :=
    reached.mono fun s event tested => ⟨handOff_one s event, tested⟩
  exact (ended_of_reachable both).notResumed

/-! ### An exception -/

/-- Fiber 0 is scheduled twice. -/
def scheduledTwice : List (Event 1) :=
  List.flatten [
    [.newFiber (some 7), .schedule (.fiber (some 0)) (-1), .schedule (.fiber (some 0)) (-1)],
    List.replicate 6 (.work 0)]

/-- **A task throws while its fiber is queued again**: `run()` resumes the fiber. -/
theorem thrown_resumed :
    ∃ s : Pool 1, (pool 1).Reachable s ∧ s.pc 0 = .task .entered .fiber 0 ∧ ¬ NotResumed s := by
  have run : ∃ s, (pool 1).Reachable s ∧
      decide (s.pc 0 = .task .entered .fiber 0 ∧ (s.fiber 0).atEnd = true) = true :=
    Machine.reachable_of_replay rfl
      (scheduledTwice ++ [.leave 0 .excpt] ++ List.replicate 7 (.work 0)) _ (by decide +kernel)
  obtain ⟨s, reached, check⟩ := run
  obtain ⟨entered, atEnd⟩ := of_decide_eq_true check
  refine ⟨s, reached, entered, fun notResumed => ?_⟩
  rw [notResumed.entered 0 .fiber 0 entered] at atEnd
  cases atEnd

/-- A task that returns while its fiber is queued again is not run again. -/
theorem finished_not_resumed_returned :
    ∃ s : Pool 1, (pool 1).ReachableWhen Tested s ∧
      ((s.fiber 0).atEnd = true ∧ s.fibers = [] ∧ s.pc 0 = .top) ∧ NotResumed s := by
  have run : ∃ s, (pool 1).ReachableWhen Tested s ∧
      decide ((s.fiber 0).atEnd = true ∧ s.fibers = [] ∧ s.pc 0 = .top) = true :=
    Machine.reachableWhen_of_replay rfl
      (scheduledTwice ++ [.leave 0 .term] ++ List.replicate 5 (.work 0)) _ (by decide +kernel)
  obtain ⟨s, reached, check⟩ := run
  exact ⟨s, reached, of_decide_eq_true check,
    (finished_not_resumed 1 0 .scheduler).2.1 s reached⟩

end Sylar.Scheduler
