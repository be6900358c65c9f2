/-
**Handing a fiber from one worker to another.**

A fiber that suspends itself writes its state first; its context is saved after that, and after that
its worker reads the state and may write `HOLD`. In between nothing but the state protects it, and a
wake-up that comes then lets another worker pop it.

* `Pc.grip` — the fiber a worker has popped, until `run()` is done with it; `Pc.window` — the same
  while `m_state` is not `EXEC`.
* `ExecutedOnce` — what should hold: one worker for each executed fiber, its state `EXEC`, no stale
  context entered, no `TERM` overwritten.
* `stale_context` — **a wake-up inside the window breaks it.**
* `HandOff` — the condition: no worker takes hold of a fiber inside another worker's window.
* `executed_once` — **under it no run breaks it.**

`Made` is what makes a new fiber nobody's: every fiber that is named anywhere has been made.
-/

import Sylar.Library.Exclusive
import Sylar.Scheduler.Moves

namespace Sylar.Scheduler

open Sylar.Library

variable {n : Nat}

/-! ### Fibers are made before they are named -/

/-- The fiber that a worker has in hand. -/
def Pc.names : Pc → Option FiberId
  | .tickling _ after => after.names
  | .dispatch ft => ft.names
  | .task _ _ f => some f
  | .top | .idle _ | .exited => none

@[simp] theorem Pc.names_tickleIf (needTickle : Bool) (after : Pc) :
    (Pc.tickleIf needTickle after).names = after.names := by
  cases needTickle <;> rfl

/-- A fiber is in some worker's hand, kept as its `cb_fiber`, queued, or waiting for an event. -/
inductive Named (s : Pool n) (f : FiberId) : Prop
  | hand (w : Fin n) (inHand : (s.pc w).names = some f)
  | kept (w : Fin n) (keeps : s.cbFiber w = some f)
  | queue (it : FiberAndThread) (member : it ∈ s.fibers) (names : it.fiberOrCb.names = some f)
  | context (fc : FiberOrCb) (member : fc ∈ s.contexts) (names : fc.names = some f)

/-- Every fiber that is named anywhere has been made. -/
def Made (s : Pool n) : Prop := ∀ f, Named s f → f < s.nextFiber

variable {s s' : Pool n}

theorem Named.elim {f : FiberId} {p : Prop} (named : Named s f)
    (hand : ∀ w, (s.pc w).names = some f → p) (kept : ∀ w, s.cbFiber w = some f → p)
    (queue : ∀ it ∈ s.fibers, it.fiberOrCb.names = some f → p)
    (contexts : ∀ fc ∈ s.contexts, fc.names = some f → p) : p := by
  rcases named with ⟨w, inHand⟩ | ⟨w, keeps⟩ | ⟨it, member, names⟩ | ⟨fc, member, names⟩
  · exact hand w inHand
  · exact kept w keeps
  · exact queue it member names
  · exact contexts fc member names

theorem nextFiber_le {event : Event n} (move : Move s event s') : s.nextFiber ≤ s'.nextFiber := by
  cases move
  case renew => exact Nat.le_succ _
  case newFiber => exact Nat.le_succ _
  all_goals exact Nat.le_refl _

/-- What a worker has in hand after a step, it had in hand or in its `cb_fiber` before, or it comes
from the queue, or it is made by the step. -/
theorem lt_of_names {event : Event n} (made : Made s) (move : Move s event s') {f : FiberId}
    {v : Fin n} (inHand : (s'.pc v).names = some f) : f < s'.nextFiber := by
  have before (named : Named s f) : f < s'.nextFiber :=
    Nat.lt_of_lt_of_le (made f named) (nextFiber_le move)
  -- the worker that moves has `pc'` after
  have moves {w : Fin n} {pc' : Pc} (inHand : (Function.update s.pc w pc' v).names = some f)
      (here : pc'.names = some f → f < s'.nextFiber) : f < s'.nextFiber := by
    rcases eq_or_ne v w with rfl | other
    · rw [Function.update_self] at inHand
      exact here inHand
    · rw [Function.update_of_ne other] at inHand
      exact before (.hand v inHand)
  cases move
  case scan w ft left tickleMe from' scanned =>
    refine moves inHand fun names => ?_
    rw [Pc.names_tickleIf] at names
    obtain ⟨-, it, member, content⟩ := (scan_scanned scanned).names names
    exact before (.queue it member content)
  case testNone w _ from' _ | testSome w _ from' _ | write w _ from' | choose w _ from' _ |
      count w _ _ from' | enter w _ _ from' _ | switch w _ _ from' _ | leave w _ _ _ from' _ _ |
      save w _ _ from' | uncount w _ _ from' | readReady w _ _ from' _ | readFinished w _ from' _ |
      readOther w _ _ from' _ =>
    exact moves inHand fun names => before (.hand w (by rw [from']; exact names))
  case reuse w c g from' keeps reusable =>
    exact moves inHand fun names => before (.kept w (keeps.trans names))
  case renew w c from' none =>
    refine moves inHand fun names => ?_
    obtain rfl := Option.some.inj names
    exact Nat.lt_succ_self _
  case expire | rearm | reschedule | scheduleCbs | trigger =>
    refine moves inHand fun names => ?_
    rw [Pc.names_tickleIf] at names
    cases names
  case drain | addTimer | cancelTimer | addEvent | delEvent | schedule | scheduleBatch |
      testTickleNone | testTickleSome | writeTickle | testOtherNone | testOtherSome | writeOther |
      newFiber | stop =>
    exact before (.hand v inHand)
  all_goals exact moves inHand fun names => by cases names

/-- A `cb_fiber` after a step was one before, or is made by the step. -/
theorem lt_of_keeps {event : Event n} (made : Made s) (move : Move s event s') {f : FiberId}
    {v : Fin n} (keeps : s'.cbFiber v = some f) : f < s'.nextFiber := by
  have before (keeps : s.cbFiber v = some f) : f < s'.nextFiber :=
    Nat.lt_of_lt_of_le (made f (.kept v keeps)) (nextFiber_le move)
  cases move
  case renew w c from' none =>
    rcases eq_or_ne v w with rfl | other
    · obtain rfl := Option.some.inj ((Function.update_self v _ s.cbFiber).symm.trans keeps)
      exact Nat.lt_succ_self _
    · exact before ((Function.update_of_ne other _ s.cbFiber).symm.trans keeps)
  case hold w b g from' =>
    dsimp only at keeps
    split at keeps
    · rcases eq_or_ne v w with rfl | other
      · rw [Function.update_self] at keeps
        cases keeps
      · rw [Function.update_of_ne other] at keeps
        exact before keeps
    · exact before keeps
  all_goals exact before keeps

/-- **A step names no fiber that was not named before, but for one it makes and those that another
thread schedules.** -/
theorem Made.step {event : Event n} (made : Made s) (move : Move s event s') : Made s' := by
  intro f named
  have before (named : Named s f) : f < s'.nextFiber :=
    Nat.lt_of_lt_of_le (made f named) (nextFiber_le move)
  refine named.elim (fun v inHand => lt_of_names made move inHand)
    (fun v keeps => lt_of_keeps made move keeps) (fun it member names => ?_)
    fun fc member names => ?_
  · rcases move.queue_cases member names with
      ⟨it, member, names⟩ | ⟨fc, member, names⟩ | ⟨w, b, from'⟩ | gives
    · exact before (.queue it member names)
    · exact before (.context fc member names)
    · exact before (.hand w (by rw [from']; rfl))
    · exact Nat.lt_of_lt_of_le (move.lt_of_gives gives) (nextFiber_le move)
  · rcases move.contexts_cases member names with old | ⟨w, b, from', -⟩
    · exact before (.context fc old names)
    · exact before (.hand w (by rw [from']; rfl))

/-! ### Who holds a fiber -/

namespace Pc

/-- The fiber a worker has popped or loaded, until `run()` is done with it. -/
def grip : Pc → Option FiberId
  | .tickling _ after => after.grip
  | .dispatch ft => ft.names
  | .task stage _ f => if stage = .rescheduling then none else some f
  | .top | .idle _ | .exited => none

/-- The same, where `m_state` does not say so: before `swapIn` writes `EXEC`, and from the moment the
fiber writes its state until `run()` is done with it. -/
def window : Pc → Option FiberId
  | .tickling _ after => after.window
  | .dispatch ft => ft.names
  | .task stage _ f =>
      if stage = .entered ∨ stage = .executing ∨ stage = .rescheduling then none else some f
  | .top | .idle _ | .exited => none

/-- The fiber whose code a worker runs: from the switch to it until `swapOut`. -/
def runs : Pc → Option FiberId
  | .task .executing _ f | .task .leaving _ f => some f
  | _ => none

/-- The fiber whose context a worker is about to save. -/
def leaving : Pc → Option FiberId
  | .tickling _ after => after.leaving
  | .task stage _ f => if stage = .leaving then some f else none
  | .dispatch _ | .top | .idle _ | .exited => none

@[simp] theorem grip_tickleIf (needTickle : Bool) (after : Pc) :
    (tickleIf needTickle after).grip = after.grip := by
  cases needTickle <;> rfl

theorem grip_of_leaving {pc : Pc} {f : FiberId} (leaves : pc.leaving = some f) :
    pc.grip = some f := by
  induction pc with
  | tickling write after ih => exact ih leaves
  | task stage b g =>
    unfold leaving at leaves
    split at leaves
    next atEnd =>
      rw [atEnd]
      exact leaves
    next => cases leaves
  | _ => cases leaves

theorem grip_of_runs {pc : Pc} {f : FiberId} (runs : pc.runs = some f) : pc.grip = some f := by
  match pc, runs with
  | .task .executing _ _, rfl => rfl
  | .task .leaving _ _, rfl => rfl

theorem names_of_grip {pc : Pc} {f : FiberId} (grip : pc.grip = some f) : pc.names = some f := by
  induction pc with
  | tickling write after ih => exact ih grip
  | dispatch ft => exact grip
  | task stage b g => exact (Option.ite_none_left_eq_some.mp grip).2
  | _ => cases grip

end Pc

/-- A fiber that is yet to be made is held by nobody. -/
theorem Made.free (made : Made s) (w : Fin n) : (s.pc w).grip ≠ some s.nextFiber := by
  intro grip
  exact Nat.lt_irrefl _ (made _ (.hand w (Pc.names_of_grip grip)))

/-- What a stage says about the fiber's state. -/
def Settled (state : FiberId → State) : Pc → Prop
  | .tickling _ after => Settled state after
  | .task .entered _ f | .task .executing _ f => state f = .exec
  | .task .holding _ f => state f ≠ .term
  | _ => True

theorem settled_tickleIf {state : FiberId → State} {needTickle : Bool} {after : Pc} :
    Settled state (.tickleIf needTickle after) ↔ Settled state after := by
  cases needTickle <;> rfl

/-- It is about the fiber that the worker holds. -/
theorem Settled.congr {state state' : FiberId → State} {pc : Pc} (settled : Settled state pc)
    (same : ∀ f, pc.grip = some f → state' f = state f) : Settled state' pc := by
  induction pc with
  | tickling write after ih => exact ih settled same
  | task stage b f =>
    cases stage with
    | entered => exact (same f rfl).trans settled
    | executing => exact (same f rfl).trans settled
    | holding =>
      unfold Settled
      rw [same f rfl]
      exact settled
    | _ => trivial
  | _ => trivial

/-- A fiber that is held is in the window, or its state says so. -/
theorem Settled.window_or_exec {state : FiberId → State} {pc : Pc} (settled : Settled state pc)
    {f : FiberId} (grip : pc.grip = some f) : pc.window = some f ∨ state f = .exec := by
  induction pc with
  | tickling write after ih => exact ih settled grip
  | dispatch ft => exact Or.inl grip
  | task stage b g =>
    cases stage with
    | entered =>
      cases grip
      exact Or.inr settled
    | executing =>
      cases grip
      exact Or.inr settled
    | rescheduling => cases grip
    | _ => exact Or.inl grip
  | _ => cases grip

/-- **The invariant of the hand-off.** -/
structure Handed (s : Pool n) : Prop where
  exclusive : Exclusive fun w => (s.pc w).grip
  settled : ∀ w, Settled s.state (s.pc w)
  saved : ∀ f, (s.fiber f).saved = (s.fiber f).leaves ∨ ∃ w, (s.pc w).leaving = some f
  switched : s.staleSwitch = false
  kept : s.overwritten = false

namespace Handed

variable {t : Pool n} {w : Fin n} {pc : Pc}

/-- **Worker `w` moves to `pc`**, and no fiber that another worker holds is written. -/
theorem step (handed : Handed s) (moved : t.pc = Function.update s.pc w pc)
    (taken : ∀ f, pc.grip = some f → (s.pc w).grip = some f ∨ ∀ v, (s.pc v).grip ≠ some f)
    (frame : ∀ v, v ≠ w → ∀ f, (s.pc v).grip = some f → t.fiber f = s.fiber f)
    (settled : Settled t.state pc)
    (saved : ∀ f, (t.fiber f).saved = (t.fiber f).leaves ∨ pc.leaving = some f ∨
      (t.fiber f = s.fiber f ∧ (s.pc w).leaving ≠ some f))
    (switched : t.staleSwitch = false) (kept : t.overwritten = false) : Handed t where
  exclusive := by
    show Exclusive (Pc.grip ∘ t.pc)
    rw [moved, Function.comp_update]
    exact handed.exclusive.update taken
  settled v := by
    rw [moved]
    rcases eq_or_ne v w with rfl | other
    · rw [Function.update_self]
      exact settled
    · rw [Function.update_of_ne other]
      apply (handed.settled v).congr
      intro f grip
      exact congrArg Fiber.state (frame v other f grip)
  saved f := by
    rcases saved f with written | leaving | ⟨same, stays⟩
    · exact Or.inl written
    · exact Or.inr ⟨w, by rw [moved, Function.update_self]; exact leaving⟩
    · rcases handed.saved f with before | ⟨v, leaving⟩
      · rw [same]
        exact Or.inl before
      · have other : v ≠ w := by
          rintro rfl
          exact stays leaving
        exact Or.inr ⟨v, by rw [moved, Function.update_of_ne other]; exact leaving⟩
  switched := switched
  kept := kept

/-- A worker moves, and no fiber is written. -/
theorem goto (handed : Handed s) (moved : t.pc = Function.update s.pc w pc)
    (fiber : t.fiber = s.fiber) (switched : t.staleSwitch = s.staleSwitch)
    (kept : t.overwritten = s.overwritten)
    (taken : ∀ f, pc.grip = some f → (s.pc w).grip = some f ∨ ∀ v, (s.pc v).grip ≠ some f)
    (leaving : ∀ f, (s.pc w).leaving = some f → pc.leaving = some f)
    (settled : Settled s.state pc) : Handed t := by
  have state : t.state = s.state := by
    funext f
    exact congrArg (fun fibers => (fibers f).state) fiber
  apply handed.step moved taken _ (state ▸ settled) _ (switched.trans handed.switched)
    (kept.trans handed.kept)
  · intro v _ f _
    rw [fiber]
  · intro f
    by_cases leaves : (s.pc w).leaving = some f
    · exact Or.inr (Or.inl (leaving f leaves))
    · exact Or.inr (Or.inr ⟨congrFun fiber f, leaves⟩)

/-- A worker moves, and writes a fiber that no other worker holds. -/
theorem own {f : FiberId} {new : Fiber} (handed : Handed s)
    (moved : t.pc = Function.update s.pc w pc) (wrote : t.fiber = Function.update s.fiber f new)
    (mine : ∀ v, (s.pc v).grip = some f → v = w) (grip : ∀ g, pc.grip = some g → g = f)
    (leaving : ∀ g, (s.pc w).leaving = some g → g = f)
    (saved : new.saved = new.leaves ∨ pc.leaving = some f) (settled : Settled t.state pc)
    (switched : t.staleSwitch = false) (kept : t.overwritten = false) : Handed t := by
  apply handed.step moved _ _ settled _ switched kept
  · intro g grips
    obtain rfl := grip g grips
    by_cases held : (s.pc w).grip = some g
    · exact Or.inl held
    · refine Or.inr fun v grips => held ?_
      rw [← mine v grips]
      exact grips
  · intro v other g grips
    rw [wrote, Function.update_of_ne]
    rintro rfl
    exact other (mine v grips)
  · intro g
    rcases eq_or_ne g f with rfl | other
    · rw [wrote, Function.update_self]
      exact saved.imp_right Or.inl
    · rw [wrote, Function.update_of_ne other]
      exact Or.inr (Or.inr ⟨rfl, fun leaves => other (leaving g leaves)⟩)

/-- A worker at a stage that holds its fiber moves, and writes this fiber. -/
theorem task {stage : Stage} {b : Branch} {f : FiberId} {new : Fiber} (handed : Handed s)
    (from' : s.pc w = .task stage b f) (holds : stage ≠ .rescheduling)
    (moved : t.pc = Function.update s.pc w pc) (wrote : t.fiber = Function.update s.fiber f new)
    (grip : ∀ g, pc.grip = some g → g = f) (saved : new.saved = new.leaves ∨ pc.leaving = some f)
    (settled : Settled t.state pc) (switched : t.staleSwitch = false)
    (kept : t.overwritten = false) : Handed t := by
  have mine : (s.pc w).grip = some f := by
    rw [from']
    exact if_neg holds
  refine handed.own moved wrote ?_ grip ?_ saved settled switched kept
  · intro v grips
    exact handed.exclusive v w f grips mine
  · intro g leaves
    exact Option.some.inj ((Pc.grip_of_leaving leaves).symm.trans mine)

/-- The context of a fiber that a worker holds is saved, unless that worker has still to do it. -/
theorem saved_of_task {stage : Stage} {b : Branch} {f : FiberId} (handed : Handed s)
    (from' : s.pc w = .task stage b f) (holds : stage ≠ .rescheduling) (stays : stage ≠ .leaving) :
    (s.fiber f).saved = (s.fiber f).leaves := by
  rcases handed.saved f with saved | ⟨v, leaves⟩
  · exact saved
  · have mine : (s.pc w).grip = some f := by
      rw [from']
      exact if_neg holds
    obtain rfl := handed.exclusive v w f (Pc.grip_of_leaving leaves) mine
    rw [from'] at leaves
    exact nomatch (if_neg stays).symm.trans leaves

/-- Nobody holds a fiber that is in no window and is not being executed. -/
theorem free (handed : Handed s) {f : FiberId} (open' : ∀ v, (s.pc v).window ≠ some f)
    (state : s.state f ≠ .exec) : ∀ v, (s.pc v).grip ≠ some f := by
  intro v grip
  rcases (handed.settled v).window_or_exec grip with window | exec
  · exact open' v window
  · exact state exec

end Handed

/-! ### The condition -/

/-- The fiber that the next step of a worker takes hold of. -/
def Pool.takes (s : Pool n) (w : Fin n) : Option FiberId :=
  match s.pc w with
  | .top => (scan s.state (threadId w) s.fibers).bind fun r => r.1.names
  | .dispatch (.cb (some _)) => s.cbFiber w
  | _ => none

/-- **The condition on a step**: a fiber that a worker takes hold of is in nobody's window. -/
def HandOff (s : Pool n) : Event n → Prop
  | .work w => ∀ f ∈ s.takes w, ∀ v, (s.pc v).window ≠ some f
  | _ => True

instance (s : Pool n) (event : Event n) : Decidable (HandOff s event) :=
  match event with
  | .work w => inferInstanceAs (Decidable (∀ f ∈ s.takes w, ∀ v, (s.pc v).window ≠ some f))
  | .leave .. | .wake _ | .expire .. | .rearm .. | .drain _ | .trigger .. | .swapOut _
  | .addTimer .. | .cancelTimer _ | .addEvent .. | .delEvent .. | .schedule .. | .scheduleBatch _
  | .testTickle | .writeTickle | .testOther | .writeOther | .newFiber _ | .stop => isTrue trivial

/-- **A step that meets the condition keeps the invariant.** -/
theorem Handed.next {event : Event n} (handed : Handed s) (made : Made s) (ok : HandOff s event)
    (move : Move s event s') : Handed s' := by
  -- the worker that moves has `pc` before
  have same (pc' : Pc) {w : Fin n} {pc : Pc} (from' : s.pc w = pc)
      (grip : ∀ f, pc'.grip = some f → pc.grip = some f) :
      ∀ f, pc'.grip = some f → (s.pc w).grip = some f ∨ ∀ v, (s.pc v).grip ≠ some f :=
    fun f grips => Or.inl (by rw [from']; exact grip f grips)
  have stays (pc' : Pc) {w : Fin n} {pc : Pc} (from' : s.pc w = pc)
      (leaves : ∀ f, pc.leaving = some f → pc'.leaving = some f) :
      ∀ f, (s.pc w).leaving = some f → pc'.leaving = some f :=
    fun f leaving => leaves f (from' ▸ leaving)
  cases move
  case scan w ft left tickleMe from' scanned =>
    refine handed.goto rfl rfl rfl rfl ?_ ?_ ?_
    · rw [Pc.grip_tickleIf]
      intro f names
      refine Or.inr (handed.free (ok f ?_) ((scan_scanned scanned).names names).1)
      simp only [Pool.takes, from', scanned]
      exact names
    · exact stays _ from' nofun
    · exact settled_tickleIf.mpr trivial
  case testNone w after from' _ | testSome w after from' _ | write w after from' =>
    have settled := handed.settled w
    rw [from'] at settled
    exact handed.goto rfl rfl rfl rfl (same _ from' fun _ => id) (stays _ from' fun _ => id) settled
  case choose from' _ | count from' | uncount from' | readFinished from' _ =>
    exact handed.goto rfl rfl rfl rfl (same _ from' fun _ => id) (stays _ from' nofun) trivial
  case readOther w b f from' other =>
    exact handed.goto rfl rfl rfl rfl (same _ from' fun _ => id) (stays _ from' nofun) other.2.1
  case skip from' _ | exit from' _ _ | idle from' _ _ | readReady from' _ | readOver from' _ |
      noTimer from' _ | someTimer from' | noPending from' _ | somePending from' | stops from' _ |
      stays from' | block from' | wake from' | endTrigger from' | swapOut from' | endIdle from' =>
    refine handed.goto rfl rfl rfl rfl nofun (stays _ from' ?_) trivial
    intro f leaves
    cases leaves
  case expire from' _ _ _ | rearm from' | scheduleCbs from' | trigger from' _ =>
    refine handed.goto rfl rfl rfl rfl ?_ (stays _ from' nofun) (settled_tickleIf.mpr trivial)
    rw [Pc.grip_tickleIf]
    nofun
  case reschedule w b f from' =>
    refine handed.goto rfl rfl rfl rfl ?_ (stays _ from' nofun) (settled_tickleIf.mpr trivial)
    rw [Pc.grip_tickleIf]
    nofun
  case reuse w c f from' keeps reusable =>
    have free : ∀ v, (s.pc v).grip ≠ some f := by
      refine handed.free (ok f ?_) ?_
      · simp only [Pool.takes, from']
        exact keeps
      · rcases reusable with state | state | state <;> rw [state] <;> nofun
    refine handed.own rfl rfl (fun v grips => absurd grips (free v)) ?_ ?_ (Or.inl rfl) trivial
      handed.switched handed.kept
    · rintro g ⟨⟩
      rfl
    · intro g leaves
      rw [from'] at leaves
      cases leaves
  case renew w c from' none =>
    refine handed.own rfl rfl (fun v grips => absurd grips (made.free v)) ?_ ?_ (Or.inl rfl) trivial
      handed.switched handed.kept
    · rintro g ⟨⟩
      rfl
    · intro g leaves
      rw [from'] at leaves
      cases leaves
  case enter w b f from' out =>
    refine handed.task from' nofun rfl rfl ?_ (Or.inl ?_) ?_ handed.switched handed.kept
    · rintro g ⟨⟩
      rfl
    · exact handed.saved_of_task from' nofun nofun
    · exact congrArg Fiber.state (Function.update_self f _ s.fiber)
  case switch w b f from' alive =>
    have saved := handed.saved_of_task from' nofun nofun
    have exec := handed.settled w
    rw [from'] at exec
    refine handed.task from' nofun rfl rfl ?_ (Or.inl saved) ?_ ?_ handed.kept
    · rintro g ⟨⟩
      rfl
    · exact (congrArg Fiber.state (Function.update_self f _ s.fiber)).trans exec
    · show (s.staleSwitch || decide (_ ≠ _)) = false
      rw [handed.switched, saved, decide_eq_false (not_not.mpr rfl)]
      rfl
  case leave w b f outcome from' _ _ =>
    refine handed.task from' nofun rfl rfl ?_ (Or.inr rfl) trivial handed.switched handed.kept
    rintro g ⟨⟩
    rfl
  case save w b f from' =>
    refine handed.task from' nofun rfl rfl ?_ (Or.inl rfl) trivial handed.switched handed.kept
    rintro g ⟨⟩
    rfl
  case hold w b f from' =>
    have alive := handed.settled w
    rw [from'] at alive
    refine handed.task from' nofun rfl rfl nofun (Or.inl ?_) trivial handed.switched ?_
    · exact handed.saved_of_task from' nofun nofun
    · show (s.overwritten || decide _) = false
      rw [handed.kept, decide_eq_false alive]
      rfl
  case reset w b f from' reusable =>
    exact handed.task from' nofun rfl rfl nofun (Or.inl rfl) trivial handed.switched handed.kept
  case drain | addTimer | cancelTimer | addEvent | delEvent | schedule | scheduleBatch |
      testTickleNone | testTickleSome | writeTickle | testOtherNone | testOtherSome | writeOther |
      stop =>
    exact ⟨handed.exclusive, handed.settled, handed.saved, handed.switched, handed.kept⟩
  case newFiber cb =>
    refine ⟨handed.exclusive, fun w => ?_, fun f => ?_, handed.switched, handed.kept⟩
    · apply (handed.settled w).congr
      intro f grip
      apply congrArg Fiber.state (Function.update_of_ne _ _ s.fiber)
      rintro rfl
      exact made.free w grip
    · show (Function.update s.fiber s.nextFiber _ f).saved =
        (Function.update s.fiber s.nextFiber _ f).leaves ∨ ∃ w, (s.pc w).leaving = some f
      rcases eq_or_ne f s.nextFiber with rfl | other
      · rw [Function.update_self]
        exact Or.inl rfl
      · rw [Function.update_of_ne other]
        exact handed.saved f

/-- **What a step writes**: the fiber that its worker holds, the one it takes hold of, or a new one. -/
theorem Move.fiber_eq {event : Event n} (move : Move s event s') (f : FiberId) :
    s'.fiber f = s.fiber f ∨ f = s.nextFiber ∨ ∃ w, event.worker = some w ∧
      ((s.pc w).grip = some f ∨ event = .work w ∧ s.takes w = some f ∧ s.state f ≠ .exec) := by
  have wrote {g : FiberId} {new : Fiber} {p : Prop} (here : g = f → p) :
      Function.update s.fiber g new f = s.fiber f ∨ p := by
    rcases eq_or_ne f g with rfl | other
    · exact Or.inr (here rfl)
    · exact Or.inl (Function.update_of_ne other _ _)
  cases move
  case reuse w c g from' keeps reusable =>
    apply wrote
    rintro rfl
    refine Or.inr ⟨w, rfl, Or.inr ⟨rfl, ?_, ?_⟩⟩
    · simp only [Pool.takes, from']
      exact keeps
    · rcases reusable with state | state | state <;> rw [state] <;> nofun
  case renew | newFiber =>
    apply wrote
    rintro rfl
    exact Or.inl rfl
  case enter w b g from' _ | switch w b g from' _ | leave w b g _ from' _ _ | save w b g from' |
      hold w b g from' | reset w b g from' _ =>
    apply wrote
    rintro rfl
    exact Or.inr ⟨w, rfl, Or.inl (by rw [from']; rfl)⟩
  all_goals exact Or.inl rfl

/-- **Nobody writes a fiber that another worker holds.** -/
theorem Handed.fiber_eq {event : Event n} {v : Fin n} {f : FiberId} (handed : Handed s)
    (made : Made s) (ok : HandOff s event) (move : Move s event s') (grip : (s.pc v).grip = some f)
    (other : event.worker ≠ some v) : s'.fiber f = s.fiber f := by
  rcases move.fiber_eq f with same | rfl | ⟨w, worker, held | ⟨rfl, takes, notExec⟩⟩
  · exact same
  · exact absurd grip (made.free v)
  · obtain rfl := handed.exclusive v w f grip held
    exact absurd worker other
  · exact absurd grip (handed.free (ok f takes) notExec v)

/-! ### The property -/

/-- **A fiber is executed by at most one worker at a time.** -/
structure ExecutedOnce (s : Pool n) : Prop where
  /-- no two workers are executing the same fiber -/
  alone : ∀ w v f, (s.pc w).runs = some f → (s.pc v).runs = some f → w = v
  /-- a fiber that is being executed is `EXEC`, until it writes its state itself -/
  exec : ∀ w b f, s.pc w = .task .executing b f → s.state f = .exec
  /-- a context that is switched into is the one saved last -/
  switched : s.staleSwitch = false
  /-- no `TERM` is overwritten by `HOLD` -/
  kept : s.overwritten = false

theorem Handed.executedOnce (handed : Handed s) : ExecutedOnce s where
  alone w v f first second :=
    handed.exclusive w v f (Pc.grip_of_runs first) (Pc.grip_of_runs second)
  exec w b f here := by
    have settled := handed.settled w
    rw [here] at settled
    exact settled
  switched := handed.switched
  kept := handed.kept

theorem made_initial : Made (Pool.initial n) := by
  rintro f (⟨w, inHand⟩ | ⟨w, keeps⟩ | ⟨it, member, -⟩ | ⟨fc, member, -⟩)
  · cases inHand
  · cases keeps
  · cases member
  · cases member

theorem handed_initial : Handed (Pool.initial n) where
  exclusive w v f grip := by cases grip
  settled w := trivial
  saved f := Or.inl rfl
  switched := rfl
  kept := rfl

theorem handed_of_reachable (reached : (pool n).ReachableWhen HandOff s) :
    Made s ∧ Handed s := by
  apply reached.invariant
  · rintro s rfl
    exact ⟨made_initial, handed_initial⟩
  · rintro s event s' ⟨made, handed⟩ ok stepped
    have move := move_of_next stepped
    exact ⟨made.step move, handed.next made ok move⟩

/-- **Under the condition, in every run, a fiber is executed by at most one worker at a time.** -/
theorem executed_once (reached : (pool n).ReachableWhen HandOff s) : ExecutedOnce s :=
  (handed_of_reachable reached).2.executedOnce

/-! ### Inside the window -/

/-- Worker 0 runs a fiber that waits for an event and writes `HOLD`; worker 1 reports the event and
schedules the fiber. -/
def woken : List (Event 2) :=
  List.flatten [
    [.newFiber (some 7), .schedule (.fiber (some 0)) (-1)],
    List.replicate 5 (.work 0),
    [.addEvent 0 none, .leave 0 .hold],
    List.replicate 5 (.work 1),
    [.wake 1, .expire 1 [] 0 0 false, .work 1, .trigger 1 0, .work 1, .work 1, .work 1, .swapOut 1,
      .work 1]]

/-- Before the context is saved, worker 1 pops the fiber and switches to it. -/
def poppedInWindow : List (Event 2) := woken ++ List.replicate 5 (.work 1)

/-- **A wake-up inside the window**: worker 1 runs on a context that worker 0 has not saved; worker 0
then writes `HOLD` over the `EXEC` of the fiber that worker 1 executes; or over its `TERM`. -/
theorem stale_context :
    (∃ s, (pool 2).Reachable s ∧
      (s.pc 0).runs = some 0 ∧ (s.pc 1).runs = some 0 ∧ s.staleSwitch = true) ∧
    (∃ s, (pool 2).Reachable s ∧
      s.pc 1 = .task .executing .fiber 0 ∧ s.state 0 = .hold) ∧
    (∃ s, (pool 2).Reachable s ∧ s.overwritten = true) ∧
    ¬ ∀ n, ∀ s : Pool n, (pool n).Reachable s → ExecutedOnce s := by
  have stale := Machine.reachable_of_replay (m := pool 2) rfl poppedInWindow
    (fun s => decide ((s.pc 0).runs = some 0 ∧ (s.pc 1).runs = some 0 ∧ s.staleSwitch = true))
    (by decide +kernel)
  have held := Machine.reachable_of_replay (m := pool 2) rfl
    (poppedInWindow ++ List.replicate 4 (.work 0))
    (fun s => decide (s.pc 1 = .task .executing .fiber 0 ∧ s.state 0 = .hold)) (by decide +kernel)
  have overwritten := Machine.reachable_of_replay (m := pool 2) rfl
    (poppedInWindow ++ List.replicate 3 (.work 0) ++ [.leave 1 .term, .work 0])
    (fun s => s.overwritten) (by decide +kernel)
  simp only [decide_eq_true_eq] at stale held
  refine ⟨stale, held, overwritten, fun all => ?_⟩
  obtain ⟨s, reached, first, second, -⟩ := stale
  exact nomatch (all 2 s reached).alone 0 1 0 first second

/-- Worker 0 is done with the fiber before worker 1 pops it. -/
theorem executed_once_afterWindow :
    ∃ s : Pool 2, (pool 2).ReachableWhen HandOff s ∧
      ((s.pc 1).runs = some 0 ∧ (s.fiber 0).leaves = 1) ∧ ExecutedOnce s := by
  have run : ∃ s, (pool 2).ReachableWhen HandOff s ∧
      decide ((s.pc 1).runs = some 0 ∧ (s.fiber 0).leaves = 1) = true :=
    Machine.reachableWhen_of_replay rfl
      (woken ++ List.replicate 4 (.work 0) ++ List.replicate 5 (.work 1)) _ (by decide +kernel)
  obtain ⟨s, reached, check⟩ := run
  exact ⟨s, reached, of_decide_eq_true check, executed_once reached⟩

end Sylar.Scheduler
