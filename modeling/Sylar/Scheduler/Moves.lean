/-
**What a step of the pool can do.**

`Move s e s'` lists, one constructor for each branch of the code, when the event `e` can happen in
`s` and what it leaves. `move_of_next` is the inversion of `Pool.next`: the invariants are proved by
cases on `Move` and do not look at the functions again.
-/

import Sylar.Scheduler.Pool

namespace Sylar.Scheduler

open Sylar.Library

variable {n : Nat}

/-- Nothing to run: the null fiber or the empty function. -/
def Nothing (ft : FiberOrCb) : Prop := ft = .fiber none ∨ ft = .cb none

instance (ft : FiberOrCb) : Decidable (Nothing ft) := inferInstanceAs (Decidable (_ ∨ _))

/-- **The steps.** -/
inductive Move (s : Pool n) : Event n → Pool n → Prop
  -- `run()` up to the dispatch
  | scan {w ft left tickleMe} (from' : s.pc w = .top)
      (scanned : scan s.state (threadId w) s.fibers = some (ft, left, tickleMe)) :
      Move s (.work w)
        { s.goto w (.tickleIf tickleMe (.dispatch ft)) with fibers := left }
  | testNone {w after} (from' : s.pc w = .tickling false after) (none : s.idleThreadCount = 0) :
      Move s (.work w) (s.goto w after)
  | testSome {w after} (from' : s.pc w = .tickling false after) (some : 0 < s.idleThreadCount) :
      Move s (.work w) (s.goto w (.tickling true after))
  | write {w after} (from' : s.pc w = .tickling true after) :
      Move s (.work w) { s.goto w after with tickleBytes := s.tickleBytes + 1 }
  -- the dispatch
  | skip {w f} (from' : s.pc w = .dispatch (.fiber (some f))) (term : s.state f = .term) :
      Move s (.work w) (s.goto w .top)
  | choose {w f} (from' : s.pc w = .dispatch (.fiber (some f))) (alive : s.state f ≠ .term) :
      Move s (.work w) (s.goto w (.task .chosen .fiber f))
  | reuse {w c f} (from' : s.pc w = .dispatch (.cb (some c))) (kept : s.cbFiber w = some f)
      (reusable : s.state f = .init ∨ s.state f = .term ∨ s.state f = .excpt) :
      Move s (.work w)
        { (s.setFiber f { cb := some c, pop := some s.pops }).goto w (.task .chosen .callback f) with
          pops := s.pops + 1, readied := Function.update s.readied w false }
  | renew {w c} (from' : s.pc w = .dispatch (.cb (some c))) (none : s.cbFiber w = none) :
      Move s (.work w)
        { (s.newFiber (some c) (some s.pops)).goto w (.task .chosen .callback s.nextFiber) with
          cbFiber := Function.update s.cbFiber w (some s.nextFiber)
          pops := s.pops + 1, readied := Function.update s.readied w false }
  | exit {w ft} (from' : s.pc w = .dispatch ft) (nothing : Nothing ft) (dead : s.idleTerm w = true) :
      Move s (.work w) (s.goto w .exited)
  | idle {w ft} (from' : s.pc w = .dispatch ft) (nothing : Nothing ft)
      (alive : s.idleTerm w = false) :
      Move s (.work w)
        { s.goto w (.idle .timeout) with idleThreadCount := s.idleThreadCount + 1 }
  -- a fiber
  | count {w b f} (from' : s.pc w = .task .chosen b f) :
      Move s (.work w)
        { s.goto w (.task .counted b f) with activeThreadCount := s.activeThreadCount + 1 }
  | enter {w b f} (from' : s.pc w = .task .counted b f) (out : s.state f ≠ .exec) :
      Move s (.work w)
        ((s.setFiber f { s.fiber f with state := .exec }).goto w (.task .entered b f))
  | switch {w b f} (from' : s.pc w = .task .entered b f) (alive : (s.fiber f).atEnd = false) :
      Move s (.work w)
        { (s.setFiber f { s.fiber f with fresh := false }).goto w (.task .executing b f) with
          started := if (s.fiber f).fresh then (s.fiber f).pop.toList ++ s.started else s.started
          staleSwitch := s.staleSwitch || decide ((s.fiber f).saved ≠ (s.fiber f).leaves) }
  | leave {w b f outcome} (from' : s.pc w = .task .executing b f)
      (outcomes : outcome = .hold ∨ outcome = .ready ∨ outcome = .term ∨ outcome = .excpt)
      (raises : (s.fiber f).cb = none → outcome = .excpt) :
      Move s (.leave w outcome)
        ((s.setFiber f { s.fiber f with
          state := outcome
          cb := if outcome = .term then none else (s.fiber f).cb
          atEnd := outcome = .term || outcome = .excpt
          leaves := (s.fiber f).leaves + 1 }).goto w (.task .leaving b f))
  | save {w b f} (from' : s.pc w = .task .leaving b f) :
      Move s (.work w)
        ((s.setFiber f { s.fiber f with saved := (s.fiber f).leaves }).goto w (.task .back b f))
  | uncount {w b f} (from' : s.pc w = .task .back b f) :
      Move s (.work w)
        { s.goto w (.task .uncounted b f) with activeThreadCount := s.activeThreadCount - 1 }
  | readReady {w b f} (from' : s.pc w = .task .uncounted b f) (ready : s.state f = .ready) :
      Move s (.work w) (s.goto w (.task .rescheduling b f))
  | readOver {w f} (from' : s.pc w = .task .uncounted .fiber f)
      (ended : s.state f = .term ∨ s.state f = .excpt) :
      Move s (.work w) (s.goto w .top)
  | readFinished {w f} (from' : s.pc w = .task .uncounted .callback f)
      (ended : s.state f = .term ∨ s.state f = .excpt) :
      Move s (.work w) (s.goto w (.task .finished .callback f))
  | readOther {w b f} (from' : s.pc w = .task .uncounted b f)
      (other : s.state f ≠ .ready ∧ s.state f ≠ .term ∧ s.state f ≠ .excpt) :
      Move s (.work w) (s.goto w (.task .holding b f))
  | reschedule {w b f} (from' : s.pc w = .task .rescheduling b f) :
      Move s (.work w)
        { s.goto w (.tickleIf s.fibers.isEmpty .top) with
          fibers := s.fibers ++ [⟨.fiber (some f), -1⟩]
          readied := if b = .callback then Function.update s.readied w true else s.readied }
  | hold {w b f} (from' : s.pc w = .task .holding b f) :
      Move s (.work w)
        { (s.setFiber f { s.fiber f with state := .hold }).goto w .top with
          cbFiber := if b = .callback then Function.update s.cbFiber w none else s.cbFiber
          overwritten := s.overwritten || decide (s.state f = .term) }
  | reset {w b f} (from' : s.pc w = .task .finished b f)
      (reusable : s.state f = .init ∨ s.state f = .term ∨ s.state f = .excpt) :
      Move s (.work w) ((s.setFiber f {}).goto w .top)
  -- the idle fiber
  | noTimer {w} (from' : s.pc w = .idle .timeout) (none : s.timers = 0) :
      Move s (.work w) (s.goto w (.idle .pending))
  | someTimer {w} (from' : s.pc w = .idle .timeout) :
      Move s (.work w) (s.goto w (.idle .wait))
  | noPending {w} (from' : s.pc w = .idle .pending) (none : s.pendingEventCount = 0) :
      Move s (.work w) (s.goto w (.idle .last))
  | somePending {w} (from' : s.pc w = .idle .pending) :
      Move s (.work w) (s.goto w (.idle .wait))
  | stops {w} (from' : s.pc w = .idle .last)
      (stopping : schedulerStopping s.autoStop s.stopping s.fibers s.activeThreadCount = true) :
      Move s (.work w)
        { s.goto w (.idle .left) with
          idleTerm := Function.update s.idleTerm w true
          unsound := s.unsound || decide (¬ s.quiescent) }
  | stays {w} (from' : s.pc w = .idle .last) : Move s (.work w) (s.goto w (.idle .wait))
  | block {w} (from' : s.pc w = .idle .wait) : Move s (.work w) (s.goto w (.idle .blocked))
  | wake {w} (from' : s.pc w = .idle .blocked) : Move s (.wake w) (s.goto w (.idle .woken))
  | expire {w cbs kept later front} (from' : s.pc w = .idle .woken)
      (enough : cbs.length ≤ s.timers) (again : kept + later ≤ cbs.length ∧ kept ≤ 1)
      (first : kept = 0 → later = 0) :
      Move s (.expire w cbs kept later front)
        { s.goto w (.tickleIf front (.idle (.listed cbs later))) with
          timers := s.timers - cbs.length + kept }
  | rearm {w cbs later front} (from' : s.pc w = .idle (.listed cbs (later + 1))) :
      Move s (.rearm w front)
        { s.goto w (.tickleIf front (.idle (.listed cbs later))) with
          timers := s.timers + 1 }
  | scheduleCbs {w cbs} (from' : s.pc w = .idle (.listed cbs 0)) :
      Move s (.work w)
        { s.goto w (.tickleIf (s.fibers.isEmpty && !cbs.isEmpty) (.idle .reports)) with
          fibers := s.fibers ++ cbs.map fun c => ⟨.cb c, -1⟩ }
  | drain {w} (from' : s.pc w = .idle .reports) : Move s (.drain w) { s with tickleBytes := 0 }
  | trigger {w i fc} (from' : s.pc w = .idle .reports) (found : s.contexts[i]? = some fc) :
      Move s (.trigger w i)
        { s.goto w (.tickleIf s.fibers.isEmpty (.idle .triggered)) with
          fibers := s.fibers ++ [⟨fc, -1⟩]
          contexts := s.contexts.eraseIdx i }
  | endTrigger {w} (from' : s.pc w = .idle .triggered) :
      Move s (.work w)
        { s.goto w (.idle .reports) with pendingEventCount := s.pendingEventCount - 1 }
  | swapOut {w} (from' : s.pc w = .idle .reports) : Move s (.swapOut w) (s.goto w (.idle .left))
  | endIdle {w} (from' : s.pc w = .idle .left) :
      Move s (.work w) { s.goto w .top with idleThreadCount := s.idleThreadCount - 1 }
  -- the running tasks
  | addTimer {w front b f} (from' : s.pc w = .task .executing b f) :
      Move s (.addTimer w front)
        { s with timers := s.timers + 1, otherToTest := s.otherToTest + front.toNat }
  | cancelTimer {w b f} (from' : s.pc w = .task .executing b f) :
      Move s (.cancelTimer w) { s with timers := s.timers - 1 }
  | addEvent {w cb b f} (from' : s.pc w = .task .executing b f) :
      Move s (.addEvent w cb)
        { s with
          pendingEventCount := s.pendingEventCount + 1
          contexts := s.contexts ++ [match cb with | some c => .cb (some c) | none => .fiber (some f)] }
  | delEvent {w i b f} (from' : s.pc w = .task .executing b f) :
      Move s (.delEvent w i)
        { s with
          pendingEventCount := s.pendingEventCount - 1
          contexts := s.contexts.eraseIdx i }
  -- the other threads
  | schedule {fc thread} (known : ∀ f ∈ fc.names, f < s.nextFiber) :
      Move s (.schedule fc thread)
        { s with
          fibers := s.fibers ++ [⟨fc, thread⟩]
          toTest := s.toTest + s.fibers.isEmpty.toNat }
  | scheduleBatch {fcs} (known : ∀ fc ∈ fcs, ∀ f ∈ fc.names, f < s.nextFiber) :
      Move s (.scheduleBatch fcs)
        { s with
          fibers := s.fibers ++ fcs.map fun fc => ⟨fc, -1⟩
          toTest := s.toTest + (s.fibers.isEmpty && !fcs.isEmpty).toNat }
  | testTickleNone {rest} (some' : s.toTest = rest + 1) (none : s.idleThreadCount = 0) :
      Move s .testTickle { s with toTest := rest }
  | testTickleSome {rest} (some' : s.toTest = rest + 1) (idle : 0 < s.idleThreadCount) :
      Move s .testTickle { s with toTest := rest, toWrite := s.toWrite + 1 }
  | writeTickle {rest} (some' : s.toWrite = rest + 1) :
      Move s .writeTickle { s with toWrite := rest, tickleBytes := s.tickleBytes + 1 }
  | testOtherNone {rest} (some' : s.otherToTest = rest + 1) (none : s.idleThreadCount = 0) :
      Move s .testOther { s with otherToTest := rest }
  | testOtherSome {rest} (some' : s.otherToTest = rest + 1) (idle : 0 < s.idleThreadCount) :
      Move s .testOther { s with otherToTest := rest, otherToWrite := s.otherToWrite + 1 }
  | writeOther {rest} (some' : s.otherToWrite = rest + 1) :
      Move s .writeOther { s with otherToWrite := rest, tickleBytes := s.tickleBytes + 1 }
  | newFiber {cb} : Move s (.newFiber cb) (s.newFiber cb none)
  | stop : Move s .stop { s with stopping := true, otherToTest := s.otherToTest + n }

variable {s s' : Pool n}

/-- What a reset that passes its assertion does. -/
theorem resetFiber_cases {f : FiberId} {cb : Option Callback} {pop : Option Nat}
    (reset : s.resetFiber f cb pop = some s') :
    (s.state f = .init ∨ s.state f = .term ∨ s.state f = .excpt) ∧
      s' = s.setFiber f { cb, pop } := by
  unfold Pool.resetFiber at reset
  cases state : s.state f <;> rw [state] at reset <;> cases reset <;> simp

theorem move_of_scanStep {w : Fin n} (from' : s.pc w = .top) (stepped : s.scanStep w = some s') :
    Move s (.work w) s' := by
  obtain ⟨⟨ft, left, tickleMe⟩, scanned, rfl⟩ := Option.map_eq_some_iff.mp stepped
  exact .scan from' scanned

theorem move_of_tickleStep {w : Fin n} {write : Bool} {after : Pc}
    (from' : s.pc w = .tickling write after) : Move s (.work w) (s.tickleStep w write after) := by
  unfold Pool.tickleStep
  cases write with
  | true => exact .write from'
  | false =>
    rw [if_neg Bool.false_ne_true]
    split
    next some => exact .testSome from' some
    next none => exact .testNone from' (Nat.eq_zero_of_not_pos none)

theorem move_of_dispatchStep {w : Fin n} {ft : FiberOrCb} (from' : s.pc w = .dispatch ft)
    (stepped : s.dispatchStep w ft = some s') : Move s (.work w) s' := by
  have idles (nothing : Nothing ft) (stepped : (if s.idleTerm w then some (s.goto w .exited)
      else some { s.goto w (.idle .timeout) with idleThreadCount := s.idleThreadCount + 1 }) =
        some s') : Move s (.work w) s' := by
    split at stepped
    next dead =>
      cases stepped
      exact .exit from' nothing dead
    next alive =>
      cases stepped
      exact .idle from' nothing (Bool.eq_false_iff.mpr alive)
  match ft, from', stepped with
  | .fiber none, _, stepped => exact idles (Or.inl rfl) stepped
  | .cb none, _, stepped => exact idles (Or.inr rfl) stepped
  | .fiber (some f), from', stepped =>
    cases stepped
    split
    next term => exact .skip from' term
    next alive => exact .choose from' alive
  | .cb (some c), from', stepped =>
    simp only [Pool.dispatchStep] at stepped
    split at stepped
    next f kept =>
      obtain ⟨s₁, reset, rfl⟩ := Option.map_eq_some_iff.mp stepped
      obtain ⟨reusable, rfl⟩ := resetFiber_cases reset
      exact .reuse from' kept reusable
    next none =>
      cases stepped
      exact .renew from' none

theorem move_of_taskStep {w : Fin n} {stage : Stage} {b : Branch} {f : FiberId}
    (from' : s.pc w = .task stage b f) (stepped : s.taskStep w b f stage = some s') :
    Move s (.work w) s' := by
  cases stage with
  | chosen =>
    cases stepped
    exact .count from'
  | counted =>
    obtain ⟨out, same⟩ := Option.ite_none_left_eq_some.mp stepped
    cases same
    exact .enter from' out
  | entered =>
    obtain ⟨alive, same⟩ := Option.ite_none_left_eq_some.mp stepped
    cases same
    exact .switch from' (Bool.eq_false_iff.mpr alive)
  | executing => cases stepped
  | leaving =>
    cases stepped
    exact .save from'
  | back =>
    cases stepped
    exact .uncount from'
  | uncounted =>
    cases stepped
    cases state : s.state f with
    | ready => exact .readReady from' state
    | term =>
      cases b with
      | fiber => exact .readOver from' (Or.inl state)
      | callback => exact .readFinished from' (Or.inl state)
    | excpt =>
      cases b with
      | fiber => exact .readOver from' (Or.inr state)
      | callback => exact .readFinished from' (Or.inr state)
    | _ => exact .readOther from' (by simp [state])
  | rescheduling =>
    cases stepped
    exact .reschedule from'
  | holding =>
    cases stepped
    exact .hold from'
  | finished =>
    obtain ⟨s₁, reset, rfl⟩ := Option.map_eq_some_iff.mp stepped
    obtain ⟨reusable, rfl⟩ := resetFiber_cases reset
    exact .reset from' reusable

theorem move_of_idleStep {w : Fin n} {stage : IdleStage} (from' : s.pc w = .idle stage)
    (stepped : s.idleStep w stage = some s') : Move s (.work w) s' := by
  cases stage with
  | timeout =>
    cases stepped
    split
    next none => exact .noTimer from' none
    next => exact .someTimer from'
  | pending =>
    cases stepped
    split
    next none => exact .noPending from' none
    next => exact .somePending from'
  | last =>
    simp only [Pool.idleStep] at stepped
    split at stepped
    next stopping =>
      cases stepped
      exact .stops from' stopping
    next =>
      cases stepped
      exact .stays from'
  | wait =>
    cases stepped
    exact .block from'
  | listed cbs later =>
    cases later with
    | zero =>
      simp only [Pool.idleStep, scheduleAll_eq, List.map_map, Function.comp_def,
        List.isEmpty_map] at stepped
      cases stepped
      exact .scheduleCbs from'
    | succ later => cases stepped
  | triggered =>
    cases stepped
    exact .endTrigger from'
  | left =>
    cases stepped
    exact .endIdle from'
  | blocked => cases stepped
  | woken => cases stepped
  | reports => cases stepped

theorem move_of_work {w : Fin n} (stepped : s.work w = some s') : Move s (.work w) s' := by
  unfold Pool.work at stepped
  split at stepped
  next from' => exact move_of_scanStep from' stepped
  next write after from' =>
    cases stepped
    exact move_of_tickleStep from'
  next ft from' => exact move_of_dispatchStep from' stepped
  next stage b f from' => exact move_of_taskStep from' stepped
  next stage from' => exact move_of_idleStep from' stepped
  next => cases stepped

/-! ### The other steps -/

theorem move_of_leave {w : Fin n} {outcome : State} (stepped : s.leave w outcome = some s') :
    Move s (.leave w outcome) s' := by
  unfold Pool.leave at stepped
  split at stepped
  case h_5 => cases stepped
  all_goals
    next b f from' =>
      obtain ⟨raises, same⟩ := Option.ite_none_left_eq_some.mp stepped
      cases same
      refine .leave from' (by simp) fun empty => ?_
      by_contra other
      exact raises ⟨empty, other⟩

theorem names_lt_of_known {fc : FiberOrCb} (known : s.known fc = true) :
    ∀ f ∈ fc.names, f < s.nextFiber := by
  intro f named
  match fc, named with
  | .fiber (some g), named =>
    cases named
    exact of_decide_eq_true known

theorem move_of_next {event : Event n} (stepped : s.next event = some s') : Move s event s' := by
  cases event with
  | work w => exact move_of_work stepped
  | leave w outcome => exact move_of_leave stepped
  | wake w =>
    simp only [Pool.next] at stepped
    split at stepped
    next from' =>
      cases stepped
      exact .wake from'
    next => cases stepped
  | expire w cbs kept later front =>
    simp only [Pool.next] at stepped
    split at stepped
    next from' =>
      obtain ⟨⟨enough, again, one, first⟩, same⟩ := Option.ite_none_right_eq_some.mp stepped
      cases same
      exact .expire from' enough ⟨again, one⟩ first
    next => cases stepped
  | rearm w front =>
    simp only [Pool.next] at stepped
    split at stepped
    next from' =>
      cases stepped
      exact .rearm from'
    next => cases stepped
  | drain w =>
    simp only [Pool.next] at stepped
    split at stepped
    next from' =>
      cases stepped
      exact .drain from'
    next => cases stepped
  | trigger w i =>
    simp only [Pool.next] at stepped
    split at stepped
    next from' found =>
      cases stepped
      exact .trigger from' found
    next => cases stepped
  | swapOut w =>
    simp only [Pool.next] at stepped
    split at stepped
    next from' =>
      cases stepped
      exact .swapOut from'
    next => cases stepped
  | addTimer w front =>
    simp only [Pool.next] at stepped
    split at stepped
    next from' =>
      cases stepped
      exact .addTimer from'
    next => cases stepped
  | cancelTimer w =>
    simp only [Pool.next] at stepped
    split at stepped
    next from' =>
      cases stepped
      exact .cancelTimer from'
    next => cases stepped
  | addEvent w cb =>
    simp only [Pool.next] at stepped
    split at stepped
    next from' =>
      cases stepped
      exact .addEvent from'
    next => cases stepped
  | delEvent w i =>
    simp only [Pool.next] at stepped
    split at stepped
    next from' _ =>
      cases stepped
      exact .delEvent from'
    next => cases stepped
  | schedule fc thread =>
    obtain ⟨known, same⟩ := Option.ite_none_right_eq_some.mp stepped
    cases same
    exact .schedule (names_lt_of_known known)
  | scheduleBatch fcs =>
    obtain ⟨known, same⟩ := Option.ite_none_right_eq_some.mp stepped
    simp only [scheduleAll_eq] at same
    cases same
    exact .scheduleBatch fun fc member => names_lt_of_known (List.all_eq_true.mp known fc member)
  | testTickle =>
    simp only [Pool.next] at stepped
    split at stepped
    next => cases stepped
    next rest some' =>
      cases stepped
      split
      next idle => exact .testTickleSome some' idle
      next none => exact .testTickleNone some' (Nat.eq_zero_of_not_pos none)
  | writeTickle =>
    simp only [Pool.next] at stepped
    split at stepped
    next => cases stepped
    next rest some' =>
      cases stepped
      exact .writeTickle some'
  | testOther =>
    simp only [Pool.next] at stepped
    split at stepped
    next => cases stepped
    next rest some' =>
      cases stepped
      split
      next idle => exact .testOtherSome some' idle
      next none => exact .testOtherNone some' (Nat.eq_zero_of_not_pos none)
  | writeOther =>
    simp only [Pool.next] at stepped
    split at stepped
    next => cases stepped
    next rest some' =>
      cases stepped
      exact .writeOther some'
  | newFiber cb =>
    cases stepped
    exact .newFiber
  | stop =>
    cases stepped
    exact .stop

/-! ### What a step leaves alone -/

/-- The worker that a step is of. -/
def Event.worker : Event n → Option (Fin n)
  | .work w | .leave w _ | .wake w | .expire w .. | .rearm w _ | .drain w | .trigger w _ | .swapOut w
  | .addTimer w _ | .cancelTimer w | .addEvent w _ | .delEvent w _ => some w
  | .schedule .. | .scheduleBatch _ | .testTickle | .writeTickle | .testOther | .writeOther
  | .newFiber _ | .stop => none

/-- The fiber is handed to the scheduler. -/
def Event.gives (f : FiberId) : Event n → Bool
  | .schedule fc _ => fc.names = some f
  | .scheduleBatch fcs => fcs.any fun fc => fc.names = some f
  | _ => false

/-- The step has nothing to do with the queue, whatever the state is. -/
def Event.passes : Event n → Bool
  | .work _ | .trigger .. | .schedule .. | .scheduleBatch _ => false
  | _ => true

/-- **What a step does to the queue.** -/
inductive Queues (s : Pool n) : Event n → List FiberAndThread → Prop
  | scan {w ft left tickleMe} (from' : s.pc w = .top)
      (scanned : Scheduler.scan s.state (threadId w) s.fibers = some (ft, left, tickleMe)) :
      Queues s (.work w) left
  | reschedule {w b f} (from' : s.pc w = .task .rescheduling b f) :
      Queues s (.work w) (s.fibers ++ [⟨.fiber (some f), -1⟩])
  | scheduleCbs {w cbs} (from' : s.pc w = .idle (.listed cbs 0)) :
      Queues s (.work w) (s.fibers ++ cbs.map fun c => ⟨.cb c, -1⟩)
  | trigger {w i fc} (found : s.contexts[i]? = some fc) :
      Queues s (.trigger w i) (s.fibers ++ [⟨fc, -1⟩])
  | schedule {fc thread} : Queues s (.schedule fc thread) (s.fibers ++ [⟨fc, thread⟩])
  | scheduleBatch {fcs} : Queues s (.scheduleBatch fcs) (s.fibers ++ fcs.map fun fc => ⟨fc, -1⟩)
  /-- a worker elsewhere in its loop -/
  | work {w pc} (from' : s.pc w = pc) (top : pc ≠ .top) (back : ∀ b f, pc ≠ .task .rescheduling b f)
      (listed : ∀ cbs, pc ≠ .idle (.listed cbs 0)) : Queues s (.work w) s.fibers
  | other {event} (passes : event.passes = true) : Queues s event s.fibers

namespace Move

variable {event : Event n} {v : Fin n}

/-- The other workers stay where they are. -/
theorem pc_eq (move : Move s event s') (other : event.worker ≠ some v) : s'.pc v = s.pc v := by
  cases move
  case drain | addTimer | cancelTimer | addEvent | delEvent | schedule | scheduleBatch |
      testTickleNone | testTickleSome | writeTickle | testOtherNone | testOtherSome | writeOther |
      newFiber | stop => rfl
  all_goals exact Function.update_of_ne (fun same => other (congrArg some same.symm)) _ _

/-- The other workers keep their `cb_fiber`. -/
theorem cbFiber_eq (move : Move s event s') (other : event.worker ≠ some v) :
    s'.cbFiber v = s.cbFiber v := by
  cases move
  case renew => exact Function.update_of_ne (fun same => other (congrArg some same.symm)) _ _
  case hold =>
    dsimp only
    split
    · exact Function.update_of_ne (fun same => other (congrArg some same.symm)) _ _
    · rfl
  all_goals rfl

/-! ### Where a queue entry and an event context come from -/

theorem queues (move : Move s event s') : Queues s event s'.fibers := by
  cases move
  case scan w ft left tickleMe from' scanned => exact .scan from' scanned
  case reschedule from' => exact .reschedule from'
  case scheduleCbs from' => exact .scheduleCbs from'
  case trigger from' found => exact .trigger found
  case schedule => exact .schedule
  case scheduleBatch => exact .scheduleBatch
  case leave | wake | expire | rearm | drain | swapOut | addTimer | cancelTimer | addEvent |
      delEvent | testTickleNone | testTickleSome | writeTickle | testOtherNone | testOtherSome |
      writeOther | newFiber | stop => exact .other rfl
  case write from' | renew from' _ | count from' | save from' | uncount from' | hold from' |
      someTimer from' | somePending from' | stays from' | block from' | endTrigger from' |
      endIdle from' | testNone from' _ | testSome from' _ | skip from' _ | choose from' _ |
      reuse from' _ _ | exit from' _ _ | idle from' _ _ | enter from' _ | switch from' _ |
      readReady from' _ | readOver from' _ | readFinished from' _ | readOther from' _ |
      reset from' _ | noTimer from' _ | noPending from' _ | stops from' _ =>
    exact .work from' nofun nofun nofun

variable {f : FiberId}

/-- **A fiber in the queue** was queued or waiting before, is queued again by its worker, or is
scheduled from outside. -/
theorem queue_cases (move : Move s event s') {it : FiberAndThread} (member : it ∈ s'.fibers)
    (names : it.fiberOrCb.names = some f) :
    (∃ it ∈ s.fibers, it.fiberOrCb.names = some f) ∨ (∃ fc ∈ s.contexts, fc.names = some f) ∨
      (∃ w b, s.pc w = .task .rescheduling b f) ∨ event.gives f = true := by
  -- the entries that were there, and the new ones
  have queued {more : List FiberAndThread} {p : Prop} (member : it ∈ s.fibers ++ more)
      (new : it ∈ more → p) : (∃ it ∈ s.fibers, it.fiberOrCb.names = some f) ∨ p := by
    rcases List.mem_append.mp member with old | member
    · exact Or.inl ⟨it, old, names⟩
    · exact Or.inr (new member)
  have queues := move.queues
  generalize s'.fibers = fibers at member queues
  cases queues with
  | scan from' scanned => exact Or.inl ⟨it, (scan_scanned scanned).rest.subset member, names⟩
  | @reschedule w b g from' =>
    refine queued member fun new => Or.inr (Or.inl ⟨w, b, ?_⟩)
    obtain rfl := List.mem_singleton.mp new
    rw [from', Option.some.inj names]
  | scheduleCbs from' =>
    refine queued member fun new => ?_
    obtain ⟨c, -, rfl⟩ := List.mem_map.mp new
    cases names
  | @trigger w i fc found =>
    refine queued member fun new => Or.inl ?_
    obtain rfl := List.mem_singleton.mp new
    exact ⟨fc, List.mem_of_getElem? found, names⟩
  | schedule =>
    refine queued member fun new => Or.inr (Or.inr ?_)
    obtain rfl := List.mem_singleton.mp new
    exact decide_eq_true names
  | scheduleBatch =>
    refine queued member fun new => Or.inr (Or.inr ?_)
    obtain ⟨fc, inside, rfl⟩ := List.mem_map.mp new
    exact List.any_eq_true.mpr ⟨fc, inside, decide_eq_true names⟩
  | work | other => exact Or.inl ⟨it, member, names⟩

/-- **A fiber that waits for an event** waited before, or is the one whose worker adds the event. -/
theorem contexts_cases (move : Move s event s') {fc : FiberOrCb} (member : fc ∈ s'.contexts)
    (names : fc.names = some f) :
    fc ∈ s.contexts ∨ ∃ w b, s.pc w = .task .executing b f ∧ s'.fiber f = s.fiber f := by
  cases move
  case trigger => exact Or.inl (List.mem_of_mem_eraseIdx member)
  case addEvent w cb b g from' =>
    rcases List.mem_append.mp member with old | new
    · exact Or.inl old
    · obtain rfl := List.mem_singleton.mp new
      rcases cb with _ | c
      · exact Or.inr ⟨w, b, by rw [from', Option.some.inj names], rfl⟩
      · cases names
  case delEvent => exact Or.inl (List.mem_of_mem_eraseIdx member)
  all_goals exact Or.inl member

/-- What is scheduled from outside has been made. -/
theorem lt_of_gives (move : Move s event s') (gives : event.gives f = true) : f < s.nextFiber := by
  cases move
  case schedule fc thread known => exact known f (of_decide_eq_true gives)
  case scheduleBatch fcs known =>
    obtain ⟨fc, inside, names⟩ := List.any_eq_true.mp gives
    exact known fc inside f (of_decide_eq_true names)
  all_goals cases gives

end Move

end Sylar.Scheduler
