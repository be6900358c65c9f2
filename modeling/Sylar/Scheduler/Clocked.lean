/-
**The pool with its timers.**

In the pool an armed timer is a unit of a count, and the write section of `list_expired_cbs` settles
what is handed out. Here the workers run on the real set: `list_expired_cbs` goes step by step, a
callback is read when its turn comes, and tasks call `add_timer`, `cancel`, `refresh` and `reset`.

* `Clocked` — a tracked pool, and the timers with the threads in `list_expired_cbs`; `timers` of the
  pool is a ghost that follows the set.
* `Clocked.completed` — what a state stands for: the lists that workers are filling, with any
  callbacks for the timers still to come.
* `completed_reachable` — **the refinement, under any condition that does not look into such
  lists**; `pool_refined` — under none but that the clock never reads 0.
-/

import Sylar.Library.Refinement
import Sylar.Scheduler.Completed
import Sylar.Timers.Armed

namespace Sylar.Scheduler

open Sylar.Library

variable {n : Nat}

/-! ### The machine -/

/-- The workers with the callbacks of their run, the timers, and what anybody but
`list_expired_cbs` has put in the queue. -/
structure Clocked (n : Nat) where
  run : Tracked n
  expiry : Timers.Expiry n
  others : List Callback

/-- A step.
* `pool event` — what has nothing to do with timers;
* `ask w now` — `get_next_timeout()` in `stopping()`;
* `list w now`, `test w`, `expire w probe`, `push w`, `finish w` — the steps of `list_expired_cbs`;
* `request w c` — the running task calls `c`. -/
inductive ClockEvent (n : Nat)
  | pool (event : Event n)
  | ask (w : Fin n) (now : UInt64)
  | list (w : Fin n) (now : UInt64)
  | test (w : Fin n)
  | expire (w : Fin n) (probe : Timers.Address)
  | push (w : Fin n)
  | finish (w : Fin n)
  | request (w : Fin n) (c : Timers.Call)

namespace Clocked

variable (s : Clocked n)

/-- A worker. -/
def pc (w : Fin n) : Pc := s.run.pool.pc w

/-- A step of the pool that is no step of the timers. A worker schedules `cbs` after its loop. -/
def untimed : Event n → Bool
  | .expire .. | .rearm .. | .addTimer .. | .cancelTimer _ => false
  | .work w => s.pc w ≠ .idle .timeout && (!(s.pc w).lists || s.expiry.pc w = .out)
  | _ => true

/-- What the step enqueues, unless it is `cbs`. -/
def enqueued : Event n → List Callback
  | .work _ => []
  | event => (s.run.pool.enqueues event).filterMap callbackOf

/-- The timers go on, and their count follows. -/
def withExpiry (expiry : Timers.Expiry n) : Clocked n :=
  { s with run.pool.timers := expiry.manager.timers.length, expiry }

/-- A worker moves. -/
def goto (w : Fin n) (pc : Pc) : Clocked n := { s with run.pool := s.run.pool.goto w pc }

/-- `cbs.push_back`, as often as the step does it. -/
def hands (event : Timers.Event n) : List (Option Callback) :=
  match s.expiry.next event with
  | some expiry => (expiry.handed.drop s.expiry.handed.length).map Timers.Handout.cb
  | none => []

/-- How many timers the step inserts at the front. -/
def fronts (event : Timers.Event n) : Nat := (s.expiry.inserts event).countP (·.front)

/-- One step. -/
def next : ClockEvent n → Option (Clocked n)
  | .pool event =>
      if s.untimed event then
        (trackedStep s.run event).map fun run =>
          { s with run, others := s.others ++ s.enqueued event }
      else none
  | .ask w now =>
      match s.pc w with
      | .idle .timeout =>
          some (s.goto w (.idle
            (if Timers.getNextTimeout s.expiry.manager now = ~~~0 then .pending else .wait)))
      | _ => none
  | .list w now =>
      match s.pc w with
      | .idle .woken => (s.expiry.next (.call w now)).map s.withExpiry
      | _ => none
  | .test w =>
      match s.pc w with
      | .idle .woken =>
          (s.expiry.next (.test w)).map fun expiry =>
            if expiry.pc w = .out then (s.withExpiry expiry).goto w (.idle (.listed [] 0))
            else s.withExpiry expiry
      | _ => none
  | .expire w probe =>
      match s.pc w with
      | .idle .woken =>
          (s.expiry.next (.writeSection w probe)).map fun expiry =>
            (s.withExpiry expiry).goto w (.tickleIf (0 < s.fronts (.writeSection w probe))
              (.idle (.listed (s.hands (.writeSection w probe)) 0)))
      | _ => none
  | .push w =>
      match s.pc w with
      | .idle (.listed cbs later) =>
          (s.expiry.next (.push w)).map fun expiry =>
            (s.withExpiry expiry).goto w (.idle (.listed (cbs ++ s.hands (.push w)) later))
      | _ => none
  | .finish w =>
      match s.pc w with
      | .idle (.listed cbs later) =>
          (s.expiry.next (.finish w)).map fun expiry =>
            (s.withExpiry expiry).goto w
              (.tickleIf (0 < s.fronts (.finish w)) (.idle (.listed cbs later)))
      | _ => none
  | .request w c =>
      match s.pc w with
      | .task .executing _ _ =>
          (s.expiry.next (.request c)).map fun expiry =>
            { s.withExpiry expiry with
              run.pool.otherToTest := s.run.pool.otherToTest + s.fronts (.request c) }
      | _ => none

/-- New. -/
def initial (n : Nat) : Clocked n := ⟨⟨Pool.initial n, [], [], []⟩, .initial n, []⟩

/-- What the state stands for: `fut` are the callbacks still to come, and the recurring timers still
in hand are still to be armed again. -/
def completed (fut : Fin n → List (Option Callback)) : Tracked n :=
  s.run.completed fut s.expiry.rearms

end Clocked

/-- As many callbacks as there are timers to come, and good ones. -/
def Fits (good : Option Callback → Bool) (expiry : Timers.Expiry n)
    (fut : Fin n → List (Option Callback)) : Prop :=
  ∀ w, (fut w).length = (expiry.pc w).toPush.length ∧ (fut w).all good = true

/-- The runs of a pool on the real timers. -/
def clocked (n : Nat) : Machine (Clocked n) (ClockEvent n) :=
  ⟨fun s => s = Clocked.initial n, Clocked.next⟩

/-- **The condition on a step**: one on the steps of the pool, one on what `list_expired_cbs` hands
out; and the clock does not read 0. -/
def Clocked.Meets (ok : Tracked n → Event n → Prop) (good : Option Callback → Bool)
    (s : Clocked n) : ClockEvent n → Prop
  | .pool event => ok s.run event
  | .ask _ now => now ≠ 0
  | .expire w probe => (s.hands (.writeSection w probe)).all good = true
  | .push w => (s.hands (.push w)).all good = true
  | .list .. | .test _ | .finish _ | .request .. => True

instance (ok : Tracked n → Event n → Prop) [∀ t event, Decidable (ok t event)]
    (good : Option Callback → Bool) (s : Clocked n) :
    (event : ClockEvent n) → Decidable (s.Meets ok good event)
  | .pool event => inferInstanceAs (Decidable (ok s.run event))
  | .ask _ now => inferInstanceAs (Decidable (now ≠ 0))
  | .expire _ _ | .push _ => inferInstanceAs (Decidable (_ = true))
  | .list .. | .test _ | .finish _ | .request .. => isTrue trivial

/-- **A condition on the pool that the timers meet**: it does not look into the lists that are being
filled, and asks of the timers only that they hand out what is good. -/
structure Admits (ok : Tracked n → Event n → Prop) (good : Option Callback → Bool) : Prop where
  completed : ∀ {t event more later}, ok t event → ok (t.completed more later) event
  timeout : ∀ {t w}, t.pool.pc w = .idle .timeout → ok t (.work w)
  expire : ∀ {t w cbs kept later front}, cbs.all good = true → ok t (.expire w cbs kept later front)
  rearm : ∀ {t w front}, ok t (.rearm w front)
  addTimer : ∀ {t w front}, ok t (.addTimer w front)
  cancelTimer : ∀ {t w}, ok t (.cancelTimer w)

theorem admits_all : Admits (n := n) (fun _ _ => True) fun _ => true :=
  ⟨fun _ => trivial, fun _ => trivial, fun _ => trivial, trivial, trivial, trivial⟩

theorem admits_handOff : Admits (n := n) (fun t event => HandOff t.pool event) fun _ => true where
  completed ok := completed_handOff.mpr ok
  timeout from' f takes := by simp [Pool.takes, from'] at takes
  expire _ := trivial
  rearm := trivial
  addTimer := trivial
  cancelTimer := trivial

theorem admits_once : Admits (n := n) OnceOk Option.isSome where
  completed ok := onceOk_completed.mpr ok
  timeout from' := by
    refine ⟨⟨?_, ?_, fun _ _ _ gives => by cases gives⟩, trivial⟩
    · intro f takes
      simp [Pool.takes, from'] at takes
    · intro pops
      simp [Pool.popsCallback, from'] at pops
  expire all := ⟨⟨trivial, trivial, fun _ _ _ gives => by cases gives⟩, List.all_eq_true.mp all⟩
  rearm := ⟨⟨trivial, trivial, fun _ _ _ gives => by cases gives⟩, trivial⟩
  addTimer := ⟨⟨trivial, trivial, fun _ _ _ gives => by cases gives⟩, trivial⟩
  cancelTimer := ⟨⟨trivial, trivial, fun _ _ _ gives => by cases gives⟩, trivial⟩

/-! ### The steps of the pool -/

section Pool

variable {p : Pool n} {t : Tracked n} {w : Fin n}

/-- A step that does nothing with callbacks. -/
theorem trackedStep_quiet {event : Event n} {q : Pool n} (next : t.pool.next event = some q)
    (enqueues : t.pool.enqueues event = []) (loads : t.pool.loads event = none)
    (calls : t.pool.calls event = none) : trackedStep t event = some { t with pool := q } := by
  unfold trackedStep
  rw [next, enqueues, loads, calls, Option.map_some, List.filterMap_nil, Option.toList_none,
    List.append_nil, List.append_nil, List.append_nil]

/-- A worker that stays where it is. -/
theorem goto_self {pc : Pc} (here : p.pc w = pc) : p.goto w pc = p := by
  subst here
  unfold Pool.goto
  rw [Function.update_eq_self]

theorem next_expire {cbs : List (Option Callback)} {kept later : Nat} (front : Bool)
    (from' : p.pc w = .idle .woken) (enough : cbs.length ≤ p.timers)
    (again : kept + later ≤ cbs.length) (one : kept ≤ 1) (first : kept = 0 → later = 0) :
    p.next (.expire w cbs kept later front) =
      some { p.goto w (.tickleIf front (.idle (.listed cbs later))) with
        timers := p.timers - cbs.length + kept } := by
  simp only [Pool.next, from']
  exact if_pos ⟨enough, again, one, first⟩

theorem next_rearm {cbs : List (Option Callback)} {later : Nat} (front : Bool)
    (from' : p.pc w = .idle (.listed cbs (later + 1))) :
    p.next (.rearm w front) =
      some { p.goto w (.tickleIf front (.idle (.listed cbs later))) with
        timers := p.timers + 1 } := by
  simp only [Pool.next, from']

theorem next_addTimer {b : Branch} {f : FiberId} (front : Bool)
    (from' : p.pc w = .task .executing b f) :
    p.next (.addTimer w front) =
      some { p with timers := p.timers + 1, otherToTest := p.otherToTest + front.toNat } := by
  simp only [Pool.next, from']

theorem next_cancelTimer {b : Branch} {f : FiberId} (from' : p.pc w = .task .executing b f) :
    p.next (.cancelTimer w) = some { p with timers := p.timers - 1 } := by
  simp only [Pool.next, from']

end Pool

namespace Clocked

/-- **What a step can do.** -/
inductive Move (s : Clocked n) : ClockEvent n → Clocked n → Prop
  | pool {event run} (untimed : s.untimed event = true) (ran : trackedStep s.run event = some run) :
      Move s (.pool event) { s with run, others := s.others ++ s.enqueued event }
  | ask {w now} (from' : s.pc w = .idle .timeout) :
      Move s (.ask w now) (s.goto w (.idle
        (if Timers.getNextTimeout s.expiry.manager now = ~~~0 then .pending else .wait)))
  | list {w now expiry} (from' : s.pc w = .idle .woken)
      (next : s.expiry.next (.call w now) = some expiry) :
      Move s (.list w now) (s.withExpiry expiry)
  | testNone {w expiry} (from' : s.pc w = .idle .woken)
      (next : s.expiry.next (.test w) = some expiry) (out : expiry.pc w = .out) :
      Move s (.test w) ((s.withExpiry expiry).goto w (.idle (.listed [] 0)))
  | test {w expiry} (from' : s.pc w = .idle .woken)
      (next : s.expiry.next (.test w) = some expiry) (inside : expiry.pc w ≠ .out) :
      Move s (.test w) (s.withExpiry expiry)
  | expire {w probe expiry} (from' : s.pc w = .idle .woken)
      (next : s.expiry.next (.writeSection w probe) = some expiry) :
      Move s (.expire w probe) ((s.withExpiry expiry).goto w
        (.tickleIf (0 < s.fronts (.writeSection w probe))
          (.idle (.listed (s.hands (.writeSection w probe)) 0))))
  | push {w cbs later expiry} (from' : s.pc w = .idle (.listed cbs later))
      (next : s.expiry.next (.push w) = some expiry) :
      Move s (.push w)
        ((s.withExpiry expiry).goto w (.idle (.listed (cbs ++ s.hands (.push w)) later)))
  | finish {w cbs later expiry} (from' : s.pc w = .idle (.listed cbs later))
      (next : s.expiry.next (.finish w) = some expiry) :
      Move s (.finish w) ((s.withExpiry expiry).goto w
        (.tickleIf (0 < s.fronts (.finish w)) (.idle (.listed cbs later))))
  | request {w b f c expiry} (from' : s.pc w = .task .executing b f)
      (next : s.expiry.next (.request c) = some expiry) :
      Move s (.request w c) { s.withExpiry expiry with
        run.pool.otherToTest := s.run.pool.otherToTest + s.fronts (.request c) }

theorem move_of_next {s s' : Clocked n} {event : ClockEvent n} (stepped : s.next event = some s') :
    s.Move event s' := by
  cases event with
  | pool event =>
    obtain ⟨untimed, mapped⟩ := Option.ite_none_right_eq_some.mp stepped
    obtain ⟨run, ran, rfl⟩ := Option.map_eq_some_iff.mp mapped
    exact .pool untimed ran
  | ask w now =>
    simp only [next] at stepped
    split at stepped
    next from' =>
      cases stepped
      exact .ask from'
    next => cases stepped
  | list w now =>
    simp only [next] at stepped
    split at stepped
    next from' =>
      obtain ⟨expiry, next, rfl⟩ := Option.map_eq_some_iff.mp stepped
      exact .list from' next
    next => cases stepped
  | test w =>
    simp only [next] at stepped
    split at stepped
    next from' =>
      obtain ⟨expiry, next, rfl⟩ := Option.map_eq_some_iff.mp stepped
      split
      next out => exact .testNone from' next out
      next inside => exact .test from' next inside
    next => cases stepped
  | expire w probe =>
    simp only [next] at stepped
    split at stepped
    next from' =>
      obtain ⟨expiry, next, rfl⟩ := Option.map_eq_some_iff.mp stepped
      exact .expire from' next
    next => cases stepped
  | push w =>
    simp only [next] at stepped
    split at stepped
    next from' =>
      obtain ⟨expiry, next, rfl⟩ := Option.map_eq_some_iff.mp stepped
      exact .push from' next
    next => cases stepped
  | finish w =>
    simp only [next] at stepped
    split at stepped
    next from' =>
      obtain ⟨expiry, next, rfl⟩ := Option.map_eq_some_iff.mp stepped
      exact .finish from' next
    next => cases stepped
  | request w c =>
    simp only [next] at stepped
    split at stepped
    next from' =>
      obtain ⟨expiry, next, rfl⟩ := Option.map_eq_some_iff.mp stepped
      exact .request from' next
    next => cases stepped

end Clocked

/-! ### What a state stands for -/

/-- The count of the pool follows the set. -/
structure Follows (s : Clocked n) : Prop where
  owned : Timers.Owned s.expiry
  timers : s.run.pool.timers = s.expiry.manager.timers.length

section Steps

variable {ok : Tracked n → Event n → Prop} {good : Option Callback → Bool} {s : Clocked n}
  {expiry : Timers.Expiry n} {fut fut' : Fin n → List (Option Callback)} {w : Fin n}

namespace Clocked

/-- A worker and its thread move. -/
theorem completed_goto {pc : Pc} (sameFut : ∀ v, v ≠ w → fut' v = fut v)
    (sameRearms : ∀ v, v ≠ w → expiry.rearms v = s.expiry.rearms v) :
    ((s.withExpiry expiry).goto w pc).completed fut' =
      { s.run with
        pool := { (s.completed fut).pool.goto w (pc.completed (fut' w) (expiry.rearms w)) with
          timers := expiry.manager.timers.length } } := by
  simp only [completed, Tracked.completed, Pool.completed, goto, withExpiry, Pool.goto,
    completed_update_of_agree sameFut sameRearms]

/-- **Nothing that the pool sees**: what was still to come has come. -/
theorem completed_silent {pc : Pc} (follows : Follows s)
    (armed : expiry.manager.timers.length = s.expiry.manager.timers.length)
    (sameFut : ∀ v, v ≠ w → fut' v = fut v)
    (sameRearms : ∀ v, v ≠ w → expiry.rearms v = s.expiry.rearms v)
    (stays : pc.completed (fut' w) (expiry.rearms w) =
      (s.pc w).completed (fut w) (s.expiry.rearms w)) :
    ((s.withExpiry expiry).goto w pc).completed fut' = s.completed fut := by
  have here : (s.completed fut).pool.pc w = (s.pc w).completed (fut w) (s.expiry.rearms w) := rfl
  rw [completed_goto sameFut sameRearms, stays, goto_self here, armed, ← follows.timers]
  rfl

theorem withExpiry_goto_self : (s.withExpiry expiry).goto w (s.pc w) = s.withExpiry expiry := by
  have here : (s.withExpiry expiry).run.pool.pc w = s.pc w := rfl
  unfold goto
  rw [goto_self here]

theorem fills_of_untimed {event : Event n} (untimed : s.untimed event = true) :
    event.fills = false := by
  cases event with
  | expire | rearm => cases untimed
  | _ => rfl

/-- What the log has gained. -/
theorem hands_of_next {event : Timers.Event n} {new : List Timers.Handout}
    (stepped : s.expiry.next event = some expiry)
    (handed : expiry.handed = s.expiry.handed ++ new) :
    s.hands event = new.map Timers.Handout.cb := by
  unfold hands
  rw [stepped]
  dsimp only
  rw [handed, List.drop_left]

/-- Nobody's list is completed otherwise. -/
theorem fits_of_thread (fits : Fits good expiry fut)
    {event : Timers.Event n} (stepped : s.expiry.next event = some expiry)
    (thread : event.thread = some w) {cbs : List (Option Callback)}
    (length : cbs.length = (s.expiry.pc w).toPush.length) (all : cbs.all good = true) :
    Fits good s.expiry (Function.update fut w cbs) := by
  intro v
  rcases eq_or_ne v w with rfl | other
  · rw [Function.update_self]
    exact ⟨length, all⟩
  · rw [Function.update_of_ne other, ← Timers.pc_of_next stepped fun same =>
      other (Option.some.inj (same.symm.trans thread))]
    exact fits v

end Clocked

/-! ### The steps -/

/-- A step that has nothing to do with timers. -/
theorem refines_pool (admits : Admits ok good) {event : Event n} (untimed : s.untimed event = true)
    (meets : ok s.run event) {run : Tracked n} (stepped : trackedStep s.run event = some run)
    (fits : Fits good s.expiry fut) (reached : (tracked n).ReachableWhen ok (s.completed fut)) :
    (tracked n).ReachableWhen ok (run.completed fut s.expiry.rearms) := by
  refine .step reached (admits.completed meets) ?_
  show trackedStep (s.run.completed fut s.expiry.rearms) event = _
  rw [completed_trackedStep (Clocked.fills_of_untimed untimed), stepped, Option.map_some]
  rintro w rfl lists
  have out : s.expiry.pc w = .out := by
    simp only [Clocked.untimed, Bool.and_eq_true, Bool.or_eq_true, decide_eq_true_eq] at untimed
    refine untimed.2.resolve_left fun closed => ?_
    rw [show (s.pc w).lists = true from lists] at closed
    cases closed
  refine ⟨List.eq_nil_of_length_eq_zero ?_, ?_⟩
  · rw [(fits w).1, out]
    rfl
  · unfold Timers.Expiry.rearms
    rw [out]
    rfl

/-- `get_next_timeout()`. -/
theorem refines_ask (admits : Admits ok good) (follows : Follows s) {now : UInt64}
    (from' : s.pc w = .idle .timeout) (reads : now ≠ 0)
    (reached : (tracked n).ReachableWhen ok (s.completed fut)) :
    (tracked n).ReachableWhen ok ((s.goto w (.idle
      (if Timers.getNextTimeout s.expiry.manager now = ~~~0 then .pending else .wait))).completed
        fut) := by
  have here : (s.completed fut).pool.pc w = .idle .timeout :=
    congrArg (Pc.completed (fut w) (s.expiry.rearms w)) from'
  have stepped (stage : IdleStage)
      (value : (if s.run.pool.timers = 0 then .pending else .wait) = stage) :
      trackedStep (s.completed fut) (.work w) =
        some ((s.goto w (.idle stage)).completed fut) := by
    refine (trackedStep_quiet (q := (s.completed fut).pool.goto w (.idle stage))
      ?_ ?_ ?_ ?_).trans ?_
    · simp only [Pool.next, Pool.work, here, Pool.idleStep, ← value]
      rfl
    · simp only [Pool.enqueues, here]
    · simp only [Pool.loads, here]
    · simp only [Pool.calls, here]
    · have closed : (Pc.idle stage).lists = false := by
        rw [← value]
        split <;> rfl
      have whole : (Pc.idle stage).completed (fut w) (s.expiry.rearms w) = .idle stage :=
        Pc.completed_idle closed
      have moved : (s.run.pool.completed fut s.expiry.rearms).goto w
          ((Pc.idle stage).completed (fut w) (s.expiry.rearms w)) =
            (s.run.pool.goto w (.idle stage)).completed fut s.expiry.rearms :=
        Scheduler.completed_goto _
      rw [whole] at moved
      exact congrArg (fun pool : Pool n => some { s.run with pool }) moved
  have same : s.run.pool.timers = 0 ↔ Timers.getNextTimeout s.expiry.manager now = ~~~0 := by
    rw [follows.timers, List.length_eq_zero_iff, Timers.getNextTimeout_eq_max_iff reads]
  refine .step reached (admits.timeout here) (stepped _ ?_)
  simp only [same]

/-- The clock is read. -/
theorem hand_of_call {now : UInt64} (stepped : s.expiry.next (.call w now) = some expiry) :
    (s.expiry.pc w).hand = [] ∧ (expiry.pc w).hand = [] ∧ expiry.manager = s.expiry.manager := by
  cases Timers.Expiry.move_of_next stepped with
  | call out =>
    refine ⟨by rw [out]; rfl, ?_, rfl⟩
    dsimp only
    rw [Function.update_self]
    rfl

/-- The read section. -/
theorem hand_of_test (stepped : s.expiry.next (.test w) = some expiry) :
    (s.expiry.pc w).hand = [] ∧ (expiry.pc w).hand = [] ∧ expiry.manager = s.expiry.manager := by
  cases Timers.Expiry.move_of_next stepped with
  | test called =>
    refine ⟨by rw [called]; rfl, ?_, rfl⟩
    dsimp only
    rw [Function.update_self]
    split <;> rfl

/-- A step of `list_expired_cbs` that takes nothing out. -/
theorem refines_before (follows : Follows s) {event : Timers.Event n}
    (stepped : s.expiry.next event = some expiry) (thread : event.thread = some w)
    (armed : expiry.manager.timers.length = s.expiry.manager.timers.length)
    (before : (s.expiry.pc w).hand = []) (after : (expiry.pc w).hand = [])
    (fits : Fits good expiry fut) :
    Fits good s.expiry fut ∧ (s.withExpiry expiry).completed fut = s.completed fut := by
  have none := Timers.Pc.toPush_of_hand after
  have none' := Timers.Pc.toPush_of_hand before
  constructor
  · have fitsBefore : Fits good s.expiry (Function.update fut w (fut w)) :=
      Clocked.fits_of_thread fits stepped thread (by rw [(fits w).1, none, none']) (fits w).2
    rwa [Function.update_eq_self] at fitsBefore
  · rw [← Clocked.withExpiry_goto_self (w := w)]
    refine Clocked.completed_silent follows armed (fun _ _ => rfl)
      (fun v other => Timers.rearms_of_next follows.owned stepped fun same =>
        other (Option.some.inj (same.symm.trans thread))) ?_
    unfold Timers.Expiry.rearms
    rw [before, after]
    rfl

/-- A batch is taken out. -/
theorem refines_expire (admits : Admits ok good) (follows : Follows s)
    (from' : s.pc w = .idle .woken) {event : Timers.Event n}
    (stepped : s.expiry.next event = some expiry) (thread : event.thread = some w)
    {cbs : List (Option Callback)} (front : Bool) (kept : Nat)
    (enough : (cbs ++ fut w).length ≤ s.expiry.manager.timers.length)
    (armed : expiry.manager.timers.length =
      s.expiry.manager.timers.length - (cbs ++ fut w).length + kept)
    (again : kept + expiry.rearms w ≤ (cbs ++ fut w).length) (one : kept ≤ 1)
    (first : kept = 0 → expiry.rearms w = 0) (all : (cbs ++ fut w).all good = true)
    (reached : (tracked n).ReachableWhen ok (s.completed (Function.update fut w []))) :
    (tracked n).ReachableWhen ok (((s.withExpiry expiry).goto w
      (.tickleIf front (.idle (.listed cbs 0)))).completed fut) := by
  have here : (s.completed (Function.update fut w [])).pool.pc w = .idle .woken :=
    congrArg (Pc.completed _ (s.expiry.rearms w)) from'
  have timers : (s.completed (Function.update fut w [])).pool.timers =
      s.expiry.manager.timers.length := follows.timers
  have next := next_expire front here (timers ▸ enough) again one first
  refine .step reached (admits.expire all)
    ((trackedStep_quiet next rfl rfl rfl).trans (congrArg some ?_))
  rw [Clocked.completed_goto (fun v other => (Function.update_of_ne other [] fut).symm)
    (fun v other => Timers.rearms_of_next follows.owned stepped fun same =>
      other (Option.some.inj (same.symm.trans thread))), timers, armed, Pc.completed_tickleIf,
    Pc.completed_listed, Nat.zero_add]
  rfl

/-- No timer was armed. -/
theorem refines_none (admits : Admits ok good) (follows : Follows s) (from' : s.pc w = .idle .woken)
    (stepped : s.expiry.next (.test w) = some expiry)
    (quiet : (s.expiry.pc w).hand = [] ∧ (expiry.pc w).hand = [] ∧
      expiry.manager = s.expiry.manager) (fits : Fits good expiry fut) :
    ∃ fut', Fits good s.expiry fut' ∧ ((tracked n).ReachableWhen ok (s.completed fut') →
      (tracked n).ReachableWhen ok
        (((s.withExpiry expiry).goto w (.idle (.listed [] 0))).completed fut)) := by
  obtain ⟨before, after, same⟩ := quiet
  have none : fut w = [] := by
    refine List.eq_nil_of_length_eq_zero ?_
    rw [(fits w).1, Timers.Pc.toPush_of_hand after]
    rfl
  have rearms : expiry.rearms w = 0 := by
    unfold Timers.Expiry.rearms
    rw [after]
    rfl
  refine ⟨Function.update fut w [], Clocked.fits_of_thread fits stepped rfl ?_ rfl, fun reached =>
    refines_expire admits follows from' stepped rfl false 0 ?_ ?_ ?_ ?_ ?_ ?_ reached⟩
  · rw [Timers.Pc.toPush_of_hand before]
    rfl
  · rw [none]
    exact Nat.zero_le _
  · rw [none, same]
    rfl
  · rw [none, rearms]
    exact Nat.le_refl 0
  · exact Nat.zero_le 1
  · exact fun _ => rearms
  · rw [none]
    rfl

/-- **The write section**: what it pushes, and what is still to come, is the batch. -/
theorem refines_batch (admits : Admits ok good) (follows : Follows s)
    (from' : s.pc w = .idle .woken) {probe : Timers.Address}
    (stepped : s.expiry.next (.writeSection w probe) = some expiry)
    (all : (s.hands (.writeSection w probe)).all good = true) (fits : Fits good expiry fut) :
    Fits good s.expiry (Function.update fut w []) ∧
      ((tracked n).ReachableWhen ok (s.completed (Function.update fut w [])) →
        (tracked n).ReachableWhen ok (((s.withExpiry expiry).goto w
          (.tickleIf (0 < s.fronts (.writeSection w probe))
            (.idle (.listed (s.hands (.writeSection w probe)) 0)))).completed fut)) := by
  cases Timers.Expiry.move_of_next stepped with
  | @writeSection _ now _ seen fresh =>
    obtain ⟨done, rest, total, locked⟩ := Timers.writeSection_locked follows.owned w now fresh
    obtain ⟨new, handed, length⟩ := locked.handed
    have pc : (s.expiry.writeSection w now probe).pc w = Timers.resume now rest := by
      rw [locked.pc, Function.update_self]
    have rearms : (s.expiry.writeSection w now probe).rearms w =
        rest.countP (s.expiry.writeSection w now probe).again := by
      unfold Timers.Expiry.rearms
      rw [pc, Timers.hand_resume]
    have batch : (s.hands (.writeSection w probe) ++ fut w).length = (done ++ rest).length := by
      rw [List.length_append, List.length_append, Clocked.hands_of_next stepped handed,
        List.length_map, length, (fits w).1, pc, Timers.toPush_resume]
    refine ⟨Clocked.fits_of_thread fits stepped rfl ?_ rfl, fun reached =>
      refines_expire admits follows from' stepped rfl _ _ ?_ ?_ ?_ locked.one ?_ ?_ reached⟩
    · rw [seen]
      rfl
    · rw [batch, ← total]
      exact Nat.le_add_right _ _
    · rw [batch, locked.armed, ← total, Nat.add_sub_cancel_left]
    · rw [batch, rearms, List.length_append]
      exact Nat.add_le_add List.countP_le_length List.countP_le_length
    · intro none
      rw [rearms, locked.stops none]
      rfl
    · rw [List.all_append, all, (fits w).2]
      rfl

/-- `cbs.push_back`: the callback that was to come. -/
theorem refines_push (follows : Follows s) {cbs : List (Option Callback)} {later : Nat}
    (from' : s.pc w = .idle (.listed cbs later)) (stepped : s.expiry.next (.push w) = some expiry)
    (all : (s.hands (.push w)).all good = true) (fits : Fits good expiry fut) :
    Fits good s.expiry (Function.update fut w (s.hands (.push w) ++ fut w)) ∧
      ((s.withExpiry expiry).goto w (.idle (.listed (cbs ++ s.hands (.push w)) later))).completed
        fut = s.completed (Function.update fut w (s.hands (.push w) ++ fut w)) := by
  have one : (s.hands (.push w)).length + (expiry.pc w).toPush.length =
      (s.expiry.pc w).toPush.length ∧ expiry.rearms w = s.expiry.rearms w ∧
      expiry.manager = s.expiry.manager := by
    cases Timers.Expiry.move_of_next stepped with
    | @push _ now x rest head =>
      refine ⟨?_, ?_, rfl⟩
      · rw [Clocked.hands_of_next stepped rfl, head]
        show _ + (Function.update s.expiry.pc w _ w).toPush.length = _
        rw [Function.update_self]
        exact Nat.add_comm 1 _
      · unfold Timers.Expiry.rearms
        rw [head]
        show (Function.update s.expiry.pc w _ w).hand.countP s.expiry.again = _
        rw [Function.update_self]
        rfl
  refine ⟨Clocked.fits_of_thread fits stepped rfl ?_ ?_, ?_⟩
  · rw [List.length_append, (fits w).1, one.1]
  · rw [List.all_append, all, (fits w).2]
    rfl
  · refine Clocked.completed_silent follows (by rw [one.2.2])
      (fun v other => (Function.update_of_ne other _ fut).symm)
      (fun v other => Timers.rearms_of_next follows.owned stepped fun same =>
        other (Option.some.inj same).symm) ?_
    rw [from', Function.update_self, one.2.1, Pc.completed_listed, Pc.completed_listed,
      List.append_assoc]

/-- The other half of an iteration: a recurring timer is armed again. -/
theorem refines_finish (admits : Admits ok good) (follows : Follows s)
    {cbs : List (Option Callback)} {later : Nat} (from' : s.pc w = .idle (.listed cbs later))
    (stepped : s.expiry.next (.finish w) = some expiry) (fits : Fits good expiry fut) :
    Fits good s.expiry fut ∧ ((tracked n).ReachableWhen ok (s.completed fut) →
      (tracked n).ReachableWhen ok (((s.withExpiry expiry).goto w
        (.tickleIf (0 < s.fronts (.finish w)) (.idle (.listed cbs later)))).completed fut)) := by
  have others : ∀ v, v ≠ w → expiry.rearms v = s.expiry.rearms v := fun v other =>
    Timers.rearms_of_next follows.owned stepped fun same => other (Option.some.inj same).symm
  cases Timers.Expiry.move_of_next stepped with
  | @finish _ now x rest head =>
    have armed := Timers.armed_finish follows.owned head
    have before := Timers.rearms_of_pushed head
    constructor
    · have fitsBefore : Fits good s.expiry (Function.update fut w (fut w)) := by
        refine Clocked.fits_of_thread fits stepped rfl ?_ (fits w).2
        rw [(fits w).1, Timers.toPush_finish head]
      rwa [Function.update_eq_self] at fitsBefore
    · intro reached
      cases again : s.expiry.again x with
      | false =>
        have none : s.fronts (.finish w) = 0 :=
          congrArg (List.countP _) (Timers.inserts_finish_eq_nil head again)
        rw [again] at armed before
        refine (congrArg ((tracked n).ReachableWhen ok)
          (Clocked.completed_silent follows armed (fun _ _ => rfl) others ?_)).mpr reached
        rw [none, from', Timers.rearms_finish, before]
        rfl
      | true =>
        rw [again] at armed before
        have here : (s.completed fut).pool.pc w = .idle (.listed (cbs ++ fut w)
            (later + rest.countP s.expiry.again + 1)) := by
          show (s.pc w).completed (fut w) (s.expiry.rearms w) = _
          rw [from', before, Pc.completed_listed]
          rfl
        refine .step reached admits.rearm
          ((trackedStep_quiet (next_rearm (0 < s.fronts (.finish w)) here) rfl rfl rfl).trans
            (congrArg some ?_))
        rw [Clocked.completed_goto (fun _ _ => rfl) others, Timers.rearms_finish,
          Pc.completed_tickleIf, Pc.completed_listed, armed, ← follows.timers]
        rfl

/-- **A call of a task**: a timer more, one less, or one that moves, which counts as both. -/
theorem refines_request (admits : Admits ok good) (follows : Follows s) {b : Branch} {f : FiberId}
    {c : Timers.Call} (from' : s.pc w = .task .executing b f)
    (stepped : s.expiry.next (.request c) = some expiry)
    (reached : (tracked n).ReachableWhen ok (s.completed fut)) :
    (tracked n).ReachableWhen ok (Clocked.completed { s.withExpiry expiry with
      run.pool.otherToTest := s.run.pool.otherToTest + s.fronts (.request c) } fut) := by
  have here : (s.completed fut).pool.pc w = .task .executing b f :=
    congrArg (Pc.completed (fut w) (s.expiry.rearms w)) from'
  have rearms : expiry.rearms = s.expiry.rearms :=
    funext fun v => Timers.rearms_of_next follows.owned stepped nofun
  have target : Clocked.completed { s.withExpiry expiry with
      run.pool.otherToTest := s.run.pool.otherToTest + s.fronts (.request c) } fut =
      { s.completed fut with
        pool := { (s.completed fut).pool with
          timers := expiry.manager.timers.length
          otherToTest := s.run.pool.otherToTest + s.fronts (.request c) } } := by
    show Tracked.completed _ fut expiry.rearms = _
    rw [rearms]
    rfl
  rw [target]
  have cancels {t : Tracked n} (reached : (tracked n).ReachableWhen ok t)
      (here : t.pool.pc w = .task .executing b f) :
      (tracked n).ReachableWhen ok
        { t with pool := { t.pool with timers := t.pool.timers - 1 } } :=
    reached.step admits.cancelTimer (trackedStep_quiet (next_cancelTimer here) rfl rfl rfl)
  have timers : (s.completed fut).pool.timers = s.expiry.manager.timers.length := follows.timers
  cases Timers.Expiry.move_of_next stepped with
  | request asked requested =>
    obtain ⟨front, value⟩ : ∃ front : Bool, front.toNat = s.fronts (.request c) := by
      rcases Nat.le_one_iff_eq_zero_or_eq_one.mp (Timers.countP_insertions_le asked) with none | one
      · exact ⟨false, none.symm⟩
      · exact ⟨true, one.symm⟩
    have added := reached.step admits.addTimer
      (trackedStep_quiet (next_addTimer front here) rfl rfl rfl)
    rw [timers, value] at added
    rcases Timers.request_armed follows.owned asked requested with more | same | ⟨less, none⟩
    · rw [more]
      exact added
    · rw [same]
      exact cancels added here
    · have quiet : s.fronts (.request c) = 0 := congrArg (List.countP _) none
      have cancelled := cancels reached here
      rw [timers, ← less, Nat.add_sub_cancel] at cancelled
      rw [quiet]
      exact cancelled

/-- The workers and the set go on together. -/
theorem Follows.next {s' : Clocked n} (follows : Follows s) {event : ClockEvent n}
    (stepped : s.next event = some s') : Follows s' := by
  cases Clocked.move_of_next stepped with
  | pool untimed ran =>
    refine ⟨follows.owned, ?_⟩
    obtain ⟨p, move, rfl⟩ := trackedStep_cases ran
    show p.timers = _
    rw [← follows.timers]
    cases move <;> first | rfl | cases untimed
  | ask from' => exact ⟨follows.owned, follows.timers⟩
  | list _ next | testNone _ next _ | test _ next _ | expire _ next | push _ next | finish _ next
  | request _ next =>
    exact ⟨follows.owned.next next, rfl⟩

/-- **One step**: whatever the state after it stands for is reached from something that the state
before it stands for. -/
theorem refines_step {s' : Clocked n} (admits : Admits ok good) (follows : Follows s)
    {event : ClockEvent n} (meets : s.Meets ok good event) (stepped : s.next event = some s')
    (fits : Fits good s'.expiry fut) :
    ∃ fut', Fits good s.expiry fut' ∧ ((tracked n).ReachableWhen ok (s.completed fut') →
      (tracked n).ReachableWhen ok (s'.completed fut)) := by
  cases Clocked.move_of_next stepped with
  | pool untimed ran => exact ⟨fut, fits, refines_pool admits untimed meets ran fits⟩
  | ask from' => exact ⟨fut, fits, refines_ask admits follows from' meets⟩
  | @list w now expiry _ next =>
    obtain ⟨before, after, manager⟩ := hand_of_call next
    obtain ⟨fitsBefore, same⟩ :=
      refines_before follows next rfl (by rw [manager]) before after fits
    exact ⟨fut, fitsBefore, fun reached => same ▸ reached⟩
  | testNone from' next out =>
    exact refines_none admits follows from' next (hand_of_test next) fits
  | test _ next _ =>
    obtain ⟨before, after, manager⟩ := hand_of_test next
    obtain ⟨fitsBefore, same⟩ :=
      refines_before follows next rfl (by rw [manager]) before after fits
    exact ⟨fut, fitsBefore, fun reached => same ▸ reached⟩
  | expire from' next => exact ⟨_, refines_batch admits follows from' next meets fits⟩
  | push from' next =>
    obtain ⟨fitsBefore, same⟩ := refines_push follows from' next meets fits
    exact ⟨_, fitsBefore, fun reached => same ▸ reached⟩
  | finish from' next => exact ⟨fut, refines_finish admits follows from' next fits⟩
  | request from' next =>
    refine ⟨fut, fun v => ?_, refines_request admits follows from' next⟩
    rw [← Timers.pc_of_next next nofun]
    exact fits v

end Steps

/-! ### Every run -/

section Runs

variable {ok : Tracked n → Event n → Prop} {good : Option Callback → Bool} {s : Clocked n}
  {fut : Fin n → List (Option Callback)}

theorem follows_of_reachable {meets : Clocked n → ClockEvent n → Prop}
    (reached : (clocked n).ReachableWhen meets s) : Follows s := by
  refine reached.invariant (fun s begins => ?_) fun _ _ _ follows _ stepped => follows.next stepped
  cases begins
  exact ⟨Timers.Owned.initial n, rfl⟩

/-- **What a state stands for**, with good callbacks to come. -/
def Clocked.Stands (good : Option Callback → Bool) (s : Clocked n) (t : Tracked n) : Prop :=
  ∃ fut, Fits good s.expiry fut ∧ t = s.completed fut

/-- **The refinement**, under a condition that the timers meet. -/
theorem completed_reachable (admits : Admits ok good)
    (reached : (clocked n).ReachableWhen (Clocked.Meets ok good) s)
    (fits : Fits good s.expiry fut) : (tracked n).ReachableWhen ok (s.completed fut) := by
  have stand : s.Stands good (s.completed fut) := ⟨fut, fits, rfl⟩
  refine Machine.ReachableWhen.backward (fun s t begins stand => ?_)
    (fun s event s' t' before meets stepped stand => ?_) reached stand
  · cases begins
    obtain ⟨fut, -, rfl⟩ := stand
    rfl
  · obtain ⟨fut, fits, rfl⟩ := stand
    obtain ⟨fut', fitsBefore, goes⟩ := refines_step admits (follows_of_reachable before) meets
      stepped fits
    exact ⟨s.completed fut', ⟨fut', fitsBefore, rfl⟩, goes⟩

/-- **The condition on a step**: `get_next_timeout()` does not read 0 from the clock. -/
def Ticking (_ : Clocked n) : ClockEvent n → Prop
  | .ask _ now => now ≠ 0
  | _ => True

instance (s : Clocked n) : (event : ClockEvent n) → Decidable (Ticking s event)
  | .ask _ now => inferInstanceAs (Decidable (now ≠ 0))
  | .pool _ | .list .. | .test _ | .expire .. | .push _ | .finish _ | .request .. => isTrue trivial

theorem ticking_meets {event : ClockEvent n} (ticking : Ticking s event) :
    s.Meets (fun _ _ => True) (fun _ => true) event := by
  cases event with
  | ask w now => exact ticking
  | expire | push => exact List.all_eq_true.mpr fun _ _ => rfl
  | _ => trivial

/-- **Workers on the real timers do what the pool does**: whatever the callbacks of the timers still
to come will be, the state that a reached one stands for is reached by the pool, and its armed
timers are those of the set. -/
theorem pool_refined (reached : (clocked n).ReachableWhen Ticking s)
    (fits : ∀ w, (fut w).length = (s.expiry.pc w).toPush.length) :
    (tracked n).Reachable (s.completed fut) ∧
      (s.completed fut).pool.timers = s.expiry.manager.timers.length :=
  ⟨completed_reachable admits_all (reached.mono fun _ _ => ticking_meets) fun w =>
    ⟨fits w, List.all_eq_true.mpr fun _ _ => rfl⟩, (follows_of_reachable reached).timers⟩

end Runs

/-- A task adds two recurring timers; the worker goes idle. -/
def addsTwo : List (ClockEvent 1) :=
  .pool (.schedule (.cb (some 7)) (-1)) :: List.replicate 5 (.pool (.work 0)) ++
    [.request 0 (.addTimer 3 0 10 (some 1) true), .request 0 (.addTimer 5 0 10 (some 2) true),
      .pool (.leave 0 .term)] ++
    List.replicate 6 (.pool (.work 0))

/-- The write section ends with the first of them. -/
theorem pool_refined_addsTwo : ∃ s : Clocked 1, (clocked 1).ReachableWhen Ticking s ∧
    s.pc 0 = .tickling false (.idle (.listed [some 1] 0)) ∧
      (tracked 1).Reachable (s.completed fun _ => [some 2]) ∧
      (s.completed fun _ => [some 2]).pool.pc 0 =
        .tickling false (.idle (.listed [some 1, some 2] 1)) := by
  have run : ∃ s, (clocked 1).ReachableWhen Ticking s ∧
      decide (s.pc 0 = .tickling false (.idle (.listed [some 1] 0)) ∧
        (s.expiry.pc 0).toPush.length = 1 ∧ (s.completed fun _ => [some 2]).pool.pc 0 =
          .tickling false (.idle (.listed [some 1, some 2] 1))) = true :=
    Machine.reachableWhen_of_replay rfl
      (addsTwo ++ [.ask 0 5, .pool (.work 0), .pool (.wake 0), .list 0 25, .test 0, .expire 0 9])
      _ (by decide +kernel)
  obtain ⟨s, reached, check⟩ := run
  obtain ⟨here, one, full⟩ := of_decide_eq_true check
  refine ⟨s, reached, here, (pool_refined reached fun w => ?_).1, full⟩
  rw [Fin.fin_one_eq_zero w, one]
  rfl

end Sylar.Scheduler
