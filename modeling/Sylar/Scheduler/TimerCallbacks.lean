/-
**The callbacks of the timers, from the set to the call.**

Workers on the real timers: `list_expired_cbs` hands callbacks out, a worker schedules its list, and
some worker calls what it pops. What is handed out is in a list, or has been put in the queue.

* `Balanced` — what was put in the queue and what is in the lists is what `list_expired_cbs` has
  handed out, and what the others have put there.
* `timer_callbacks_once` — **where fibers are handed over, what `list_expired_cbs` hands out is called
  at most once for each time, and a one-shot timer's callback at most once; where they are reused only
  when finished, and what others enqueue is served, everything that was handed out or scheduled has
  been called when the workers are gone.**
-/

import Sylar.Scheduler.Clocked
import Mathlib.Algebra.BigOperators.Group.Finset.Piecewise

namespace Sylar.Scheduler

open Sylar.Library

variable {n : Nat}

/-! ### In a list -/

/-- The callbacks in the list that the worker is filling, or about to schedule. -/
def Pc.given : Pc → List Callback
  | .tickling _ after => after.given
  | .idle (.listed cbs _) => cbs.filterMap id
  | .top | .dispatch _ | .task .. | .idle _ | .exited => []

@[simp] theorem Pc.given_tickleIf (needTickle : Bool) (after : Pc) :
    (tickleIf needTickle after).given = after.given := by
  cases needTickle <;> rfl

/-- How often the callback is in the workers' lists. -/
def Pool.given (p : Pool n) (c : Callback) : Nat := ∑ w, (p.pc w).given.count c

/-- One member of a family moves. -/
theorem sum_update_add {ι α : Type} [Fintype ι] [DecidableEq ι] (g : α → Nat) (f : ι → α) (i : ι)
    (a : α) : ∑ j, g (Function.update f i a j) + g (f i) = ∑ j, g (f j) + g a := by
  have moved : (fun j => g (Function.update f i a j)) =
      Function.update (fun j => g (f j)) i (g a) :=
    funext fun j => Function.apply_update (fun _ => g) f i a j
  rw [moved, Finset.sum_update_of_mem (Finset.mem_univ i),
    Finset.sum_eq_add_sum_sdiff_singleton_of_mem (Finset.mem_univ i) fun j => g (f j)]
  omega

/-- A worker moves. -/
theorem given_update {p p' : Pool n} {c : Callback} {w : Fin n} {pc : Pc}
    (moved : p'.pc = Function.update p.pc w pc) :
    p'.given c + (p.pc w).given.count c = p.given c + pc.given.count c := by
  unfold Pool.given
  rw [moved]
  exact sum_update_add (fun pc => pc.given.count c) p.pc w pc

/-- A worker moves with its list. -/
theorem given_goto {p p' : Pool n} {c : Callback} {w : Fin n} {pc : Pc}
    (moved : p'.pc = Function.update p.pc w pc) (same : pc.given = (p.pc w).given) :
    p'.given c = p.given c := by
  have update := given_update (c := c) moved
  rw [same] at update
  omega

/-! ### The steps -/

/-- **A step that does not fill a list** schedules one, or leaves them all as they are. -/
theorem given_of_move {s : Clocked n} {event : Event n} {p' : Pool n}
    (move : Move s.run.pool event p') (fills : event.fills = false) (c : Callback) :
    ((s.run.pool.enqueues event).filterMap callbackOf).count c + p'.given c =
      (s.enqueued event).count c + s.run.pool.given c := by
  -- a worker that has no list moves
  have quiet {w : Fin n} {pc : Pc} (moved : p'.pc = Function.update s.run.pool.pc w pc)
      (same : pc.given = (s.run.pool.pc w).given)
      (enqueues : (s.run.pool.enqueues event).filterMap callbackOf = s.enqueued event) :
      ((s.run.pool.enqueues event).filterMap callbackOf).count c + p'.given c =
        (s.enqueued event).count c + s.run.pool.given c := by
    rw [enqueues, given_goto moved same]
  -- a worker schedules its list
  have schedules {w : Fin n} {pc : Pc} {cbs : List (Option Callback)}
      (moved : p'.pc = Function.update s.run.pool.pc w pc) (work : event = .work w)
      (from' : s.run.pool.pc w = .idle (.listed cbs 0)) (nothing : pc.given = []) :
      ((s.run.pool.enqueues event).filterMap callbackOf).count c + p'.given c =
        (s.enqueued event).count c + s.run.pool.given c := by
    subst work
    have update := given_update (c := c) moved
    have whole : (cbs.map FiberOrCb.cb).filterMap callbackOf = (s.run.pool.pc w).given := by
      rw [from', List.filterMap_map]
      rfl
    rw [nothing] at update
    simp only [Pool.enqueues, from', Clocked.enqueued]
    rw [whole, Nat.add_comm, update, Nat.add_comm]
  cases move
  case expire | rearm => cases fills
  case scheduleCbs w cbs from' =>
    exact schedules rfl rfl from' (Pc.given_tickleIf _ _)
  case drain | addTimer | cancelTimer | addEvent | delEvent | schedule | scheduleBatch |
      testTickleNone | testTickleSome | writeTickle | testOtherNone | testOtherSome | writeOther |
      newFiber | stop => rfl
  case exit w ft from' nothing _ | idle w ft from' nothing _ =>
    rcases nothing with rfl | rfl <;>
      exact quiet rfl (by rw [from']; rfl) (by simp [Pool.enqueues, from', Clocked.enqueued])
  case leave from' _ _ | wake from' | swapOut from' | trigger from' _ =>
    exact quiet rfl (by rw [from']; simp [Pc.given]) rfl
  case write from' | count from' | save from' | uncount from' | hold from' |
      someTimer from' | somePending from' | stays from' | block from' | endTrigger from' |
      endIdle from' | testNone from' _ | testSome from' _ | skip from' _ | choose from' _ |
      enter from' _ | switch from' _ | scan from' _ | renew from' _ |
      readReady from' _ | readOver from' _ | readFinished from' _ | readOther from' _ |
      reset from' _ | noTimer from' _ | noPending from' _ | stops from' _ | reuse from' _ _ |
      reschedule from' =>
    exact quiet rfl (by rw [from']; simp [Pc.given])
      (by simp [Pool.enqueues, from', Clocked.enqueued])

/-- What `list_expired_cbs` has handed out. -/
def Clocked.handed (s : Clocked n) : List Callback := s.expiry.handed.filterMap Timers.Handout.cb

/-- **What is handed out is in a list, or in the queue with what the others put there.** -/
def Balanced (s : Clocked n) : Prop :=
  ∀ c, s.run.enqueued.count c + s.run.pool.given c = s.others.count c + s.handed.count c

section Balance

variable {s s' : Clocked n} {expiry : Timers.Expiry n} {w : Fin n}

/-- Nothing is handed out, and nobody's list changes. -/
theorem Balanced.still (balanced : Balanced s) (handed : expiry.handed = s.expiry.handed) :
    Balanced (s.withExpiry expiry) := by
  intro c
  show s.run.enqueued.count c + s.run.pool.given c =
    s.others.count c + (expiry.handed.filterMap Timers.Handout.cb).count c
  rw [handed]
  exact balanced c

/-- A step of `list_expired_cbs` that hands nothing out. -/
theorem Balanced.quiet (balanced : Balanced s) (handed : expiry.handed = s.expiry.handed) {pc : Pc}
    (same : pc.given = (s.pc w).given) : Balanced ((s.withExpiry expiry).goto w pc) := by
  intro c
  have given : ((s.withExpiry expiry).goto w pc).run.pool.given c = s.run.pool.given c :=
    given_goto rfl same
  rw [given]
  exact balanced.still handed c

/-- The read section hands nothing out. -/
theorem handed_of_test (stepped : s.expiry.next (.test w) = some expiry) :
    expiry.handed = s.expiry.handed := by
  cases Timers.Expiry.move_of_next stepped with
  | test => rfl

/-- **What is handed out goes into the list.** -/
theorem Balanced.hands (balanced : Balanced s) {new : List Timers.Handout}
    (handed : expiry.handed = s.expiry.handed ++ new) {pc : Pc}
    (grows : pc.given = (s.pc w).given ++ (new.map Timers.Handout.cb).filterMap id) :
    Balanced ((s.withExpiry expiry).goto w pc) := by
  intro c
  have before := balanced c
  have given : ((s.withExpiry expiry).goto w pc).run.pool.given c + (s.pc w).given.count c =
      s.run.pool.given c + pc.given.count c := given_update rfl
  rw [grows, List.count_append, List.filterMap_map, Function.id_comp] at given
  unfold Clocked.handed at before ⊢
  show s.run.enqueued.count c + _ = s.others.count c +
    (expiry.handed.filterMap Timers.Handout.cb).count c
  rw [handed, List.filterMap_append, List.count_append]
  omega

/-- **Every step keeps the balance.** -/
theorem Balanced.next (balanced : Balanced s) (follows : Follows s) {event : ClockEvent n}
    (stepped : s.next event = some s') : Balanced s' := by
  cases Clocked.move_of_next stepped with
  | pool untimed ran =>
    obtain ⟨p, move, rfl⟩ := trackedStep_cases ran
    intro c
    have before := balanced c
    have moved := given_of_move move (Clocked.fills_of_untimed untimed) c
    show (s.run.enqueued ++ _).count c + p.given c = (s.others ++ _).count c + s.handed.count c
    rw [List.count_append, List.count_append]
    omega
  | @ask w now from' =>
    intro c
    have before := balanced c
    have given : (s.goto w (.idle (if Timers.getNextTimeout s.expiry.manager now = ~~~0
        then .pending else .wait))).run.pool.given c = s.run.pool.given c := by
      refine given_goto rfl ?_
      rw [show s.run.pool.pc w = _ from from']
      split <;> rfl
    rw [given]
    exact before
  | list _ next =>
    refine balanced.still ?_
    cases Timers.Expiry.move_of_next next with
    | call => rfl
  | testNone from' next _ =>
    refine balanced.quiet (handed_of_test next) ?_
    rw [from']
    rfl
  | test _ next _ => exact balanced.still (handed_of_test next)
  | @expire w probe expiry from' next =>
    have new : ∃ new, expiry.handed = s.expiry.handed ++ new := by
      cases Timers.Expiry.move_of_next next with
      | @writeSection _ now _ seen fresh =>
        obtain ⟨done, rest, -, locked⟩ := Timers.writeSection_locked follows.owned w now fresh
        obtain ⟨new, handed, -⟩ := locked.handed
        exact ⟨new, handed⟩
    obtain ⟨new, handed⟩ := new
    refine balanced.hands handed ?_
    rw [from', Pc.given_tickleIf, Clocked.hands_of_next next handed]
    rfl
  | @push w cbs later expiry from' next =>
    have new : ∃ new, expiry.handed = s.expiry.handed ++ new := by
      cases Timers.Expiry.move_of_next next with
      | push => exact ⟨_, rfl⟩
    obtain ⟨new, handed⟩ := new
    refine balanced.hands handed ?_
    rw [from', Clocked.hands_of_next next handed]
    exact List.filterMap_append
  | finish from' next =>
    refine balanced.quiet ?_ ?_
    · cases Timers.Expiry.move_of_next next with
      | finish => rfl
    · rw [from', Pc.given_tickleIf]
  | @request w b f c expiry from' next =>
    have handed : expiry.handed = s.expiry.handed := by
      cases Timers.Expiry.move_of_next next with
      | request asked requested =>
        obtain ⟨m, -, rfl⟩ := Option.map_eq_some_iff.mp requested
        rfl
    exact fun c => balanced.still handed c

theorem balanced_of_reachable {meets : Clocked n → ClockEvent n → Prop}
    (reached : (clocked n).ReachableWhen meets s) : Balanced s := by
  have both : Follows s ∧ Balanced s := by
    refine reached.invariant (P := fun s => Follows s ∧ Balanced s) (fun s begins => ?_)
      fun s event s' both _ stepped => ⟨both.1.next stepped, both.2.next both.1 stepped⟩
    cases begins
    refine ⟨⟨Timers.Owned.initial n, rfl⟩, fun c => ?_⟩
    show 0 + ∑ w : Fin n, List.count c [] = 0
    simp
  exact both.2

end Balance

/-! ### Every run -/

section Runs

variable {s : Clocked n}

/-- Some callbacks to come. -/
theorem fits_replicate {good : Option Callback → Bool} (allowed : good (some 0) = true)
    (expiry : Timers.Expiry n) :
    Fits good expiry fun w => List.replicate (expiry.pc w).toPush.length (some 0) := fun w =>
  ⟨List.length_replicate, List.all_eq_true.mpr fun cb member => by
    rw [List.eq_of_mem_replicate member, allowed]⟩

/-- A one-shot timer is handed out once. -/
theorem handed_oneShot (owned : Timers.Owned s.expiry) {a : Timers.Address}
    (once : (s.expiry.manager.timer a).recurring = false) :
    (s.expiry.handed.countP fun h => h.timer = a) ≤ 1 := by
  rw [List.countP_eq_length_filter]
  have distinct : ((s.expiry.handed.filter fun h => h.timer = a).map
      Timers.Handout.removal).Nodup := owned.handedOnce.sublist (List.filter_sublist.map _)
  match content : s.expiry.handed.filter fun h => h.timer = a with
  | [] | [_] => simp [content]
  | h :: h' :: rest =>
    have mem : h ∈ s.expiry.handed.filter fun h => h.timer = a := content ▸ List.mem_cons_self
    have mem' : h' ∈ s.expiry.handed.filter fun h => h.timer = a :=
      content ▸ List.mem_cons_of_mem _ List.mem_cons_self
    simp only [List.mem_filter, decide_eq_true_eq] at mem mem'
    -- two handouts would share their removal
    have same := owned.oneShot_removal mem.1 mem'.1 (mem.2.trans mem'.2.symm) (mem.2 ▸ once)
    rw [content] at distinct
    simp [same] at distinct

/-- The conditions contain that fibers are handed over. -/
theorem meets_handOff {event : ClockEvent n} (meets : s.Meets OnceOk Option.isSome event) :
    s.Meets (fun t event => HandOff t.pool event) (fun _ => true) event := by
  cases event with
  | pool event => exact meets.1.1
  | ask w now => exact meets
  | expire | push => exact List.all_eq_true.mpr fun _ _ => rfl
  | _ => trivial

theorem called_le_handed (reached : (clocked n).ReachableWhen
    (Clocked.Meets (fun t event => HandOff t.pool event) fun _ => true) s) (c : Callback) :
    s.run.called.count c ≤ s.others.count c + s.handed.count c := by
  have done := completed_reachable admits_handOff reached (fits_replicate rfl s.expiry)
  calc s.run.called.count c ≤ s.run.enqueued.count c := count_called_le done c
    _ ≤ s.run.enqueued.count c + s.run.pool.given c := Nat.le_add_right _ _
    _ = s.others.count c + s.handed.count c := balanced_of_reachable reached c

/-- **From the set to the call.** Where fibers are handed over, what `list_expired_cbs` hands out and
the others schedule is called at most once for each time, and the callback of a one-shot timer alone
at most once; where they are reused only when finished, and what the others enqueue is served,
everything has been called when the workers are gone. -/
theorem timer_callbacks_once :
    (∀ s : Clocked n, (clocked n).ReachableWhen
        (Clocked.Meets (fun t event => HandOff t.pool event) fun _ => true) s →
      (∀ c, s.run.called.count c ≤ s.others.count c + s.handed.count c) ∧
      ∀ a c, (s.expiry.manager.timer a).recurring = false →
        (∀ h ∈ s.expiry.handed, h.cb = some c → h.timer = a) → c ∉ s.others →
          s.run.called.count c ≤ 1) ∧
    ∀ s : Clocked n, (clocked n).ReachableWhen (Clocked.Meets OnceOk Option.isSome) s →
      (∀ w, s.pc w = .exited) → s.run.called.Perm (s.others ++ s.handed) := by
  refine ⟨fun s reached => ⟨called_le_handed reached, fun a c once alone absent => ?_⟩,
    fun s reached gone => ?_⟩
  · have bound := called_le_handed reached c
    have handed : s.handed.count c ≤ 1 := by
      unfold Clocked.handed
      rw [List.count_filterMap]
      refine (List.countP_mono_left fun h member named => ?_).trans
        (handed_oneShot (follows_of_reachable reached).owned once)
      exact decide_eq_true (alone h member (eq_of_beq named))
    rw [List.count_eq_zero_of_not_mem absent] at bound
    omega
  · have done := completed_reachable admits_once reached (fits_replicate rfl s.expiry)
    have called := called_perm_of_gone done fun w => by
      show (s.pc w).completed _ _ = _
      rw [gone w]
      rfl
    refine called.trans (List.perm_iff_count.mpr fun c => ?_)
    have balance := balanced_of_reachable reached c
    have nothing : s.run.pool.given c = 0 := by
      unfold Pool.given
      refine Finset.sum_eq_zero fun w _ => ?_
      rw [show s.run.pool.pc w = .exited from gone w]
      rfl
    rw [nothing] at balance
    rw [List.count_append]
    exact balance

end Runs

/-- A task adds a one-shot timer; its callback is called, and the worker goes. -/
def addsOne : List (ClockEvent 1) :=
  List.flatten
    [[.pool (.schedule (.cb (some 7)) (-1))], List.replicate 5 (.pool (.work 0)),
      [.request 0 (.addTimer 3 0 10 (some 1) false), .pool (.leave 0 .term)],
      List.replicate 6 (.pool (.work 0)),
      [.ask 0 5, .pool (.work 0), .pool (.wake 0), .list 0 25, .test 0, .expire 0 9],
      List.replicate 3 (.pool (.work 0)), [.pool (.swapOut 0)],
      List.replicate 6 (.pool (.work 0)), [.pool (.leave 0 .term)],
      List.replicate 6 (.pool (.work 0)), [.pool .stop, .ask 0 30],
      List.replicate 5 (.pool (.work 0))]

theorem timer_callbacks_once_addsOne :
    ∃ s : Clocked 1, (clocked 1).ReachableWhen (Clocked.Meets OnceOk Option.isSome) s ∧
      s.others = [7] ∧ s.handed = [1] ∧ s.run.called.Perm [7, 1] ∧ s.run.called.count 1 ≤ 1 := by
  have run : ∃ s, (clocked 1).ReachableWhen (Clocked.Meets OnceOk Option.isSome) s ∧
      decide (s.pc 0 = .exited ∧ s.others = [7] ∧ s.handed = [1] ∧
        (s.expiry.manager.timer 3).recurring = false ∧
        s.expiry.handed.all fun h => h.timer = 3) = true :=
    Machine.reachableWhen_of_replay rfl addsOne _ (by decide +kernel)
  obtain ⟨s, reached, check⟩ := run
  obtain ⟨gone, others, handed, once, alone⟩ := of_decide_eq_true check
  refine ⟨s, reached, others, handed, ?_, ?_⟩
  · have called := timer_callbacks_once.2 s reached fun w => by rwa [Fin.fin_one_eq_zero w]
    rwa [others, handed] at called
  · refine (timer_callbacks_once.1 s (reached.mono fun s event => meets_handOff)).2 3 1 once
      (fun h member _ => of_decide_eq_true (List.all_eq_true.mp alone h member)) ?_
    rw [others]
    decide

end Sylar.Scheduler
