/-
**What becomes of a timer whose handle only one caller has.**

A caller that keeps a `Timer::ptr` to itself relies on this: calls on other timers leave its timer
alone, and `list_expired_cbs` takes a timer that is not recurring out for good, when it is due.

* `step_other` — **a call on another timer** changes neither the object nor its place in the set.
* `cb_of_step` — no call but `add_timer` gives a timer a callback.
* `oneShot_listExpiredCbs`, `mem_listExpiredCbs` — what the whole of `list_expired_cbs` does to a
  timer, and what it hands out.
-/

import Sylar.Timers.Invariant

namespace Sylar.Timers

open Sylar.Library

variable {m m' : TimerManager}

/-- The timer a call is made on, or makes. -/
def Call.handle : Call → Option Address
  | .addTimer a _ _ _ _ | .cancel a | .refresh a _ | .reset a _ _ _ => some a
  | .listExpiredCbs _ _ => none

/-! ### Calls on one timer -/

/-- Every call keeps the set in order. -/
theorem Placed.step {c : Call} (placed : Placed m []) (stepped : step m c = some m') :
    Placed m' [] := by
  cases c with
  | addTimer a now ms cb recurring =>
    obtain ⟨fresh, same⟩ := Option.ite_none_left_eq_some.mp stepped
    exact Option.some.inj same ▸ placed.addTimer fresh now ms cb recurring
  | cancel a =>
    obtain ⟨-, same⟩ := Option.ite_none_right_eq_some.mp stepped
    exact Option.some.inj same ▸ placed.cancel a
  | refresh a now =>
    obtain ⟨-, same⟩ := Option.ite_none_right_eq_some.mp stepped
    exact Option.some.inj same ▸ placed.refresh a now
  | reset a now ms fromNow =>
    obtain ⟨-, same⟩ := Option.ite_none_right_eq_some.mp stepped
    exact Option.some.inj same ▸ placed.reset a now ms fromNow
  | listExpiredCbs now probe =>
    obtain ⟨-, same⟩ := Option.ite_none_left_eq_some.mp stepped
    exact Option.some.inj same ▸ placed.listExpiredCbs now probe

/-- What a call on a timer can do. -/
inductive Effect (m m' : TimerManager) (a : Address) : Prop
  | made (t : Timer) (fresh : a ∉ m.created)
      (same : m' = (insertTimer { m.write a t with created := a :: m.created } a).1)
  | disarmed (same : m' = disarm m a)
  | rekeyed (t : Timer) (inside : a ∈ m.timers) (cb : t.cb = (m.timer a).cb)
      (same : m' = rekey m a t)
  | nothing (same : m' = m)

/-- **What each call does.** -/
theorem effect_of_step {c : Call} {a : Address} (placed : Placed m [])
    (stepped : step m c = some m') (handle : c.handle = some a) : Effect m m' a := by
  cases c with
  | addTimer b now ms cb recurring =>
    cases handle
    obtain ⟨fresh, same⟩ := Option.ite_none_left_eq_some.mp stepped
    cases same
    exact .made _ fresh rfl
  | cancel b =>
    cases handle
    obtain ⟨-, same⟩ := Option.ite_none_right_eq_some.mp stepped
    cases same
    rw [cancel_eq placed.sorted]
    split
    · exact .nothing rfl
    · exact .disarmed rfl
  | refresh b now =>
    cases handle
    obtain ⟨-, same⟩ := Option.ite_none_right_eq_some.mp stepped
    cases same
    rw [refresh_eq placed.sorted]
    split
    next => exact .nothing rfl
    next armed =>
      rw [not_or, not_not] at armed
      exact .rekeyed { m.timer a with next := now + (m.timer a).ms } armed.2 rfl rfl
  | reset b now ms fromNow =>
    cases handle
    obtain ⟨-, same⟩ := Option.ite_none_right_eq_some.mp stepped
    cases same
    rw [reset_eq placed.sorted]
    split
    next => exact .nothing rfl
    next =>
      split
      next => exact .nothing rfl
      next inside =>
        exact .rekeyed { m.timer a with next := resetNext (m.timer a) now ms fromNow, ms }
          (not_not.mp inside) rfl rfl
  | listExpiredCbs => cases handle

/-- **A call on another timer leaves a timer alone.** -/
theorem Effect.other {a b : Address} (placed : Placed m []) (effect : Effect m m' a)
    (other : b ≠ a) : m'.timer b = m.timer b ∧ (b ∈ m'.timers ↔ b ∈ m.timers) := by
  cases effect with
  | made t fresh same =>
    subst same
    refine ⟨write_timer_of_ne other t, mem_insertTimer.trans ?_⟩
    exact or_iff_right other
  | disarmed same =>
    subst same
    refine ⟨?_, placed.sorted.mem_disarm.trans (and_iff_right other)⟩
    rw [disarm_timer, Function.update_of_ne other]
  | rekeyed t inside cb same =>
    subst same
    refine ⟨?_, placed.sorted.mem_rekey.trans (or_iff_right other)⟩
    rw [rekey_timer, Function.update_of_ne other]
  | nothing same =>
    subst same
    exact ⟨rfl, Iff.rfl⟩

/-- The same, of a call. -/
theorem step_other {c : Call} {a : Address} (placed : Placed m []) (stepped : step m c = some m')
    (handled : c.handle ≠ none) (other : c.handle ≠ some a) :
    m'.timer a = m.timer a ∧ (a ∈ m'.timers ↔ a ∈ m.timers) := by
  obtain ⟨b, handle⟩ := Option.ne_none_iff_exists'.mp handled
  refine (effect_of_step placed stepped handle).other placed ?_
  rintro rfl
  exact other handle

/-- **Only `add_timer` gives a timer a callback.** -/
theorem cb_of_step {c : Call} {b : Address} {k : Callback} (placed : Placed m [])
    (stepped : step m c = some m') (handled : c.handle ≠ none) (cb : (m'.timer b).cb = some k) :
    (m.timer b).cb = some k ∨ ∃ now ms recurring, c = .addTimer b now ms (some k) recurring := by
  rcases eq_or_ne (c.handle) (some b) with handle | other
  · cases c with
    | addTimer a now ms given recurring =>
      cases handle
      obtain ⟨-, same⟩ := Option.ite_none_left_eq_some.mp stepped
      cases same
      refine Or.inr ⟨now, ms, recurring, ?_⟩
      rw [addTimer, insertTimer_timer, write_timer_self] at cb
      rw [show given = some k from cb]
    | cancel a | refresh a _ | reset a _ _ _ =>
      cases effect_of_step placed stepped handle with
      | made t fresh same =>
        obtain ⟨made, -⟩ := Option.ite_none_right_eq_some.mp stepped
        cases handle
        exact absurd made fresh
      | disarmed same =>
        subst same
        rw [disarm_timer, Function.update_self] at cb
        cases cb
      | rekeyed t inside keeps same =>
        subst same
        rw [rekey_timer, Function.update_self, keeps] at cb
        exact Or.inl cb
      | nothing same =>
        subst same
        exact Or.inl cb
    | listExpiredCbs => exact absurd rfl handled
  · rw [(step_other placed stepped handled other).1] at cb
    exact Or.inl cb

/-! ### The expiry loop -/

section Loop

variable {now : UInt64} {batch : List Address} {a b : Address} {k : Callback}

theorem finishExpired_cb (cb : ((finishExpired m now a).timer b).cb = some k) :
    (m.timer b).cb = some k := by
  rcases eq_or_ne b a with rfl | other
  · rw [finishExpired_timer, Function.update_self, finished] at cb
    split at cb
    · exact cb
    · cases cb
  · rw [finishExpired_timer_of_ne other] at cb
    exact cb

/-- A timer that is not recurring keeps its due time and is not put back. -/
theorem finishExpired_oneShot (now : UInt64) (a : Address)
    (oneShot : (m.timer b).recurring = false) :
    ((finishExpired m now a).timer b).next = (m.timer b).next ∧
      (b ∈ (finishExpired m now a).timers → b ∈ m.timers) := by
  constructor
  · rcases eq_or_ne b a with rfl | other
    · rw [finishExpired_timer, Function.update_self, finished, if_neg (by simp [oneShot])]
    · rw [finishExpired_timer_of_ne other]
  · intro inside
    refine (mem_timers_finishExpired.mp inside).resolve_right fun again => ?_
    exact Bool.false_ne_true (oneShot.symm.trans again.2)

@[simp] theorem expireAll_recurring (m : TimerManager) (now : UInt64) (batch : List Address)
    (b : Address) : ((expireAll now batch m).1.timer b).recurring = (m.timer b).recurring := by
  induction batch generalizing m with
  | nil => rfl
  | cons a rest ih => exact (ih _).trans (finishExpired_recurring m now a b)

@[simp] theorem expireAll_created (m : TimerManager) (now : UInt64) (batch : List Address) :
    (expireAll now batch m).1.created = m.created := by
  induction batch generalizing m with
  | nil => rfl
  | cons a rest ih => exact (ih _).trans (finishExpired_created m now a)

theorem expireAll_cb (cb : ((expireAll now batch m).1.timer b).cb = some k) :
    (m.timer b).cb = some k := by
  induction batch generalizing m with
  | nil => exact cb
  | cons a rest ih => exact finishExpired_cb (ih cb)

/-- Only the timers of the batch are written. -/
theorem expireAll_timer_of_not_mem (out : b ∉ batch) :
    (expireAll now batch m).1.timer b = m.timer b := by
  induction batch generalizing m with
  | nil => rfl
  | cons a rest ih =>
    obtain ⟨other, out⟩ := not_or.mp (mt List.mem_cons.mpr out)
    exact (ih out).trans (finishExpired_timer_of_ne other)

theorem expireAll_oneShot (now : UInt64) (batch : List Address)
    (oneShot : (m.timer b).recurring = false) :
    ((expireAll now batch m).1.timer b).next = (m.timer b).next ∧
      (b ∈ (expireAll now batch m).1.timers → b ∈ m.timers) := by
  induction batch generalizing m with
  | nil => exact ⟨rfl, id⟩
  | cons a rest ih =>
    obtain ⟨next, stays⟩ := finishExpired_oneShot now a oneShot
    obtain ⟨nexts, stay⟩ := ih ((finishExpired_recurring m now a b).trans oneShot)
    exact ⟨nexts.trans next, fun member => stays (stay member)⟩

/-- **What the loop hands out are callbacks of the batch.** -/
theorem mem_expireAll (handed : some k ∈ (expireAll now batch m).2) :
    ∃ b ∈ batch, (m.timer b).cb = some k := by
  induction batch generalizing m with
  | nil => cases handed
  | cons a rest ih =>
    rcases List.mem_cons.mp handed with here | later
    · exact ⟨a, List.mem_cons_self, here.symm⟩
    · obtain ⟨b, member, cb⟩ := ih later
      exact ⟨b, List.mem_cons_of_mem a member, finishExpired_cb cb⟩

end Loop

/-! ### The whole of `list_expired_cbs` -/

section ListExpired

variable {now : UInt64} {probe b : Address} {k : Callback}

theorem listExpiredCbs_recurring (m : TimerManager) (now : UInt64) (probe b : Address) :
    ((listExpiredCbs m now probe).1.timer b).recurring = (m.timer b).recurring :=
  expireAll_recurring _ now _ b

theorem listExpiredCbs_created (m : TimerManager) (now : UInt64) (probe : Address) :
    (listExpiredCbs m now probe).1.created = m.created := expireAll_created _ now _

/-- No call forgets an address. -/
theorem created_of_step {c : Call} (placed : Placed m []) (stepped : step m c = some m') :
    m.created ⊆ m'.created := by
  cases handle : c.handle with
  | some b =>
    cases effect_of_step placed stepped handle with
    | made t fresh same => exact same ▸ List.subset_cons_self b m.created
    | disarmed same | rekeyed t inside cb same | nothing same => exact same ▸ List.Subset.refl _
  | none =>
    cases c with
    | listExpiredCbs now probe =>
      obtain ⟨-, same⟩ := Option.ite_none_left_eq_some.mp stepped
      cases same
      rw [listExpiredCbs_created]
      exact List.Subset.refl _
    | addTimer | cancel | refresh | reset => cases handle

theorem listExpiredCbs_cb (cb : ((listExpiredCbs m now probe).1.timer b).cb = some k) :
    (m.timer b).cb = some k :=
  expireAll_cb (m := { m with timers := (expiredTimers m now probe).2 }) cb

/-- **A timer that is not recurring** keeps its due time; if it is still in the set, nothing has
happened to it. -/
theorem oneShot_listExpiredCbs (placed : Placed m []) (oneShot : (m.timer b).recurring = false) :
    ((listExpiredCbs m now probe).1.timer b).next = (m.timer b).next ∧
      (b ∈ (listExpiredCbs m now probe).1.timers →
        b ∈ m.timers ∧ (listExpiredCbs m now probe).1.timer b = m.timer b) := by
  obtain ⟨next, stays⟩ := expireAll_oneShot
    (m := { m with timers := (expiredTimers m now probe).2 }) now (expiredTimers m now probe).1 oneShot
  refine ⟨next, fun member => ?_⟩
  have left : b ∈ (expiredTimers m now probe).2 := stays member
  have nodup := placed.sorted.nodup_expiredTimers now probe
  constructor
  · exact mem_timers_of_left left
  · exact expireAll_timer_of_not_mem fun inside => nodup.2.2 inside left

/-- **What is handed out belongs to a timer that is due.** -/
theorem mem_listExpiredCbs (placed : Placed m []) (fresh : probe ∉ m.created)
    (handed : some k ∈ (listExpiredCbs m now probe).2) :
    ∃ b, (m.timer b).cb = some k ∧ (m.timer b).next ≤ now := by
  obtain ⟨b, member, cb⟩ := mem_expireAll handed
  have outside : probe ∉ m.timers := fun inside => fresh (placed.known probe (Or.inr inside))
  exact ⟨b, cb, expiredTimers_due outside member⟩

end ListExpired

end Sylar.Timers
