/-
**The task queue: `schedule_no_lock`, `schedule`, and the scan of `run()`.**

* `scheduleNoLock`, `scheduleAll` — one task, and a batch; both say whether to tickle.
* `scan` — the walk of `run()` over `m_fibers` under the lock: it skips what is pinned to another
  thread and what is being executed, and takes the first other entry.
* `Scanned`, `scan_scanned` — **what a scan takes and what it leaves**: unless it says to tickle,
  nothing that it leaves can be run.
-/

import Sylar.Fiber
import Mathlib.Data.List.Basic

namespace Sylar.Scheduler

/-- `Fiber_and_Thread`; `thread = -1` is any thread. -/
structure FiberAndThread where
  fiberOrCb : FiberOrCb
  thread : Int
deriving DecidableEq

/-- `schedule_no_lock`: the queue after it, and `need_tickle`. -/
def scheduleNoLock (fibers : List FiberAndThread) (fc : FiberOrCb) (thread : Int) :
    List FiberAndThread × Bool :=
  (fibers ++ [⟨fc, thread⟩], fibers.isEmpty)

/-- `schedule(begin, end)` under its lock. -/
def scheduleAll (fibers : List FiberAndThread) : List FiberOrCb → List FiberAndThread × Bool
  | [] => (fibers, false)
  | fc :: rest =>
      let one := scheduleNoLock fibers fc (-1)
      let later := scheduleAll one.1 rest
      (later.1, one.2 || later.2)

/-- May this thread take the entry, as far as the pinning goes? -/
def FiberAndThread.allows (it : FiberAndThread) (self : Int) : Prop :=
  it.thread = -1 ∨ it.thread = self

instance (it : FiberAndThread) (self : Int) : Decidable (it.allows self) :=
  inferInstanceAs (Decidable (_ ∨ _))

/-- The scan of `run()` by the thread `self`: what it takes (the empty function if nothing), what it
leaves, and `tickle_me`. `none` is the null fiber. -/
def scan (state : FiberId → State) (self : Int) :
    List FiberAndThread → Option (FiberOrCb × List FiberAndThread × Bool)
  | [] => some (.cb none, [], false)
  | it :: rest =>
      if it.allows self then
        match it.fiberOrCb with
        | .fiber none => none
        | .fiber (some f) =>
            if state f = .exec then
              (scan state self rest).map fun (ft, left, tickleMe) => (ft, it :: left, tickleMe)
            else some (it.fiberOrCb, rest, !rest.isEmpty)
        | .cb _ => some (it.fiberOrCb, rest, !rest.isEmpty)
      else (scan state self rest).map fun (ft, left, _) => (ft, it :: left, true)

/-! ### What a batch does -/

/-- A batch is appended, and needs a tickle if the queue was empty. -/
theorem scheduleAll_eq (fibers : List FiberAndThread) (fcs : List FiberOrCb) :
    scheduleAll fibers fcs =
      (fibers ++ fcs.map fun fc => ⟨fc, -1⟩, fibers.isEmpty && !fcs.isEmpty) := by
  induction fcs generalizing fibers with
  | nil => simp [scheduleAll]
  | cons fc rest ih => simp [scheduleAll, scheduleNoLock, ih]

/-! ### What a scan does -/

/-- An entry this thread could run: allowed to it, and not a fiber that is being executed. -/
def FiberAndThread.runnable (state : FiberId → State) (it : FiberAndThread) : Prop :=
  ∀ f, it.fiberOrCb = .fiber (some f) → state f ≠ .exec

instance (state : FiberId → State) (it : FiberAndThread) : Decidable (it.runnable state) :=
  match content : it.fiberOrCb with
  | .fiber (some f) =>
      decidable_of_iff (state f ≠ .exec) (by simp [FiberAndThread.runnable, content])
  | .fiber none => isTrue (by simp [FiberAndThread.runnable, content])
  | .cb _ => isTrue (by simp [FiberAndThread.runnable, content])

/-- **What a scan takes and what it leaves**: the rest stays, in its order; a fiber that is taken is
in the queue and not being executed; and unless it says to tickle, nothing left can be run. -/
structure Scanned (state : FiberId → State) (fibers : List FiberAndThread) (ft : FiberOrCb)
    (left : List FiberAndThread) (tickleMe : Bool) : Prop where
  rest : left.Sublist fibers
  taken : ∀ f, ft = .fiber f → ∃ g, f = some g ∧ state g ≠ .exec ∧ ∃ it ∈ fibers, it.fiberOrCb = ft
  told : tickleMe = true ∨ ∀ it ∈ left, ¬ it.runnable state

/-- Taking the first entry. -/
theorem Scanned.take {state : FiberId → State} {it : FiberAndThread} (rest : List FiberAndThread)
    (runnable : ∀ f, it.fiberOrCb = .fiber f → ∃ g, f = some g ∧ state g ≠ .exec) :
    Scanned state (it :: rest) it.fiberOrCb rest (!rest.isEmpty) where
  rest := List.sublist_cons_self it rest
  taken f isFiber := by
    obtain ⟨g, same, notExec⟩ := runnable f isFiber
    exact ⟨g, same, notExec, it, List.mem_cons_self, rfl⟩
  told := by
    cases rest with
    | nil => exact Or.inr nofun
    | cons _ _ => exact Or.inl rfl

/-- Skipping the first entry. -/
theorem Scanned.skip {state : FiberId → State} {it : FiberAndThread}
    {rest left : List FiberAndThread} {ft : FiberOrCb} {tickleMe told : Bool}
    (scanned : Scanned state rest ft left tickleMe)
    (why : told = true ∨ (told = tickleMe ∧ ¬ it.runnable state)) :
    Scanned state (it :: rest) ft (it :: left) told where
  rest := scanned.rest.cons_cons it
  taken f isFiber := by
    obtain ⟨g, same, notExec, entry, member, content⟩ := scanned.taken f isFiber
    exact ⟨g, same, notExec, entry, List.mem_cons_of_mem _ member, content⟩
  told := by
    rcases why with told | ⟨rfl, stuck⟩
    · exact Or.inl told
    · refine scanned.told.imp_right fun none entry member => ?_
      rcases List.mem_cons.mp member with rfl | member
      · exact stuck
      · exact none entry member

theorem scan_scanned {state : FiberId → State} {self : Int} {fibers left : List FiberAndThread}
    {ft : FiberOrCb} {tickleMe : Bool}
    (scanned : scan state self fibers = some (ft, left, tickleMe)) :
    Scanned state fibers ft left tickleMe := by
  induction fibers generalizing ft left tickleMe with
  | nil =>
    cases scanned
    exact ⟨List.Sublist.refl _, nofun, Or.inr nofun⟩
  | cons it rest ih =>
    unfold scan at scanned
    split at scanned
    next =>
      split at scanned
      next => cases scanned
      next f isFiber =>
        split at scanned
        next exec =>
          obtain ⟨⟨ft', left', tickleMe'⟩, later, same⟩ := Option.map_eq_some_iff.mp scanned
          cases same
          exact (ih later).skip (Or.inr ⟨rfl, fun runnable => runnable f isFiber exec⟩)
        next notExec =>
          cases scanned
          refine Scanned.take rest fun g isFiber' => ⟨f, ?_, notExec⟩
          rw [isFiber] at isFiber'
          exact (FiberOrCb.fiber.inj isFiber').symm
      next c isCb =>
        cases scanned
        refine Scanned.take rest fun g isFiber => ?_
        rw [isCb] at isFiber
        cases isFiber
    next =>
      obtain ⟨⟨ft', left', tickleMe'⟩, later, same⟩ := Option.map_eq_some_iff.mp scanned
      cases same
      exact (ih later).skip (Or.inl rfl)

/-- A fiber that a scan takes is in the queue and not being executed. -/
theorem Scanned.names {state : FiberId → State} {fibers left : List FiberAndThread}
    {ft : FiberOrCb} {tickleMe : Bool} (scanned : Scanned state fibers ft left tickleMe)
    {f : FiberId} (names : ft.names = some f) :
    state f ≠ .exec ∧ ∃ it ∈ fibers, it.fiberOrCb.names = some f := by
  match ft, names with
  | .fiber (some _), rfl =>
    obtain ⟨g, same, notExec, it, member, content⟩ := scanned.taken _ rfl
    cases same
    exact ⟨notExec, it, member, by rw [content]; rfl⟩

end Sylar.Scheduler
