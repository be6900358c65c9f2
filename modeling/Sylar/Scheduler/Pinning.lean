/-
**Whether a task stays on the thread it is pinned to.**

The pin is in the queue entry, and not in the fiber: when `run()` gets a fiber back that is `READY`,
it calls `schedule(fiber)` without a thread, in both of its branches. `Pinning` runs the pool and
keeps, beside every entry and in every worker's hand, the thread that the task was scheduled for.

* `Tagged` — an entry with the pin of its task; `Pinning.ran` — the segments, with the worker that
  ran each and the pin of the task.
* `tags_next` — the tagged queue is the queue of the pool.
* `Keeps` — the condition: a pinned task does not come back `READY` unless the worker is alone.
* `Faithful.next` — **under it every entry may be taken by the threads its task may run on**.
* `pinning_respected` — **under it every segment of a pinned task is run by its thread**;
  `pin_lost` — two workers, and a pinned task that yields once.
-/

import Sylar.Scheduler.Scan
import Sylar.Scheduler.Moves

namespace Sylar.Scheduler

open Sylar.Library

/-- An entry of the queue, with the thread that its task was scheduled for. -/
structure Tagged where
  item : FiberAndThread
  pin : Int
deriving DecidableEq

/-- The pool; beside it the tagged queue, the pin of what each worker has taken, and the segments
that were run, with the worker and the pin of the task. -/
structure Pinning (n : Nat) where
  pool : Pool n
  tags : List Tagged
  hand : Fin n → Int
  ran : List (Fin n × Int)

variable {n : Nat}

namespace Pinning

/-- The entry that a scan of the worker takes, if any. -/
def takes (s : Pinning n) (w : Fin n) (e : Tagged) : Bool :=
  e.item.takes s.pool.state (threadId w)

/-- Tasks for any thread. -/
def unpinned (fcs : List FiberOrCb) : List Tagged := fcs.map fun fc => ⟨⟨fc, -1⟩, -1⟩

/-- The tagged queue after a step. -/
def tagsAfter (s : Pinning n) : Event n → List Tagged
  | .work w =>
      match s.pool.pc w with
      | .top => s.tags.eraseP (s.takes w)
      | .task .rescheduling _ f => s.tags ++ [⟨⟨.fiber (some f), -1⟩, s.hand w⟩]
      | .idle (.listed cbs 0) => s.tags ++ unpinned (cbs.map .cb)
      | _ => s.tags
  | .trigger _ i => s.tags ++ unpinned (s.pool.contexts[i]?).toList
  | .schedule fc thread => s.tags ++ [⟨⟨fc, thread⟩, thread⟩]
  | .scheduleBatch fcs => s.tags ++ unpinned fcs
  | _ => s.tags

/-- What the workers have taken, after a step. -/
def handAfter (s : Pinning n) : Event n → Fin n → Int
  | .work w =>
      match s.pool.pc w with
      | .top => Function.update s.hand w ((s.tags.find? (s.takes w)).elim (-1) (·.pin))
      | _ => s.hand
  | _ => s.hand

/-- The segments, after a step: one begins where `swapIn` switches to the fiber. -/
def ranAfter (s : Pinning n) : Event n → List (Fin n × Int)
  | .work w =>
      match s.pool.pc w with
      | .task .entered _ _ => (w, s.hand w) :: s.ran
      | _ => s.ran
  | _ => s.ran

/-- One step of the pool. -/
def next (s : Pinning n) (event : Event n) : Option (Pinning n) :=
  (s.pool.next event).map fun pool =>
    { pool, tags := s.tagsAfter event, hand := s.handAfter event, ran := s.ranAfter event }

/-- **Every segment of a pinned task was run by its thread.** -/
def Respected (s : Pinning n) : Prop := ∀ r ∈ s.ran, r.2 ≠ -1 → threadId r.1 = r.2

instance (s : Pinning n) : Decidable s.Respected :=
  inferInstanceAs (Decidable (∀ r ∈ s.ran, _ → _))

/-- The condition on a step: a worker that gets back a pinned task that is `READY` is alone. -/
def Keeps (s : Pinning n) : Event n → Prop
  | .work w =>
      match s.pool.pc w with
      | .task .rescheduling _ _ => s.hand w = -1 ∨ n = 1
      | _ => True
  | _ => True

instance (s : Pinning n) : (event : Event n) → Decidable (s.Keeps event)
  | .work w => by
      unfold Keeps
      dsimp only
      split <;> infer_instance
  | .leave .. | .wake _ | .expire .. | .rearm .. | .drain _ | .trigger .. | .swapOut _
  | .addTimer .. | .cancelTimer _ | .addEvent .. | .delEvent .. | .schedule .. | .scheduleBatch _
  | .testTickle | .writeTickle | .testOther | .writeOther | .newFiber _ | .stop => isTrue trivial

end Pinning

/-- Runs of a pool, with the pins. -/
def pinning (n : Nat) : Machine (Pinning n) (Event n) :=
  ⟨fun s => s = ⟨Pool.initial n, [], fun _ => -1, []⟩, Pinning.next⟩

namespace Pinning

variable {s s' : Pinning n} {event : Event n}

/-! ### The tagged queue -/

theorem unpinned_map (fcs : List FiberOrCb) :
    (unpinned fcs).map (·.item) = fcs.map fun fc => ⟨fc, -1⟩ := by
  rw [unpinned, List.map_map]
  rfl

/-- A worker elsewhere leaves the tags alone. -/
theorem tagsAfter_work {w : Fin n} {pc : Pc} (from' : s.pool.pc w = pc) (top : pc ≠ .top)
    (back : ∀ b f, pc ≠ .task .rescheduling b f) (listed : ∀ cbs, pc ≠ .idle (.listed cbs 0)) :
    s.tagsAfter (.work w) = s.tags := by
  unfold tagsAfter
  dsimp only
  split
  next at' => exact absurd (from'.symm.trans at') top
  next b f at' => exact absurd (from'.symm.trans at') (back b f)
  next cbs at' => exact absurd (from'.symm.trans at') (listed cbs)
  next => rfl

/-- **The tagged queue is the queue of the pool.** -/
theorem tags_next {pool : Pool n} (content : s.tags.map (·.item) = s.pool.fibers)
    (move : Move s.pool event pool) : (s.tagsAfter event).map (·.item) = pool.fibers := by
  have queues := move.queues
  generalize pool.fibers = fibers at queues ⊢
  cases queues with
  | @scan w ft left tickleMe from' scanned =>
    have tags : s.tagsAfter (.work w) = s.tags.eraseP (s.takes w) := by simp only [tagsAfter, from']
    rw [tags, scan_left scanned, ← content, List.eraseP_map]
    rfl
  | reschedule from' =>
    simp only [tagsAfter, from', List.map_append, content]
    rfl
  | scheduleCbs from' =>
    simp only [tagsAfter, from', List.map_append, content, unpinned_map, List.map_map]
    rfl
  | trigger found =>
    simp only [tagsAfter, found, List.map_append, content, unpinned_map]
    rfl
  | schedule => simp only [tagsAfter, List.map_append, content, List.map_cons, List.map_nil]
  | scheduleBatch => simp only [tagsAfter, List.map_append, content, unpinned_map]
  | work from' top back listed => rw [tagsAfter_work from' top back listed, content]
  | other passes =>
    cases event with
    | work | trigger | schedule | scheduleBatch => cases passes
    | _ => exact content

/-! ### Pins and threads -/

/-- Who may take the entry may run the task: the pin is in the entry, or no worker is kept off. -/
def Tagged.honest (n : Nat) (e : Tagged) : Prop :=
  e.pin = e.item.thread ∨ ∀ w : Fin n, e.pin = -1 ∨ e.pin = threadId w

/-- **The invariant**: the entries are honest, and what a worker has taken is for any thread or for
its own. -/
structure Faithful (s : Pinning n) : Prop where
  content : s.tags.map (·.item) = s.pool.fibers
  honest : ∀ e ∈ s.tags, Tagged.honest n e
  hand : ∀ w, s.hand w = -1 ∨ s.hand w = threadId w
  ran : s.Respected

namespace Faithful

/-- An honest entry that a worker takes is for any thread or for its own. -/
theorem pin_of_takes {w : Fin n} {e : Tagged} (honest : Tagged.honest n e)
    (taken : s.takes w e = true) : e.pin = -1 ∨ e.pin = threadId w := by
  rcases honest with same | anyone
  · rw [same]
    exact (of_decide_eq_true taken).1
  · exact anyone w

theorem honest_append {more : List Tagged} (faithful : s.Faithful)
    (new : ∀ e ∈ more, Tagged.honest n e) : ∀ e ∈ s.tags ++ more, Tagged.honest n e :=
  List.forall_mem_append.mpr ⟨faithful.honest, new⟩

theorem honest_unpinned {fcs : List FiberOrCb} : ∀ e ∈ unpinned fcs, Tagged.honest n e := by
  intro e member
  obtain ⟨fc, -, rfl⟩ := List.mem_map.mp member
  exact .inl rfl

/-- What `run()` enqueues again is honest if the step meets the condition. -/
theorem honest_next (faithful : s.Faithful) (keeps : s.Keeps event) :
    ∀ e ∈ s.tagsAfter event, Tagged.honest n e := by
  cases event with
  | work w =>
    simp only [tagsAfter]
    split
    next => exact fun e member => faithful.honest e (List.eraseP_subset member)
    next b f back =>
      simp only [Keeps, back] at keeps
      refine faithful.honest_append fun e member => ?_
      rw [List.mem_singleton.mp member]
      rcases keeps with any | rfl
      · exact .inl any
      · -- the only worker is the one that has it
        exact .inr fun v => Subsingleton.elim w v ▸ faithful.hand w
    next => exact faithful.honest_append honest_unpinned
    next => exact faithful.honest
  | trigger w i => exact faithful.honest_append honest_unpinned
  | scheduleBatch fcs => exact faithful.honest_append honest_unpinned
  | schedule fc thread =>
    refine faithful.honest_append fun e member => ?_
    rw [List.mem_singleton.mp member]
    exact .inl rfl
  | _ => exact faithful.honest

/-- What a worker takes is for any thread or for its own. -/
theorem hand_next (faithful : s.Faithful) (event : Event n) :
    ∀ v, s.handAfter event v = -1 ∨ s.handAfter event v = threadId v := by
  intro v
  cases event with
  | work w =>
    cases from' : s.pool.pc w with
    | top =>
      simp only [handAfter, from']
      rcases eq_or_ne v w with rfl | other
      · rw [Function.update_self]
        cases found : s.tags.find? (s.takes v) with
        | none => exact .inl rfl
        | some e =>
          exact pin_of_takes (faithful.honest e (List.mem_of_find?_eq_some found))
            (List.find?_some found)
      · rw [Function.update_of_ne other]
        exact faithful.hand v
    | _ =>
      simp only [handAfter, from']
      exact faithful.hand v
  | _ => exact faithful.hand v

/-- A segment is run with what the worker has taken. -/
theorem ran_next (faithful : s.Faithful) (event : Event n) :
    ∀ r ∈ s.ranAfter event, r.2 ≠ -1 → threadId r.1 = r.2 := by
  cases event with
  | work w =>
    simp only [ranAfter]
    split
    next =>
      refine List.forall_mem_cons.mpr ⟨fun pinned => ?_, faithful.ran⟩
      exact ((faithful.hand w).resolve_left pinned).symm
    next => exact faithful.ran
  | _ => exact faithful.ran

/-- **A step that meets the condition keeps the invariant.** -/
theorem next (faithful : s.Faithful) (keeps : s.Keeps event)
    (stepped : s.next event = some s') : s'.Faithful := by
  obtain ⟨pool, ran, rfl⟩ := Option.map_eq_some_iff.mp stepped
  exact ⟨tags_next faithful.content (move_of_next ran), faithful.honest_next keeps,
    faithful.hand_next event, faithful.ran_next event⟩

theorem reachable (reached : (pinning n).ReachableWhen Keeps s) : s.Faithful := by
  refine reached.invariant ?_ fun _ _ _ faithful keeps stepped => faithful.next keeps stepped
  rintro _ rfl
  exact ⟨rfl, fun e member => absurd member List.not_mem_nil, fun _ => .inl rfl,
    fun r member => absurd member List.not_mem_nil⟩

end Faithful

end Pinning

/-- **Pins are respected in every run in which no pinned task comes back `READY`**, and in every run
of a single worker. -/
theorem pinning_respected (n : Nat) (s : Pinning n)
    (reached : (pinning n).ReachableWhen Pinning.Keeps s) : s.Respected :=
  (Pinning.Faithful.reachable reached).ran

/-- Worker 1 runs a callback pinned to it, while a fiber that anyone may run yields. -/
theorem pinning_respected_callback : ∃ s : Pinning 2, (pinning 2).ReachableWhen Pinning.Keeps s ∧
    s.ran = [(1, 1), (0, -1)] ∧ s.Respected := by
  have run : ∃ s, (pinning 2).ReachableWhen Pinning.Keeps s ∧
      decide (s.ran = [(1, 1), (0, -1)]) = true :=
    Machine.reachableWhen_of_replay rfl
      (List.flatten [[.newFiber (some 7), .schedule (.cb (some 8)) 1,
        .schedule (.fiber (some 0)) (-1)], List.replicate 6 (.work 0), [.leave 0 .ready],
        List.replicate 4 (.work 0), List.replicate 6 (.work 1)]) _ (by decide +kernel)
  obtain ⟨s, reached, check⟩ := run
  exact ⟨s, reached, of_decide_eq_true check, pinning_respected 2 s reached⟩

/-- **A fiber pinned to thread 0 yields, and worker 1 runs its next segment.** -/
theorem pin_lost : ∃ s : Pinning 2, (pinning 2).Reachable s ∧ s.ran = [(1, 0), (0, 0)] ∧
    ¬ s.Respected := by
  have run : ∃ s, (pinning 2).Reachable s ∧
      decide (s.ran = [(1, 0), (0, 0)] ∧ ¬ s.Respected) = true :=
    Machine.reachable_of_replay rfl
      (List.flatten [[.newFiber (some 7), .schedule (.fiber (some 0)) 0],
        List.replicate 5 (.work 0), [.leave 0 .ready], List.replicate 4 (.work 0),
        List.replicate 5 (.work 1)]) _ (by decide +kernel)
  obtain ⟨s, reached, check⟩ := run
  exact ⟨s, reached, of_decide_eq_true check⟩

end Sylar.Scheduler
