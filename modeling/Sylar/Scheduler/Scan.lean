/-
**What the scan of `run()` takes, and what comes of it over a whole run.**

The walk over `m_fibers` has two reasons to go on, which differ in what they do to `tickle_me`, and
tests its iterator after the loop.

* `FiberAndThread.takes` — the entries a thread takes; `Scans` — **what a scan of a queue yields**:
  the first of these is removed and the others stay in order, or nothing is removed.
* `scan_scans`, `scan_isSome` — the code's scan does that, on every queue without a null fiber.
* `queueRuns` — `schedule`, of one task or of a batch, and scans by any thread with the fibers in
  any states, one after another under `m_mutex`. Every entry that is enqueued gets a ticket.
* `Lawful` — **the law of the queue**: what was enqueued has been removed or is in the queue, each
  entry once; it was removed by a thread its pin allows; and unpinned callbacks go in order.
* `scan_lawful` — a scan is as it should be, and the law holds in every state of every run.
-/

import Sylar.Scheduler.Queue
import Sylar.Library.Machine

namespace Sylar.Scheduler

open Sylar.Library

/-- The entries that the thread `self` takes: not pinned to another, and not a fiber in `EXEC`. -/
def FiberAndThread.takes (state : FiberId → State) (self : Int) (it : FiberAndThread) : Bool :=
  decide (it.allows self ∧ it.runnable state)

/-- **What a scan yields**: what is taken, what is left, and `tickle_me`. -/
inductive Scans (state : FiberId → State) (self : Int) :
    List FiberAndThread → FiberOrCb × List FiberAndThread × Bool → Prop
  | taken {it : FiberAndThread} {skipped later : List FiberAndThread} {tickleMe : Bool}
      (takes : it.takes state self = true) (first : ∀ e ∈ skipped, e.takes state self = false)
      (told : tickleMe = true ↔ (∃ e ∈ skipped, ¬ e.allows self) ∨ later ≠ []) :
      Scans state self (skipped ++ it :: later) (it.fiberOrCb, skipped ++ later, tickleMe)
  | nothing {fibers : List FiberAndThread} {tickleMe : Bool}
      (untaken : ∀ e ∈ fibers, e.takes state self = false)
      (told : tickleMe = true ↔ ∃ e ∈ fibers, ¬ e.allows self) :
      Scans state self fibers (.cb none, fibers, tickleMe)

/-! ### One scan -/

section Scan

variable {state : FiberId → State} {self : Int} {it : FiberAndThread} {fibers : List FiberAndThread}

/-- The scan goes on behind an entry that it skips. -/
theorem Scans.skip {r : FiberOrCb × List FiberAndThread × Bool} {told : Bool}
    (scans : Scans state self fibers r) (skipped : it.takes state self = false)
    (tells : told = true ↔ ¬ it.allows self ∨ r.2.2 = true) :
    Scans state self (it :: fibers) (r.1, it :: r.2.1, told) := by
  cases scans with
  | @taken entry before later tickleMe takes first why =>
    have first' : ∀ e ∈ it :: before, e.takes state self = false :=
      List.forall_mem_cons.mpr ⟨skipped, first⟩
    have why' : told = true ↔ (∃ e ∈ it :: before, ¬ e.allows self) ∨ later ≠ [] := by
      rw [tells, why, List.exists_mem_cons_iff, or_assoc]
    exact .taken takes first' why'
  | nothing untaken why =>
    refine .nothing (fun e member => ?_) ?_
    · rcases List.mem_cons.mp member with rfl | inside
      · exact skipped
      · exact untaken e inside
    · rw [tells, why, List.exists_mem_cons_iff]

/-- The scan ends at an entry that it takes. -/
theorem Scans.head (takes : it.takes state self = true) (rest : List FiberAndThread) :
    Scans state self (it :: rest) (it.fiberOrCb, rest, !rest.isEmpty) := by
  have first : ∀ e ∈ ([] : List FiberAndThread), e.takes state self = false := nofun
  have told : (!rest.isEmpty) = true ↔
      (∃ e ∈ ([] : List FiberAndThread), ¬ e.allows self) ∨ rest ≠ [] := by
    cases rest <;> simp
  exact .taken takes first told

/-- **The scan of the code**, by induction on the queue: one case for each branch of the loop. -/
theorem scan_scans {r : FiberOrCb × List FiberAndThread × Bool}
    (ran : scan state self fibers = some r) : Scans state self fibers r := by
  induction fibers generalizing r with
  | nil =>
    cases ran
    exact .nothing (fun e member => absurd member List.not_mem_nil) (by simp)
  | cons it rest ih =>
    unfold scan at ran
    split at ran
    next allows =>
      split at ran
      next => cases ran
      next f isFiber =>
        split at ran
        next exec =>
          obtain ⟨r', later, same⟩ := Option.map_eq_some_iff.mp ran
          cases same
          refine (ih later).skip ?_ (by simp [allows])
          exact decide_eq_false fun both => both.2 f isFiber exec
        next notExec =>
          cases ran
          refine .head (decide_eq_true ⟨allows, fun g names => ?_⟩) rest
          rw [isFiber] at names
          cases names
          exact notExec
      next c isCb =>
        cases ran
        refine .head (decide_eq_true ⟨allows, fun g names => ?_⟩) rest
        rw [isCb] at names
        cases names
    next pinned =>
      obtain ⟨r', later, same⟩ := Option.map_eq_some_iff.mp ran
      cases same
      exact (ih later).skip (decide_eq_false fun both => pinned both.1) (by simp [pinned])

/-- What is left, as a function of the queue. -/
theorem scan_left {ft : FiberOrCb} {left : List FiberAndThread} {tickleMe : Bool}
    (ran : scan state self fibers = some (ft, left, tickleMe)) :
    left = fibers.eraseP (·.takes state self) := by
  generalize same : (ft, left, tickleMe) = r at ran
  cases scan_scans ran with
  | @taken it skipped later _ takes first told =>
    cases same
    rw [List.eraseP_append_right _ fun e member => by simp [first e member],
      List.eraseP_cons_of_pos takes]
  | nothing untaken told =>
    cases same
    exact (List.eraseP_of_forall_not fun e member => by simp [untaken e member]).symm

/-- The scan reads no null pointer if there is none. -/
theorem scan_isSome (nonNull : ∀ it ∈ fibers, it.fiberOrCb ≠ .fiber none) :
    (scan state self fibers).isSome = true := by
  induction fibers with
  | nil => rfl
  | cons it rest ih =>
    have later := ih fun e member => nonNull e (List.mem_cons_of_mem it member)
    unfold scan
    split
    next =>
      split
      next null => exact absurd null (nonNull it List.mem_cons_self)
      next =>
        split
        · rw [Option.isSome_map, later]
        · rfl
      next => rfl
    next => rw [Option.isSome_map, later]

end Scan

/-! ### Runs -/

/-- An entry of the queue, with its place in the order of enqueueing. -/
structure Ticketed where
  ticket : Nat
  item : FiberAndThread
deriving DecidableEq

/-- A removal: the entry, the thread, and what the scan gave it. -/
structure Removed where
  entry : Ticketed
  self : Int
  got : FiberOrCb
deriving DecidableEq

/-- The queue; beside it, the same with tickets, what was enqueued, and what was removed. -/
structure QueueRun where
  fibers : List FiberAndThread := []
  queue : List Ticketed := []
  enqueued : List Ticketed := []
  removed : List Removed := []

/-- Tickets from `next` on. -/
def issue (next : Nat) : List FiberAndThread → List Ticketed
  | [] => []
  | item :: rest => ⟨next, item⟩ :: issue (next + 1) rest

/-- `schedule(fc, thread)`, `schedule(begin, end)`, and a scan by a thread that finds the fibers in
the given states. -/
inductive QueueEvent
  | schedule (fc : FiberOrCb) (thread : Int)
  | scheduleBatch (fcs : List FiberOrCb)
  | scan (self : Int) (state : FiberId → State)

/-- Entries are enqueued. -/
def QueueRun.enqueue (s : QueueRun) (fibers items : List FiberAndThread) : QueueRun :=
  let made := issue s.enqueued.length items
  { s with fibers, queue := s.queue ++ made, enqueued := s.enqueued ++ made }

/-- One critical section; `none` when the scan reads a null pointer. -/
def queueStep (s : QueueRun) : QueueEvent → Option QueueRun
  | .schedule fc thread => some (s.enqueue (scheduleNoLock s.fibers fc thread).1 [⟨fc, thread⟩])
  | .scheduleBatch fcs => some (s.enqueue (scheduleAll s.fibers fcs).1 (fcs.map fun fc => ⟨fc, -1⟩))
  | .scan self state =>
      (Scheduler.scan state self s.fibers).map fun r =>
        { s with
          fibers := r.2.1
          queue := s.queue.eraseP fun e => e.item.takes state self
          removed := s.removed ++
            (s.queue.find? fun e => e.item.takes state self).toList.map fun e => ⟨e, self, r.1⟩ }

/-- Runs on an empty queue. -/
def queueRuns : Machine QueueRun QueueEvent := ⟨fun s => s = {}, queueStep⟩

/-- A callback that any thread may run. -/
def Ticketed.unpinnedCb (e : Ticketed) : Prop := e.item.thread = -1 ∧ ∃ c, e.item.fiberOrCb = .cb c

/-- **The law of the queue.** -/
structure Lawful (s : QueueRun) : Prop where
  content : s.queue.map (·.item) = s.fibers
  kept : (s.removed.map (·.entry) ++ s.queue).Perm s.enqueued
  once : ((s.removed.map (·.entry) ++ s.queue).map (·.ticket)).Nodup
  got : ∀ r ∈ s.removed, r.got = r.entry.item.fiberOrCb
  allowed : ∀ r ∈ s.removed, r.entry.item.allows r.self
  inOrder : s.removed.Pairwise fun r later =>
    r.entry.unpinnedCb → later.entry.unpinnedCb → r.entry.ticket < later.entry.ticket

/-! ### The law -/

@[simp] theorem issue_map_item (next : Nat) (items : List FiberAndThread) :
    (issue next items).map (·.item) = items := by
  induction items generalizing next with
  | nil => rfl
  | cons item rest ih => rw [issue, List.map_cons, ih]

@[simp] theorem issue_map_ticket (next : Nat) (items : List FiberAndThread) :
    (issue next items).map (·.ticket) = List.range' next items.length := by
  induction items generalizing next with
  | nil => rfl
  | cons item rest ih => rw [issue, List.map_cons, ih, List.length_cons, List.range'_succ]

theorem Ticketed.takes_of_unpinnedCb {e : Ticketed} (unpinned : e.unpinnedCb)
    (state : FiberId → State) (self : Int) : e.item.takes state self = true := by
  obtain ⟨any, c, isCb⟩ := unpinned
  refine decide_eq_true ⟨.inl any, fun f names => ?_⟩
  rw [isCb] at names
  cases names

/-- The invariant: the law, tickets in the order of enqueueing, and no unpinned callback waits that
came before one that is gone. -/
structure QueueRun.Ordered (s : QueueRun) : Prop where
  content : s.queue.map (·.item) = s.fibers
  kept : (s.removed.map (·.entry) ++ s.queue).Perm s.enqueued
  tickets : s.enqueued.map (·.ticket) = List.range s.enqueued.length
  sorted : s.queue.Pairwise fun e later => e.ticket < later.ticket
  got : ∀ r ∈ s.removed, r.got = r.entry.item.fiberOrCb
  allowed : ∀ r ∈ s.removed, r.entry.item.allows r.self
  inOrder : s.removed.Pairwise fun r later =>
    r.entry.unpinnedCb → later.entry.unpinnedCb → r.entry.ticket < later.entry.ticket
  waiting : ∀ r ∈ s.removed, ∀ e ∈ s.queue,
    r.entry.unpinnedCb → e.unpinnedCb → r.entry.ticket < e.ticket

namespace QueueRun.Ordered

variable {s : QueueRun}

theorem lawful (ordered : s.Ordered) : Lawful s where
  content := ordered.content
  kept := ordered.kept
  once := by
    rw [(ordered.kept.map _).nodup_iff, ordered.tickets]
    exact List.nodup_range
  got := ordered.got
  allowed := ordered.allowed
  inOrder := ordered.inOrder

/-- Every ticket given out is below the next. -/
theorem ticket_lt (ordered : s.Ordered) {e : Ticketed} (member : e ∈ s.enqueued) :
    e.ticket < s.enqueued.length := by
  have ticket : e.ticket ∈ s.enqueued.map (·.ticket) := List.mem_map_of_mem member
  rwa [ordered.tickets, List.mem_range] at ticket

/-- **Enqueueing at the end.** -/
theorem enqueue (ordered : s.Ordered) {fibers items : List FiberAndThread}
    (appended : fibers = s.fibers ++ items) : (s.enqueue fibers items).Ordered := by
  have fresh : ∀ e ∈ issue s.enqueued.length items, s.enqueued.length ≤ e.ticket := by
    intro e member
    have ticket : e.ticket ∈ (issue s.enqueued.length items).map (·.ticket) :=
      List.mem_map_of_mem member
    rw [issue_map_ticket, List.mem_range'_1] at ticket
    exact ticket.1
  have old : ∀ e, e ∈ s.removed.map (·.entry) ∨ e ∈ s.queue → e.ticket < s.enqueued.length :=
    fun e member => ordered.ticket_lt (ordered.kept.subset (List.mem_append.mpr member))
  refine ⟨?_, ?_, ?_, ?_, ordered.got, ordered.allowed, ordered.inOrder, ?_⟩
  · show (s.queue ++ _).map _ = fibers
    rw [List.map_append, ordered.content, issue_map_item, appended]
  · show (_ ++ (s.queue ++ _)).Perm (s.enqueued ++ _)
    rw [← List.append_assoc]
    exact ordered.kept.append_right _
  · show (s.enqueued ++ _).map _ = List.range (s.enqueued ++ _).length
    have length : (issue s.enqueued.length items).length = items.length := by
      rw [← List.length_map (f := (·.item)), issue_map_item]
    have joined : List.range' 0 s.enqueued.length ++
        List.range' (0 + s.enqueued.length) items.length =
          List.range' 0 (s.enqueued.length + items.length) := List.range'_append_1
    rw [List.map_append, ordered.tickets, issue_map_ticket, List.length_append, length,
      List.range_eq_range', List.range_eq_range', ← joined, Nat.zero_add]
  · have increasing : ((issue s.enqueued.length items).map (·.ticket)).Pairwise (· < ·) := by
      rw [issue_map_ticket]
      exact List.pairwise_lt_range'
    exact List.pairwise_append.mpr ⟨ordered.sorted, List.pairwise_map.mp increasing,
      fun e inside e' made => Nat.lt_of_lt_of_le (old e (.inr inside)) (fresh e' made)⟩
  · intro r member e inside cb cb'
    rcases List.mem_append.mp inside with waiting | made
    · exact ordered.waiting r member e waiting cb cb'
    · exact Nat.lt_of_lt_of_le (old r.entry (.inl (List.mem_map_of_mem member))) (fresh e made)

/-- **A scan that takes nothing.** -/
theorem scan_nothing {state : FiberId → State} {self : Int}
    (untaken : ∀ e ∈ s.queue, e.item.takes state self = false) :
    (s.queue.eraseP fun e => e.item.takes state self) = s.queue ∧
      (s.queue.find? fun e => e.item.takes state self) = none := by
  constructor
  · exact List.eraseP_of_forall_not fun e member => by simp [untaken e member]
  · exact List.find?_eq_none.mpr fun e member => by simp [untaken e member]

/-- **A scan that takes an entry**: the unpinned callbacks left came later. -/
theorem scan_taken (ordered : s.Ordered) {state : FiberId → State} {self : Int}
    {skipped later : List Ticketed} {e : Ticketed} {fibers : List FiberAndThread}
    (split : s.queue = skipped ++ e :: later) (takes : e.item.takes state self = true)
    (first : ∀ e' ∈ skipped, e'.item.takes state self = false)
    (left : fibers = (skipped ++ later).map (·.item)) :
    QueueRun.Ordered { s with
      fibers, queue := skipped ++ later
      removed := s.removed ++ [⟨e, self, e.item.fiberOrCb⟩] } := by
  have kept := ordered.kept
  have sorted := ordered.sorted
  rw [split] at kept sorted
  have before : ∀ e' ∈ skipped ++ later, e'.unpinnedCb → e.ticket < e'.ticket := by
    intro e' member cb
    rcases List.mem_append.mp member with early | late
    · -- a callback that anyone may run is not skipped
      exact absurd ((first e' early).symm.trans (Ticketed.takes_of_unpinnedCb cb state self))
        Bool.false_ne_true
    · exact (List.pairwise_cons.mp (List.pairwise_append.mp sorted).2.1).1 e' late
  refine ⟨left.symm, ?_, ordered.tickets, ?_, ?_, ?_, ?_, ?_⟩
  · refine List.Perm.trans ?_ kept
    show ((s.removed ++ [_]).map _ ++ (skipped ++ later)).Perm _
    rw [List.map_append, List.append_assoc, List.map_singleton, List.singleton_append]
    exact List.Perm.append_left _ List.perm_middle.symm
  · exact sorted.sublist (List.Sublist.append_left (List.sublist_cons_self e later) skipped)
  · intro r member
    rcases List.mem_append.mp member with old | new
    · exact ordered.got r old
    · rw [List.mem_singleton.mp new]
  · intro r member
    rcases List.mem_append.mp member with old | new
    · exact ordered.allowed r old
    · rw [List.mem_singleton.mp new]
      exact (of_decide_eq_true takes).1
  · refine List.pairwise_append.mpr ⟨ordered.inOrder, List.pairwise_singleton _ _, ?_⟩
    intro r member r' new
    rw [List.mem_singleton.mp new]
    exact ordered.waiting r member e (split ▸ List.mem_append_right _ List.mem_cons_self)
  · intro r member e' inside cb cb'
    rcases List.mem_append.mp member with old | new
    · refine ordered.waiting r old e' (split ▸ ?_) cb cb'
      exact (List.Sublist.append_left (List.sublist_cons_self e later) skipped).subset inside
    · rw [List.mem_singleton.mp new]
      exact before e' inside cb'

theorem step (ordered : s.Ordered) {event : QueueEvent} {s' : QueueRun}
    (stepped : queueStep s event = some s') : s'.Ordered := by
  cases event with
  | schedule fc thread => exact Option.some.inj stepped ▸ ordered.enqueue rfl
  | scheduleBatch fcs =>
    refine Option.some.inj stepped ▸ ordered.enqueue ?_
    rw [scheduleAll_eq]
  | scan self state =>
    obtain ⟨r, ran, rfl⟩ := Option.map_eq_some_iff.mp stepped
    have content := ordered.content
    generalize s.fibers = fibers at ran content
    cases scan_scans ran with
    | @taken it before after tickleMe takes first told =>
      obtain ⟨skipped, rest, split, sameBefore, sameRest⟩ := List.map_eq_append_iff.mp content
      obtain ⟨e, later, rfl, rfl, sameAfter⟩ := List.map_eq_cons_iff.mp sameRest
      have skips : ∀ e' ∈ skipped, e'.item.takes state self = false := fun e' member =>
        first e'.item (sameBefore ▸ List.mem_map_of_mem member)
      have found : (s.queue.find? fun e => e.item.takes state self) = some e :=
        List.find?_eq_some_iff_append.mpr
          ⟨takes, skipped, later, split, fun e' member => by simp [skips e' member]⟩
      have erased : (s.queue.eraseP fun e => e.item.takes state self) = skipped ++ later := by
        rw [split, List.eraseP_append_right _ fun e' member => by simp [skips e' member],
          List.eraseP_cons_of_pos (by exact takes)]
      simp only [found, erased]
      refine ordered.scan_taken split takes skips ?_
      rw [List.map_append, sameBefore, sameAfter]
    | nothing untaken told =>
      obtain ⟨erased, found⟩ := scan_nothing (s := s) fun e member =>
        untaken e.item (content ▸ List.mem_map_of_mem member)
      simp only [found, erased, Option.toList_none, List.map_nil, List.append_nil]
      exact ⟨content, ordered.kept, ordered.tickets, ordered.sorted, ordered.got, ordered.allowed,
        ordered.inOrder, ordered.waiting⟩

theorem reachable (reached : queueRuns.Reachable s) : s.Ordered := by
  refine reached.invariant ?_ fun _ _ _ ordered _ stepped => ordered.step stepped
  rintro _ rfl
  exact ⟨rfl, .refl _, rfl, .nil, fun r member => absurd member List.not_mem_nil,
    fun r member => absurd member List.not_mem_nil, .nil,
    fun r member => absurd member List.not_mem_nil⟩

end QueueRun.Ordered

/-- **A scan takes the first entry that the thread may run**, and over any run every entry is
removed at most once, by a thread its pin allows, the unpinned callbacks in order. -/
theorem scan_lawful :
    (∀ (state : FiberId → State) (self : Int) (fibers : List FiberAndThread),
      (∀ it ∈ fibers, it.fiberOrCb.nonEmpty = true) →
      ∃ r, scan state self fibers = some r ∧ Scans state self fibers r) ∧
    ∀ s, queueRuns.Reachable s → Lawful s := by
  constructor
  · intro state self fibers nonEmpty
    have isSome : (scan state self fibers).isSome = true := by
      refine scan_isSome fun it member null => ?_
      have there := nonEmpty it member
      rw [null] at there
      cases there
    obtain ⟨r, ran⟩ := Option.isSome_iff_exists.mp isSome
    exact ⟨r, ran, scan_scans ran⟩
  · exact fun s reached => (QueueRun.Ordered.reachable reached).lawful

/-- A callback pinned elsewhere, a fiber in `EXEC`, and two callbacks that anyone may run. -/
def mixedQueue : List FiberAndThread :=
  [⟨.cb (some 1), 1⟩, ⟨.fiber (some 4), -1⟩, ⟨.cb (some 2), -1⟩, ⟨.cb (some 3), -1⟩]

theorem scan_lawful_mixed :
    Scans (fun _ => .exec) 0 mixedQueue
      (.cb (some 2), [⟨.cb (some 1), 1⟩, ⟨.fiber (some 4), -1⟩, ⟨.cb (some 3), -1⟩], true) ∧
    ∃ s, queueRuns.Reachable s ∧ s.removed.map (fun r => (r.entry.ticket, r.self)) =
      [(1, 0), (0, 1), (2, 1)] ∧ Lawful s := by
  constructor
  · obtain ⟨r, ran, scans⟩ := scan_lawful.1 (fun _ => .exec) 0 mixedQueue (by decide)
    cases ran
    exact scans
  · have reached : queueRuns.Reachable _ := Machine.ReachableWhen.replay (.start rfl)
      (show queueRuns.replay {} [.schedule (.cb (some 1)) 1, .scheduleBatch [.cb (some 2)],
        .scan 0 fun _ => .init, .schedule (.cb (some 3)) (-1), .scan 1 fun _ => .init,
        .scan 1 fun _ => .init] = some _ from rfl)
    exact ⟨_, reached, by decide, scan_lawful.2 _ reached⟩

end Sylar.Scheduler
