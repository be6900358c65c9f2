/-
**How often a waiting task can be passed over.**

A scan takes the first entry that its thread may run, so an entry can be passed over by a scan that
could have taken it only in favour of one in front of it, and that one is gone afterwards. Nothing is
ever put in front of an entry.

* `QueueRun.ahead` — the entries in front of one; `QueueEvent.couldTake` — the scans that find the
  entry allowed and runnable.
* `Ordered.ahead_step` — what one critical section does to it.
* `bounded_bypass` — **while an entry waits, the scans that could have taken it are at most as many as
  the entries that were in front of it**.
-/

import Sylar.Scheduler.Scan

namespace Sylar.Scheduler

open Sylar.Library

/-- The entries in front of an entry. -/
def QueueRun.ahead (s : QueueRun) (e : Ticketed) : Nat :=
  s.queue.countP fun other => other.ticket < e.ticket

/-- A scan that may take the entry. -/
def QueueEvent.couldTake (e : Ticketed) : QueueEvent → Bool
  | .scan self state => e.item.takes state self
  | .schedule _ _ | .scheduleBatch _ => false

namespace QueueRun.Ordered

variable {s s' : QueueRun} {e : Ticketed}

/-- New tickets are not below those that are out. -/
theorem le_ticket_of_issue (next : Nat) (items : List FiberAndThread) {e : Ticketed}
    (made : e ∈ issue next items) : next ≤ e.ticket := by
  have ticket : e.ticket ∈ (issue next items).map (·.ticket) := List.mem_map_of_mem made
  rw [issue_map_ticket, List.mem_range'_1] at ticket
  exact ticket.1

/-- Enqueueing puts nothing in front. -/
theorem ahead_enqueue (ordered : s.Ordered) (waits : e ∈ s.queue) (fibers items) :
    (s.enqueue fibers items).ahead e = s.ahead e := by
  have old : e.ticket < s.enqueued.length :=
    ordered.ticket_lt (ordered.kept.subset (List.mem_append_right _ waits))
  have behind : (issue s.enqueued.length items).countP (fun other => other.ticket < e.ticket) = 0 := by
    refine List.countP_eq_zero.mpr fun other made below => ?_
    have first := le_ticket_of_issue _ _ made
    have below := of_decide_eq_true below
    omega
  show (s.queue ++ _).countP _ = _
  rw [List.countP_append, behind]
  rfl

/-- **A scan that could take an entry, and does not, takes one in front of it.** -/
theorem ahead_scan (ordered : s.Ordered) (takes : Ticketed → Bool)
    (waits : e ∈ s.queue.eraseP takes) :
    (takes e).toNat + (s.queue.eraseP takes).countP (fun other => other.ticket < e.ticket) ≤
      s.ahead e := by
  unfold ahead
  rcases List.exists_or_eq_self_of_eraseP takes s.queue with same | ⟨x, front, rest, skipped, takesX,
    split, erased⟩
  · rw [same] at waits ⊢
    have untaken : takes e = false := by
      simpa using List.eraseP_eq_self_iff.mp same e waits
    rw [untaken, Bool.toNat_false]
    exact Nat.le_of_eq (Nat.zero_add _)
  · rw [erased] at waits ⊢
    rw [split, List.countP_append, List.countP_append, List.countP_cons]
    cases could : takes e with
    | false =>
      rw [Bool.toNat_false]
      omega
    | true =>
      have behind : e ∈ rest := (List.mem_append.mp waits).resolve_left fun early =>
        skipped e early could
      have sorted := ordered.sorted
      rw [split] at sorted
      have before : x.ticket < e.ticket :=
        (List.pairwise_cons.mp (List.pairwise_append.mp sorted).2.1).1 e behind
      rw [if_pos (decide_eq_true before), Bool.toNat_true]
      omega

/-- **One critical section**, of an entry that is still there after it. -/
theorem ahead_step (ordered : s.Ordered) {event : QueueEvent} (stepped : queueStep s event = some s')
    (waits : e ∈ s.queue) (stays : e ∈ s'.queue) :
    (event.couldTake e).toNat + s'.ahead e ≤ s.ahead e := by
  cases event with
  | schedule fc thread =>
    cases stepped
    exact Nat.le_of_eq ((Nat.zero_add _).trans (ordered.ahead_enqueue waits _ _))
  | scheduleBatch fcs =>
    cases stepped
    exact Nat.le_of_eq ((Nat.zero_add _).trans (ordered.ahead_enqueue waits _ _))
  | scan self state =>
    obtain ⟨r, ran, rfl⟩ := Option.map_eq_some_iff.mp stepped
    exact ordered.ahead_scan (fun e => e.item.takes state self) stays

end QueueRun.Ordered

section Gone

variable {s s' : QueueRun} {e : Ticketed}

theorem enqueued_le {event : QueueEvent} (stepped : queueStep s event = some s') :
    s.enqueued.length ≤ s'.enqueued.length := by
  have grows (fibers items : List FiberAndThread) :
      s.enqueued.length ≤ (s.enqueue fibers items).enqueued.length := by
    show _ ≤ (s.enqueued ++ _).length
    rw [List.length_append]
    exact Nat.le_add_right _ _
  cases event with
  | schedule fc thread =>
    cases stepped
    exact grows _ _
  | scheduleBatch fcs =>
    cases stepped
    exact grows _ _
  | scan self state =>
    obtain ⟨r, ran, rfl⟩ := Option.map_eq_some_iff.mp stepped
    exact Nat.le_refl _

/-- An entry that is gone does not come back. -/
theorem gone_step {event : QueueEvent} (stepped : queueStep s event = some s')
    (known : e.ticket < s.enqueued.length) (gone : e ∉ s.queue) :
    e.ticket < s'.enqueued.length ∧ e ∉ s'.queue := by
  refine ⟨Nat.lt_of_lt_of_le known (enqueued_le stepped), ?_⟩
  have enqueue (fibers items : List FiberAndThread) : e ∉ (s.enqueue fibers items).queue := by
    intro there
    rcases List.mem_append.mp there with old | made
    · exact gone old
    · have fresh := QueueRun.Ordered.le_ticket_of_issue _ _ made
      omega
  cases event with
  | schedule fc thread =>
    cases stepped
    exact enqueue _ _
  | scheduleBatch fcs =>
    cases stepped
    exact enqueue _ _
  | scan self state =>
    obtain ⟨r, ran, rfl⟩ := Option.map_eq_some_iff.mp stepped
    exact fun there => gone (List.mem_of_mem_eraseP there)

/-- In any run. -/
theorem gone_replay : ∀ {events : List QueueEvent} {s : QueueRun},
    queueRuns.replay s events = some s' → e.ticket < s.enqueued.length → e ∉ s.queue → e ∉ s'.queue
  | [], s, ran, _, gone => by
    cases ran
    exact gone
  | event :: rest, s, ran, known, gone => by
    obtain ⟨middle, stepped, later⟩ := Option.bind_eq_some_iff.mp ran
    obtain ⟨known', gone'⟩ := gone_step stepped known gone
    exact gone_replay later known' gone'

end Gone

/-- The bound, from any state that keeps the order. -/
theorem QueueRun.Ordered.ahead_replay {e : Ticketed} : ∀ {events : List QueueEvent}
    {s s' : QueueRun}, s.Ordered → queueRuns.replay s events = some s' → e ∈ s.queue →
      e ∈ s'.queue → events.countP (·.couldTake e) + s'.ahead e ≤ s.ahead e
  | [], s, s', _, ran, _, _ => by
    cases ran
    exact Nat.le_of_eq (Nat.zero_add _)
  | event :: rest, s, s', ordered, ran, waits, stays => by
    obtain ⟨middle, stepped, later⟩ := Option.bind_eq_some_iff.mp ran
    have known : e.ticket < s.enqueued.length :=
      ordered.ticket_lt (ordered.kept.subset (List.mem_append_right _ waits))
    have between : e ∈ middle.queue := by
      by_contra gone
      exact gone_replay later (Nat.lt_of_lt_of_le known (enqueued_le stepped)) gone stays
    have first := ordered.ahead_step stepped waits between
    have others := ahead_replay (ordered.step stepped) later between stays
    have here : (if event.couldTake e = true then 1 else 0) = (event.couldTake e).toNat := by
      cases event.couldTake e <;> rfl
    rw [List.countP_cons, here]
    omega

/-- **Bounded bypass**: while an entry waits, the scans that could have taken it, and the entries in
front of it at the end, are together at most as many as were in front of it. -/
theorem bounded_bypass {s s' : QueueRun} (reached : queueRuns.Reachable s)
    {events : List QueueEvent} (ran : queueRuns.replay s events = some s') {e : Ticketed}
    (waits : e ∈ s.queue) (stays : e ∈ s'.queue) :
    events.countP (·.couldTake e) + s'.ahead e ≤ s.ahead e :=
  (QueueRun.Ordered.reachable reached).ahead_replay ran waits stays

/-- The second of two callbacks, passed over once. -/
theorem bounded_bypass_second : ∃ s s', queueRuns.Reachable s ∧
    queueRuns.replay s [.scan 0 fun _ => .init] = some s' ∧ s.ahead ⟨1, ⟨.cb (some 2), -1⟩⟩ = 1 ∧
      [QueueEvent.scan 0 fun _ => .init].countP (·.couldTake ⟨1, ⟨.cb (some 2), -1⟩⟩) +
        s'.ahead ⟨1, ⟨.cb (some 2), -1⟩⟩ ≤ 1 := by
  have reached : queueRuns.Reachable _ := Machine.ReachableWhen.replay (.start rfl)
    (show queueRuns.replay {} [.schedule (.cb (some 1)) (-1), .schedule (.cb (some 2)) (-1)] =
      some _ from rfl)
  refine ⟨_, _, reached, rfl, by decide, ?_⟩
  exact bounded_bypass reached rfl (e := ⟨1, ⟨.cb (some 2), -1⟩⟩) (by decide) (by decide)

end Sylar.Scheduler
