/-
**Who waits for the earliest timer: the workers in `epoll_wait` and the announcements.**

A worker that has nothing to run counts itself idle, reads `get_next_timeout()`, and then waits in
`epoll_wait` for that long, from whenever it comes to it. A timer that comes to the front of the set
later is announced: `on_timer_insert_at_front()` tickles, `tickle()` writes to the pipe if somebody
is idle, and the pipe is watched edge triggered, so one write wakes one worker.

* `Reactors` — the timers with the threads in `list_expired_cbs`, where each worker is in its nap,
  the idle count, the tickles in progress, and the pipe.
* `Timely` — the condition: the time that passes between the reading of the clock and `epoll_wait`,
  the first time or after an interruption, is harmless.
* `Attended` — **the invariant**: a tickle is in progress, or the pipe has something to report, or
  some worker is not in `epoll_wait`, or some worker waits no longer than until the earliest timer.
* `no_oversleep` — **when all workers are in `epoll_wait` and nothing is under way, one of them
  wakes up for the earliest timer**, although the others may sleep past it.
* `oversleep_delayed` — a delay before `epoll_wait`, or an interruption, and the only worker sleeps
  past the timer.

`Scheduler::stop()` is not called in these runs: `idle()` asks for the timeout and goes on.
-/

import Sylar.Library.Tally
import Sylar.Timers.Expiry
import Sylar.Timers.Front
import Sylar.Timers.Waiting

namespace Sylar.Timers

open Sylar.Library

variable {n : Nat}

/-! ### The workers -/

/-- Where a worker is. `tickled`: the pipe is among the events that `epoll_wait` has reported to it.
* `running` — not in `idle()`;
* `counted` — `++m_idle_thread_count` is done, `get_next_timeout()` is next;
* `asked` — the timeout is read, at the clock of the call, and `epoll_wait` is next;
* `waiting` — in `epoll_wait`;
* `woken` — back from it, with `list_expired_cbs` to come;
* `expiring` — in `list_expired_cbs`;
* `reports` — in the loop over the events;
* `left` — swapped out, with `--m_idle_thread_count` to come. -/
inductive Nap
  | running
  | counted
  | asked (call : Wait)
  | waiting (call : Wait)
  | woken (tickled : Bool)
  | expiring (tickled : Bool)
  | reports (tickled : Bool)
  | left
deriving DecidableEq

/-- The first call of `epoll_wait` in an iteration of `idle()`, if it is made at once. -/
def firstWait (m : TimerManager) (now : UInt64) : Wait :=
  { clock := now, timeout := intTimeout (capTimeout (getNextTimeout m now)) }

/-- The timers, the workers, and the pipe. -/
structure Reactors (n : Nat) where
  expiry : Expiry n
  nap : Fin n → Nap
  idleThreadCount : Nat
  /-- calls of `tickle()` before they read `m_idle_thread_count` -/
  toTest : Nat
  /-- calls of `tickle()` that will write -/
  toWrite : Nat
  tickleBytes : Nat
  /-- the pipe's edge, not yet reported by `epoll_wait` -/
  edge : Bool

/-- A new manager, before any task. -/
def Reactors.initial (n : Nat) : Reactors n :=
  { expiry := .initial n, nap := fun _ => .running, idleThreadCount := 0, toTest := 0, toWrite := 0,
    tickleBytes := 0, edge := false }

/-! ### The announcements of a step -/

/-- The insertions under the lock: up to the first timer that is armed again. -/
def lockedInsertions (now : UInt64) : List Address → TimerManager → List Insertion
  | [], _ => []
  | a :: rest, m =>
      insertion m a (rearmInsert m now a) ++
        if (m.timer a).recurring then [] else lockedInsertions now rest (finishExpired m now a)

/-- The insertions of a step of the timers. -/
def Expiry.inserts (s : Expiry n) : Event n → List Insertion
  | .request c => insertions s.manager c
  | .writeSection e probe =>
      match s.pc e with
      | .seen now =>
          lockedInsertions now (expiredTimers s.manager now probe).1
            { s.manager with timers := (expiredTimers s.manager now probe).2 }
      | _ => []
  | .finish e =>
      match s.pc e with
      | .pushed now x _ => insertion s.manager x.timer (rearmInsert s.manager now x.timer)
      | _ => []
  | .iterate e =>
      match s.pc e with
      | .looping now (x :: _) => insertion s.manager x.timer (rearmInsert s.manager now x.timer)
      | _ => []
  | .call .. | .test _ | .push _ => []

/-- The thread in `list_expired_cbs` whose step it is. -/
def Event.thread : Event n → Option (Fin n)
  | .call e _ | .test e | .writeSection e _ | .push e | .finish e | .iterate e => some e
  | .request _ => none

/-! ### The machine -/

/-- A step of a run.
* `countIdle w` — `++m_idle_thread_count`, and into the idle fiber;
* `ask w now` — `stopping(next_timeout)` at this clock reading;
* `wait w clock` — into `epoll_wait`, at this reading, for the timeout that was read before;
* `interrupt w clock` — `EINTR`: `epoll_wait` again, at this reading, for `next_timeout` as it is;
* `wake w tickled` — `epoll_wait` returns, with the pipe among the events or not;
* `list w now` — `list_expired_cbs` begins, and reads the clock;
* `timers event` — a step of a thread in `list_expired_cbs`, or a call on the timers by anyone;
* `handle w` — `list_expired_cbs` has returned;
* `read w` — `read(m_tickle_fds[0], &dummy, 1)`, until the pipe is empty;
* `swapOut w`, `uncount w` — the idle fiber leaves, and `--m_idle_thread_count`;
* `tickle` — a call of `tickle()` by `schedule()` or by `run()`;
* `test`, `write` — a `tickle()` reads `m_idle_thread_count`, and writes to the pipe. -/
inductive Turn (n : Nat)
  | countIdle (w : Fin n)
  | ask (w : Fin n) (now : UInt64)
  | wait (w : Fin n) (clock : UInt64)
  | interrupt (w : Fin n) (clock : UInt64)
  | wake (w : Fin n) (tickled : Bool)
  | list (w : Fin n) (now : UInt64)
  | timers (event : Event n)
  | handle (w : Fin n)
  | read (w : Fin n)
  | swapOut (w : Fin n)
  | uncount (w : Fin n)
  | tickle
  | test
  | write

namespace Reactors

/-- Moves one worker. -/
def goto (s : Reactors n) (w : Fin n) (nap : Nap) : Reactors n :=
  { s with nap := Function.update s.nap w nap }

/-- A step of the timers: each insertion at the front calls `on_timer_insert_at_front()`. -/
def timersStep (s : Reactors n) (event : Event n) : Option (Reactors n) :=
  (s.expiry.next event).map fun expiry =>
    { s with expiry, toTest := s.toTest + (s.expiry.inserts event).countP (·.front) }

/-- The worker is in `list_expired_cbs`. -/
def lists (s : Reactors n) (w : Fin n) : Bool :=
  match s.nap w with
  | .expiring _ => true
  | _ => false

/-- One step. -/
def next (s : Reactors n) : Turn n → Option (Reactors n)
  | .countIdle w =>
      match s.nap w with
      | .running => some { s.goto w .counted with idleThreadCount := s.idleThreadCount + 1 }
      | _ => none
  | .ask w now =>
      match s.nap w with
      | .counted => some (s.goto w (.asked (firstWait s.expiry.manager now)))
      | _ => none
  | .wait w clock =>
      match s.nap w with
      | .asked call => some (s.goto w (.waiting { call with clock }))
      | _ => none
  | .interrupt w clock =>
      match s.nap w with
      | .waiting call => some (s.goto w (.waiting { call with clock }))
      | _ => none
  | .wake w tickled =>
      match s.nap w with
      | .waiting _ =>
          if tickled then
            if s.edge ∧ 0 < s.tickleBytes then some { s.goto w (.woken true) with edge := false }
            else none
          else some (s.goto w (.woken false))
      | _ => none
  | .list w now =>
      match s.nap w with
      | .woken tickled => (s.timersStep (.call w now)).map (·.goto w (.expiring tickled))
      | _ => none
  | .timers (.call _ _) => none
  | .timers event => if event.thread.all s.lists then s.timersStep event else none
  | .handle w =>
      match s.nap w with
      | .expiring tickled =>
          if s.expiry.pc w = .out then some (s.goto w (.reports tickled)) else none
      | _ => none
  | .read w =>
      match s.nap w with
      | .reports true =>
          match s.tickleBytes with
          | 0 => some (s.goto w (.reports false))
          | rest + 1 => some { s with tickleBytes := rest }
      | _ => none
  | .swapOut w =>
      match s.nap w with
      | .reports false => some (s.goto w .left)
      | _ => none
  | .uncount w =>
      match s.nap w with
      | .left => some { s.goto w .running with idleThreadCount := s.idleThreadCount - 1 }
      | _ => none
  | .tickle => some { s with toTest := s.toTest + 1 }
  | .test =>
      match s.toTest with
      | 0 => none
      | rest + 1 =>
          some { s with
            toTest := rest
            toWrite := if 0 < s.idleThreadCount then s.toWrite + 1 else s.toWrite }
  | .write =>
      match s.toWrite with
      | 0 => none
      | rest + 1 =>
          -- a write to a pipe that was not empty may add no edge
          some { s with
            toWrite := rest
            tickleBytes := s.tickleBytes + 1
            edge := s.edge || s.tickleBytes == 0 }

end Reactors

/-- `n` workers on a new manager, and callers of all kinds. -/
def reactors (n : Nat) : Machine (Reactors n) (Turn n) :=
  ⟨fun s => s = Reactors.initial n, Reactors.next⟩

/-- `epoll_wait` may be called at this reading, the first time or again. -/
def Nap.Resumable (m : TimerManager) (clock : UInt64) : Nap → Prop
  | .asked call | .waiting call => Harmless m call.clock clock
  | _ => True

/-- **The condition on a step**: the time that passes before `epoll_wait` is called is harmless. -/
def Timely (s : Reactors n) : Turn n → Prop
  | .wait w clock | .interrupt w clock => (s.nap w).Resumable s.expiry.manager clock
  | _ => True

instance (m : TimerManager) (clock : UInt64) : (nap : Nap) → Decidable (nap.Resumable m clock)
  | .asked call | .waiting call => inferInstanceAs (Decidable (Harmless m call.clock clock))
  | .running | .counted | .woken _ | .expiring _ | .reports _ | .left => isTrue trivial

instance (s : Reactors n) : (turn : Turn n) → Decidable (Timely s turn)
  | .wait w clock | .interrupt w clock =>
      inferInstanceAs (Decidable ((s.nap w).Resumable s.expiry.manager clock))
  | .countIdle _ | .ask .. | .wake .. | .list .. | .timers _ | .handle _ | .read _ | .swapOut _
  | .uncount _ | .tickle | .test | .write => isTrue trivial

/-! ### Calls in time -/

theorem earliest_of_firstDue {m : TimerManager} {least : Nat} (first : least ∈ firstDue m) :
    earliest m = least := by
  obtain ⟨member, lower⟩ := List.min?_eq_some_iff.mp first
  refine le_antisymm ?_ (le_earliest_iff.mpr fun a inside => ?_)
  · obtain ⟨a, inside, same⟩ := List.mem_map.mp member
    rw [← same]
    exact earliest_le inside
  · exact WithTop.coe_le_coe.mpr (lower _ (List.mem_map_of_mem inside))

namespace Wait.InTime

variable {m m' : TimerManager} {call : Wait}

/-- The call stays in time while the earliest timer comes no closer. -/
theorem later (inTime : call.InTime m) (notLower : earliest m ≤ earliest m') : call.InTime m' := by
  refine ⟨inTime.1, inTime.2.1, fun least first => ?_⟩
  rw [earliest_of_firstDue first] at notLower
  cases due : firstDue m with
  | none =>
    have infinite : earliest m = ⊤ := by
      simp [earliest, List.map_eq_nil_iff.mp (List.min?_eq_none_iff.mp due)]
    rw [infinite] at notLower
    exact absurd notLower (not_le.mpr (WithTop.coe_lt_top least))
  | some before =>
    rw [earliest_of_firstDue due] at notLower
    have bound := inTime.2.2 before due
    have order : before ≤ least := WithTop.coe_le_coe.mp notLower
    omega

/-- The same call later, when the time that has passed is harmless. -/
theorem again (inTime : call.InTime m) {clock : UInt64} (harmless : Harmless m call.clock clock) :
    Wait.InTime m { call with clock } := by
  refine ⟨inTime.1, inTime.2.1, fun least first => ?_⟩
  have bound := inTime.2.2 least first
  have upper := inTime.2.1
  have far := harmless least first
  rw [UInt64.le_iff_toNat_le] at far
  show call.timeout ≤ max 0 ((least : Int) - clock.toNat)
  omega

end Wait.InTime

theorem firstWait_inTime {m : TimerManager} (sorted : m.Sorted) (now : UInt64) :
    (firstWait m now).InTime m :=
  (inTime_iff sorted now (intTimeout_capTimeout _)).mpr fun _ _ => .inr (.inl (UInt64.le_refl now))

/-- A call on the timers that brings the earliest one closer announces an insertion. -/
theorem announces_of_step {m m' : TimerManager} (placed : Placed m []) {c : Call}
    (asked : ∀ now probe, c ≠ .listExpiredCbs now probe) (stepped : step m c = some m') :
    Announces m m' (insertions m c) := by
  cases c with
  | addTimer a now ms cb recurring =>
    obtain ⟨fresh, same⟩ := Option.ite_none_left_eq_some.mp stepped
    cases same
    refine announces_insertion (fun i member => addTimer_announced placed fresh member) nofun ?_
    intro made front inserted
    cases inserted
    rfl
  | cancel a =>
    obtain ⟨-, same⟩ := Option.ite_none_right_eq_some.mp stepped
    cases same
    refine fun lowered => absurd lowered (not_lt.mpr ?_)
    rw [cancel_eq placed.sorted]
    split
    · exact le_rfl
    · refine earliest_mono fun b inside => ?_
      obtain ⟨other, held⟩ := placed.sorted.mem_disarm.mp inside
      exact ⟨held, by rw [disarm_timer, Function.update_of_ne other]⟩
  | refresh a now =>
    obtain ⟨-, same⟩ := Option.ite_none_right_eq_some.mp stepped
    cases same
    rw [refresh_eq_insert]
    refine announces_insertion (fun i member => refreshInsert_announced placed.sorted member) ?_ ?_
    · intro none
      rw [none]
      exact le_rfl
    · intro made front inserted
      rw [inserted]
      rfl
  | reset a now ms fromNow =>
    obtain ⟨-, same⟩ := Option.ite_none_right_eq_some.mp stepped
    cases same
    by_cases shortcut : ms = (m.timer a).ms ∧ fromNow = false
    · rw [reset, if_pos shortcut]
      exact fun lowered => absurd lowered (lt_irrefl _)
    · rw [reset_eq_insert m a now ms fromNow shortcut]
      refine announces_insertion (fun i member => resetInsert_announced placed.sorted member) ?_ ?_
      · intro none
        rw [none]
        exact le_rfl
      · intro made front inserted
        rw [inserted]
        rfl
  | listExpiredCbs now probe => exact absurd rfl (asked now probe)

/-! ### The steps -/

namespace Nap

/-- Counted in `m_idle_thread_count`. -/
def idle : Nap → Bool
  | .running => false
  | _ => true

/-- Neither in `epoll_wait` nor about to call it. -/
def awake : Nap → Bool
  | .asked _ | .waiting _ => false
  | _ => true

/-- It has been told of the pipe, and has not emptied it. -/
def tickled : Nap → Bool
  | .woken tickled | .expiring tickled | .reports tickled => tickled
  | _ => false

theorem awake_of_tickled {nap : Nap} (tickled : nap.tickled = true) : nap.awake = true := by
  cases nap <;> first | rfl | cases tickled

end Nap

namespace Reactors

/-- **What a step can do.** -/
inductive Move (s : Reactors n) : Turn n → Reactors n → Prop
  | countIdle {w} (from' : s.nap w = .running) :
      Move s (.countIdle w) { s.goto w .counted with idleThreadCount := s.idleThreadCount + 1 }
  | ask {w now} (from' : s.nap w = .counted) :
      Move s (.ask w now) (s.goto w (.asked (firstWait s.expiry.manager now)))
  | wait {w clock call} (from' : s.nap w = .asked call) :
      Move s (.wait w clock) (s.goto w (.waiting { call with clock }))
  | interrupt {w clock call} (from' : s.nap w = .waiting call) :
      Move s (.interrupt w clock) (s.goto w (.waiting { call with clock }))
  | wake {w call} (from' : s.nap w = .waiting call) :
      Move s (.wake w false) (s.goto w (.woken false))
  | wakeTickled {w call} (from' : s.nap w = .waiting call) (edge : s.edge = true)
      (filled : 0 < s.tickleBytes) :
      Move s (.wake w true) { s.goto w (.woken true) with edge := false }
  | list {w now tickled t} (from' : s.nap w = .woken tickled)
      (listed : s.timersStep (.call w now) = some t) :
      Move s (.list w now) (t.goto w (.expiring tickled))
  | timers {event e tickled t} (thread : event.thread = some e)
      (from' : s.nap e = .expiring tickled) (stepped : s.timersStep event = some t) :
      Move s (.timers event) t
  | request {c t} (requested : s.timersStep (.request c) = some t) :
      Move s (.timers (.request c)) t
  | handle {w tickled} (from' : s.nap w = .expiring tickled) :
      Move s (.handle w) (s.goto w (.reports tickled))
  | read {w rest} (from' : s.nap w = .reports true) (filled : s.tickleBytes = rest + 1) :
      Move s (.read w) { s with tickleBytes := rest }
  | readLast {w} (from' : s.nap w = .reports true) (emptied : s.tickleBytes = 0) :
      Move s (.read w) (s.goto w (.reports false))
  | swapOut {w} (from' : s.nap w = .reports false) : Move s (.swapOut w) (s.goto w .left)
  | uncount {w} (from' : s.nap w = .left) :
      Move s (.uncount w) { s.goto w .running with idleThreadCount := s.idleThreadCount - 1 }
  | tickle : Move s .tickle { s with toTest := s.toTest + 1 }
  | test {rest} (pending : s.toTest = rest + 1) (someIdle : 0 < s.idleThreadCount) :
      Move s .test { s with toTest := rest, toWrite := s.toWrite + 1 }
  | testNone {rest} (pending : s.toTest = rest + 1) (noneIdle : s.idleThreadCount = 0) :
      Move s .test { s with toTest := rest }
  | write {rest} (pending : s.toWrite = rest + 1) :
      Move s .write { s with
        toWrite := rest, tickleBytes := s.tickleBytes + 1, edge := s.edge || s.tickleBytes == 0 }

theorem lists_eq_true {s : Reactors n} {w : Fin n} (inside : s.lists w = true) :
    ∃ tickled, s.nap w = .expiring tickled := by
  unfold lists at inside
  split at inside
  next tickled here => exact ⟨tickled, here⟩
  next => cases inside

theorem move_of_next {s s' : Reactors n} {turn : Turn n} (stepped : s.next turn = some s') :
    s.Move turn s' := by
  cases turn with
  | countIdle w =>
    simp only [next] at stepped
    split at stepped
    next from' =>
      cases stepped
      exact .countIdle from'
    next => cases stepped
  | ask w now =>
    simp only [next] at stepped
    split at stepped
    next from' =>
      cases stepped
      exact .ask from'
    next => cases stepped
  | wait w clock =>
    simp only [next] at stepped
    split at stepped
    next call from' =>
      cases stepped
      exact .wait from'
    next => cases stepped
  | interrupt w clock =>
    simp only [next] at stepped
    split at stepped
    next call from' =>
      cases stepped
      exact .interrupt from'
    next => cases stepped
  | wake w tickled =>
    simp only [next] at stepped
    split at stepped
    next call from' =>
      cases tickled with
      | true =>
        obtain ⟨⟨edge, filled⟩, same⟩ := Option.ite_none_right_eq_some.mp stepped
        cases same
        exact .wakeTickled from' edge filled
      | false =>
        cases stepped
        exact .wake from'
    next => cases stepped
  | list w now =>
    simp only [next] at stepped
    split at stepped
    next tickled from' =>
      obtain ⟨t, listed, rfl⟩ := Option.map_eq_some_iff.mp stepped
      exact .list from' listed
    next => cases stepped
  | timers event =>
    cases event with
    | call e now => cases stepped
    | request c => exact .request stepped
    | test e | writeSection e probe | push e | finish e | iterate e =>
      obtain ⟨inside, stepped⟩ := Option.ite_none_right_eq_some.mp stepped
      obtain ⟨tickled, from'⟩ := lists_eq_true inside
      exact .timers rfl from' stepped
  | handle w =>
    simp only [next] at stepped
    split at stepped
    next tickled from' =>
      obtain ⟨-, same⟩ := Option.ite_none_right_eq_some.mp stepped
      cases same
      exact .handle from'
    next => cases stepped
  | read w =>
    simp only [next] at stepped
    split at stepped
    next from' =>
      split at stepped
      next emptied =>
        cases stepped
        exact .readLast from' emptied
      next rest filled =>
        cases stepped
        exact .read from' filled
    next => cases stepped
  | swapOut w =>
    simp only [next] at stepped
    split at stepped
    next from' =>
      cases stepped
      exact .swapOut from'
    next => cases stepped
  | uncount w =>
    simp only [next] at stepped
    split at stepped
    next from' =>
      cases stepped
      exact .uncount from'
    next => cases stepped
  | tickle =>
    cases stepped
    exact .tickle
  | test =>
    simp only [next] at stepped
    split at stepped
    next => cases stepped
    next rest pending =>
      cases stepped
      split
      next someIdle => exact .test pending someIdle
      next noneIdle => exact .testNone pending (Nat.eq_zero_of_not_pos noneIdle)
  | write =>
    simp only [next] at stepped
    split at stepped
    next => cases stepped
    next rest pending =>
      cases stepped
      exact .write pending

end Reactors

/-! ### The invariant -/

/-- The worker looks at the timers again before it sleeps, or is woken by the earliest one. -/
def Nap.Attends (m : TimerManager) : Nap → Prop
  | .asked call | .waiting call => call.InTime m
  | _ => True

theorem Nap.Attends.later {m m' : TimerManager} {nap : Nap} (attends : nap.Attends m)
    (notLower : earliest m ≤ earliest m') : nap.Attends m' := by
  cases nap with
  | asked call | waiting call => exact Wait.InTime.later attends notLower
  | _ => trivial

theorem Nap.attends_of_awake {nap : Nap} (awake : nap.awake = true) (m : TimerManager) :
    nap.Attends m := by
  cases nap with
  | asked call | waiting call => cases awake
  | _ => trivial

namespace Reactors

/-- A tickle is in progress, or the pipe has something to report, or a worker attends. -/
def Attended (s : Reactors n) : Prop :=
  0 < s.toTest + s.toWrite ∨ (s.edge = true ∧ 0 < s.tickleBytes) ∨
    ∃ w, (s.nap w).Attends s.expiry.manager

/-- **The invariant.** A byte in the pipe is still to be reported, or somebody will empty it. -/
structure Watched (s : Reactors n) : Prop where
  owned : Owned s.expiry
  counted : s.idleThreadCount = tally Nap.idle s.nap
  reported : 0 < s.tickleBytes → s.edge = true ∨ ∃ w, (s.nap w).tickled = true
  attended : s.Attended

variable {s s' t : Reactors n} {w : Fin n} {nap : Nap} {event : Event n}

@[simp] theorem goto_nap_self : (s.goto w nap).nap w = nap := Function.update_self ..

theorem goto_nap_of_ne {v : Fin n} (other : v ≠ w) : (s.goto w nap).nap v = s.nap v :=
  Function.update_of_ne other ..

/-- A worker that attends. -/
theorem attended_of (attends : (s.nap w).Attends s.expiry.manager) : s.Attended :=
  .inr (.inr ⟨w, attends⟩)

/-- One worker moves, and the idle count with it. -/
theorem tally_goto (counted : s.idleThreadCount = tally Nap.idle s.nap) (w : Fin n) (nap : Nap) :
    tally Nap.idle (s.goto w nap).nap + (s.nap w).idle.toNat =
      s.idleThreadCount + nap.idle.toNat :=
  counted ▸ tally_update Nap.idle s.nap w nap

/-- Who has been told of the pipe stays so, unless the pipe is empty. -/
theorem tickled_goto (reported : s.edge = true ∨ ∃ v, (s.nap v).tickled = true)
    (keeps : (s.nap w).tickled = true → nap.tickled = true) :
    s.edge = true ∨ ∃ v, ((s.goto w nap).nap v).tickled = true := by
  refine reported.imp_right fun ⟨v, tickled⟩ => ⟨v, ?_⟩
  rcases eq_or_ne v w with rfl | other
  · rw [goto_nap_self]
    exact keeps tickled
  · rwa [goto_nap_of_ne other]

namespace Watched

theorem initial (positive : 0 < n) : Watched (Reactors.initial n) where
  owned := Owned.initial n
  counted := (tally_eq_zero_iff.mpr fun _ => rfl).symm
  reported filled := absurd filled (Nat.lt_irrefl 0)
  attended := attended_of (w := ⟨0, positive⟩) trivial

/-- A worker moves, and attends afterwards. -/
theorem goto (watched : Watched s) (idle : nap.idle = (s.nap w).idle)
    (keeps : (s.nap w).tickled = true → nap.tickled = true ∨ s.tickleBytes = 0)
    (attended : (s.goto w nap).Attended) : Watched (s.goto w nap) where
  owned := watched.owned
  counted := by
    have moved := tally_goto watched.counted w nap
    rw [idle] at moved
    exact (Nat.add_right_cancel moved).symm
  reported filled := tickled_goto (watched.reported filled) fun tickled =>
    (keeps tickled).resolve_right (Nat.pos_iff_ne_zero.mp filled)
  attended

/-- A step of the timers by a worker that is awake. -/
theorem timersStep_awake (watched : Watched s) (awake : (s.nap w).awake = true)
    (stepped : s.timersStep event = some t) : Watched t := by
  obtain ⟨expiry, ran, rfl⟩ := Option.map_eq_some_iff.mp stepped
  exact ⟨watched.owned.next ran, watched.counted, watched.reported,
    attended_of (Nap.attends_of_awake awake _)⟩

/-- **A call on the timers**: what brings the earliest one closer is announced, and otherwise who
attended attends. -/
theorem timersStep_request (watched : Watched s) {c : Call}
    (stepped : s.timersStep (.request c) = some t) : Watched t := by
  obtain ⟨expiry, ran, rfl⟩ := Option.map_eq_some_iff.mp stepped
  refine ⟨watched.owned.next ran, watched.counted, watched.reported, ?_⟩
  cases Expiry.move_of_next ran with
  | request asked requested =>
    obtain ⟨manager, called, rfl⟩ := Option.map_eq_some_iff.mp requested
    have placed := Placed.of_sorted watched.owned.sorted watched.owned.known
    have announces := announces_of_step placed asked called
    rcases lt_or_ge (earliest manager) (earliest s.expiry.manager) with lowered | notLower
    · obtain ⟨i, member, front⟩ := announces lowered
      have counted : 0 < (insertions s.expiry.manager c).countP (·.front) :=
        List.countP_pos_iff.mpr ⟨i, member, front⟩
      exact .inl (show 0 < s.toTest + (insertions s.expiry.manager c).countP (·.front) + s.toWrite
        by omega)
    · rcases watched.attended with pending | piped | ⟨v, attends⟩
      · exact .inl (show 0 < s.toTest + _ + s.toWrite by omega)
      · exact .inr (.inl piped)
      · exact .inr (.inr ⟨v, attends.later notLower⟩)

/-- **`epoll_wait` is called**, the first time or after an interruption. -/
theorem calls (watched : Watched s) {call : Wait}
    (from' : s.nap w = .asked call ∨ s.nap w = .waiting call) {clock : UInt64}
    (harmless : Harmless s.expiry.manager call.clock clock) :
    Watched (s.goto w (.waiting { call with clock })) := by
  have before : (s.nap w).idle = true ∧ (s.nap w).tickled = false := by
    rcases from' with asked | waiting
    · rw [asked]
      exact ⟨rfl, rfl⟩
    · rw [waiting]
      exact ⟨rfl, rfl⟩
  refine watched.goto before.1.symm (fun told => by rw [before.2] at told; cases told) ?_
  rcases watched.attended with pending | piped | ⟨v, attends⟩
  · exact .inl pending
  · exact .inr (.inl piped)
  · refine attended_of (w := v) ?_
    rcases eq_or_ne v w with rfl | other
    · have inTime : call.InTime s.expiry.manager := by
        rcases from' with asked | waiting
        · rwa [asked] at attends
        · rwa [waiting] at attends
      rw [goto_nap_self]
      exact Wait.InTime.again inTime harmless
    · rwa [goto_nap_of_ne other]

/-- **Every step keeps the invariant.** -/
theorem step (watched : Watched s) (positive : 0 < n) {turn : Turn n} (timely : Timely s turn)
    (stepped : s.next turn = some s') : Watched s' := by
  -- a worker that goes where it attends
  have attends (nap : Nap) (awake : nap.awake = true) (w : Fin n) : (s.goto w nap).Attended :=
    attended_of (w := w) (by rw [goto_nap_self]; exact Nap.attends_of_awake awake _)
  cases move_of_next stepped with
  | @countIdle w from' =>
    have moved := tally_goto watched.counted w .counted
    rw [from'] at moved
    refine ⟨watched.owned, moved.symm, fun filled => ?_, attends .counted rfl w⟩
    exact tickled_goto (watched.reported filled) fun told => by rw [from'] at told; cases told
  | @ask w now from' =>
    refine watched.goto (from' ▸ rfl) (fun told => by rw [from'] at told; cases told) ?_
    refine attended_of (w := w) ?_
    rw [goto_nap_self]
    exact firstWait_inTime watched.owned.sorted now
  | @wait w clock call from' =>
    have harmless : (s.nap w).Resumable s.expiry.manager clock := timely
    rw [from'] at harmless
    exact watched.calls (.inl from') harmless
  | @interrupt w clock call from' =>
    have harmless : (s.nap w).Resumable s.expiry.manager clock := timely
    rw [from'] at harmless
    exact watched.calls (.inr from') harmless
  | @wake w call from' =>
    exact watched.goto (from' ▸ rfl) (fun told => by rw [from'] at told; cases told)
      (attends _ rfl w)
  | @wakeTickled w call from' edge filled =>
    have moved := tally_goto watched.counted w (.woken true)
    rw [from'] at moved
    have told : ((s.goto w (.woken true)).nap w).tickled = true := by rw [goto_nap_self]; rfl
    refine ⟨watched.owned, (Nat.add_right_cancel moved).symm, fun _ => .inr ⟨w, told⟩,
      attended_of (w := w) ?_⟩
    exact Nap.attends_of_awake (Nap.awake_of_tickled told) _
  | @list w now tickled t from' listed =>
    have before := watched.timersStep_awake (w := w) (by rw [from']; rfl) listed
    obtain ⟨expiry, ran, rfl⟩ := Option.map_eq_some_iff.mp listed
    refine before.goto (from' ▸ rfl) (fun told => .inl ?_) (attended_of (w := w) ?_)
    · rwa [from'] at told
    · rw [goto_nap_self]
      trivial
  | @timers event e tickled t thread from' stepped =>
    exact watched.timersStep_awake (w := e) (from' ▸ rfl) stepped
  | request requested => exact watched.timersStep_request requested
  | @handle w tickled from' =>
    exact watched.goto (from' ▸ rfl) (fun told => .inl (by rwa [from'] at told)) (attends _ rfl w)
  | @read w rest from' filled =>
    refine ⟨watched.owned, watched.counted, fun _ => watched.reported (filled ▸ rest.succ_pos), ?_⟩
    exact attended_of (w := w) (Nap.attends_of_awake (from' ▸ rfl) _)
  | @readLast w from' emptied =>
    exact watched.goto (from' ▸ rfl) (fun _ => .inr emptied) (attends _ rfl w)
  | @swapOut w from' =>
    exact watched.goto (from' ▸ rfl) (fun told => by rw [from'] at told; cases told)
      (attends _ rfl w)
  | @uncount w from' =>
    have moved := tally_goto watched.counted w .running
    rw [from'] at moved
    refine ⟨watched.owned, ?_, fun filled => ?_, attends .running rfl w⟩
    · show s.idleThreadCount - 1 = _
      rw [show s.idleThreadCount = _ + 1 from moved.symm]
      rfl
    · exact tickled_goto (watched.reported filled) fun told => by rw [from'] at told; cases told
  | tickle =>
    exact ⟨watched.owned, watched.counted, watched.reported,
      .inl (show 0 < s.toTest + 1 + s.toWrite by omega)⟩
  | @test rest pending someIdle =>
    exact ⟨watched.owned, watched.counted, watched.reported,
      .inl (show 0 < rest + (s.toWrite + 1) by omega)⟩
  | @testNone rest pending noneIdle =>
    -- nobody is idle: the first worker is not in `idle()`
    have running := tally_eq_zero_iff.mp (watched.counted.symm.trans noneIdle) ⟨0, positive⟩
    refine ⟨watched.owned, watched.counted, watched.reported,
      attended_of (w := ⟨0, positive⟩) (Nap.attends_of_awake ?_ _)⟩
    show (s.nap ⟨0, positive⟩).awake = true
    cases nap : s.nap ⟨0, positive⟩ with
    | running => rfl
    | _ =>
      rw [nap] at running
      cases running
  | @write rest pending =>
    -- a pipe that was not empty is to be reported, or somebody is about to empty it
    have reported : (s.edge || s.tickleBytes == 0) = true ∨ ∃ v, (s.nap v).tickled = true := by
      rcases Nat.eq_zero_or_pos s.tickleBytes with emptied | filled
      · exact .inl (by rw [emptied, beq_self_eq_true, Bool.or_true])
      · exact (watched.reported filled).imp_left fun edge => by rw [edge, Bool.true_or]
    refine ⟨watched.owned, watched.counted, fun _ => reported, ?_⟩
    rcases reported with edge | ⟨v, told⟩
    · exact .inr (.inl ⟨edge, Nat.succ_pos _⟩)
    · exact attended_of (w := v) (Nap.attends_of_awake (Nap.awake_of_tickled told) _)

/-- **Every reachable state.** -/
theorem reachable (positive : 0 < n) (reached : (reactors n).ReachableWhen Timely s) : Watched s :=
  reached.invariant (fun _ begins => begins ▸ initial positive) fun _ _ _ watched timely stepped =>
    watched.step positive timely stepped

end Watched

end Reactors

/-! ### No oversleeping -/

/-- **Somebody wakes up for the earliest timer**: when all workers are in `epoll_wait` and no tickle
is in progress, the pipe has something to report, or it is empty and one of the calls ends no later
than the earliest timer is due. -/
theorem no_oversleep {s : Reactors n} (positive : 0 < n)
    (reached : (reactors n).ReachableWhen Timely s)
    (asleep : ∀ w, ∃ call, s.nap w = .waiting call) (quiet : s.toTest = 0 ∧ s.toWrite = 0) :
    (s.edge = true ∧ 0 < s.tickleBytes) ∨
      (s.tickleBytes = 0 ∧
        ∃ w call, s.nap w = .waiting call ∧ call.InTime s.expiry.manager) := by
  have watched := Reactors.Watched.reachable positive reached
  rcases Nat.eq_zero_or_pos s.tickleBytes with emptied | filled
  · rcases watched.attended with pending | piped | ⟨w, attends⟩
    · exact absurd pending (by rw [quiet.1, quiet.2]; exact Nat.lt_irrefl 0)
    · exact .inl piped
    · obtain ⟨call, waits⟩ := asleep w
      rw [waits] at attends
      exact .inr ⟨emptied, w, call, waits, attends⟩
  · rcases watched.reported filled with edge | ⟨w, told⟩
    · exact .inl ⟨edge, filled⟩
    · -- who empties the pipe is not in `epoll_wait`
      obtain ⟨call, waits⟩ := asleep w
      rw [waits] at told
      cases told

/-- Two workers wait for nothing; a timer comes, and one of them is told. -/
def oneIsTold : List (Turn 2) :=
  [.countIdle 0, .ask 0 0, .wait 0 0, .countIdle 1, .ask 1 0, .wait 1 4,
    .timers (.request (.addTimer 7 10 100 (some 1) false)), .test, .write, .interrupt 1 4,
    .wake 0 true, .list 0 12, .timers (.test 0), .timers (.writeSection 0 9), .handle 0, .read 0,
    .read 0, .swapOut 0, .uncount 0, .countIdle 0, .ask 0 20, .wait 0 20]

/-- It waits until the timer is due, and the other one for as long as before. -/
theorem no_oversleep_told :
    ∃ s, (reactors 2).ReachableWhen Timely s ∧ s.nap 1 = .waiting ⟨4, 5000⟩ ∧
      ∃ w call, s.nap w = .waiting call ∧ call.InTime s.expiry.manager := by
  have run : ∃ s, (reactors 2).ReachableWhen Timely s ∧ decide (s.edge = false ∧
      s.toTest = 0 ∧ s.toWrite = 0 ∧ s.nap 0 = .waiting ⟨20, 90⟩ ∧
        s.nap 1 = .waiting ⟨4, 5000⟩) = true :=
    Machine.reachableWhen_of_replay rfl oneIsTold _ (by decide +kernel)
  obtain ⟨s, reached, check⟩ := run
  obtain ⟨noEdge, noTest, noWrite, first, second⟩ := of_decide_eq_true check
  have asleep : ∀ w, ∃ call, s.nap w = .waiting call := by
    intro w
    match w with
    | 0 => exact ⟨_, first⟩
    | 1 => exact ⟨_, second⟩
  refine ⟨s, reached, second, ?_⟩
  rcases no_oversleep Nat.two_pos reached asleep ⟨noTest, noWrite⟩ with piped | ⟨-, inTime⟩
  · rw [noEdge] at piped
    cases piped.1
  · exact inTime

/-- A timer comes that is due at 100, and the only worker reads the timeout at 0. -/
def asksForHundred : List (Turn 1) :=
  [.timers (.request (.addTimer 7 0 100 (some 1) false)), .test, .countIdle 0, .ask 0 0]

/-- **A worker that comes to `epoll_wait` at 60, or again after an interruption at 60**, waits until
160 for the timer that is due at 100. -/
theorem oversleep_delayed : ∀ late ∈ [[Turn.wait 0 60], [.wait 0 0, .interrupt 0 60]],
    ((reactors 1).replay (.initial 1) (asksForHundred ++ late)).map (fun s =>
      decide (s.toTest + s.toWrite + s.tickleBytes = 0 ∧ s.nap 0 = .waiting ⟨60, 100⟩ ∧
        ¬ Wait.InTime s.expiry.manager ⟨60, 100⟩)) = some true := by
  decide +kernel

end Sylar.Timers
