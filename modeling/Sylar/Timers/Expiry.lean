/-
**Concurrent expiry: any number of threads in `list_expired_cbs`.**

`list_expired_cbs` passes its write lock to `add_timer(timer, lock)`, which unlocks it. So its write
section ends at the first recurring timer of the batch, and the rest of the loop runs without the
lock, on timers that are in no set:

* `writeSection` — the write section: the batch is taken out (`extract`) and the loop runs up to and
  including the first recurring timer (`lockedLoop`);
* `push`, `finish` — the two halves of an iteration after that, each a step of its own
  (`iterate`: the whole iteration as one step);
* `Event.request` — a call of another thread, atomic under the lock;
* `Expiry.move_of_next` — what a step can do, of all kinds.

Ghost state: every removal `list_expired_cbs` makes is logged with its clock reading and the
`m_next` it saw; every `cbs.push_back` names the removal it comes from.

`Owned` is the invariant: what a thread has taken out and not finished belongs to it alone.
**`one_firing_per_arming`** is what it gives over whole runs.
-/

import Sylar.Timers.Invariant
import Mathlib.Data.List.GetD
import Mathlib.Data.List.Indexes

namespace Sylar.Timers

open Sylar.Library

/-- A timer in a thread's `expired_timers`, with the number of its removal. -/
structure Extracted where
  timer : Address
  removal : Nat
deriving DecidableEq

/-- Where a thread is in `list_expired_cbs`. -/
inductive Pc
  | out
  | called (now : UInt64)
  | seen (now : UInt64)
  | looping (now : UInt64) (rest : List Extracted)
  | pushed (now : UInt64) (current : Extracted) (rest : List Extracted)
deriving DecidableEq

/-- A removal from `m_timers` by `list_expired_cbs`. -/
structure Removal where
  timer : Address
  now : UInt64
  next : UInt64
deriving DecidableEq

/-- A `cbs.push_back(timer->m_cb)`; `late`: `cancel()` had already returned true. -/
structure Handout where
  timer : Address
  cb : Option Callback
  removal : Nat
  late : Bool
deriving DecidableEq

/-- The manager, the `n` threads, and the ghost logs. -/
structure Expiry (n : Nat) where
  manager : TimerManager
  pc : Fin n → Pc
  removals : List Removal
  handed : List Handout
  cancelled : List Address

/-- A new manager. -/
def Expiry.initial (n : Nat) : Expiry n := ⟨empty, fun _ => .out, [], [], []⟩

/-- Back at the head of the loop, or past its end. -/
def resume (now : UInt64) : List Extracted → Pc
  | [] => .out
  | x :: rest => .looping now (x :: rest)

/-- The timers of a batch, numbered from the next removal. -/
def numbered (first : Nat) (batch : List Address) : List Extracted :=
  batch.mapIdx fun i a => ⟨a, first + i⟩

variable {n : Nat}

namespace Expiry

/-- The batch, out of the set. -/
def extracted (s : Expiry n) (now : UInt64) (probe : Address) : List Extracted :=
  numbered s.removals.length (expiredTimers s.manager now probe).1

/-- The first half of the write section: take the batch out. -/
def extract (s : Expiry n) (e : Fin n) (now : UInt64) (probe : Address) : Expiry n :=
  { s with
    manager := { s.manager with timers := (expiredTimers s.manager now probe).2 }
    pc := Function.update s.pc e (resume now (s.extracted now probe))
    removals := s.removals ++ (expiredTimers s.manager now probe).1.map fun a =>
      ⟨a, now, (s.manager.timer a).next⟩ }

/-- `cbs.push_back(timer->m_cb)`. -/
def push (s : Expiry n) (e : Fin n) (now : UInt64) (x : Extracted) (rest : List Extracted) :
    Expiry n :=
  { s with
    handed := s.handed ++
      [⟨x.timer, handOut s.manager x.timer, x.removal, decide (x.timer ∈ s.cancelled)⟩]
    pc := Function.update s.pc e (.pushed now x rest) }

/-- The re-arming, or `timer->m_cb = nullptr`. -/
def finish (s : Expiry n) (e : Fin n) (now : UInt64) (x : Extracted) (rest : List Extracted) :
    Expiry n :=
  { s with
    manager := finishExpired s.manager now x.timer
    pc := Function.update s.pc e (resume now rest) }

/-- The loop while the lock is held: up to the first timer that is armed again. -/
def lockedLoop (e : Fin n) (now : UInt64) : List Extracted → Expiry n → Expiry n
  | [], s => s
  | x :: rest, s =>
      let after := (s.push e now x rest).finish e now x rest
      if (s.manager.timer x.timer).recurring then after else lockedLoop e now rest after

/-- The write section of `list_expired_cbs`. -/
def writeSection (s : Expiry n) (e : Fin n) (now : UInt64) (probe : Address) : Expiry n :=
  lockedLoop e now (s.extracted now probe) (s.extract e now probe)

/-- The ghost log after a call: a `cancel()` that returned true is entered. -/
def logged (s : Expiry n) : Call → List Address
  | .cancel a => if (cancel s.manager a).2 then a :: s.cancelled else s.cancelled
  | _ => s.cancelled

/-- A call by another thread. -/
def request (s : Expiry n) (c : Call) : Option (Expiry n) :=
  (step s.manager c).map fun manager => { s with manager, cancelled := s.logged c }

end Expiry

/-- A step of a run. `call` reads the clock, `test` is the read section, `writeSection` the write
section, whose probe timer gets an address not in use. -/
inductive Event (n : Nat)
  | call (e : Fin n) (now : UInt64)
  | test (e : Fin n)
  | writeSection (e : Fin n) (probe : Address)
  | push (e : Fin n)
  | finish (e : Fin n)
  | iterate (e : Fin n)
  | request (c : Call)

namespace Expiry

/-- One step. -/
def next (s : Expiry n) : Event n → Option (Expiry n)
  | .call e now =>
      match s.pc e with
      | .out => some { s with pc := Function.update s.pc e (.called now) }
      | _ => none
  | .test e =>
      match s.pc e with
      | .called now =>
          some { s with pc := Function.update s.pc e (if s.manager.timers = [] then .out else .seen now) }
      | _ => none
  | .writeSection e probe =>
      match s.pc e with
      | .seen now => if probe ∈ s.manager.created then none else some (s.writeSection e now probe)
      | _ => none
  | .push e =>
      match s.pc e with
      | .looping now (x :: rest) => some (s.push e now x rest)
      | _ => none
  | .finish e =>
      match s.pc e with
      | .pushed now x rest => some (s.finish e now x rest)
      | _ => none
  | .iterate e =>
      match s.pc e with
      | .looping now (x :: rest) => some ((s.push e now x rest).finish e now x rest)
      | _ => none
  | .request (.listExpiredCbs _ _) => none
  | .request c => s.request c

end Expiry

/-- `n` threads that may call `list_expired_cbs`, on a new manager, and calls by other threads. -/
def expiry (n : Nat) : Machine (Expiry n) (Event n) := ⟨fun s => s = Expiry.initial n, Expiry.next⟩

/-! ### The steps -/

namespace Expiry

/-- **What a step can do.** -/
inductive Move (s : Expiry n) : Event n → Expiry n → Prop
  | call {e now} (out : s.pc e = .out) :
      Move s (.call e now) { s with pc := Function.update s.pc e (.called now) }
  | test {e now} (called : s.pc e = .called now) :
      Move s (.test e)
        { s with pc := Function.update s.pc e (if s.manager.timers = [] then .out else .seen now) }
  | writeSection {e now probe} (seen : s.pc e = .seen now) (fresh : probe ∉ s.manager.created) :
      Move s (.writeSection e probe) (s.writeSection e now probe)
  | push {e now x rest} (head : s.pc e = .looping now (x :: rest)) :
      Move s (.push e) (s.push e now x rest)
  | finish {e now x rest} (head : s.pc e = .pushed now x rest) :
      Move s (.finish e) (s.finish e now x rest)
  | iterate {e now x rest} (head : s.pc e = .looping now (x :: rest)) :
      Move s (.iterate e) ((s.push e now x rest).finish e now x rest)
  | request {c s'} (asked : ∀ now probe, c ≠ .listExpiredCbs now probe)
      (requested : s.request c = some s') : Move s (.request c) s'

theorem move_of_next {s s' : Expiry n} {event : Event n} (stepped : s.next event = some s') :
    s.Move event s' := by
  cases event with
  | request c =>
    cases c with
    | listExpiredCbs now probe => cases stepped
    | _ => exact .request (by simp) stepped
  | call e now =>
    simp only [next] at stepped
    split at stepped
    next out =>
      cases stepped
      exact .call out
    next => cases stepped
  | test e =>
    simp only [next] at stepped
    split at stepped
    next now called =>
      cases stepped
      exact .test called
    next => cases stepped
  | writeSection e probe =>
    simp only [next] at stepped
    split at stepped
    next now seen =>
      obtain ⟨fresh, same⟩ := Option.ite_none_left_eq_some.mp stepped
      cases same
      exact .writeSection seen fresh
    next => cases stepped
  | push e =>
    simp only [next] at stepped
    split at stepped
    next now x rest head =>
      cases stepped
      exact .push head
    next => cases stepped
  | finish e =>
    simp only [next] at stepped
    split at stepped
    next now x rest head =>
      cases stepped
      exact .finish head
    next => cases stepped
  | iterate e =>
    simp only [next] at stepped
    split at stepped
    next now x rest head =>
      cases stepped
      exact .iterate head
    next => cases stepped

end Expiry

/-! ### What a thread holds -/

/-- The timers a thread has taken out and not finished. -/
def Pc.hand : Pc → List Extracted
  | .looping _ rest => rest
  | .pushed _ x rest => x :: rest
  | _ => []

/-- Those among them it has still to push. -/
def Pc.toPush : Pc → List Extracted
  | .looping _ rest => rest
  | .pushed _ _ rest => rest
  | _ => []

@[simp] theorem hand_resume (now : UInt64) (rest : List Extracted) :
    (resume now rest).hand = rest := by cases rest <;> rfl

@[simp] theorem toPush_resume (now : UInt64) (rest : List Extracted) :
    (resume now rest).toPush = rest := by cases rest <;> rfl

theorem Pc.toPush_subset_hand (pc : Pc) : pc.toPush ⊆ pc.hand := by
  cases pc <;> simp [Pc.toPush, Pc.hand]

@[simp] theorem map_timer_numbered (first : Nat) (batch : List Address) :
    (numbered first batch).map Extracted.timer = batch := by
  unfold numbered
  apply List.ext_getElem <;> simp

theorem mem_numbered {first : Nat} {batch : List Address} {x : Extracted}
    (member : x ∈ numbered first batch) :
    ∃ i, batch[i]? = some x.timer ∧ x.removal = first + i := by
  obtain ⟨i, bound, rfl⟩ := List.mem_mapIdx.mp member
  exact ⟨i, List.getElem?_eq_getElem bound, rfl⟩

/-! ### The invariant -/

/-- **What is taken out belongs to one thread and to one removal.** -/
structure Owned (s : Expiry n) : Prop where
  sorted : s.manager.Sorted
  known : ∀ a ∈ s.manager.timers, a ∈ s.manager.created
  knownRemoval : ∀ r ∈ s.removals, r.timer ∈ s.manager.created
  due : ∀ r ∈ s.removals, r.next ≤ r.now
  named : ∀ e, ∀ x ∈ (s.pc e).hand, ∃ r, s.removals[x.removal]? = some r ∧ r.timer = x.timer
  out : ∀ e, ∀ x ∈ (s.pc e).hand, x.timer ∉ s.manager.timers
  distinct : ∀ e, ((s.pc e).hand.map Extracted.timer).Nodup
  apart : ∀ e e', e ≠ e' → ∀ x ∈ (s.pc e).hand, ∀ y ∈ (s.pc e').hand, x.timer ≠ y.timer
  handedNamed : ∀ h ∈ s.handed, ∃ r, s.removals[h.removal]? = some r ∧ r.timer = h.timer
  handedOnce : (s.handed.map Handout.removal).Nodup
  unpushed : ∀ e, ∀ x ∈ (s.pc e).toPush, ∀ h ∈ s.handed, h.removal ≠ x.removal
  oneShotOut : ∀ r ∈ s.removals, (s.manager.timer r.timer).recurring = false →
    r.timer ∉ s.manager.timers
  oneShot : ∀ (i j : Nat) (r r' : Removal), s.removals[i]? = some r → s.removals[j]? = some r' →
    r.timer = r'.timer → (s.manager.timer r.timer).recurring = false → i = j

namespace Owned

theorem initial (n : Nat) : Owned (Expiry.initial n) where
  sorted := List.Pairwise.nil
  known a member := by cases member
  knownRemoval r member := by cases member
  due r member := by cases member
  named e x member := by cases member
  out e x member := by cases member
  distinct e := List.nodup_nil
  apart e e' _ x member := by cases member
  handedNamed h member := by cases member
  handedOnce := List.nodup_nil
  unpushed e x member := by cases member
  oneShotOut r member := by cases member
  oneShot i j r r' found := by simp [Expiry.initial] at found

variable {s : Expiry n}

/-- Timers in a thread's hand were made. -/
theorem knownHand (owned : Owned s) {e : Fin n} {x : Extracted} (member : x ∈ (s.pc e).hand) :
    x.timer ∈ s.manager.created := by
  obtain ⟨r, found, same⟩ := owned.named e x member
  exact same ▸ owned.knownRemoval r (List.mem_of_getElem? found)

/-- **One removal, one timer in hand.** -/
theorem removal_ne (owned : Owned s) {e e' : Fin n} {x y : Extracted} (memX : x ∈ (s.pc e).hand)
    (memY : y ∈ (s.pc e').hand) (other : x.timer ≠ y.timer) : x.removal ≠ y.removal := by
  intro same
  obtain ⟨r, foundX, timerX⟩ := owned.named e x memX
  obtain ⟨r', foundY, timerY⟩ := owned.named e' y memY
  rw [same, foundY] at foundX
  cases foundX
  exact other (timerX.symm.trans timerY)

/-- Moving a thread whose hand stays or shrinks. -/
theorem setPc (owned : Owned s) (e : Fin n) {pc : Pc} (handSub : pc.hand.Sublist (s.pc e).hand)
    (pushSub : pc.toPush ⊆ (s.pc e).toPush) :
    Owned { s with pc := Function.update s.pc e pc } := by
  have inHand : ∀ f, ∀ x ∈ (Function.update s.pc e pc f).hand, x ∈ (s.pc f).hand := by
    intro f x member
    by_cases self : f = e
    · subst self
      rw [Function.update_self] at member
      exact handSub.subset member
    · rwa [Function.update_of_ne self] at member
  refine { owned with
    named := fun f x member => owned.named f x (inHand f x member)
    out := fun f x member => owned.out f x (inHand f x member)
    distinct := fun f => ?_
    apart := fun f f' other x memX y memY =>
      owned.apart f f' other x (inHand f x memX) y (inHand f' y memY)
    unpushed := fun f x member => ?_ }
  · by_cases self : f = e
    · subst self
      simp only [Function.update_self]
      exact (owned.distinct f).sublist (handSub.map _)
    · simp only [Function.update_of_ne self]
      exact owned.distinct f
  · by_cases self : f = e
    · subst self
      simp only [Function.update_self] at member
      exact owned.unpushed f x (pushSub member)
    · simp only [Function.update_of_ne self] at member
      exact owned.unpushed f x member

/-- **A change of the manager by another thread**: the set gains nothing but new timers, and no
timer changes its kind. -/
theorem setManager (owned : Owned s) {m : TimerManager} (cancelled : List Address)
    (sorted : m.Sorted) (grows : s.manager.created ⊆ m.created)
    (gains : ∀ a ∈ m.timers, a ∈ s.manager.timers ∨ (a ∉ s.manager.created ∧ a ∈ m.created))
    (kind : ∀ a ∈ s.manager.created, (m.timer a).recurring = (s.manager.timer a).recurring) :
    Owned { s with manager := m, cancelled } := by
  have stays : ∀ a ∈ s.manager.created, a ∉ s.manager.timers → a ∉ m.timers := by
    intro a made outside inside
    rcases gains a inside with old | ⟨fresh, -⟩
    · exact outside old
    · exact fresh made
  refine { owned with
    sorted
    known := fun a inside => ?_
    knownRemoval := fun r member => grows (owned.knownRemoval r member)
    out := fun e x member => stays _ (owned.knownHand member) (owned.out e x member)
    oneShotOut := fun r member once => ?_
    oneShot := fun i j r r' found found' same once => ?_ }
  · rcases gains a inside with old | ⟨-, made⟩
    · exact grows (owned.known a old)
    · exact made
  · rw [kind _ (owned.knownRemoval r member)] at once
    exact stays _ (owned.knownRemoval r member) (owned.oneShotOut r member once)
  · rw [kind _ (owned.knownRemoval r (List.mem_of_getElem? found))] at once
    exact owned.oneShot i j r r' found found' same once

/-! ### One lemma for each step -/

/-- `cbs.push_back` uses up the removal of the timer at the head. -/
theorem push (owned : Owned s) {e : Fin n} {now : UInt64} {x : Extracted} {rest : List Extracted}
    (head : s.pc e = .looping now (x :: rest)) : Owned (s.push e now x rest) := by
  have inHand : x ∈ (s.pc e).hand := by rw [head]; exact List.mem_cons_self
  have moved : Owned { s with pc := Function.update s.pc e (.pushed now x rest) } := by
    refine owned.setPc e ?_ ?_
    · rw [head]
      exact List.Sublist.refl _
    · rw [head]
      exact List.subset_cons_self _ _
  refine { moved with
    handedNamed := fun h member => ?_
    handedOnce := ?_
    unpushed := fun f y member h memH => ?_ }
  · rcases List.mem_append.mp member with old | new
    · exact owned.handedNamed h old
    · rw [List.mem_singleton.mp new]
      exact owned.named e x inHand
  · simp only [Expiry.push, List.map_append, List.map_cons, List.map_nil]
    refine List.nodup_append'.mpr ⟨owned.handedOnce, List.nodup_singleton _, ?_⟩
    intro removal old new
    obtain ⟨h, memH, rfl⟩ := List.mem_map.mp old
    refine owned.unpushed e x ?_ h memH (List.mem_singleton.mp new)
    rw [head]
    exact List.mem_cons_self
  · rcases List.mem_append.mp memH with old | new
    · exact moved.unpushed f y member h old
    · rw [List.mem_singleton.mp new]
      -- the pushed timer and the one still to push are different timers
      have distinct := moved.distinct e
      simp only [Function.update_self, Pc.hand, List.map_cons, List.nodup_cons] at distinct
      have memY := Pc.toPush_subset_hand _ member
      have memX : x ∈ (({ s with pc := Function.update s.pc e (.pushed now x rest) } :
          Expiry n).pc e).hand := by
        simp [Pc.hand]
      refine moved.removal_ne memX memY fun same => ?_
      by_cases self : f = e
      · subst self
        simp only [Expiry.push, Function.update_self, Pc.toPush] at member
        exact distinct.1 (same ▸ List.mem_map_of_mem member)
      · exact moved.apart f e self y memY x memX same.symm

/-- Finishing an iteration puts a recurring timer back, and no other. -/
theorem finish (owned : Owned s) {e : Fin n} {now : UInt64} {x : Extracted} {rest : List Extracted}
    (head : s.pc e = .pushed now x rest) : Owned (s.finish e now x rest) := by
  have inHand : x ∈ (s.pc e).hand := by rw [head]; exact List.mem_cons_self
  have outside : x.timer ∉ s.manager.timers := owned.out e x inHand
  have distinct := owned.distinct e
  rw [head] at distinct
  have apartRest := (List.nodup_cons.mp distinct).1
  have moved : Owned { s with pc := Function.update s.pc e (resume now rest) } := by
    refine owned.setPc e ?_ ?_
    · rw [head, hand_resume]
      exact List.sublist_cons_self _ _
    · rw [head, toPush_resume]
      exact fun _ member => member
  have others : ∀ f, ∀ y ∈ (Function.update s.pc e (resume now rest) f).hand,
      y.timer ≠ x.timer := by
    intro f y member
    by_cases self : f = e
    · subst self
      rw [Function.update_self, hand_resume] at member
      exact fun same => apartRest (same ▸ List.mem_map_of_mem member)
    · rw [Function.update_of_ne self] at member
      exact owned.apart f e self y member x inHand
  refine { moved with
    sorted := ?_
    known := fun a inside => ?_
    knownRemoval := fun r member => ?_
    out := fun f y member inside => ?_
    oneShotOut := fun r member once inside => ?_
    oneShot := fun i j r r' found found' same once => ?_ }
  · exact owned.sorted.finishExpired outside now
  · simp only [Expiry.finish, finishExpired_created]
    rcases mem_timers_finishExpired.mp inside with old | ⟨rfl, -⟩
    · exact owned.known a old
    · exact owned.knownHand inHand
  · simpa [Expiry.finish] using owned.knownRemoval r member
  · rcases mem_timers_finishExpired.mp inside with old | ⟨same, -⟩
    · exact moved.out f y member old
    · exact others f y member same
  · simp only [Expiry.finish, finishExpired_recurring] at once
    rcases mem_timers_finishExpired.mp inside with old | ⟨-, again⟩
    · exact owned.oneShotOut r member once old
    · rw [once] at again
      cases again
  · simp only [Expiry.finish, finishExpired_recurring] at once
    exact owned.oneShot i j r r' found found' same once

section Extract

variable {e f : Fin n} {now : UInt64} {probe : Address} {i : Nat} {r : Removal} {x : Extracted}

/-- The log grows. -/
theorem removals_extract_of_some (found : s.removals[i]? = some r) :
    (s.extract e now probe).removals[i]? = some r :=
  (List.getElem?_append_left (List.getElem?_eq_some_iff.mp found).1).trans found

/-- A removal in the log is an earlier one, or of a timer of the batch. -/
theorem removals_extract_cases (found : (s.extract e now probe).removals[i]? = some r) :
    s.removals[i]? = some r ∨ ∃ k a, i = s.removals.length + k ∧
      (expiredTimers s.manager now probe).1[k]? = some a ∧ r = ⟨a, now, (s.manager.timer a).next⟩ := by
  rcases Nat.lt_or_ge i s.removals.length with past | new
  · exact .inl ((List.getElem?_append_left past).symm.trans found)
  · have recent := (List.getElem?_append_right new).symm.trans found
    rw [List.getElem?_map, Option.map_eq_some_iff] at recent
    obtain ⟨a, inBatch, rfl⟩ := recent
    exact .inr ⟨_, a, (Nat.add_sub_of_le new).symm, inBatch, rfl⟩

/-- A timer taken out is one of the batch, and its removal is in the log. -/
theorem mem_extracted (e : Fin n) (member : x ∈ s.extracted now probe) :
    x.timer ∈ (expiredTimers s.manager now probe).1 ∧ s.removals.length ≤ x.removal ∧
      ∃ r, (s.extract e now probe).removals[x.removal]? = some r ∧ r.timer = x.timer := by
  obtain ⟨i, found, same⟩ := mem_numbered member
  refine ⟨List.mem_of_getElem? found, same ▸ Nat.le_add_right _ _,
    ⟨x.timer, now, (s.manager.timer x.timer).next⟩, ?_, rfl⟩
  refine (List.getElem?_append_right (same ▸ Nat.le_add_right _ _)).trans ?_
  rw [same, Nat.add_sub_cancel_left, List.getElem?_map, found]
  rfl

/-- What a thread has in hand is the batch, or what it had. -/
theorem hand_extract_cases (member : x ∈ ((s.extract e now probe).pc f).hand) :
    f = e ∧ x ∈ s.extracted now probe ∨ f ≠ e ∧ x ∈ (s.pc f).hand := by
  simp only [Expiry.extract] at member
  by_cases self : f = e
  · subst self
    rw [Function.update_self, hand_resume] at member
    exact .inl ⟨rfl, member⟩
  · rw [Function.update_of_ne self] at member
    exact .inr ⟨self, member⟩

/-- **Taking a batch out**: it goes from the set to one thread's hand, each timer with a removal of
its own. -/
theorem extract (owned : Owned s) (fresh : probe ∉ s.manager.created) :
    Owned (s.extract e now probe) := by
  have split := expiredTimers_append s.manager now probe
  have nodup := owned.sorted.nodup_expiredTimers now probe
  -- a one-shot timer of the batch has no earlier removal
  have first : ∀ {a : Address} {i : Nat} {r : Removal}, a ∈ (expiredTimers s.manager now probe).1 →
      s.removals[i]? = some r → r.timer = a → (s.manager.timer r.timer).recurring ≠ false := by
    intro a i r member found same once
    exact owned.oneShotOut r (List.mem_of_getElem? found) once (same ▸ mem_timers_of_expired member)
  refine
    { sorted := ?_
      known := fun a inside => owned.known a (mem_timers_of_left inside)
      knownRemoval := fun r member => ?_
      due := fun r member => ?_
      named := fun f x member => ?_
      out := fun f x member inside => ?_
      distinct := fun f => ?_
      apart := fun f f' other x memX y memY same => ?_
      handedNamed := fun h member => ?_
      handedOnce := owned.handedOnce
      unpushed := fun f x member h memH => ?_
      oneShotOut := fun r member once inside => ?_
      oneShot := fun i j r r' found found' same once => ?_ }
  · exact List.Pairwise.sublist (split ▸ List.sublist_append_right _ _) owned.sorted
  · rcases List.mem_append.mp member with past | new
    · exact owned.knownRemoval r past
    · obtain ⟨a, memA, rfl⟩ := List.mem_map.mp new
      exact owned.known a (mem_timers_of_expired memA)
  · rcases List.mem_append.mp member with past | new
    · exact owned.due r past
    · obtain ⟨a, memA, rfl⟩ := List.mem_map.mp new
      exact expiredTimers_due (fun inside => fresh (owned.known probe inside)) memA
  · rcases hand_extract_cases member with ⟨-, member⟩ | ⟨-, member⟩
    · exact (mem_extracted e member).2.2
    · obtain ⟨r, found, same⟩ := owned.named f x member
      exact ⟨r, removals_extract_of_some found, same⟩
  · rcases hand_extract_cases member with ⟨-, member⟩ | ⟨-, member⟩
    · exact nodup.2.2 (mem_extracted e member).1 inside
    · exact owned.out f x member (mem_timers_of_left inside)
  · simp only [Expiry.extract]
    by_cases self : f = e
    · subst self
      rw [Function.update_self, hand_resume, Expiry.extracted, map_timer_numbered]
      exact nodup.1
    · rw [Function.update_of_ne self]
      exact owned.distinct f
  · rcases hand_extract_cases memX with ⟨rfl, newX⟩ | ⟨-, oldX⟩ <;>
      rcases hand_extract_cases memY with ⟨rfl, newY⟩ | ⟨-, oldY⟩
    · exact other rfl
    · exact owned.out f' y oldY (same ▸ mem_timers_of_expired (mem_extracted f newX).1)
    · exact owned.out f x oldX (same ▸ mem_timers_of_expired (mem_extracted f' newY).1)
    · exact owned.apart f f' other x oldX y oldY same
  · obtain ⟨r, found, same⟩ := owned.handedNamed h member
    exact ⟨r, removals_extract_of_some found, same⟩
  · rcases hand_extract_cases (Pc.toPush_subset_hand _ member) with ⟨-, new⟩ | ⟨self, -⟩
    · obtain ⟨r, found, -⟩ := owned.handedNamed h memH
      have past := (List.getElem?_eq_some_iff.mp found).1
      have recent := (mem_extracted e new).2.1
      omega
    · simp only [Expiry.extract, Function.update_of_ne self] at member
      exact owned.unpushed f x member h memH
  · rcases List.mem_append.mp member with past | new
    · exact owned.oneShotOut r past once (mem_timers_of_left inside)
    · obtain ⟨a, memA, rfl⟩ := List.mem_map.mp new
      exact nodup.2.2 memA inside
  · rcases removals_extract_cases found with found | ⟨k, a, rfl, memA, rfl⟩ <;>
      rcases removals_extract_cases found' with found' | ⟨k', b, rfl, memB, rfl⟩
    · exact owned.oneShot i j r r' found found' same once
    · exact absurd once (first (List.mem_of_getElem? memB) found same)
    · exact absurd (same ▸ once) (first (List.mem_of_getElem? memA) found' same.symm)
    · obtain rfl : a = b := same
      have equal := (List.getElem?_inj (List.getElem?_eq_some_iff.mp memA).1 nodup.1).mp
        (memA.trans memB.symm)
      rw [equal]

end Extract

end Owned

/-- **What `push` and `finish` keep, the locked part of the loop keeps.** -/
theorem lockedLoop_keeps {P : Expiry n → Prop} {e : Fin n} {now : UInt64}
    (pushes : ∀ s x rest, P s → s.pc e = .looping now (x :: rest) → P (s.push e now x rest))
    (finishes : ∀ s x rest, P s → s.pc e = .pushed now x rest → P (s.finish e now x rest)) :
    ∀ (batch : List Extracted) (s : Expiry n), P s → s.pc e = resume now batch →
      P (Expiry.lockedLoop e now batch s)
  | [], _, holds, _ => holds
  | x :: rest, s, holds, head => by
    have after : P ((s.push e now x rest).finish e now x rest) :=
      finishes _ x rest (pushes s x rest holds head) (Function.update_self _ _ _)
    unfold Expiry.lockedLoop
    split
    · exact after
    · exact lockedLoop_keeps pushes finishes rest _ after (Function.update_self _ _ _)

/-- **What a call of another thread can do**: a new timer, a cancellation, a timer of the set moved,
or nothing. -/
theorem request_cases {s s' : Expiry n} {c : Call} (sorted : s.manager.Sorted)
    (asked : ∀ now probe, c ≠ .listExpiredCbs now probe) (requested : s.request c = some s') :
    (∃ a now ms cb recurring, a ∉ s.manager.created ∧
        s' = { s with manager := (addTimer s.manager a now ms cb recurring).1 }) ∨
      (∃ a, c = .cancel a ∧ (s.manager.timer a).cb ≠ none ∧ a ∈ s.manager.created ∧
        s' = { s with manager := disarm s.manager a, cancelled := a :: s.cancelled }) ∨
      (∃ a t, a ∈ s.manager.timers ∧ t.cb = (s.manager.timer a).cb ∧
        t.recurring = (s.manager.timer a).recurring ∧
        s' = { s with manager := rekey s.manager a t }) ∨
      s' = s := by
  obtain ⟨m', stepped, rfl⟩ := Option.map_eq_some_iff.mp requested
  cases c with
  | addTimer a now ms cb recurring =>
    obtain ⟨fresh, same⟩ := Option.ite_none_left_eq_some.mp stepped
    cases same
    exact Or.inl ⟨a, now, ms, cb, recurring, fresh, rfl⟩
  | cancel a =>
    obtain ⟨made, same⟩ := Option.ite_none_right_eq_some.mp stepped
    cases same
    rw [Expiry.logged, cancel_eq sorted]
    split
    next => exact Or.inr (Or.inr (Or.inr rfl))
    next armed => exact Or.inr (Or.inl ⟨a, rfl, armed, made, rfl⟩)
  | refresh a now =>
    obtain ⟨-, same⟩ := Option.ite_none_right_eq_some.mp stepped
    cases same
    rw [refresh_eq sorted]
    split
    next => exact Or.inr (Or.inr (Or.inr rfl))
    next armed =>
      rw [not_or, not_not] at armed
      exact Or.inr (Or.inr (Or.inl ⟨a, { s.manager.timer a with
        next := now + (s.manager.timer a).ms }, armed.2, rfl, rfl, rfl⟩))
  | reset a now ms fromNow =>
    obtain ⟨-, same⟩ := Option.ite_none_right_eq_some.mp stepped
    cases same
    rw [reset_eq sorted]
    split
    next => exact Or.inr (Or.inr (Or.inr rfl))
    next =>
      split
      next => exact Or.inr (Or.inr (Or.inr rfl))
      next inside =>
        exact Or.inr (Or.inr (Or.inl ⟨a, { s.manager.timer a with
          next := resetNext (s.manager.timer a) now ms fromNow, ms }, not_not.mp inside, rfl, rfl,
          rfl⟩))
  | listExpiredCbs now probe => exact absurd rfl (asked now probe)

namespace Owned

variable {s s' : Expiry n}

theorem request (owned : Owned s) {c : Call}
    (asked : ∀ now probe, c ≠ .listExpiredCbs now probe) (requested : s.request c = some s') :
    Owned s' := by
  rcases request_cases owned.sorted asked requested with
    ⟨a, now, ms, cb, recurring, fresh, rfl⟩ | ⟨a, -, -, -, rfl⟩ | ⟨a, t, inside, -, kind, rfl⟩ | rfl
  · have outside : a ∉ s.manager.timers := fun inside => fresh (owned.known a inside)
    refine owned.setManager s.cancelled ?_ (List.subset_cons_self _ _) (fun b member => ?_)
      fun b made => ?_
    · exact TimerManager.Sorted.insertTimer
        (m := { s.manager.write a { recurring, ms, next := now + ms, cb } with
          created := a :: s.manager.created }) (owned.sorted.write outside _) a
    · rcases mem_insertTimer.mp member with rfl | old
      · exact Or.inr ⟨fresh, List.mem_cons_self⟩
      · exact Or.inl old
    · exact congrArg Timer.recurring (write_timer_of_ne (ne_of_mem_of_not_mem made fresh) _)
  · refine owned.setManager (a :: s.cancelled) (owned.sorted.disarm a) (List.Subset.refl _)
      (fun b member => Or.inl (owned.sorted.mem_disarm.mp member).2) fun b _ => ?_
    rw [disarm_timer]
    by_cases self : b = a
    · subst self
      simp
    · rw [Function.update_of_ne self]
  · refine owned.setManager s.cancelled (owned.sorted.rekey a t) (List.Subset.refl _)
      (fun b member => Or.inl ?_) fun b _ => ?_
    · rcases owned.sorted.mem_rekey.mp member with rfl | old
      · exact inside
      · exact old
    · rw [rekey_timer]
      by_cases self : b = a
      · subst self
        simp [kind]
      · rw [Function.update_of_ne self]
  · exact owned

/-- **Every step keeps the invariant.** -/
theorem next (owned : Owned s) {event : Event n} (stepped : s.next event = some s') : Owned s' := by
  cases Expiry.move_of_next stepped with
  | call out => exact owned.setPc _ (List.nil_sublist _) (List.nil_subset _)
  | test called => refine owned.setPc _ ?_ ?_ <;> split <;> simp [Pc.hand, Pc.toPush]
  | writeSection _ fresh =>
    exact lockedLoop_keeps (fun _ _ _ owned head => owned.push head)
      (fun _ _ _ owned head => owned.finish head) _ _ (owned.extract fresh)
      (Function.update_self _ _ _)
  | push head => exact owned.push head
  | finish head => exact owned.finish head
  | iterate head => exact (owned.push head).finish (Function.update_self _ _ _)
  | request asked requested => exact owned.request asked requested

theorem reachable (reached : (expiry n).Reachable s) : Owned s :=
  reached.invariant (fun _ begins => begins ▸ initial n) fun _ _ _ owned _ stepped =>
    owned.next stepped

end Owned

/-! ### At most one firing per arming -/

/-- The handouts of a callback that is not empty. -/
def Expiry.fired (s : Expiry n) : List Handout := s.handed.filter fun h => h.cb.isSome

/-- Two handouts of a timer that is not recurring come from one removal. -/
theorem Owned.oneShot_removal {s : Expiry n} (owned : Owned s) {h h' : Handout}
    (member : h ∈ s.handed) (member' : h' ∈ s.handed) (same : h.timer = h'.timer)
    (once : (s.manager.timer h.timer).recurring = false) : h.removal = h'.removal := by
  obtain ⟨r, found, timerR⟩ := owned.handedNamed h member
  obtain ⟨r', found', timerR'⟩ := owned.handedNamed h' member'
  exact owned.oneShot _ _ r r' found found' (timerR.trans (same.trans timerR'.symm))
    (timerR ▸ once)

/-- **At most one firing per arming**, over any run: a timer that is not recurring fires at most
once in total; any two firings come from two removals, and the removal a firing comes from was made
at a clock reading not earlier than the timer's `m_next` then. -/
theorem one_firing_per_arming (n : Nat) (s : Expiry n) (reached : (expiry n).Reachable s) :
    (∀ a, (s.manager.timer a).recurring = false →
      (s.fired.filter fun h => h.timer = a).length ≤ 1) ∧
    (s.fired.map Handout.removal).Nodup ∧
    ∀ h ∈ s.fired, ∃ r, s.removals[h.removal]? = some r ∧ r.timer = h.timer ∧ r.next ≤ r.now := by
  have owned := Owned.reachable reached
  have firedOnce : (s.fired.map Handout.removal).Nodup :=
    owned.handedOnce.sublist (List.filter_sublist.map _)
  refine ⟨fun a once => ?_, firedOnce, fun h member => ?_⟩
  · have distinct : ((s.fired.filter fun h => h.timer = a).map Handout.removal).Nodup :=
      firedOnce.sublist (List.filter_sublist.map _)
    by_contra several
    -- two handouts would share their removal
    match content : s.fired.filter fun h => h.timer = a with
    | [] => simp [content] at several
    | [_] => simp [content] at several
    | h :: h' :: _ =>
      have memH : h ∈ s.fired.filter fun h => h.timer = a := content ▸ List.mem_cons_self
      have memH' : h' ∈ s.fired.filter fun h => h.timer = a :=
        content ▸ List.mem_cons_of_mem _ List.mem_cons_self
      simp only [Expiry.fired, List.mem_filter, decide_eq_true_eq] at memH memH'
      have same := owned.oneShot_removal memH.1.1 memH'.1.1 (memH.2.trans memH'.2.symm)
        (memH.2 ▸ once)
      rw [content] at distinct
      simp [same] at distinct
  · have memHanded : h ∈ s.handed := List.mem_of_mem_filter member
    obtain ⟨r, found, same⟩ := owned.handedNamed h memHanded
    exact ⟨r, found, same, owned.due r (List.mem_of_getElem? found)⟩

/-- Two threads expire a recurring and a one-shot timer at once; the recurring one fires twice. -/
def twoReactors : List (Event 2) :=
  [.request (.addTimer 3 0 10 (some 1) true), .request (.addTimer 7 0 10 (some 2) false),
    .call 0 10, .call 1 25, .test 0, .test 1, .writeSection 0 9, .writeSection 1 9, .push 0,
    .finish 0]

theorem one_firing_per_arming_twoReactors :
    ∃ s, (expiry 2).replay (Expiry.initial 2) twoReactors = some s ∧
      s.fired.map Handout.timer = [3, 3, 7] ∧ (s.fired.map Handout.removal).Nodup := by
  refine ⟨_, rfl, by decide, (one_firing_per_arming 2 _ ?_).2.1⟩
  exact Machine.ReachableWhen.replay (.start rfl)
    (show (expiry 2).replay (Expiry.initial 2) twoReactors = some _ from rfl)

end Sylar.Timers
