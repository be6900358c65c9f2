/-
**`Scheduler::stop` joins the threads: any number of calls at once.**

A call swaps `m_threads` out under `m_mutex`, joins every thread that it got, and destroys the
objects when it returns. `Thread::join` throws when `pthread_join` fails, which it does for the
calling thread itself; the objects are then destroyed on the way out, and `Thread::~Thread` detaches
the threads that were not joined.

* `stops` — any number of calls, each from outside the pool or from one of its workers, and workers
  that come to their ends.
* `Shared` — **one call has all the threads**, or `m_threads` still has them.
* `Handled` — the invariant: what was released, how, and by whom.
* `released_once` — **every thread is joined or detached at most once**, is joined only after it has
  ended, and a call that had the threads returns only after all of them have ended.
-/

import Sylar.Library.Machine
import Mathlib.Data.Fintype.Basic
import Mathlib.Data.List.FinRange

namespace Sylar.Threads

open Sylar.Library

variable {k n : Nat}

/-- A `Thread` object and the thread that it stands for. -/
structure Handle where
  /-- `m_thread` is not zero -/
  attached : Bool := true
  /-- the thread has ended -/
  exited : Bool := false
  /-- calls of `pthread_join` that returned 0 -/
  joined : Nat := 0
  /-- calls of `pthread_detach` -/
  detached : Nat := 0
deriving DecidableEq

/-- `Thread::~Thread`. -/
def Handle.destroy (h : Handle) : Handle :=
  if h.attached then { h with attached := false, detached := h.detached + 1 } else h

/-- `pthread_join` returns 0, and `m_thread = 0`. -/
def Handle.join (h : Handle) : Handle := { h with attached := false, joined := h.joined + 1 }

/-- Where a call of `stop()` is. -/
inductive StopPc (n : Nat)
  | entered
  /-- in the loop over `thrs` -/
  | joining (done rest : List (Fin n))
  | returned (thrs : List (Fin n))
  /-- `Thread::join` threw -/
  | thrown (thrs : List (Fin n))
deriving DecidableEq

/-- The threads that the call has taken. -/
def StopPc.thrs : StopPc n → List (Fin n)
  | .entered => []
  | .joining done rest => done ++ rest
  | .returned thrs | .thrown thrs => thrs

/-- The call is in its loop. -/
def StopPc.inLoop : StopPc n → Bool
  | .joining _ _ => true
  | _ => false

/-- `m_threads`, the calls, and the threads. -/
structure Stops (k n : Nat) where
  threads : List (Fin n)
  pc : Fin k → StopPc n
  worker : Fin n → Handle

/-- A step of a call, or the end of a worker. -/
inductive StopEvent (k n : Nat)
  | swap (c : Fin k)
  | join (c : Fin k)
  | exit (w : Fin n)
deriving DecidableEq

namespace Stops

variable (who : Fin k → Option (Fin n)) (s : Stops k n)

/-- `thrs` goes out of scope, and every object with it. -/
def leave (c : Fin k) (pc : StopPc n) : Stops k n where
  threads := s.threads
  pc := Function.update s.pc c pc
  worker w := if w ∈ pc.thrs then (s.worker w).destroy else s.worker w

/-- The loop goes on behind a thread. -/
def passed (c : Fin k) (done rest : List (Fin n)) (w : Fin n) (h : Handle) : Stops k n where
  threads := s.threads
  pc := Function.update s.pc c (.joining (done ++ [w]) rest)
  worker := Function.update s.worker w h

/-- One step; `who c` is the worker that makes the call `c`, if one does. -/
def next : StopEvent k n → Option (Stops k n)
  | .swap c =>
      match s.pc c with
      | .entered => some ⟨[], Function.update s.pc c (.joining [] s.threads), s.worker⟩
      | _ => none
  | .join c =>
      match s.pc c with
      | .joining done [] => some (s.leave c (.returned done))
      | .joining done (w :: rest) =>
          if (s.worker w).attached then
            -- `pthread_join` of the calling thread is `EDEADLK`; of another it waits
            if who c = some w then some (s.leave c (.thrown (done ++ w :: rest)))
            else if (s.worker w).exited then some (s.passed c done rest w (s.worker w).join)
            else none
          else some (s.passed c done rest w (s.worker w))
      | _ => none
  | .exit w =>
      if (s.worker w).exited = false ∧ ∀ c, who c = some w → (s.pc c).inLoop = false then
        some { s with worker := Function.update s.worker w { s.worker w with exited := true } }
      else none

end Stops

/-- The runs of `k` calls on a pool of `n` threads. -/
def stops (who : Fin k → Option (Fin n)) : Machine (Stops k n) (StopEvent k n) :=
  ⟨fun s => s = ⟨List.finRange n, fun _ => .entered, fun _ => {}⟩, Stops.next who⟩

/-! ### The invariant -/

/-- **Who has the threads**: `m_threads` all of them, or one call. -/
def Shared (threads : List (Fin n)) (pc : Fin k → StopPc n) : Prop :=
  threads = List.finRange n ∧ (∀ c, (pc c).thrs = []) ∨
    threads = [] ∧ ∃ c, (pc c).thrs = List.finRange n ∧ ∀ d, d ≠ c → (pc d).thrs = []

/-- What was done to a thread. -/
structure Handle.Law (h : Handle) : Prop where
  attached : h.attached = true → h.joined = 0 ∧ h.detached = 0
  released : h.attached = false → h.joined + h.detached = 1
  exited : 0 < h.joined → h.exited = true

/-- What a call has done to the threads it has. -/
def StopPc.Done (worker : Fin n → Handle) (caller : Option (Fin n)) : StopPc n → Prop
  | .entered => True
  | .joining done rest =>
      (∀ w ∈ done, (worker w).joined = 1) ∧ ∀ w ∈ rest, (worker w).attached = true
  | .returned thrs => ∀ w ∈ thrs, (worker w).joined = 1
  | .thrown thrs => caller.isSome = true ∧ thrs ≠ [] ∧ ∀ w ∈ thrs, (worker w).attached = false

/-- **The invariant.** -/
structure Handled (who : Fin k → Option (Fin n)) (s : Stops k n) : Prop where
  shared : Shared s.threads s.pc
  law : ∀ w, (s.worker w).Law
  kept : ∀ w ∈ s.threads, (s.worker w).attached = true
  done : ∀ c, (s.pc c).Done s.worker (who c)

namespace Handle.Law

variable {h : Handle}

theorem destroy (law : h.Law) : h.destroy.Law := by
  unfold Handle.destroy
  split
  next attached =>
    obtain ⟨unjoined, undetached⟩ := law.attached attached
    exact ⟨by simp, fun _ => by simp [unjoined, undetached], law.exited⟩
  next => exact law

theorem join (law : h.Law) (attached : h.attached = true) (exited : h.exited = true) :
    h.join.Law := by
  obtain ⟨unjoined, undetached⟩ := law.attached attached
  exact ⟨by simp [Handle.join], fun _ => by simp [Handle.join, unjoined, undetached],
    fun _ => exited⟩

theorem exit (law : h.Law) : Handle.Law { h with exited := true } :=
  ⟨law.attached, law.released, fun _ => rfl⟩

/-- A thread that was joined has no object that would detach it. -/
theorem destroy_of_joined (law : h.Law) (joined : h.joined = 1) : h.destroy = h := by
  have released : ¬ h.attached = true := fun attached => by
    rw [(law.attached attached).1] at joined
    cases joined
  exact if_neg released

end Handle.Law

@[simp] theorem Handle.destroy_attached (h : Handle) : h.destroy.attached = false := by
  unfold Handle.destroy
  split
  next => rfl
  next released => exact Bool.eq_false_iff.mpr released

/-! ### The calls -/

section Calls

variable {threads : List (Fin n)} {pc : Fin k → StopPc n} {worker worker' : Fin n → Handle}

/-- A call that has threads has all of them, and nobody else has any. -/
theorem Shared.of_mem (shared : Shared threads pc) {c : Fin k} {w : Fin n} (has : w ∈ (pc c).thrs) :
    threads = [] ∧ (pc c).thrs = List.finRange n ∧ ∀ d, d ≠ c → (pc d).thrs = [] := by
  rcases shared with ⟨-, none⟩ | ⟨empty, b, all, others⟩
  · rw [none c] at has
    cases has
  · rcases eq_or_ne c b with rfl | other
    · exact ⟨empty, all, others⟩
    · rw [others c other] at has
      cases has

/-- A call goes on with the threads that it has. -/
theorem Shared.update (shared : Shared threads pc) {c : Fin k} {now : StopPc n}
    (same : now.thrs = (pc c).thrs) : Shared threads (Function.update pc c now) := by
  have each : ∀ d, (Function.update pc c now d).thrs = (pc d).thrs := by
    intro d
    rcases eq_or_ne d c with rfl | other
    · rw [Function.update_self, same]
    · rw [Function.update_of_ne other]
  rcases shared with ⟨all, none⟩ | ⟨empty, b, all, others⟩
  · exact .inl ⟨all, fun d => (each d).trans (none d)⟩
  · exact .inr ⟨empty, b, (each b).trans all, fun d other => (each d).trans (others d other)⟩

/-- A call takes what `m_threads` has. -/
theorem Shared.swap (shared : Shared threads pc) {c : Fin k} (idle : (pc c).thrs = []) :
    Shared [] (Function.update pc c (.joining [] threads)) := by
  refine .inr ⟨rfl, ?_⟩
  rcases shared with ⟨all, none⟩ | ⟨empty, b, all, others⟩
  · refine ⟨c, ?_, fun d other => ?_⟩
    · rw [Function.update_self]
      exact all
    · rw [Function.update_of_ne other]
      exact none d
  · refine ⟨b, ?_, fun d other => ?_⟩
    · rcases eq_or_ne b c with rfl | other
      · rw [Function.update_self]
        exact empty.trans (idle.symm.trans all)
      · rwa [Function.update_of_ne other]
    · rcases eq_or_ne d c with rfl | different
      · rw [Function.update_self]
        exact empty
      · rw [Function.update_of_ne different]
        exact others d other

/-- What a call has done is read off the threads that it has. -/
theorem StopPc.Done.congr {caller : Option (Fin n)} {pc : StopPc n} (done : pc.Done worker caller)
    (same : ∀ w ∈ pc.thrs, (worker' w).joined = (worker w).joined ∧
      (worker' w).attached = (worker w).attached) : pc.Done worker' caller := by
  cases pc with
  | entered => exact trivial
  | joining before rest =>
    exact ⟨fun w member => (same w (List.mem_append_left _ member)).1.trans (done.1 w member),
      fun w member => (same w (List.mem_append_right _ member)).2.trans (done.2 w member)⟩
  | returned thrs => exact fun w member => (same w member).1.trans (done w member)
  | thrown thrs =>
    exact ⟨done.1, done.2.1, fun w member => (same w member).2.trans (done.2.2 w member)⟩

end Calls

namespace Handled

variable {who : Fin k → Option (Fin n)} {s : Stops k n}

/-- **The call that has the threads moves**: nobody else has anything to lose. -/
theorem move (handled : Handled who s) {c : Fin k} {w : Fin n} (has : w ∈ (s.pc c).thrs)
    {pc : StopPc n} (same : pc.thrs = (s.pc c).thrs) {worker : Fin n → Handle}
    (law : ∀ v, (worker v).Law) (done : pc.Done worker (who c)) :
    Handled who ⟨s.threads, Function.update s.pc c pc, worker⟩ := by
  obtain ⟨empty, -, others⟩ := handled.shared.of_mem has
  refine ⟨handled.shared.update same, law, fun v member => ?_, fun d => ?_⟩
  · rw [show s.threads = [] from empty] at member
    cases member
  · show (Function.update s.pc c pc d).Done worker (who d)
    rcases eq_or_ne d c with rfl | other
    · rwa [Function.update_self]
    · rw [Function.update_of_ne other]
      refine (handled.done d).congr fun v member => ?_
      rw [others d other] at member
      cases member

theorem swap (handled : Handled who s) {c : Fin k} (entered : s.pc c = .entered) :
    Handled who ⟨[], Function.update s.pc c (.joining [] s.threads), s.worker⟩ := by
  have idle : (s.pc c).thrs = [] := by rw [entered]; rfl
  refine ⟨handled.shared.swap idle, handled.law, fun v member => (by cases member), fun d => ?_⟩
  show (Function.update s.pc c (.joining [] s.threads) d).Done s.worker (who d)
  rcases eq_or_ne d c with rfl | other
  · rw [Function.update_self]
    exact ⟨fun v member => (by cases member), handled.kept⟩
  · rw [Function.update_of_ne other]
    exact handled.done d

/-- A thread is joined. -/
theorem join (handled : Handled who s) {c : Fin k} {done rest : List (Fin n)} {w : Fin n}
    (pc : s.pc c = .joining done (w :: rest)) (attached : (s.worker w).attached = true)
    (exited : (s.worker w).exited = true) :
    Handled who (s.passed c done rest w (s.worker w).join) := by
  have thrs : (s.pc c).thrs = done ++ w :: rest := by rw [pc]; rfl
  have has : w ∈ (s.pc c).thrs := thrs ▸ List.mem_append_right _ List.mem_cons_self
  have distinct : (done ++ w :: rest).Nodup := by
    rw [← thrs, (handled.shared.of_mem has).2.1]
    exact List.nodup_finRange n
  have before := handled.done c
  rw [pc] at before
  refine handled.move has (by rw [thrs]; exact List.append_assoc done [w] rest) (fun v => ?_) ?_
  · rcases eq_or_ne v w with rfl | other
    · rw [Function.update_self]
      exact (handled.law v).join attached exited
    · rw [Function.update_of_ne other]
      exact handled.law v
  · constructor
    · intro v member
      rcases eq_or_ne v w with rfl | other
      · rw [Function.update_self]
        show (s.worker v).joined + 1 = 1
        rw [((handled.law v).attached attached).1]
      · rw [Function.update_of_ne other]
        have earlier := (List.mem_append.mp member).resolve_right fun last =>
          other (List.mem_singleton.mp last)
        exact before.1 v earlier
    · intro v member
      have other : v ≠ w := by
        rintro rfl
        exact (List.nodup_cons.mp (List.nodup_append.mp distinct).2.1).1 member
      rw [Function.update_of_ne other]
      exact before.2 v (List.mem_cons_of_mem w member)

/-- All are joined. -/
theorem finish (handled : Handled who s) {c : Fin k} {done : List (Fin n)}
    (pc : s.pc c = .joining done []) : Handled who (s.leave c (.returned done)) := by
  have before := handled.done c
  rw [pc] at before
  have stays : (s.leave c (.returned done)).worker = s.worker := by
    funext w
    show (if w ∈ done then _ else _) = _
    split
    next member => exact (handled.law w).destroy_of_joined (before.1 w member)
    next => rfl
  have same : (StopPc.returned done).thrs = (s.pc c).thrs := by
    rw [pc]
    exact (List.append_nil done).symm
  refine ⟨handled.shared.update same, stays ▸ handled.law, stays ▸ handled.kept, fun d => ?_⟩
  rw [stays]
  show (Function.update s.pc c (.returned done) d).Done s.worker (who d)
  rcases eq_or_ne d c with rfl | other
  · rw [Function.update_self]
    exact before.1
  · rw [Function.update_of_ne other]
    exact handled.done d

/-- The call comes to its own thread, and throws. -/
theorem throw (handled : Handled who s) {c : Fin k} {done rest : List (Fin n)} {w : Fin n}
    (pc : s.pc c = .joining done (w :: rest)) (self : who c = some w) :
    Handled who (s.leave c (.thrown (done ++ w :: rest))) := by
  have thrs : (s.pc c).thrs = done ++ w :: rest := by rw [pc]; rfl
  have has : w ∈ (s.pc c).thrs := thrs ▸ List.mem_append_right _ List.mem_cons_self
  have same : (StopPc.thrown (done ++ w :: rest)).thrs = (s.pc c).thrs := thrs.symm
  refine handled.move has same (fun v => ?_) ⟨by rw [self]; rfl, by simp, fun v member => ?_⟩
  · split
    · exact (handled.law v).destroy
    · exact handled.law v
  · show (if v ∈ done ++ w :: rest then _ else _ : Handle).attached = false
    rw [if_pos member, Handle.destroy_attached]

/-- A worker comes to its end. -/
theorem exit (handled : Handled who s) (w : Fin n) :
    Handled who { s with
      worker := Function.update s.worker w { s.worker w with exited := true } } := by
  have same : ∀ v, (Function.update s.worker w { s.worker w with exited := true } v).joined =
      (s.worker v).joined ∧
        (Function.update s.worker w { s.worker w with exited := true } v).attached =
          (s.worker v).attached := by
    intro v
    rcases eq_or_ne v w with rfl | other
    · rw [Function.update_self]
      exact ⟨rfl, rfl⟩
    · rw [Function.update_of_ne other]
      exact ⟨rfl, rfl⟩
  refine ⟨handled.shared, fun v => ?_, fun v member => (same v).2.trans (handled.kept v member),
    fun c => (handled.done c).congr fun v _ => same v⟩
  show (Function.update s.worker w _ v).Law
  rcases eq_or_ne v w with rfl | other
  · rw [Function.update_self]
    exact (handled.law v).exit
  · rw [Function.update_of_ne other]
    exact handled.law v

/-- **Every step keeps the invariant.** -/
theorem step (handled : Handled who s) {e : StopEvent k n} {s' : Stops k n}
    (stepped : s.next who e = some s') : Handled who s' := by
  cases e with
  | swap c =>
    simp only [Stops.next] at stepped
    split at stepped
    next entered => exact Option.some.inj stepped ▸ handled.swap entered
    next => cases stepped
  | join c =>
    simp only [Stops.next] at stepped
    split at stepped
    next done pc => exact Option.some.inj stepped ▸ handled.finish pc
    next done w rest pc =>
      split at stepped
      next attached =>
        split at stepped
        next self => exact Option.some.inj stepped ▸ handled.throw pc self
        next =>
          obtain ⟨exited, same⟩ := Option.ite_none_right_eq_some.mp stepped
          exact Option.some.inj same ▸ handled.join pc attached exited
      next released =>
        -- what is still to be joined is attached
        have before := handled.done c
        rw [pc] at before
        exact absurd (before.2 w List.mem_cons_self) released
    next => cases stepped
  | exit w =>
    obtain ⟨-, same⟩ := Option.ite_none_right_eq_some.mp stepped
    exact Option.some.inj same ▸ handled.exit w

theorem reachable (reached : (stops who).Reachable s) : Handled who s := by
  refine reached.invariant ?_ fun _ _ _ handled _ stepped => handled.step stepped
  rintro _ rfl
  exact ⟨.inl ⟨rfl, fun _ => rfl⟩, fun _ => ⟨fun _ => ⟨rfl, rfl⟩, by simp, by simp⟩,
    fun _ _ => rfl, fun _ => trivial⟩

end Handled

/-- **Every thread is released at most once, and joined only after its end.** A call of `stop()` that
returns with the threads has joined all of them; one that throws was made by a worker, and has
released each of them once. -/
theorem released_once (who : Fin k → Option (Fin n)) (s : Stops k n)
    (reached : (stops who).Reachable s) :
    (∀ w, (s.worker w).joined + (s.worker w).detached ≤ 1 ∧
      (0 < (s.worker w).joined → (s.worker w).exited = true)) ∧
    (∀ c thrs, s.pc c = .returned thrs → thrs = [] ∨ thrs = List.finRange n ∧
      ∀ w, (s.worker w).exited = true ∧ (s.worker w).joined = 1 ∧ (s.worker w).detached = 0) ∧
    ∀ c thrs, s.pc c = .thrown thrs → (who c).isSome = true ∧
      ∀ w, (s.worker w).joined + (s.worker w).detached = 1 := by
  have handled := Handled.reachable reached
  have once : ∀ w, (s.worker w).joined + (s.worker w).detached ≤ 1 := by
    intro w
    cases attached : (s.worker w).attached with
    | false => exact ((handled.law w).released attached).le
    | true =>
      obtain ⟨unjoined, undetached⟩ := (handled.law w).attached attached
      omega
  have all : ∀ c w, w ∈ (s.pc c).thrs → ∀ v, v ∈ (s.pc c).thrs := by
    intro c w has v
    rw [(handled.shared.of_mem has).2.1]
    exact List.mem_finRange v
  refine ⟨fun w => ⟨once w, (handled.law w).exited⟩, fun c thrs pc => ?_, fun c thrs pc => ?_⟩
  · have thrs' : (s.pc c).thrs = thrs := by rw [pc]; rfl
    have done := handled.done c
    rw [pc] at done
    cases thrs with
    | nil => exact .inl rfl
    | cons first rest =>
      have has : first ∈ (s.pc c).thrs := thrs' ▸ List.mem_cons_self
      refine .inr ⟨thrs' ▸ (handled.shared.of_mem has).2.1, fun w => ?_⟩
      have joined : (s.worker w).joined = 1 := done w (thrs' ▸ all c first has w)
      have bound := once w
      exact ⟨(handled.law w).exited (by omega), joined, by omega⟩
  · have thrs' : (s.pc c).thrs = thrs := by rw [pc]; rfl
    have done := handled.done c
    rw [pc] at done
    obtain ⟨worker, some_, released⟩ := done
    obtain ⟨first, has⟩ := List.exists_mem_of_ne_nil thrs some_
    refine ⟨worker, fun w => (handled.law w).released (released w ?_)⟩
    rw [← thrs'] at has ⊢
    exact all c first has w

/-- Two calls, one of which gets both threads and joins them. -/
theorem released_once_two :
    ∃ s, (stops (k := 2) (n := 2) fun _ => none).Reachable s ∧ s.pc 1 = .returned [] ∧
      s.pc 0 = .returned [0, 1] ∧
      ∀ w, (s.worker w).joined + (s.worker w).detached ≤ 1 ∧
        (0 < (s.worker w).joined → (s.worker w).exited = true) := by
  obtain ⟨s, reached, check⟩ := Machine.reachable_of_replay (m := stops (k := 2) (n := 2) fun _ => none)
    rfl [.swap 0, .swap 1, .exit 1, .join 1, .exit 0, .join 0, .join 0, .join 0]
    (fun s => decide (s.pc 1 = .returned [] ∧ s.pc 0 = .returned [0, 1])) (by decide)
  obtain ⟨second, first⟩ := of_decide_eq_true check
  exact ⟨s, reached, second, first, (released_once _ s reached).1⟩

end Sylar.Threads
