/-
**Scoped locks: `ReadScopedLockImpl`, `WriteScopedLockImpl` and `ScopedLockImpl`.**

A guard takes its mutex when it is made, gives it back when it is destroyed, and keeps in `m_locked`
whether it has it in between. The results of the `pthread` calls are not looked at.

* `RwLock.rdlock`, `RwLock.wrlock`, `RwLock.unlock` — a `pthread_rwlock_t`; a thread that has it for
  writing gets `EDEADLK` when it asks again, and nothing else happens. `RwLock.lock` — a
  `pthread_mutex_t` or a `pthread_spinlock_t`, on which such a thread waits for itself.
* `scopes` — any number of threads and of guards: made, locked, unlocked and destroyed in any order.
* `Apart` — no thread asks for a mutex that it has for writing.
* `Accounted` — **a mutex counts its guards**: as many readers as there are locked read guards, a
  writer exactly when there is a locked guard of another kind.
* `guards_sound` — **a guard that is locked has the mutex**: it excludes every other guard unless
  both read, it can always be unlocked and destroyed, and a mutex without locked guards is free.
* `nested_guard` — a guard nested in another of the same thread gives the outer one's lock away.
-/

import Sylar.Library.Machine
import Sylar.Library.Tally
import Mathlib.Data.Fintype.Basic

namespace Sylar.Threads

open Sylar.Library

variable {n k : Nat}

/-! ### The mutexes -/

/-- A `pthread_rwlock_t`, or a mutex that only writers take. -/
structure RwLock (n : Nat) where
  writer : Option (Fin n) := none
  readers : Fin n → Nat := fun _ => 0

namespace RwLock

variable (l : RwLock n) (t : Fin n)

/-- The thread has the lock for reading so many times. -/
def setReaders (count : Nat) : RwLock n :=
  { l with readers := Function.update l.readers t count }

/-- Who has the lock for writing. -/
def setWriter (writer : Option (Fin n)) : RwLock n := { l with writer }

@[simp] theorem setReaders_writer (count : Nat) : (l.setReaders t count).writer = l.writer := rfl

@[simp] theorem setReaders_self (count : Nat) : (l.setReaders t count).readers t = count :=
  Function.update_self ..

@[simp] theorem setWriter_writer (w : Option (Fin n)) : (l.setWriter w).writer = w := rfl

@[simp] theorem setWriter_readers (w : Option (Fin n)) : (l.setWriter w).readers = l.readers := rfl

theorem setReaders_of_ne {l : RwLock n} {t u : Fin n} (other : u ≠ t) (count : Nat) :
    (l.setReaders t count).readers u = l.readers u := Function.update_of_ne other ..

/-- `pthread_rwlock_rdlock`; `none` waits. -/
def rdlock : Option (RwLock n) :=
  match l.writer with
  | none => some (l.setReaders t (l.readers t + 1))
  -- the calling thread gets `EDEADLK`
  | some u => if u = t then some l else none

/-- `pthread_rwlock_wrlock`; `none` waits. -/
def wrlock : Option (RwLock n) :=
  match l.writer with
  | none => if ∀ u, l.readers u = 0 then some (l.setWriter (some t)) else none
  | some u => if u = t then some l else none

/-- `pthread_mutex_lock`, `pthread_spin_lock`; `none` waits. -/
def lock : Option (RwLock n) :=
  match l.writer with
  | none => if ∀ u, l.readers u = 0 then some (l.setWriter (some t)) else none
  | some _ => none

/-- `unlock` of either; `none`: the calling thread does not have the lock, and it is undefined. -/
def unlock : Option (RwLock n) :=
  if l.writer = some t then some (l.setWriter none)
  else if 0 < l.readers t then some (l.setReaders t (l.readers t - 1))
  else none

end RwLock

/-! ### The guards -/

/-- Which of the three templates. -/
inductive Mode
  /-- `ReadScopedLockImpl` -/
  | read
  /-- `WriteScopedLockImpl` -/
  | write
  /-- `ScopedLockImpl` -/
  | plain
deriving DecidableEq

/-- What the guard calls on its mutex to get it. -/
def Mode.acquire : Mode → RwLock n → Fin n → Option (RwLock n)
  | .read => RwLock.rdlock
  | .write => RwLock.wrlock
  | .plain => RwLock.lock

/-- A guard, in the scope of a thread. -/
structure Guard (n : Nat) where
  thread : Fin n
  mode : Mode
  mutex : Nat
  locked : Bool
deriving DecidableEq

/-- `m_locked`. -/
def Guard.setLocked (g : Guard n) (locked : Bool) : Guard n := { g with locked }

/-- All mutexes and all guards. -/
structure Scopes (n k : Nat) where
  mutex : Nat → RwLock n
  guard : Fin k → Option (Guard n)

/-- A member of a guard is called. -/
inductive ScopeEvent (n k : Nat)
  | construct (i : Fin k) (thread : Fin n) (mode : Mode) (mutex : Nat)
  | lock (i : Fin k)
  | unlock (i : Fin k)
  | destroy (i : Fin k)

namespace Scopes

variable (s : Scopes n k)

/-- A mutex and a guard change. -/
def put (m : Nat) (l : RwLock n) (i : Fin k) (g : Option (Guard n)) : Scopes n k where
  mutex := Function.update s.mutex m l
  guard := Function.update s.guard i g

/-- `m_mutex.lock()`, `rdlock()` or `wrlock()`, and `m_locked = true`. -/
def acquire (i : Fin k) (g : Guard n) : Option (Scopes n k) :=
  (g.mode.acquire (s.mutex g.mutex) g.thread).map fun l =>
    s.put g.mutex l i (some (g.setLocked true))

/-- `m_mutex.unlock()`, and `m_locked = false`; `left` is the guard afterwards. -/
def release (i : Fin k) (g : Guard n) (left : Option (Guard n)) : Option (Scopes n k) :=
  ((s.mutex g.mutex).unlock g.thread).map fun l => s.put g.mutex l i left

/-- One call; `none`: it waits, or it is undefined. -/
def next : ScopeEvent n k → Option (Scopes n k)
  | .construct i thread mode mutex =>
      match s.guard i with
      | none => s.acquire i { thread, mode, mutex, locked := false }
      | some _ => none
  | .lock i => (s.guard i).bind fun g => if g.locked then some s else s.acquire i g
  | .unlock i =>
      (s.guard i).bind fun g =>
        if g.locked then s.release i g (some (g.setLocked false)) else some s
  | .destroy i =>
      (s.guard i).bind fun g =>
        if g.locked then s.release i g none else some (s.put g.mutex (s.mutex g.mutex) i none)

end Scopes

/-- The runs of `k` guards in `n` threads. -/
def scopes (n k : Nat) : Machine (Scopes n k) (ScopeEvent n k) :=
  ⟨fun s => s = ⟨fun _ => {}, fun _ => none⟩, Scopes.next⟩

/-- The thread does not have the mutex for writing that it asks for. -/
def Apart (s : Scopes n k) : ScopeEvent n k → Prop
  | .construct _ thread _ mutex => (s.mutex mutex).writer ≠ some thread
  | .lock i => ∀ g ∈ s.guard i, g.locked = true ∨ (s.mutex g.mutex).writer ≠ some g.thread
  | .unlock _ | .destroy _ => True

instance (s : Scopes n k) : (e : ScopeEvent n k) → Decidable (Apart s e)
  | .construct _ _ _ _ => inferInstanceAs (Decidable (_ ≠ _))
  | .lock _ => inferInstanceAs (Decidable (∀ g ∈ _, _))
  | .unlock _ | .destroy _ => isTrue trivial

/-! ### What a mutex counts -/

/-- The guard reads under the mutex, in the thread. -/
def reads (m : Nat) (t : Fin n) (g : Option (Guard n)) : Bool :=
  g.any fun g => g.locked && g.mode == .read && g.mutex == m && g.thread == t

/-- The guard has the mutex for itself, in the thread. -/
def writes (m : Nat) (t : Fin n) (g : Option (Guard n)) : Bool :=
  g.any fun g => g.locked && g.mode != .read && g.mutex == m && g.thread == t

/-- **A mutex counts its guards.** -/
structure Accounted (s : Scopes n k) : Prop where
  readers : ∀ m t, (s.mutex m).readers t = tally (reads m t) s.guard
  writer : ∀ m t, ((s.mutex m).writer == some t).toNat = tally (writes m t) s.guard
  alone : ∀ m t, (s.mutex m).writer = none ∨ (s.mutex m).readers t = 0

namespace RwLock

variable {l : RwLock n} {t : Fin n}

theorem unlock_writer (has : l.writer = some t) : l.unlock t = some (l.setWriter none) :=
  if_pos has

theorem unlock_reader (free : l.writer = none) (reading : 0 < l.readers t) :
    l.unlock t = some (l.setReaders t (l.readers t - 1)) := by
  have notWriter : ¬ l.writer = some t := by simp [free]
  rw [unlock, if_neg notWriter, if_pos reading]

end RwLock

/-- What a mutex gives to a thread that does not have it for writing. -/
theorem acquire_cases {mode : Mode} {l l' : RwLock n} {t : Fin n} (apart : l.writer ≠ some t)
    (taken : mode.acquire l t = some l') :
    l.writer = none ∧
      (mode = .read ∧ l' = l.setReaders t (l.readers t + 1) ∨
        mode ≠ .read ∧ (∀ u, l.readers u = 0) ∧ l' = l.setWriter (some t)) := by
  cases free : l.writer with
  | some u =>
    -- the writer is another thread, and everyone waits for it
    have other : u ≠ t := fun same => apart (same ▸ free)
    cases mode <;> simp [Mode.acquire, RwLock.rdlock, RwLock.wrlock, RwLock.lock, free, other] at taken
  | none =>
    refine ⟨rfl, ?_⟩
    cases mode with
    | read =>
      simp only [Mode.acquire, RwLock.rdlock, free, Option.some.injEq] at taken
      exact .inl ⟨rfl, taken.symm⟩
    | write =>
      simp only [Mode.acquire, RwLock.wrlock, free] at taken
      obtain ⟨unread, same⟩ := Option.ite_none_right_eq_some.mp taken
      exact .inr ⟨by decide, unread, (Option.some.inj same).symm⟩
    | plain =>
      simp only [Mode.acquire, RwLock.lock, free] at taken
      obtain ⟨unread, same⟩ := Option.ite_none_right_eq_some.mp taken
      exact .inr ⟨by decide, unread, (Option.some.inj same).symm⟩

@[simp] theorem reads_none (m : Nat) (t : Fin n) : reads m t none = false := rfl

@[simp] theorem writes_none (m : Nat) (t : Fin n) : writes m t none = false := rfl

theorem reads_some {m : Nat} {t : Fin n} {g : Guard n} :
    reads m t (some g) = true ↔
      g.locked = true ∧ g.mode = .read ∧ g.mutex = m ∧ g.thread = t := by
  simp [reads, and_assoc]

theorem writes_some {m : Nat} {t : Fin n} {g : Guard n} :
    writes m t (some g) = true ↔
      g.locked = true ∧ g.mode ≠ .read ∧ g.mutex = m ∧ g.thread = t := by
  simp [writes, and_assoc]

/-- A guard counts for its own mutex only. -/
theorem reads_of_ne {m m' : Nat} {t : Fin n} {g : Option (Guard n)}
    (own : ∀ h, g = some h → h.mutex = m) (other : m' ≠ m) : reads m' t g = false := by
  cases g with
  | none => rfl
  | some h =>
    refine Bool.eq_false_iff.mpr fun counted => other ?_
    rw [← (reads_some.mp counted).2.2.1, own h rfl]

theorem writes_of_ne {m m' : Nat} {t : Fin n} {g : Option (Guard n)}
    (own : ∀ h, g = some h → h.mutex = m) (other : m' ≠ m) : writes m' t g = false := by
  cases g with
  | none => rfl
  | some h =>
    refine Bool.eq_false_iff.mpr fun counted => other ?_
    rw [← (writes_some.mp counted).2.2.1, own h rfl]

/-- A guard that is not locked does not count. -/
theorem reads_unlocked {m : Nat} {t : Fin n} {g : Guard n} (unlocked : g.locked = false) :
    reads m t (some g) = false := by simp [reads, unlocked]

theorem writes_unlocked {m : Nat} {t : Fin n} {g : Guard n} (unlocked : g.locked = false) :
    writes m t (some g) = false := by simp [writes, unlocked]

namespace Accounted

variable {s : Scopes n k}

/-- **One mutex and one guard of it change**: it is enough that the mutex counts the change. -/
theorem put (accounted : Accounted s) {m : Nat} {l : RwLock n} {i : Fin k} {g : Option (Guard n)}
    (old : ∀ h, s.guard i = some h → h.mutex = m) (new : ∀ h, g = some h → h.mutex = m)
    (readers : ∀ t, l.readers t + (reads m t (s.guard i)).toNat =
      (s.mutex m).readers t + (reads m t g).toNat)
    (writer : ∀ t, (l.writer == some t).toNat + (writes m t (s.guard i)).toNat =
      ((s.mutex m).writer == some t).toNat + (writes m t g).toNat)
    (alone : ∀ t, l.writer = none ∨ l.readers t = 0) : Accounted (s.put m l i g) := by
  refine ⟨fun m' t => ?_, fun m' t => ?_, fun m' t => ?_⟩
  · have moves := tally_update (reads m' t) s.guard i g
    have before := accounted.readers m' t
    show (Function.update s.mutex m l m').readers t = tally _ (Function.update s.guard i g)
    rcases eq_or_ne m' m with rfl | other
    · have here := readers t
      rw [Function.update_self]
      omega
    · rw [reads_of_ne old other, reads_of_ne new other] at moves
      rw [Function.update_of_ne other]
      omega
  · have moves := tally_update (writes m' t) s.guard i g
    have before := accounted.writer m' t
    show ((Function.update s.mutex m l m').writer == some t).toNat =
      tally _ (Function.update s.guard i g)
    rcases eq_or_ne m' m with rfl | other
    · have here := writer t
      rw [Function.update_self]
      omega
    · rw [writes_of_ne old other, writes_of_ne new other] at moves
      rw [Function.update_of_ne other]
      omega
  · show (Function.update s.mutex m l m').writer = none ∨ (Function.update s.mutex m l m').readers t = 0
    rcases eq_or_ne m' m with rfl | other
    · rw [Function.update_self]
      exact alone t
    · rw [Function.update_of_ne other]
      exact accounted.alone m' t

/-- **A guard takes its mutex.** -/
theorem acquire (accounted : Accounted s) {i : Fin k} {g : Guard n} {s' : Scopes n k}
    (slot : s.guard i = none ∨ s.guard i = some g) (unlocked : g.locked = false)
    (apart : (s.mutex g.mutex).writer ≠ some g.thread) (taken : s.acquire i g = some s') :
    Accounted s' := by
  obtain ⟨l, got, rfl⟩ := Option.map_eq_some_iff.mp taken
  have old : ∀ h, s.guard i = some h → h.mutex = g.mutex := by
    intro h there
    rcases slot with empty | same
    · rw [empty] at there
      cases there
    · rw [same] at there
      cases there
      rfl
  have unread : ∀ m t, reads m t (s.guard i) = false := by
    intro m t
    rcases slot with empty | same
    · rw [empty, reads_none]
    · rw [same, reads_unlocked unlocked]
  have unwritten : ∀ m t, writes m t (s.guard i) = false := by
    intro m t
    rcases slot with empty | same
    · rw [empty, writes_none]
    · rw [same, writes_unlocked unlocked]
  obtain ⟨free, ⟨isRead, rfl⟩ | ⟨isWrite, unread', rfl⟩⟩ := acquire_cases apart got
  · refine accounted.put old (fun h same => by cases same; rfl) (fun t => ?_) (fun t => ?_)
      fun t => .inl free
    · rw [unread]
      by_cases own : g.thread = t
      · subst own
        have counted : reads g.mutex g.thread (some (g.setLocked true)) = true :=
          reads_some.mpr ⟨rfl, isRead, rfl, rfl⟩
        rw [RwLock.setReaders_self, counted]
        rfl
      · have other : reads g.mutex t (some (g.setLocked true)) = false :=
          Bool.eq_false_iff.mpr fun counted => own (reads_some.mp counted).2.2.2
        rw [RwLock.setReaders_of_ne (Ne.symm own), other]
    · have other : writes g.mutex t (some (g.setLocked true)) = false :=
        Bool.eq_false_iff.mpr fun counted => (writes_some.mp counted).2.1 isRead
      rw [unwritten, other, RwLock.setReaders_writer]
  · refine accounted.put old (fun h same => by cases same; rfl) (fun t => ?_) (fun t => ?_)
      fun t => .inr (unread' t)
    · have other : reads g.mutex t (some (g.setLocked true)) = false :=
        Bool.eq_false_iff.mpr fun counted => isWrite (reads_some.mp counted).2.1
      rw [unread, other, RwLock.setWriter_readers]
    · rw [unwritten, free]
      by_cases own : g.thread = t
      · subst own
        have counted : writes g.mutex g.thread (some (g.setLocked true)) = true :=
          writes_some.mpr ⟨rfl, isWrite, rfl, rfl⟩
        rw [counted]
        simp
      · have other : writes g.mutex t (some (g.setLocked true)) = false :=
          Bool.eq_false_iff.mpr fun counted => own (writes_some.mp counted).2.2.2
        rw [other]
        simp [own]

/-- **A locked guard can give its mutex back**, and that is accounted for. -/
theorem release (accounted : Accounted s) {i : Fin k} {g : Guard n} (slot : s.guard i = some g)
    (locked : g.locked = true) (left : Option (Guard n))
    (unlocked : ∀ h, left = some h → h.locked = false ∧ h.mutex = g.mutex) :
    ∃ s', s.release i g left = some s' ∧ Accounted s' := by
  have old : ∀ h, s.guard i = some h → h.mutex = g.mutex := by
    rintro h there
    rw [slot] at there
    cases there
    rfl
  have unread : ∀ m t, reads m t left = false := by
    intro m t
    cases left with
    | none => rfl
    | some h => exact reads_unlocked (unlocked h rfl).1
  have unwritten : ∀ m t, writes m t left = false := by
    intro m t
    cases left with
    | none => rfl
    | some h => exact writes_unlocked (unlocked h rfl).1
  by_cases isRead : g.mode = .read
  · have counted : reads g.mutex g.thread (s.guard i) = true :=
      slot ▸ reads_some.mpr ⟨locked, isRead, rfl, rfl⟩
    have reading : 0 < (s.mutex g.mutex).readers g.thread :=
      accounted.readers g.mutex g.thread ▸ tally_pos counted
    have free : (s.mutex g.mutex).writer = none :=
      (accounted.alone g.mutex g.thread).resolve_right reading.ne'
    refine ⟨_, by rw [Scopes.release, RwLock.unlock_reader free reading]; rfl, ?_⟩
    refine accounted.put old (fun h same => (unlocked h same).2) (fun t => ?_) (fun t => ?_)
      fun t => .inl free
    · rw [unread]
      by_cases own : g.thread = t
      · subst own
        rw [RwLock.setReaders_self, counted]
        exact Nat.sub_add_cancel reading
      · have other : reads g.mutex t (s.guard i) = false := by
          refine Bool.eq_false_iff.mpr fun counted => own ?_
          rw [slot] at counted
          exact (reads_some.mp counted).2.2.2
        rw [RwLock.setReaders_of_ne (Ne.symm own), other]
    · have other : writes g.mutex t (s.guard i) = false := by
        refine Bool.eq_false_iff.mpr fun counted => ?_
        rw [slot] at counted
        exact (writes_some.mp counted).2.1 isRead
      rw [unwritten, other, RwLock.setReaders_writer]
  · have counted : writes g.mutex g.thread (s.guard i) = true :=
      slot ▸ writes_some.mpr ⟨locked, isRead, rfl, rfl⟩
    have has : (s.mutex g.mutex).writer = some g.thread := by
      have positive := tally_pos (f := s.guard) counted
      rw [← accounted.writer g.mutex g.thread] at positive
      by_contra differ
      rw [beq_false_of_ne differ] at positive
      cases positive
    refine ⟨_, by rw [Scopes.release, RwLock.unlock_writer has]; rfl, ?_⟩
    refine accounted.put old (fun h same => (unlocked h same).2) (fun t => ?_) (fun t => ?_)
      fun t => .inl rfl
    · have other : reads g.mutex t (s.guard i) = false := by
        refine Bool.eq_false_iff.mpr fun counted => ?_
        rw [slot] at counted
        exact isRead (reads_some.mp counted).2.1
      rw [unread, other, RwLock.setWriter_readers]
    · rw [unwritten, has]
      by_cases own : g.thread = t
      · subst own
        rw [counted]
        simp
      · have other : writes g.mutex t (s.guard i) = false := by
          refine Bool.eq_false_iff.mpr fun counted => own ?_
          rw [slot] at counted
          exact (writes_some.mp counted).2.2.2
        rw [other, beq_false_of_ne fun same => own (Option.some.inj same)]
        rfl

/-- **Every call keeps the account**, if its thread does not have the mutex that it asks for. -/
theorem step (accounted : Accounted s) {e : ScopeEvent n k} (apart : Apart s e) {s' : Scopes n k}
    (stepped : s.next e = some s') : Accounted s' := by
  cases e with
  | construct i thread mode mutex =>
    simp only [Scopes.next] at stepped
    split at stepped
    next empty =>
      have unlocked : ({ thread, mode, mutex, locked := false } : Guard n).locked = false := rfl
      exact accounted.acquire (.inl empty) unlocked apart stepped
    next => cases stepped
  | lock i =>
    obtain ⟨g, slot, ran⟩ := Option.bind_eq_some_iff.mp stepped
    split at ran
    next =>
      cases ran
      exact accounted
    next unlocked =>
      have free := (apart g slot).resolve_left unlocked
      exact accounted.acquire (.inr slot) (Bool.eq_false_iff.mpr unlocked) free ran
  | unlock i =>
    obtain ⟨g, slot, ran⟩ := Option.bind_eq_some_iff.mp stepped
    split at ran
    next locked =>
      obtain ⟨after, released, kept⟩ := accounted.release slot locked
        (some (g.setLocked false)) fun h same => by cases same; exact ⟨rfl, rfl⟩
      exact Option.some.inj (released.symm.trans ran) ▸ kept
    next =>
      cases ran
      exact accounted
  | destroy i =>
    obtain ⟨g, slot, ran⟩ := Option.bind_eq_some_iff.mp stepped
    split at ran
    next locked =>
      obtain ⟨after, released, kept⟩ := accounted.release slot locked none
        fun h same => by cases same
      exact Option.some.inj (released.symm.trans ran) ▸ kept
    next unlocked =>
      cases ran
      have own : ∀ h, s.guard i = some h → h.mutex = g.mutex := by
        rintro h there
        rw [slot] at there
        cases there
        rfl
      have uncounted := Bool.eq_false_iff.mpr unlocked
      refine accounted.put own (fun h same => by cases same) (fun t => ?_) (fun t => ?_)
        fun t => accounted.alone g.mutex t
      · rw [slot, reads_unlocked uncounted, reads_none]
      · rw [slot, writes_unlocked uncounted, writes_none]

theorem reachable (reached : (scopes n k).ReachableWhen Apart s) : Accounted s := by
  refine reached.invariant ?_ fun _ _ _ accounted apart stepped => accounted.step apart stepped
  rintro _ rfl
  have nobody {p : Option (Guard n) → Bool} (empty : p none = false) :
      0 = tally p fun _ : Fin k => none := (tally_eq_zero_iff.mpr fun _ => empty).symm
  exact ⟨fun m t => nobody rfl, fun m t => nobody rfl, fun m t => .inl rfl⟩

/-- **A locked guard that does not read is alone**: another locked guard has another mutex. -/
theorem mutex_ne (accounted : Accounted s) {i j : Fin k} {g h : Guard n} (different : i ≠ j)
    (first : s.guard i = some g) (second : s.guard j = some h) (locked : g.locked = true)
    (locked' : h.locked = true) (notRead : g.mode ≠ .read) : g.mutex ≠ h.mutex := by
  intro same
  have counted : writes g.mutex g.thread (s.guard i) = true :=
    first ▸ writes_some.mpr ⟨locked, notRead, rfl, rfl⟩
  have has : (s.mutex g.mutex).writer = some g.thread := by
    have positive := tally_pos (f := s.guard) counted
    rw [← accounted.writer] at positive
    by_contra differ
    rw [beq_false_of_ne differ] at positive
    cases positive
  by_cases isRead : h.mode = .read
  · have reading : reads g.mutex h.thread (s.guard j) = true :=
      second ▸ reads_some.mpr ⟨locked', isRead, same.symm, rfl⟩
    have positive := tally_pos (f := s.guard) reading
    rw [← accounted.readers] at positive
    rcases accounted.alone g.mutex h.thread with free | none
    · rw [has] at free
      cases free
    · omega
  · have counted' : writes g.mutex h.thread (s.guard j) = true :=
      second ▸ writes_some.mpr ⟨locked', isRead, same.symm, rfl⟩
    have positive := tally_pos (f := s.guard) counted'
    rw [← accounted.writer, has] at positive
    by_cases thread : g.thread = h.thread
    · -- both are in one thread, and the mutex counts it once
      have two := two_le_tally (f := s.guard) different counted (thread ▸ counted')
      rw [← accounted.writer] at two
      have one := Bool.toNat_le ((s.mutex g.mutex).writer == some g.thread)
      omega
    · rw [beq_false_of_ne fun eq => thread (Option.some.inj eq)] at positive
      cases positive

/-- **A mutex that no locked guard has is free.** -/
theorem free (accounted : Accounted s) {m : Nat}
    (none : ∀ i g, s.guard i = some g → g.locked = true → g.mutex ≠ m) : s.mutex m = {} := by
  have unread : ∀ t, (s.mutex m).readers t = 0 := by
    intro t
    rw [accounted.readers, tally_eq_zero_iff]
    intro i
    cases slot : s.guard i with
    | none => rfl
    | some g =>
      refine Bool.eq_false_iff.mpr fun counted => ?_
      obtain ⟨locked, -, same, -⟩ := reads_some.mp counted
      exact none i g slot locked same
  have unwritten : (s.mutex m).writer = Option.none := by
    refine Option.eq_none_iff_forall_ne_some.mpr fun t has => ?_
    have zero : tally (writes m t) s.guard = 0 := by
      refine tally_eq_zero_iff.mpr fun i => ?_
      cases slot : s.guard i with
      | none => rfl
      | some g =>
        refine Bool.eq_false_iff.mpr fun counted => ?_
        obtain ⟨locked, -, same, -⟩ := writes_some.mp counted
        exact none i g slot locked same
    rw [← accounted.writer, has] at zero
    simp at zero
  calc s.mutex m = ⟨(s.mutex m).writer, (s.mutex m).readers⟩ := rfl
    _ = {} := by rw [unwritten, funext unread]

end Accounted

/-- **A guard that is locked has the mutex.** As long as no thread asks for a mutex that it has for
writing: two guards that are locked on one mutex both read; every guard can be unlocked and
destroyed; and a mutex on which no guard is locked is free. -/
theorem guards_sound (s : Scopes n k) (reached : (scopes n k).ReachableWhen Apart s) :
    (∀ i j g h, i ≠ j → s.guard i = some g → s.guard j = some h → g.locked = true →
      h.locked = true → g.mutex = h.mutex → g.mode = .read ∧ h.mode = .read) ∧
    (∀ i g, s.guard i = some g →
      ((scopes n k).step s (.unlock i)).isSome = true ∧
        ((scopes n k).step s (.destroy i)).isSome = true) ∧
    ∀ m, (∀ i g, s.guard i = some g → g.locked = true → g.mutex ≠ m) → s.mutex m = {} := by
  have accounted := Accounted.reachable reached
  refine ⟨fun i j g h different first second locked locked' same => ?_, fun i g slot => ?_,
    fun m none => accounted.free none⟩
  · constructor
    · by_contra notRead
      exact accounted.mutex_ne different first second locked locked' notRead same
    · by_contra notRead
      exact accounted.mutex_ne different.symm second first locked' locked notRead same.symm
  · by_cases locked : g.locked = true
    · obtain ⟨_, unlocks, -⟩ := accounted.release slot locked
        (some (g.setLocked false)) fun h same => by cases same; exact ⟨rfl, rfl⟩
      obtain ⟨_, destroys, -⟩ := accounted.release slot locked none
        fun h same => by cases same
      simp [scopes, Scopes.next, slot, locked, unlocks, destroys]
    · simp [scopes, Scopes.next, slot, locked]

/-- Two readers, and a writer after both have given the mutex back. -/
theorem guards_sound_writer :
    ∃ s, (scopes 2 3).ReachableWhen Apart s ∧
      (s.guard 0 = some ⟨0, .read, 7, false⟩ ∧ s.guard 2 = some ⟨1, .write, 7, true⟩) ∧
      ∀ i j g h, i ≠ j → s.guard i = some g → s.guard j = some h → g.locked = true →
        h.locked = true → g.mutex = h.mutex → g.mode = .read ∧ h.mode = .read := by
  have run : ∃ s, (scopes 2 3).ReachableWhen Apart s ∧
      decide (s.guard 0 = some ⟨0, .read, 7, false⟩ ∧ s.guard 2 = some ⟨1, .write, 7, true⟩) = true :=
    Machine.reachableWhen_of_replay rfl
      [.construct 0 0 .read 7, .construct 1 1 .read 7, .unlock 0, .destroy 1,
        .construct 2 1 .write 7] _ (by decide)
  obtain ⟨s, reached, check⟩ := run
  exact ⟨s, reached, of_decide_eq_true check, (guards_sound s reached).1⟩

/-- **A guard nested in another of the same thread gives the outer one's lock away**: the inner one
gets `EDEADLK`, and when it is destroyed another thread's guard is locked beside the outer one. -/
theorem nested_guard :
    ∃ s, (scopes 2 3).Reachable s ∧ s.guard 0 = some ⟨0, .write, 7, true⟩ ∧
      s.guard 2 = some ⟨1, .write, 7, true⟩ := by
  obtain ⟨s, reached, check⟩ := Machine.reachable_of_replay (m := scopes 2 3) rfl
    [.construct 0 0 .write 7, .construct 1 0 .read 7, .destroy 1, .construct 2 1 .write 7]
    (fun s => decide (s.guard 0 = some ⟨0, .write, 7, true⟩ ∧
      s.guard 2 = some ⟨1, .write, 7, true⟩)) (by decide)
  obtain ⟨outer, other⟩ := of_decide_eq_true check
  exact ⟨s, reached, outer, other⟩

end Sylar.Threads
