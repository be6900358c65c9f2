/-
**Which threads have hooks, and which have an `IOManager`.**

`Scheduler::run()` switches the hooks of its thread on, and nothing switches them off. A hook finds
its `IOManager` through `t_scheduler`, which the constructor and `run()` set and the destructor resets,
for schedulers of both classes; `IOManager::GetThis()` is null where that is not an `IOManager`, and no
hook asks whether it is.

* `Threads` — the thread-locals of all threads, the schedulers there are, and the calls of `run()` that
  are under way; `uses` records every use a hook makes of `IOManager::GetThis()`.
* `HookedCall.usesIOManager` — how far a hook has to get to use it.
* `Linked` — **`t_scheduler` is the scheduler whose tasks the thread runs, or that has the thread for
  its caller.**
* `uses_safe_iff` — **no use is of a null pointer exactly when each is made in a task of an
  `IOManager`, or on the caller's thread of one that exists**; `plain_sleeps`, `destroyed_sleeps`.
-/

import Sylar.Hook.Connect
import Sylar.Scheduler.Shutdown

namespace Sylar.Hook

open Sylar.Library
open Sylar.EventTable (SchedulerId)
open Sylar.Scheduler (Kind)

/-! ### The threads -/

/-- A thread. -/
abbrev ThreadId := Nat

/-- `t_hook_enable` and `t_scheduler` of a thread. -/
structure Locals where
  hookEnable : Bool := false
  scheduler : Option SchedulerId := none
deriving DecidableEq

/-- A scheduler: its class, `m_root_thread_id`, `m_thread_count`, `m_stopping`, and how many of its
threads have not begun. -/
structure SchedulerObject where
  kind : Kind
  root : Option ThreadId
  threadCount : Nat
  stopping : Bool := true
  pending : Nat := 0
deriving DecidableEq

/-- A use of `IOManager::GetThis()` by a hook: what it was, and whether the thread had an `IOManager`
to run tasks for, or to be the caller of. -/
structure Use where
  thread : ThreadId
  got : Option SchedulerId
  home : Bool
deriving DecidableEq

/-- A hooked call, with what `getFdCtx` and the function of the kernel give it. -/
inductive HookedCall
  | sleep
  | usleep
  | nanosleep
  /-- `connect`, and the result of `connect_f` -/
  | connect (ctx : Option FdCtx) (r : Option Errno)
  | close (ctx : Option FdCtx)
  /-- a round of the loop of `do_io`, and the result of the function -/
  | doIo (ctx : Option FdCtx) (r : IoResult)
deriving DecidableEq

/-- **A call gets as far as to use the `IOManager`.** `do_io` goes on without hooks. -/
def HookedCall.usesIOManager (enabled : Bool) : HookedCall → Bool
  | .sleep | .usleep | .nanosleep => enabled
  | .connect ctx r => enabled && connectPath ctx == .waits && r == some einprogress
  | .close ctx => enabled && ctx.isSome
  | .doIo ctx r => Pc.afterContext ctx == .attempt && Pc.afterResult r == .arm

/-- All threads. `running` has the calls of `run()` that are under way, `made` the schedulers there
have been; their names are not given again. -/
structure Threads where
  object : SchedulerId → Option SchedulerObject
  made : List SchedulerId
  locals : ThreadId → Locals
  running : List (ThreadId × SchedulerId)
  uses : List Use

/-- What a thread does. -/
inductive ThreadStep
  /-- the constructor -/
  | construct (t : ThreadId) (sch : SchedulerId) (kind : Kind) (threadCount : Nat)
      (useCaller : Bool)
  /-- `start()`; the constructor of `IOManager` ends with it -/
  | start (sch : SchedulerId)
  /-- a new thread enters `run()` -/
  | begin (t : ThreadId) (sch : SchedulerId)
  /-- `m_root_fiber->call()` in `stop()`: the caller's thread enters `run()` -/
  | call (t : ThreadId) (sch : SchedulerId)
  /-- `run()` returns -/
  | finish (t : ThreadId) (sch : SchedulerId)
  /-- `stop()`, from `m_stopping = true` on -/
  | stop (t : ThreadId) (sch : SchedulerId)
  /-- the destructor, after `stop()` -/
  | destroy (t : ThreadId) (sch : SchedulerId)
  /-- a hooked call -/
  | hook (t : ThreadId) (call : HookedCall)
deriving DecidableEq

namespace Threads

variable (s : Threads)

def initial : Threads := ⟨fun _ => none, [], fun _ => {}, [], []⟩

/-- Change one scheduler. -/
def setObject (sch : SchedulerId) (obj : Option SchedulerObject) : Threads :=
  { s with object := Function.update s.object sch obj }

/-- Change the thread-locals of one thread. -/
def setLocals (t : ThreadId) (l : Locals) : Threads :=
  { s with locals := Function.update s.locals t l }

/-- `Scheduler(thread_count, use_caller)`. -/
def construct (t : ThreadId) (sch : SchedulerId) (kind : Kind) (threadCount : Nat)
    (useCaller : Bool) : Option Threads :=
  if sch ∈ s.made ∨ threadCount = 0 then none
  else
    let s := { s with made := sch :: s.made }
    if useCaller then
      if (s.locals t).scheduler = none then
        some ((s.setLocals t { s.locals t with scheduler := some sch }).setObject sch
          (some { kind, root := some t, threadCount := threadCount - 1 }))
      else none
    else some (s.setObject sch (some { kind, root := none, threadCount }))

/-- `start()`. -/
def start (sch : SchedulerId) : Option Threads :=
  (s.object sch).map fun obj =>
    if obj.stopping then
      s.setObject sch (some { obj with stopping := false, pending := obj.pending + obj.threadCount })
    else s

/-- `run()`, up to its loop. -/
def run (t : ThreadId) (sch : SchedulerId) : Threads :=
  { s.setLocals t ⟨true, some sch⟩ with running := (t, sch) :: s.running }

/-- A new thread: its thread-locals are the initial ones. -/
def begin (t : ThreadId) (sch : SchedulerId) : Option Threads :=
  match s.object sch with
  | some obj =>
      if obj.pending ≠ 0 ∧ s.locals t = {} then
        some ((s.setObject sch (some { obj with pending := obj.pending - 1 })).run t sch)
      else none
  | none => none

/-- `stop()` on the caller's thread, with its assertion, and that of `call()`. -/
def call (t : ThreadId) (sch : SchedulerId) : Option Threads :=
  if (s.object sch).bind (·.root) = some t ∧ (s.locals t).scheduler = some sch ∧
      (t, sch) ∉ s.running then
    some (s.run t sch)
  else none

/-- After `run()` a thread of the scheduler ends, and its thread-locals with it. -/
def finish (t : ThreadId) (sch : SchedulerId) : Option Threads :=
  if (t, sch) ∈ s.running then
    let s := { s with running := s.running.erase (t, sch) }
    if (s.object sch).bind (·.root) = some t then some s else some (s.setLocals t {})
  else none

/-- `stop()`, with its assertion on the calling thread. -/
def stop (t : ThreadId) (sch : SchedulerId) : Option Threads :=
  match s.object sch with
  | some obj =>
      if obj.root.isSome = true ↔ (s.locals t).scheduler = some sch then
        some (s.setObject sch (some { obj with stopping := true }))
      else none
  | none => none

/-- `~Scheduler()`, with its assertion; `stop()` has joined the threads. -/
def destroy (t : ThreadId) (sch : SchedulerId) : Option Threads :=
  match s.object sch with
  | some obj =>
      if obj.stopping = true ∧ obj.pending = 0 ∧ ∀ p ∈ s.running, p.2 ≠ sch then
        let s := s.setObject sch none
        if (s.locals t).scheduler = some sch then
          some (s.setLocals t { s.locals t with scheduler := none })
        else some s
      else none
  | none => none

/-- `IOManager::GetThis()`: `t_scheduler`, if it points to an `IOManager`. There is nothing to be had
from a pointer to an object that was destroyed. -/
def ioManager (t : ThreadId) : Option SchedulerId :=
  (s.locals t).scheduler.filter fun sch => (s.object sch).any fun obj => obj.kind == .ioManager

/-- The thread runs tasks of an `IOManager`, or is the caller's thread of one that exists. -/
def home (t : ThreadId) : Bool :=
  s.made.any fun sch => (s.object sch).any fun obj =>
    obj.kind == .ioManager && (s.running.contains (t, sch) || obj.root == some t)

/-- A hooked call. -/
def hook (t : ThreadId) (call : HookedCall) : Threads :=
  if call.usesIOManager (s.locals t).hookEnable then
    { s with uses := s.uses ++ [⟨t, s.ioManager t, s.home t⟩] }
  else s

/-- One step. -/
def next : ThreadStep → Option Threads
  | .construct t sch kind threadCount useCaller => s.construct t sch kind threadCount useCaller
  | .start sch => s.start sch
  | .begin t sch => s.begin t sch
  | .call t sch => s.call t sch
  | .finish t sch => s.finish t sch
  | .stop t sch => s.stop t sch
  | .destroy t sch => s.destroy t sch
  | .hook t call => some (s.hook t call)

end Threads

/-- The runs of a program. -/
def threads : Machine Threads ThreadStep := ⟨fun s => s = .initial, Threads.next⟩

/-! ### What each step does -/

namespace Threads

variable {s s' : Threads} {t u : ThreadId} {sch i : SchedulerId}

theorem construct_cases {kind : Kind} {threadCount : Nat} {useCaller : Bool}
    (stepped : s.construct t sch kind threadCount useCaller = some s') :
    sch ∉ s.made ∧ threadCount ≠ 0 ∧
      ((useCaller = false ∧ s' = ({ s with made := sch :: s.made }.setObject sch
          (some { kind, root := none, threadCount }) : Threads)) ∨
        useCaller = true ∧ (s.locals t).scheduler = none ∧
          s' = (({ s with made := sch :: s.made }.setLocals t
            { s.locals t with scheduler := some sch }).setObject sch
              (some { kind, root := some t, threadCount := threadCount - 1 }) : Threads)) := by
  obtain ⟨fresh, stepped⟩ := Option.ite_none_left_eq_some.mp stepped
  rw [not_or] at fresh
  refine ⟨fresh.1, fresh.2, ?_⟩
  cases useCaller with
  | false => exact .inl ⟨rfl, (Option.some.inj stepped).symm⟩
  | true =>
    obtain ⟨none, same⟩ := Option.ite_none_right_eq_some.mp stepped
    exact .inr ⟨rfl, none, (Option.some.inj same).symm⟩

theorem start_cases (stepped : s.start sch = some s') :
    ∃ obj, s.object sch = some obj ∧
      (s' = s.setObject sch (some { obj with
          stopping := false, pending := obj.pending + obj.threadCount }) ∨ s' = s) := by
  obtain ⟨obj, object, same⟩ := Option.map_eq_some_iff.mp stepped
  refine ⟨obj, object, ?_⟩
  split at same
  next => exact .inl same.symm
  next => exact .inr same.symm

theorem begin_cases (stepped : s.begin t sch = some s') :
    ∃ obj, s.object sch = some obj ∧ obj.pending ≠ 0 ∧ s.locals t = {} ∧
      s' = (s.setObject sch (some { obj with pending := obj.pending - 1 })).run t sch := by
  unfold begin at stepped
  split at stepped
  next obj object =>
    obtain ⟨⟨pending, new⟩, same⟩ := Option.ite_none_right_eq_some.mp stepped
    exact ⟨obj, object, pending, new, (Option.some.inj same).symm⟩
  next => cases stepped

theorem call_cases (stepped : s.call t sch = some s') :
    (s.object sch).bind (·.root) = some t ∧ (s.locals t).scheduler = some sch ∧
      (t, sch) ∉ s.running ∧ s' = s.run t sch := by
  obtain ⟨⟨caller, has, out⟩, same⟩ := Option.ite_none_right_eq_some.mp stepped
  exact ⟨caller, has, out, (Option.some.inj same).symm⟩

theorem finish_cases (stepped : s.finish t sch = some s') :
    (t, sch) ∈ s.running ∧
      (((s.object sch).bind (·.root) = some t ∧
          s' = { s with running := s.running.erase (t, sch) }) ∨
        (s.object sch).bind (·.root) ≠ some t ∧
          s' = ({ s with running := s.running.erase (t, sch) }.setLocals t {} : Threads)) := by
  obtain ⟨member, stepped⟩ := Option.ite_none_right_eq_some.mp stepped
  refine ⟨member, ?_⟩
  dsimp only at stepped
  split at stepped
  next caller => exact .inl ⟨caller, (Option.some.inj stepped).symm⟩
  next other => exact .inr ⟨other, (Option.some.inj stepped).symm⟩

theorem stop_cases (stepped : s.stop t sch = some s') :
    ∃ obj, s.object sch = some obj ∧
      (obj.root.isSome = true ↔ (s.locals t).scheduler = some sch) ∧
      s' = s.setObject sch (some { obj with stopping := true }) := by
  unfold stop at stepped
  split at stepped
  next obj object =>
    obtain ⟨asserted, same⟩ := Option.ite_none_right_eq_some.mp stepped
    exact ⟨obj, object, asserted, (Option.some.inj same).symm⟩
  next => cases stepped

theorem destroy_cases (stepped : s.destroy t sch = some s') :
    ∃ obj, s.object sch = some obj ∧ obj.stopping = true ∧ obj.pending = 0 ∧
      (∀ p ∈ s.running, p.2 ≠ sch) ∧
      (((s.locals t).scheduler = some sch ∧
          s' = (s.setObject sch none).setLocals t { s.locals t with scheduler := none }) ∨
        s' = s.setObject sch none) := by
  unfold destroy at stepped
  split at stepped
  next obj object =>
    obtain ⟨⟨stopping, pending, left⟩, stepped⟩ := Option.ite_none_right_eq_some.mp stepped
    refine ⟨obj, object, stopping, pending, left, ?_⟩
    dsimp only at stepped
    split at stepped
    next has => exact .inl ⟨has, (Option.some.inj stepped).symm⟩
    next => exact .inr (Option.some.inj stepped).symm
  next => cases stepped

/-! ### What the thread-locals say -/

theorem locals_setLocals (l : Locals) : (s.setLocals t l).locals t = l := Function.update_self ..

theorem locals_setLocals_of_ne (other : u ≠ t) (l : Locals) :
    (s.setLocals t l).locals u = s.locals u := Function.update_of_ne other ..

theorem object_setObject (obj : Option SchedulerObject) : (s.setObject sch obj).object sch = obj :=
  Function.update_self ..

theorem object_setObject_of_ne (other : i ≠ sch) (obj : Option SchedulerObject) :
    (s.setObject sch obj).object i = s.object i := Function.update_of_ne other ..

/-- **The invariant**: in `run()` a thread has the scheduler it runs for, the caller's thread has the
one it made, and what a thread has is one of these or gone. -/
structure Linked (s : Threads) : Prop where
  made : ∀ sch obj, s.object sch = some obj → sch ∈ s.made
  known : ∀ t sch, (s.locals t).scheduler = some sch → sch ∈ s.made
  root : ∀ sch obj t, s.object sch = some obj → obj.root = some t →
    (s.locals t).scheduler = some sch
  running : ∀ t sch, (t, sch) ∈ s.running →
    s.locals t = ⟨true, some sch⟩ ∧ (s.object sch).isSome = true
  once : s.running.Nodup
  held : ∀ t sch obj, (s.locals t).scheduler = some sch → s.object sch = some obj →
    obj.root = some t ∨ (t, sch) ∈ s.running

namespace Linked

theorem initial : Linked .initial := by
  constructor <;> simp [Threads.initial]

/-- Writing to a scheduler keeps it, unless its caller's thread changes. -/
theorem setObject (linked : Linked s) {obj obj' : SchedulerObject} (held : s.object sch = some obj)
    (root : obj'.root = obj.root) : Linked (s.setObject sch (some obj')) := by
  have object (i : SchedulerId) {o : SchedulerObject}
      (found : (s.setObject sch (some obj')).object i = some o) :
      ∃ o', s.object i = some o' ∧ o'.root = o.root := by
    rcases eq_or_ne i sch with rfl | other
    · cases (object_setObject _).symm.trans found
      exact ⟨obj, held, root.symm⟩
    · exact ⟨o, (object_setObject_of_ne other _).symm.trans found, rfl⟩
  refine ⟨fun i o found => ?_, linked.known, fun i o t found rooted => ?_, fun t i member => ?_,
    linked.once, fun t i o has found => ?_⟩
  · obtain ⟨o', found', -⟩ := object i found
    exact linked.made i o' found'
  · obtain ⟨o', found', same⟩ := object i found
    exact linked.root i o' t found' (same.trans rooted)
  · refine ⟨(linked.running t i member).1, ?_⟩
    rcases eq_or_ne i sch with rfl | other
    · rw [object_setObject]
      rfl
    · rw [object_setObject_of_ne other]
      exact (linked.running t i member).2
  · obtain ⟨o', found', same⟩ := object i found
    exact (linked.held t i o' has found').imp_left same.symm.trans

/-- **`run()` begins**, on a thread that has no other scheduler. -/
theorem run (linked : Linked s) {obj : SchedulerObject} (object : s.object sch = some obj)
    (out : (t, sch) ∉ s.running) (own : ∀ i, (s.locals t).scheduler = some i → i = sch) :
    Linked (s.run t sch) := by
  have self : (s.run t sch).locals t = ⟨true, some sch⟩ := locals_setLocals _
  have others {u : ThreadId} (other : u ≠ t) : (s.run t sch).locals u = s.locals u :=
    locals_setLocals_of_ne other _
  refine ⟨linked.made, fun u i has => ?_, fun i o u found rooted => ?_, fun u i member => ?_,
    List.nodup_cons.mpr ⟨out, linked.once⟩, fun u i o has found => ?_⟩
  · rcases eq_or_ne u t with rfl | other
    · rw [self] at has
      cases has
      exact linked.made sch obj object
    · exact linked.known u i (others other ▸ has)
  · have before := linked.root i o u found rooted
    rcases eq_or_ne u t with rfl | other
    · rw [self, own i before]
    · rw [others other]
      exact before
  · rcases List.mem_cons.mp member with same | old
    · cases same
      exact ⟨self, by rw [show (s.run t sch).object sch = some obj from object]; rfl⟩
    · obtain ⟨before, exists'⟩ := linked.running u i old
      refine ⟨?_, exists'⟩
      rcases eq_or_ne u t with rfl | other
      · rw [self, own i (congrArg Locals.scheduler before)]
      · rw [others other]
        exact before
  · rcases eq_or_ne u t with rfl | other
    · rw [self] at has
      cases has
      exact .inr List.mem_cons_self
    · exact (linked.held u i o (others other ▸ has) found).imp_right (List.mem_cons_of_mem _)

/-- **`run()` returns** on the caller's thread. -/
theorem returns (linked : Linked s) (caller : (s.object sch).bind (·.root) = some t) :
    Linked { s with running := s.running.erase (t, sch) } := by
  refine ⟨linked.made, linked.known, linked.root,
    fun u i old => linked.running u i (List.mem_of_mem_erase old), linked.once.erase _,
    fun u i o has found => ?_⟩
  rcases linked.held u i o has found with rooted | inside
  · exact .inl rooted
  · rcases eq_or_ne (u, i) (t, sch) with same | other
    · cases same
      rw [found] at caller
      exact .inl caller
    · exact .inr (linked.once.mem_erase_iff.mpr ⟨other, inside⟩)

/-- **`run()` returns** on a thread of the scheduler, which ends. -/
theorem ends (linked : Linked s) (member : (t, sch) ∈ s.running)
    (other : (s.object sch).bind (·.root) ≠ some t) :
    Linked ({ s with running := s.running.erase (t, sch) }.setLocals t {} : Threads) := by
  have own := congrArg Locals.scheduler (linked.running t sch member).1
  refine ⟨linked.made, fun u i has => ?_, fun i o u found rooted => ?_, fun u i old => ?_,
    linked.once.erase _, fun u i o has found => ?_⟩
  · rcases eq_or_ne u t with rfl | apart
    · rw [locals_setLocals] at has
      cases has
    · rw [locals_setLocals_of_ne apart] at has
      exact linked.known u i has
  · have before := linked.root i o u found rooted
    rcases eq_or_ne u t with rfl | apart
    · -- the thread is not that of the caller
      obtain rfl : sch = i := Option.some.inj (own.symm.trans before)
      refine absurd ?_ other
      rw [show s.object sch = some o from found]
      exact rooted
    · rw [locals_setLocals_of_ne apart]
      exact before
  · obtain ⟨distinct, inside⟩ := linked.once.mem_erase_iff.mp old
    obtain ⟨before, exists'⟩ := linked.running u i inside
    have apart : u ≠ t := by
      rintro rfl
      obtain rfl : sch = i := Option.some.inj (own.symm.trans (congrArg Locals.scheduler before))
      exact distinct rfl
    rw [locals_setLocals_of_ne apart]
    exact ⟨before, exists'⟩
  · rcases eq_or_ne u t with rfl | apart
    · rw [locals_setLocals] at has
      cases has
    · rw [locals_setLocals_of_ne apart] at has
      refine (linked.held u i o has found).imp_right fun inside => ?_
      refine linked.once.mem_erase_iff.mpr ⟨?_, inside⟩
      rintro ⟨⟩
      exact apart rfl

/-- **The constructor** names a new scheduler, of no caller. -/
theorem constructs (linked : Linked s) (fresh : sch ∉ s.made) {obj : SchedulerObject}
    (root : obj.root = none) :
    Linked ({ s with made := sch :: s.made }.setObject sch (some obj) : Threads) := by
  have apart {i : SchedulerId} (old : i ∈ s.made) : i ≠ sch := fun same => fresh (same ▸ old)
  refine ⟨fun i o found => ?_, fun u i has => List.mem_cons_of_mem _ (linked.known u i has),
    fun i o u found rooted => ?_, fun u i member => ?_, linked.once, fun u i o has found => ?_⟩
  · rcases eq_or_ne i sch with rfl | other
    · exact List.mem_cons_self
    · rw [object_setObject_of_ne other] at found
      exact List.mem_cons_of_mem _ (linked.made i o found)
  · rcases eq_or_ne i sch with rfl | other
    · rw [object_setObject] at found
      cases found
      cases root.symm.trans rooted
    · rw [object_setObject_of_ne other] at found
      exact linked.root i o u found rooted
  · obtain ⟨before, exists'⟩ := linked.running u i member
    obtain ⟨o, found⟩ := Option.isSome_iff_exists.mp exists'
    rw [object_setObject_of_ne (apart (linked.made i o found))]
    exact ⟨before, exists'⟩
  · rw [object_setObject_of_ne (apart (linked.known u i has))] at found
    exact linked.held u i o has found

/-- The constructor on the caller's thread, which has no scheduler. -/
theorem constructsCaller (linked : Linked s) (fresh : sch ∉ s.made)
    (none : (s.locals t).scheduler = none) {l : Locals} (scheduler : l.scheduler = some sch)
    {obj : SchedulerObject} (root : obj.root = some t) :
    Linked (({ s with made := sch :: s.made }.setLocals t l).setObject sch (some obj) : Threads) := by
  have apart {i : SchedulerId} (old : i ∈ s.made) : i ≠ sch := fun same => fresh (same ▸ old)
  have locals_of_ne {u : ThreadId} (other : u ≠ t) :
      (({ s with made := sch :: s.made }.setLocals t l).setObject sch (some obj) : Threads).locals u =
        s.locals u := Function.update_of_ne other ..
  have locals_self :
      (({ s with made := sch :: s.made }.setLocals t l).setObject sch (some obj) : Threads).locals t =
        l := Function.update_self ..
  refine ⟨fun i o found => ?_, fun u i has => ?_, fun i o u found rooted => ?_, fun u i member => ?_,
    linked.once, fun u i o has found => ?_⟩
  · rcases eq_or_ne i sch with rfl | other
    · exact List.mem_cons_self
    · rw [object_setObject_of_ne other] at found
      exact List.mem_cons_of_mem _ (linked.made i o found)
  · rcases eq_or_ne u t with rfl | other
    · rw [locals_self, scheduler] at has
      cases has
      exact List.mem_cons_self
    · rw [locals_of_ne other] at has
      exact List.mem_cons_of_mem _ (linked.known u i has)
  · rcases eq_or_ne i sch with rfl | other
    · rw [object_setObject] at found
      cases found
      cases root.symm.trans rooted
      rw [locals_self]
      exact scheduler
    · rw [object_setObject_of_ne other] at found
      have before := linked.root i o u found rooted
      have other' : u ≠ t := by
        rintro rfl
        cases none.symm.trans before
      rw [locals_of_ne other']
      exact before
  · obtain ⟨before, exists'⟩ := linked.running u i member
    obtain ⟨o, found⟩ := Option.isSome_iff_exists.mp exists'
    have other : u ≠ t := by
      rintro rfl
      cases none.symm.trans (congrArg Locals.scheduler before)
    rw [locals_of_ne other, object_setObject_of_ne (apart (linked.made i o found))]
    exact ⟨before, exists'⟩
  · rcases eq_or_ne u t with rfl | other
    · rw [locals_self, scheduler] at has
      cases has
      rw [object_setObject] at found
      cases found
      exact .inl root
    · rw [locals_of_ne other] at has
      rw [object_setObject_of_ne (apart (linked.known u i has))] at found
      exact linked.held u i o has found

/-- **The destructor**: nobody is in `run()`. -/
theorem destroys (linked : Linked s) (left : ∀ p ∈ s.running, p.2 ≠ sch) :
    Linked (s.setObject sch none) := by
  have old {i : SchedulerId} {o : SchedulerObject}
      (found : (s.setObject sch none).object i = some o) : s.object i = some o := by
    rcases eq_or_ne i sch with rfl | other
    · cases (object_setObject none).symm.trans found
    · exact (object_setObject_of_ne other none).symm.trans found
  refine ⟨fun i o found => linked.made i o (old found), linked.known,
    fun i o u found rooted => linked.root i o u (old found) rooted, fun u i member => ?_,
    linked.once, fun u i o has found => linked.held u i o has (old found)⟩
  rw [object_setObject_of_ne (left (u, i) member)]
  exact linked.running u i member

/-- A thread forgets a scheduler that is gone. -/
theorem forgets (linked : Linked s) (gone : s.object sch = none)
    (has : (s.locals t).scheduler = some sch) :
    Linked (s.setLocals t { s.locals t with scheduler := none }) := by
  have still {u : ThreadId} {i : SchedulerId} (exists' : (s.object i).isSome = true)
      (before : (s.locals u).scheduler = some i) : u ≠ t := by
    rintro rfl
    obtain rfl : sch = i := Option.some.inj (has.symm.trans before)
    rw [gone] at exists'
    cases exists'
  have old {u : ThreadId} {i : SchedulerId}
      (after : ((s.setLocals t { s.locals t with scheduler := none }).locals u).scheduler = some i) :
      (s.locals u).scheduler = some i := by
    rcases eq_or_ne u t with rfl | other
    · rw [locals_setLocals] at after
      cases after
    · rw [locals_setLocals_of_ne other] at after
      exact after
  refine ⟨linked.made, fun u i after => linked.known u i (old after), fun i o u found rooted => ?_,
    fun u i member => ?_, linked.once, fun u i o after found => linked.held u i o (old after) found⟩
  · have before := linked.root i o u found rooted
    rw [locals_setLocals_of_ne (still (by rw [show s.object i = some o from found]; rfl) before)]
    exact before
  · obtain ⟨before, exists'⟩ := linked.running u i member
    rw [locals_setLocals_of_ne (still exists' (congrArg Locals.scheduler before))]
    exact ⟨before, exists'⟩

/-- A hooked call writes the record alone. -/
theorem hook (linked : Linked s) (t : ThreadId) (call : HookedCall) : Linked (s.hook t call) := by
  unfold Threads.hook
  split
  · exact ⟨linked.made, linked.known, linked.root, linked.running, linked.once, linked.held⟩
  · exact linked

/-- **The step lemma.** -/
theorem next (linked : Linked s) {step : ThreadStep} (stepped : s.next step = some s') :
    Linked s' := by
  cases step with
  | construct t sch kind threadCount useCaller =>
    obtain ⟨fresh, -, ⟨-, rfl⟩ | ⟨-, none, rfl⟩⟩ := construct_cases stepped
    · exact linked.constructs fresh rfl
    · exact linked.constructsCaller fresh none rfl rfl
  | start sch =>
    obtain ⟨obj, object, rfl | rfl⟩ := start_cases stepped
    · exact linked.setObject object rfl
    · exact linked
  | begin t sch =>
    obtain ⟨obj, object, -, new, rfl⟩ := begin_cases stepped
    have after : Linked (s.setObject sch (some { obj with pending := obj.pending - 1 })) :=
      linked.setObject object rfl
    refine after.run (object_setObject _) (fun inside => ?_) fun i has => ?_
    · cases new.symm.trans (linked.running t sch inside).1
    · cases (congrArg Locals.scheduler new).symm.trans has
  | call t sch =>
    obtain ⟨caller, has, out, rfl⟩ := call_cases stepped
    obtain ⟨obj, object, -⟩ := Option.bind_eq_some_iff.mp caller
    exact linked.run object out fun i before => Option.some.inj (before.symm.trans has)
  | finish t sch =>
    obtain ⟨member, ⟨caller, rfl⟩ | ⟨other, rfl⟩⟩ := finish_cases stepped
    · exact linked.returns caller
    · exact linked.ends member other
  | stop t sch =>
    obtain ⟨obj, object, -, rfl⟩ := stop_cases stepped
    exact linked.setObject object rfl
  | destroy t sch =>
    obtain ⟨obj, -, -, -, left, ⟨has, rfl⟩ | rfl⟩ := destroy_cases stepped
    · exact (linked.destroys left).forgets (object_setObject none) has
    · exact linked.destroys left
  | hook t call =>
    cases stepped
    exact linked.hook t call

theorem reachable (reached : threads.Reachable s) : Linked s := by
  refine reached.invariant ?_ fun s step s' linked _ stepped => linked.next stepped
  rintro s rfl
  exact .initial

end Linked

/-! ### What a hook finds -/

/-- **In a task a hook finds the scheduler of the task**, if that is an `IOManager`. -/
theorem ioManager_of_running (linked : Linked s) (inside : (t, sch) ∈ s.running) :
    s.ioManager t =
      if (s.object sch).any (·.kind == .ioManager) then some sch else none := by
  unfold ioManager
  rw [(linked.running t sch inside).1]
  exact Option.filter_some ..

/-- **What a hook finds is an `IOManager`** exactly when its thread has one. -/
theorem ioManager_ne_none_iff (linked : Linked s) :
    s.ioManager t ≠ none ↔ s.home t = true := by
  unfold ioManager home
  rw [List.any_eq_true]
  constructor
  · intro found
    obtain ⟨sch, found⟩ := Option.ne_none_iff_exists'.mp found
    obtain ⟨has, manager⟩ := Option.filter_eq_some_iff.mp found
    obtain ⟨obj, object, kind⟩ := (Option.any_eq_true _ _).mp manager
    refine ⟨sch, linked.made sch obj object, (Option.any_eq_true _ _).mpr ⟨obj, object, ?_⟩⟩
    rw [kind, Bool.true_and, Bool.or_eq_true, List.contains_iff_mem, beq_iff_eq]
    exact (linked.held t sch obj has object).symm
  · rintro ⟨sch, -, found⟩
    obtain ⟨obj, object, found⟩ := (Option.any_eq_true _ _).mp found
    obtain ⟨kind, here⟩ := (Bool.and_eq_true _ _).mp found
    have has : (s.locals t).scheduler = some sch := by
      rcases (Bool.or_eq_true _ _).mp here with inside | root
      · exact congrArg Locals.scheduler (linked.running t sch (List.contains_iff_mem.mp inside)).1
      · exact linked.root sch obj t object (beq_iff_eq.mp root)
    have manager : ((s.object sch).any fun obj => obj.kind == .ioManager) = true :=
      (Option.any_eq_true _ _).mpr ⟨obj, object, kind⟩
    rw [has, Option.filter_some, if_pos manager]
    exact Option.some_ne_none sch

/-- What is recorded of the uses. -/
theorem uses_of_next {step : ThreadStep} (stepped : s.next step = some s') :
    s'.uses = s.uses ∨ ∃ t, s'.uses = s.uses ++ [⟨t, s.ioManager t, s.home t⟩] := by
  cases step with
  | construct t sch kind threadCount useCaller =>
    obtain ⟨-, -, ⟨-, rfl⟩ | ⟨-, -, rfl⟩⟩ := construct_cases stepped <;> exact .inl rfl
  | start sch =>
    obtain ⟨obj, -, rfl | rfl⟩ := start_cases stepped <;> exact .inl rfl
  | begin t sch =>
    obtain ⟨obj, -, -, -, rfl⟩ := begin_cases stepped
    exact .inl rfl
  | call t sch =>
    obtain ⟨-, -, -, rfl⟩ := call_cases stepped
    exact .inl rfl
  | finish t sch =>
    obtain ⟨-, ⟨-, rfl⟩ | ⟨-, rfl⟩⟩ := finish_cases stepped <;> exact .inl rfl
  | stop t sch =>
    obtain ⟨obj, -, -, rfl⟩ := stop_cases stepped
    exact .inl rfl
  | destroy t sch =>
    obtain ⟨obj, -, -, -, -, ⟨-, rfl⟩ | rfl⟩ := destroy_cases stepped <;> exact .inl rfl
  | hook t call =>
    cases stepped
    unfold Threads.hook
    split
    · exact .inr ⟨t, rfl⟩
    · exact .inl rfl

end Threads

/-! ### Main result -/

/-- **Hooks are safe** if and only if each use is made in a task of an `IOManager`, or on the caller's
thread of one that exists: for all uses of any run. -/
theorem uses_safe_iff {s : Threads} (reached : threads.Reachable s) :
    (∀ u ∈ s.uses, u.got ≠ none) ↔ ∀ u ∈ s.uses, u.home = true := by
  have both : s.Linked ∧ ∀ u ∈ s.uses, u.got ≠ none ↔ u.home = true := by
    refine reached.invariant (P := fun s => s.Linked ∧ ∀ u ∈ s.uses, u.got ≠ none ↔ u.home = true)
      ?_ fun s step s' ⟨linked, uses⟩ _ stepped => ⟨linked.next stepped, fun u member => ?_⟩
    · rintro s rfl
      exact ⟨.initial, nofun⟩
    · rcases Threads.uses_of_next stepped with same | ⟨t, same⟩
      · exact uses u (same ▸ member)
      · rw [same] at member
        rcases List.mem_append.mp member with old | new
        · exact uses u old
        · rw [List.mem_singleton.mp new]
          exact Threads.ioManager_ne_none_iff linked
  exact forall₂_congr both.2

/-! ### Runs of a program -/

theorem uses_safe_iff_ioManager :
    ∃ s : Threads, threads.Reachable s ∧ s.uses = [⟨2, some 0, true⟩] ∧
      ∀ u ∈ s.uses, u.got ≠ none := by
  obtain ⟨s, reached, state⟩ :=
    Machine.reachable_of_replay (m := threads) (s := .initial) rfl
      [.construct 1 0 .ioManager 1 false, .start 0, .begin 2 0, .hook 2 .sleep]
      (fun s => s.uses = [⟨2, some 0, true⟩]) (by decide +kernel)
  have uses := of_decide_eq_true state
  refine ⟨s, reached, uses, (uses_safe_iff reached).mpr ?_⟩
  rw [uses]
  exact List.forall_mem_singleton.mpr rfl

/-- **A task of a plain scheduler sleeps**, and has no `IOManager`. -/
theorem plain_sleeps :
    ∃ s, threads.Reachable s ∧ s.uses = [⟨2, none, false⟩] ∧ ¬ ∀ u ∈ s.uses, u.got ≠ none := by
  obtain ⟨s, reached, state⟩ :=
    Machine.reachable_of_replay (m := threads) (s := .initial) rfl
      [.construct 1 0 .scheduler 1 false, .start 0, .begin 2 0, .hook 2 .sleep]
      (fun s => s.uses = [⟨2, none, false⟩]) (by decide +kernel)
  have uses := of_decide_eq_true state
  refine ⟨s, reached, uses, fun safe => ?_⟩
  exact safe ⟨2, none, false⟩ (uses ▸ List.mem_singleton_self _) rfl

/-- **The caller's thread sleeps after its scheduler is destroyed**: it has run tasks in `stop()`. -/
theorem destroyed_sleeps :
    ∃ s, threads.Reachable s ∧ s.uses = [⟨1, none, false⟩] ∧ ¬ ∀ u ∈ s.uses, u.got ≠ none := by
  obtain ⟨s, reached, state⟩ :=
    Machine.reachable_of_replay (m := threads) (s := .initial) rfl
      [.construct 1 0 .scheduler 1 true, .call 1 0, .finish 1 0, .stop 1 0, .destroy 1 0,
        .hook 1 .sleep]
      (fun s => s.uses = [⟨1, none, false⟩]) (by decide +kernel)
  have uses := of_decide_eq_true state
  refine ⟨s, reached, uses, fun safe => ?_⟩
  exact safe ⟨1, none, false⟩ (uses ▸ List.mem_singleton_self _) rfl

end Sylar.Hook
