/-
**`do_io`: the control flow of the hooked calls.**

A hooked call asks things one after another: the context of its descriptor, the underlying function
again and again, and, when that says `EAGAIN`, an event and its own suspension. `Pc` is where it is,
`Answer` what it gets there, `Pc.next` where it goes; what a suspended call waits for is the subject of
other modules.

* `ExactlyOnce` — what should hold: the underlying function completes at most once, and then the call
  returns with that completion.
* `unhooked_twice` — **a thread without hooks calls it once more, and drops the first result.**
* `exactly_once_iff` — **it holds exactly when the thread has hooks, or that first call does not
  complete.**
-/

import Sylar.Library.Machine
import Sylar.EventTable.Epoll
import Sylar.Hook.FdManager

namespace Sylar.Hook

open Sylar.Library
open Sylar.EventTable (Event)

/-- The values of `errno` that are told apart. -/
inductive Errno
  | eintr
  | eagain
  | ebadf
  | etimedout
  | other (number : Nat)
deriving DecidableEq

/-- What a call of the underlying function gives: a value, or `-1` with `errno`. -/
inductive IoResult
  | value (n : Nat)
  | error (e : Errno)
deriving DecidableEq

/-- The call has done its work, or failed for good. -/
def IoResult.completes : IoResult → Bool
  | .error .eintr | .error .eagain => false
  | .value _ | .error _ => true

/-- The hooks that go through `do_io`. -/
inductive IoHook
  | accept
  | read
  | readv
  | recv
  | recvfrom
  | recvmsg
  | write
  | writev
  | send
  | sendto
  | sendmsg
deriving DecidableEq

/-- The event a hook passes. -/
def IoHook.event : IoHook → Event
  | .accept | .read | .readv | .recv | .recvfrom | .recvmsg => .read
  | .write | .writev | .send | .sendto | .sendmsg => .write

/-- The timeout a hook passes. -/
def IoHook.timeoutSo : IoHook → TimeoutOption
  | .accept | .read | .readv | .recv | .recvfrom | .recvmsg => .rcvtimeo
  | .write | .writev | .send | .sendto | .sendmsg => .sndtimeo

/-! ### The control flow -/

/-- What `do_io` returns: a result of the underlying function, or a `-1` of its own; `none` leaves
`errno` as `add_event` left it. -/
inductive Returned
  | passes (r : IoResult)
  | fails (e : Option Errno)
deriving DecidableEq

/-- Where a call is. -/
inductive Pc
  /-- no hooks: before the call of `fun` whose result is dropped -/
  | stray
  /-- before `getFdCtx` -/
  | lookup
  /-- before `return fun(fd, ...)` -/
  | direct
  /-- before `fun` in the loop -/
  | attempt
  /-- after `EAGAIN`, before the timer -/
  | arm
  /-- before `add_event` -/
  | register
  /-- in `Yield_to_Hold` -/
  | suspended
  | returned (r : Returned)
deriving DecidableEq

/-- What a call gets. -/
inductive Answer
  /-- the result of `fun` -/
  | result (r : IoResult)
  /-- what `getFdCtx` returns -/
  | context (ctx : Option FdCtx)
  /-- the timer is armed, or there is no timeout -/
  | armed
  /-- `add_event` returns: whether it succeeded -/
  | added (success : Bool)
  /-- the fiber is back: `tinfo->cancelled` -/
  | resumed (cancelled : Option Errno)
deriving DecidableEq

/-- The start of `do_io`. -/
def Pc.start (hooked : Bool) : Pc := if hooked then .lookup else .stray

/-- After `getFdCtx`. -/
def Pc.afterContext : Option FdCtx → Pc
  | none => .direct
  | some ctx =>
      if ctx.isClosed then .returned (.fails (some .ebadf))
      else if !ctx.isSocket || ctx.userNonblock then .direct
      else .attempt

/-- After `fun` in the loop. -/
def Pc.afterResult : IoResult → Pc
  | .error .eintr => .attempt
  | .error .eagain => .arm
  | r => .returned (.passes r)

/-- After `add_event`. -/
def Pc.afterAdded (success : Bool) : Pc := if success then .suspended else .returned (.fails none)

/-- After `Yield_to_Hold`. -/
def Pc.afterResumed : Option Errno → Pc
  | some e => .returned (.fails (some e))
  | none => .attempt

/-- Where a call goes. -/
def Pc.next : Pc → Answer → Option Pc
  | .stray, .result _ => some .lookup
  | .lookup, .context ctx => some (.afterContext ctx)
  | .direct, .result r => some (.returned (.passes r))
  | .attempt, .result r => some (.afterResult r)
  | .arm, .armed => some .register
  | .register, .added success => some (.afterAdded success)
  | .suspended, .resumed cancelled => some (.afterResumed cancelled)
  | _, _ => none

/-! ### A call and the results it has got -/

/-- A call of `do_io`, with the results of the underlying function so far. -/
structure DoIo where
  pc : Pc
  results : List IoResult
deriving DecidableEq

/-- The result among the answers. -/
def Answer.results : Answer → List IoResult
  | .result r => [r]
  | .context _ | .armed | .added _ | .resumed _ => []

/-- A call goes on. -/
def DoIo.next (d : DoIo) (answer : Answer) : Option DoIo :=
  (d.pc.next answer).map fun pc => ⟨pc, d.results ++ answer.results⟩

/-- The runs of a call on a thread with or without hooks: any answers. -/
def doIo (hooked : Bool) : Machine DoIo Answer := ⟨fun d => d = ⟨.start hooked, []⟩, DoIo.next⟩

/-- **The I/O is performed once**: the underlying function completes at most once, and when it does,
the call returns what it gave. -/
structure ExactlyOnce (d : DoIo) : Prop where
  once : (d.results.filter IoResult.completes).length ≤ 1
  returns : ∀ r ∈ d.results, r.completes = true → d.pc = .returned (.passes r)

/-- **The condition**: the thread has hooks, or the first call of the underlying function does not
complete. -/
def Undoubled (hooked : Bool) (results : List IoResult) : Prop :=
  hooked = true ∨ ∀ r ∈ results.head?, r.completes = false

/-! ### The invariant -/

/-- Nothing has completed, or the last call has, and its result is returned. -/
def Clean (d : DoIo) : Prop :=
  (∀ r ∈ d.results, r.completes = false) ∨
    ∃ earlier r, d.results = earlier ++ [r] ∧ (∀ x ∈ earlier, x.completes = false) ∧
      d.pc = .returned (.passes r)

/-- The first result was dropped; what is returned is another one. -/
def Doubled (d : DoIo) : Prop :=
  ∃ first rest, d.results = first :: rest ∧ first.completes = true ∧
    ∀ r, d.pc = .returned (.passes r) → r ∈ rest

theorem Clean.exactlyOnce {d : DoIo} (clean : Clean d) : ExactlyOnce d := by
  rcases clean with none | ⟨earlier, r, results, none, returned⟩
  · refine ⟨?_, fun r member completes => ?_⟩
    · rw [List.filter_eq_nil_iff.mpr fun r member => Bool.eq_false_iff.mp (none r member)]
      exact Nat.zero_le 1
    · cases (none r member).symm.trans completes
  · have nothing : earlier.filter IoResult.completes = [] :=
      List.filter_eq_nil_iff.mpr fun x member => Bool.eq_false_iff.mp (none x member)
    refine ⟨?_, fun x member completes => ?_⟩
    · rw [results, List.filter_append, nothing, List.nil_append]
      exact List.length_filter_le _ [r]
    · rw [results] at member
      rcases List.mem_append.mp member with old | last
      · cases (none x old).symm.trans completes
      · rw [List.mem_singleton.mp last]
        exact returned

theorem Doubled.not_exactlyOnce {d : DoIo} (doubled : Doubled d) : ¬ ExactlyOnce d := by
  obtain ⟨first, rest, results, completes, another⟩ := doubled
  intro exactly
  have again : first ∈ rest :=
    another first (exactly.returns first (results ▸ List.mem_cons_self) completes)
  have once := exactly.once
  rw [results, List.filter_cons_of_pos completes, List.length_cons] at once
  have some' : first ∈ rest.filter IoResult.completes := List.mem_filter.mpr ⟨again, completes⟩
  have pos := List.length_pos_of_mem some'
  omega

/-! ### What one step does -/

namespace Pc

variable {pc pc' : Pc} {answer : Answer} {r : IoResult}

/-- Only a call that has just begun is before the dropped call of `fun`. -/
theorem next_ne_stray (goes : pc.next answer = some pc') : pc' ≠ .stray := by
  cases pc <;> cases answer <;> cases goes
  case lookup.context.refl ctx =>
    unfold afterContext
    split
    · exact Pc.noConfusion
    · split
      · exact Pc.noConfusion
      · split <;> exact Pc.noConfusion
  case attempt.result.refl r =>
    unfold afterResult
    split <;> exact Pc.noConfusion
  case register.added.refl success => cases success <;> exact Pc.noConfusion
  case suspended.resumed.refl cancelled => cases cancelled <;> exact Pc.noConfusion
  all_goals exact Pc.noConfusion

/-- What is passed on is the result just got. -/
theorem passes_of_next (goes : pc.next answer = some (.returned (.passes r))) :
    answer = .result r := by
  cases pc <;> cases answer <;> simp only [next, Option.some.injEq, reduceCtorEq] at goes
  case lookup.context ctx =>
    unfold afterContext at goes
    split at goes
    · cases goes
    · split at goes
      · cases goes
      · split at goes <;> cases goes
  case direct.result => cases goes; rfl
  case attempt.result x =>
    unfold afterResult at goes
    split at goes
    · cases goes
    · cases goes
    · cases goes
      rfl
  case register.added success => cases success <;> cases goes
  case suspended.resumed cancelled => cases cancelled <;> cases goes

/-- **A completion is returned**, if it is not dropped. -/
theorem next_of_completes (completes : r.completes = true) (kept : pc ≠ .stray)
    (goes : pc.next (.result r) = some pc') : pc' = .returned (.passes r) := by
  cases pc with
  | stray => exact absurd rfl kept
  | direct => exact (Option.some.inj goes).symm
  | attempt =>
    match r, completes with
    | .value _, _ | .error .ebadf, _ | .error .etimedout, _ | .error (.other _), _ =>
      exact (Option.some.inj goes).symm
  | lookup | arm | register | suspended | returned => cases goes

end Pc

/-- The first result stays the first. -/
theorem undoubled_append {hooked : Bool} {results : List IoResult}
    (called : hooked = false → results ≠ []) (more : List IoResult) :
    Undoubled hooked (results ++ more) ↔ Undoubled hooked results := by
  unfold Undoubled
  cases results with
  | cons first rest => rfl
  | nil =>
    have : hooked = true := by
      cases hooked with
      | true => rfl
      | false => exact absurd rfl (called rfl)
    simp only [this, true_or]

theorem Clean.next {d : DoIo} (clean : Clean d) (kept : d.pc ≠ .stray) {answer : Answer} {pc : Pc}
    (goes : d.pc.next answer = some pc) : Clean ⟨pc, d.results ++ answer.results⟩ := by
  have none : ∀ r ∈ d.results, r.completes = false := by
    rcases clean with none | ⟨_, _, _, _, returned⟩
    · exact none
    · rw [returned] at goes
      cases goes
  by_cases completion : ∃ r, answer = .result r ∧ r.completes = true
  · obtain ⟨r, rfl, completes⟩ := completion
    exact Or.inr ⟨d.results, r, rfl, none, Pc.next_of_completes completes kept goes⟩
  · refine Or.inl fun r member => ?_
    rcases List.mem_append.mp member with old | new
    · exact none r old
    · cases answer with
      | result x =>
        rw [List.mem_singleton.mp new]
        exact Bool.eq_false_iff.mpr fun completes => completion ⟨x, rfl, completes⟩
      | context | armed | added | resumed => cases new

theorem Doubled.next {d : DoIo} (doubled : Doubled d) {answer : Answer} {pc : Pc}
    (goes : d.pc.next answer = some pc) : Doubled ⟨pc, d.results ++ answer.results⟩ := by
  obtain ⟨first, rest, results, completes, -⟩ := doubled
  refine ⟨first, rest ++ answer.results, by rw [results, List.cons_append], completes, ?_⟩
  rintro r rfl
  rw [Pc.passes_of_next goes]
  exact List.mem_append_right rest (List.mem_singleton_self r)

/-- **What holds of every call.** -/
inductive Shape (hooked : Bool) (d : DoIo) : Prop
  /-- the call without hooks has not called anything -/
  | stray (unhooked : hooked = false) (pc : d.pc = .stray) (results : d.results = [])
  /-- the I/O is performed at most once -/
  | clean (undoubled : Undoubled hooked d.results)
      (called : hooked = false → d.results ≠ []) (pc : d.pc ≠ .stray) (clean : Clean d)
  /-- it is performed again -/
  | doubled (doubled : ¬ Undoubled hooked d.results) (pc : d.pc ≠ .stray) (twice : Doubled d)

/-- **The step lemma.** -/
theorem Shape.next {hooked : Bool} {d d' : DoIo} {answer : Answer} (shape : Shape hooked d)
    (stepped : d.next answer = some d') : Shape hooked d' := by
  obtain ⟨pc, goes, rfl⟩ := Option.map_eq_some_iff.mp stepped
  have kept' := Pc.next_ne_stray goes
  cases shape with
  | stray unhooked before results =>
    rw [before] at goes
    cases answer with
    | context | armed | added | resumed => cases goes
    | result r =>
      cases goes
      have first : d.results ++ [r] = [r] := by rw [results, List.nil_append]
      by_cases completes : r.completes = true
      · refine .doubled ?_ kept' ⟨r, [], first, completes, fun _ returned => by cases returned⟩
        rw [show Answer.results (.result r) = [r] from rfl, first]
        rintro (enabled | none)
        · exact Bool.false_ne_true (unhooked.symm.trans enabled)
        · exact Bool.false_ne_true ((none r rfl).symm.trans completes)
      · have fails : ∀ x ∈ [r], x.completes = false := fun x member => by
          rw [List.mem_singleton.mp member]
          exact Bool.eq_false_iff.mpr completes
        refine .clean (Or.inr ?_) (fun _ => ?_) kept' (Or.inl ?_)
        · rw [show Answer.results (.result r) = [r] from rfl, first]
          exact fun x member => fails x (List.mem_of_mem_head? member)
        · exact List.append_ne_nil_of_right_ne_nil _ (List.cons_ne_nil r [])
        · exact first ▸ fails
  | clean undoubled called kept clean =>
    refine .clean ((undoubled_append called _).mpr undoubled) (fun unhooked => ?_) kept'
      (clean.next kept goes)
    exact List.append_ne_nil_of_left_ne_nil (called unhooked) _
  | doubled doubled kept twice =>
    obtain ⟨first, rest, results, -⟩ := id twice
    refine .doubled (fun undoubled => doubled ?_) kept' (twice.next goes)
    exact (undoubled_append (fun _ => results ▸ List.cons_ne_nil first rest) _).mp undoubled

theorem shape_of_reachable {hooked : Bool} {d : DoIo} (reached : (doIo hooked).Reachable d) :
    Shape hooked d := by
  refine reached.invariant ?_ fun d answer d' shape _ stepped => shape.next stepped
  rintro d rfl
  cases hooked with
  | false => exact .stray rfl rfl rfl
  | true => exact .clean (Or.inl rfl) Bool.noConfusion Pc.noConfusion (Or.inl fun _ => nofun)

/-! ### Main results -/

/-- **The I/O is performed once exactly when the thread has hooks or the first call of the
underlying function does not complete**, whatever the context of the descriptor is and whatever the
call is answered. -/
theorem exactly_once_iff {hooked : Bool} {d : DoIo} (reached : (doIo hooked).Reachable d) :
    ExactlyOnce d ↔ Undoubled hooked d.results := by
  cases shape_of_reachable reached with
  | stray unhooked pc results =>
    refine ⟨fun _ => Or.inr ?_, fun _ => Clean.exactlyOnce (Or.inl ?_)⟩
    · rw [results]
      exact fun _ => nofun
    · rw [results]
      exact fun _ => nofun
  | clean undoubled called kept clean => exact ⟨fun _ => undoubled, fun _ => clean.exactlyOnce⟩
  | doubled doubled kept twice =>
    exact ⟨fun exactly => absurd exactly twice.not_exactlyOnce, fun held => absurd held doubled⟩

/-- A read that is interrupted, waits once, and then gets `7` bytes. -/
def waitedRead : List Answer :=
  [.context (some { fd := 5, isInit := true, isSocket := true, sysNonblock := true }),
    .result (.error .eintr), .result (.error .eagain), .armed, .added true, .resumed none,
    .result (.value 7)]

theorem exactly_once_iff_waitedRead :
    ∃ d, (doIo true).Reachable d ∧ d.pc = .returned (.passes (.value 7)) ∧ ExactlyOnce d := by
  obtain ⟨d, reached, state⟩ :=
    Machine.reachable_of_replay (m := doIo true) rfl waitedRead
      (fun d => d.pc = .returned (.passes (.value 7))) (by decide +kernel)
  exact ⟨d, reached, of_decide_eq_true state, (exactly_once_iff reached).mpr (Or.inl rfl)⟩

/-- **A thread without hooks performs it twice**: `write` writes the `5` bytes two times. -/
theorem unhooked_twice :
    ∃ d, (doIo false).Reachable d ∧ d.pc = .returned (.passes (.value 5)) ∧
      d.results = [.value 5, .value 5] ∧ ¬ ExactlyOnce d := by
  obtain ⟨d, reached, state⟩ :=
    Machine.reachable_of_replay (m := doIo false) rfl
      [.result (.value 5), .context none, .result (.value 5)]
      (fun d => d.pc = .returned (.passes (.value 5)) ∧ d.results = [.value 5, .value 5])
      (by decide +kernel)
  obtain ⟨pc, results⟩ := of_decide_eq_true state
  refine ⟨d, reached, pc, results, fun exactly => ?_⟩
  have once := exactly.once
  rw [results] at once
  exact absurd once (by decide)

end Sylar.Hook
