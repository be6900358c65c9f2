/-
**The hooks that keep a copy of what they ask the kernel for.**

`setsockopt`, `fcntl` and `ioctl` write the context of a descriptor, then call the function of the
kernel with the same request, and return what it returns. The kernel may refuse the request; the
context has it by then.

* `OptionCall.run` — one call, up to and with the function of the kernel.
* `run_table` — what it does to the contexts is what the layer does.
* `Idle` — **the condition**: the call writes no context, or what the context has already.
* `failure_unchanged_iff` — **a call that fails leaves the context as it was exactly when it is
  idle**; `refused_timeout`.
-/

import Sylar.Hook.Timeouts

namespace Sylar.Hook

/-! ### The calls -/

/-- `SOL_SOCKET`. -/
def solSocket : Int32 := 1

/-- `SO_RCVTIMEO` and `SO_SNDTIMEO` among the options. -/
def TimeoutOption.ofOptname (optname : Int32) : Option TimeoutOption :=
  if optname = 20 then some .rcvtimeo else if optname = 21 then some .sndtimeo else none

/-- A `timeval`. -/
structure Timeval where
  sec : Int
  usec : Int
deriving DecidableEq

/-- A call of one of the hooks; a pointer is `none` if it is null. -/
inductive OptionCall
  /-- `setsockopt`, on a thread with hooks or without -/
  | setsockopt (enabled : Bool) (level optname : Int32) (optval : Option Timeval)
  /-- `fcntl(F_SETFL)` -/
  | fcntl (arg : Flags)
  /-- `ioctl(FIONBIO)` -/
  | ioctl (arg : Option Int)
deriving DecidableEq

/-- A call of the function of the kernel. -/
inductive KernelCall
  | setsockoptF (level optname : Int32) (optval : Option Timeval)
  | fcntlF (arg : Flags)
  | ioctlF (arg : Option Int)
deriving DecidableEq

/-- What a hook has done: the contexts, what it called, and what it returns. -/
structure OptionResult where
  table : FdManger
  called : KernelCall
  returned : Int32

namespace OptionCall

variable (kernel : KernelCall → Int32) (m : FdManger) (fd : Nat)

/-- `return ..._f(...)`. -/
def passes (called : KernelCall) : OptionResult := ⟨m, called, kernel called⟩

/-- `setsockopt`; a null pointer is dereferenced where there is a context. -/
def runSetsockopt (enabled : Bool) (level optname : Int32) (optval : Option Timeval) :
    Option OptionResult :=
  let called := KernelCall.setsockoptF level optname optval
  if !enabled then some (passes kernel m called)
  else if level = solSocket then
    match TimeoutOption.ofOptname optname with
    | some type =>
        match (m.getFdCtx fd false).2 with
        | some id => optval.map fun tv =>
            let ctx := (m.ctx id).setTimeout type (storedTimeout tv.sec tv.usec)
            passes kernel (m.setCtx id ctx) called
        | none => some (passes kernel m called)
    | none => some (passes kernel m called)
  else some (passes kernel m called)

/-- `fcntl(fd, F_SETFL, arg)`. -/
def runFcntl (arg : Flags) : OptionResult :=
  match (m.getFdCtx fd false).2 with
  | some id =>
      if (m.ctx id).isClosed || !(m.ctx id).isSocket then passes kernel m (.fcntlF arg)
      else
        let ctx := { m.ctx id with userNonblock := hasNonblock arg }
        let arg := if ctx.sysNonblock then arg ||| oNonblock else arg &&& ~~~oNonblock
        passes kernel (m.setCtx id ctx) (.fcntlF arg)
  | none => passes kernel m (.fcntlF arg)

/-- `ioctl(fd, FIONBIO, arg)`; a null pointer is dereferenced. -/
def runIoctl (arg : Option Int) : Option OptionResult :=
  arg.map fun (value : Int) =>
    match (m.getFdCtx fd false).2 with
    | some id =>
        if (m.ctx id).isClosed || !(m.ctx id).isSocket then passes kernel m (.ioctlF arg)
        else passes kernel (m.setCtx id { m.ctx id with userNonblock := value != 0 }) (.ioctlF arg)
    | none => passes kernel m (.ioctlF arg)

/-- A call, on a descriptor. -/
def run : OptionCall → Option OptionResult
  | .setsockopt enabled level optname optval => runSetsockopt kernel m fd enabled level optname optval
  | .fcntl arg => some (runFcntl kernel m fd arg)
  | .ioctl arg => runIoctl kernel m fd arg

/-- The call of the layer that it is. -/
def hookCall : OptionCall → Option HookCall
  | .setsockopt enabled level optname optval =>
      if level = solSocket then
        (TimeoutOption.ofOptname optname).bind fun type =>
          optval.map fun tv => .setsockopt enabled fd type tv.sec tv.usec
      else none
  | .fcntl arg => some (.fcntl fd arg)
  | .ioctl arg => arg.map (.ioctl fd)

/-- **The condition**: the call writes no context, or what the context has already. -/
def Idle (ctx : FdCtx) : OptionCall → Prop
  | .setsockopt enabled level optname optval =>
      enabled = true → level = solSocket → ∀ type ∈ TimeoutOption.ofOptname optname, ∀ tv ∈ optval,
        storedTimeout tv.sec tv.usec = ctx.getTimeout type
  | .fcntl arg =>
      ctx.isClosed = false → ctx.isSocket = true → hasNonblock arg = ctx.userNonblock
  | .ioctl arg =>
      ctx.isClosed = false → ctx.isSocket = true → ∀ value ∈ arg, (value != 0) = ctx.userNonblock

end OptionCall

/-- **A failed call leaves the context as it was**, and fails. -/
structure FailsUnchanged (m : FdManger) (id : FdCtxId) (r : OptionResult) : Prop where
  returned : r.returned = -1
  unchanged : r.table.ctx id = m.ctx id

/-! ### What a call writes -/

section Writes

variable {kernel : KernelCall → Int32} {m : FdManger} {fd : Nat} {id : FdCtxId} {r : OptionResult}

/-- The timeout that is set is the one there was. -/
theorem FdCtx.setTimeout_eq_self {ctx : FdCtx} {type : TimeoutOption} {timeout : UInt64} :
    ctx.setTimeout type timeout = ctx ↔ timeout = ctx.getTimeout type := by
  constructor
  · intro same
    rw [← same, FdCtx.getTimeout_setTimeout]
  · rintro rfl
    cases type <;> rfl

theorem FdCtx.setUserNonblock_eq_self {ctx : FdCtx} {asked : Bool} :
    { ctx with userNonblock := asked } = ctx ↔ asked = ctx.userNonblock := by
  constructor
  · intro same
    rw [← same]
  · rintro rfl
    rfl

/-- The test of the socket's branch. -/
theorem passes_eq_true {ctx : FdCtx} (passes : (ctx.isClosed || !ctx.isSocket) = true) :
    ¬ (ctx.isClosed = false ∧ ctx.isSocket = true) := by
  rintro ⟨isOpen, isSocket⟩
  rw [isOpen, isSocket] at passes
  cases passes

theorem passes_eq_false {ctx : FdCtx} (acts : ¬ (ctx.isClosed || !ctx.isSocket) = true) :
    ctx.isClosed = false ∧ ctx.isSocket = true := by
  simpa using acts

/-- **The spec of a hook**: it returns what the kernel does, and whether it has left the context as it
was. -/
structure Spec (kernel : KernelCall → Int32) (m : FdManger) (id : FdCtxId) (call : OptionCall)
    (r : OptionResult) : Prop where
  returned : r.returned = kernel r.called
  idle : r.table.ctx id = m.ctx id ↔ call.Idle (m.ctx id)

/-- A call that goes to the kernel at once. -/
theorem Spec.passes {call : OptionCall} (called : KernelCall) (idle : call.Idle (m.ctx id)) :
    Spec kernel m id call (OptionCall.passes kernel m called) :=
  ⟨rfl, iff_of_true rfl idle⟩

/-- A call that writes the context first. -/
theorem Spec.writes {call : OptionCall} (called : KernelCall) {ctx : FdCtx}
    (idle : ctx = m.ctx id ↔ call.Idle (m.ctx id)) :
    Spec kernel m id call (OptionCall.passes kernel (m.setCtx id ctx) called) := by
  refine ⟨rfl, ?_⟩
  show Function.update m.ctx id ctx id = m.ctx id ↔ _
  rw [Function.update_self]
  exact idle

theorem spec_setsockopt (held : m.entry fd = some id) {enabled : Bool} {level optname : Int32}
    {optval : Option Timeval}
    (ran : OptionCall.runSetsockopt kernel m fd enabled level optname optval = some r) :
    Spec kernel m id (.setsockopt enabled level optname optval) r := by
  unfold OptionCall.runSetsockopt at ran
  dsimp only at ran
  split at ran
  next unhooked =>
    cases ran
    refine .passes _ fun enabled => ?_
    rw [enabled] at unhooked
    cases unhooked
  next hooked =>
    split at ran
    next socketLevel =>
      split at ran
      next type timeout =>
        rw [FdManger.getFdCtx_false, held] at ran
        obtain ⟨tv, rfl, rfl⟩ := Option.map_eq_some_iff.mp ran
        refine .writes _ (FdCtx.setTimeout_eq_self.trans ?_)
        constructor
        · intro same _ _ type' timeout' tv' given
          obtain rfl : type = type' := Option.some.inj (timeout.symm.trans timeout')
          obtain rfl : tv = tv' := Option.some.inj given
          exact same
        · intro idle
          refine idle ?_ socketLevel type timeout tv rfl
          simpa using hooked
      next other =>
        cases ran
        refine .passes _ fun _ _ type timeout => ?_
        cases other.symm.trans timeout
    next other =>
      cases ran
      exact .passes _ fun _ socketLevel => absurd socketLevel other

theorem spec_fcntl (held : m.entry fd = some id) (arg : Flags) :
    Spec kernel m id (.fcntl arg) (OptionCall.runFcntl kernel m fd arg) := by
  unfold OptionCall.runFcntl
  rw [FdManger.getFdCtx_false, held]
  dsimp only
  split
  next passes =>
    exact .passes _ fun isOpen isSocket => absurd ⟨isOpen, isSocket⟩ (passes_eq_true passes)
  next acts =>
    obtain ⟨isOpen, isSocket⟩ := passes_eq_false acts
    exact .writes _ (FdCtx.setUserNonblock_eq_self.trans
      ⟨fun same _ _ => same, fun idle => idle isOpen isSocket⟩)

theorem spec_ioctl (held : m.entry fd = some id) {arg : Option Int}
    (ran : OptionCall.runIoctl kernel m fd arg = some r) : Spec kernel m id (.ioctl arg) r := by
  obtain ⟨value, rfl, rfl⟩ := Option.map_eq_some_iff.mp ran
  rw [FdManger.getFdCtx_false, held]
  dsimp only
  split
  next passes =>
    exact .passes _ fun isOpen isSocket => absurd ⟨isOpen, isSocket⟩ (passes_eq_true passes)
  next acts =>
    obtain ⟨isOpen, isSocket⟩ := passes_eq_false acts
    refine .writes _ (FdCtx.setUserNonblock_eq_self.trans ?_)
    constructor
    · intro same _ _ value' given
      obtain rfl : value = value' := Option.some.inj given
      exact same
    · exact fun idle => idle isOpen isSocket value rfl

theorem spec_of_run (held : m.entry fd = some id) {call : OptionCall}
    (ran : call.run kernel m fd = some r) : Spec kernel m id call r := by
  cases call with
  | setsockopt enabled level optname optval => exact spec_setsockopt held ran
  | fcntl arg =>
    cases ran
    exact spec_fcntl held arg
  | ioctl arg => exact spec_ioctl held ran

end Writes

/-! ### The layer -/

section Layer

variable {kernel : KernelCall → Int32} {s : Layer} {fd : Nat} {r : OptionResult}

theorem FdManger.setCtx_self (m : FdManger) (id : FdCtxId) : m.setCtx id (m.ctx id) = m := by
  unfold FdManger.setCtx
  rw [Function.update_eq_self]

/-- A hook of the flags, with the context it makes of the one there is. -/
theorem table_flagsHook {kernel : Flags → Flags} {hook : Descriptor → Descriptor} :
    (s.flagsHook fd kernel hook).table =
      match s.table.entry fd with
      | some id => s.table.setCtx id (hook ⟨s.table.ctx id, (s.file fd).getD 0⟩).ctx
      | none => s.table := by
  unfold Layer.flagsHook
  rw [Layer.held_eq]
  cases s.table.entry fd <;> rfl

/-- **The contexts after a call are those of the layer**, which says nothing of failures. -/
theorem run_table {call : OptionCall} {hookCall : HookCall} (same : call.hookCall fd = some hookCall)
    (ran : call.run kernel s.table fd = some r) :
    (s.next hookCall).map (·.table) = some r.table := by
  cases call with
  | setsockopt enabled level optname optval =>
    obtain ⟨socketLevel, same⟩ := Option.ite_none_right_eq_some.mp same
    obtain ⟨type, timeout, same⟩ := Option.bind_eq_some_iff.mp same
    obtain ⟨tv, rfl, rfl⟩ := Option.map_eq_some_iff.mp same
    show some (s.begins.setsockopt enabled fd type tv.sec tv.usec).table = _
    unfold OptionCall.run OptionCall.runSetsockopt at ran
    rw [FdManger.getFdCtx_false] at ran
    unfold Layer.setsockopt
    rw [Layer.held_eq, show s.begins.table = s.table from rfl]
    cases enabled with
    | false =>
      cases ran
      rfl
    | true =>
      dsimp only at ran
      rw [if_neg (by decide), if_pos socketLevel, timeout] at ran
      rw [if_pos rfl]
      cases entry : s.table.entry fd with
      | none =>
        rw [entry] at ran
        cases ran
        rfl
      | some id =>
        rw [entry] at ran
        cases ran
        rfl
  | fcntl arg =>
    cases same
    cases ran
    show some (s.begins.flagsHook fd _ _).table = _
    rw [table_flagsHook, show s.begins.table = s.table from rfl, OptionCall.runFcntl,
      FdManger.getFdCtx_false]
    cases s.table.entry fd with
    | none => rfl
    | some id =>
      dsimp only
      unfold Descriptor.fcntlSetfl
      dsimp only
      split
      · exact congrArg some (FdManger.setCtx_self _ id)
      · rfl
  | ioctl arg =>
    obtain ⟨value, rfl, rfl⟩ := Option.map_eq_some_iff.mp same
    cases ran
    show some (s.begins.flagsHook fd _ _).table = _
    rw [table_flagsHook, show s.begins.table = s.table from rfl, FdManger.getFdCtx_false]
    cases s.table.entry fd with
    | none => rfl
    | some id =>
      dsimp only
      unfold Descriptor.ioctlFionbio
      dsimp only
      split
      · exact congrArg some (FdManger.setCtx_self _ id)
      · rfl

end Layer

/-! ### Main result -/

/-- **A call that fails leaves the context as it was** if and only if it is idle: for every context,
every request, and whatever the kernel does. -/
theorem failure_unchanged_iff {kernel : KernelCall → Int32} {m : FdManger} {fd : Nat} {id : FdCtxId}
    (held : m.entry fd = some id) {call : OptionCall} {r : OptionResult}
    (ran : call.run kernel m fd = some r) (failed : kernel r.called = -1) :
    FailsUnchanged m id r ↔ call.Idle (m.ctx id) := by
  have spec := spec_of_run held ran
  exact ⟨fun unchanged => spec.idle.mp unchanged.unchanged,
    fun idle => ⟨spec.returned.trans failed, spec.idle.mpr idle⟩⟩

/-- A table with one context. -/
def oneContext (ctx : FdCtx) : FdManger := ((FdManger.empty.getFdCtx 5 true).1).setCtx 0 ctx

/-- The user has asked for a nonblocking socket. -/
def askedBefore : FdManger := oneContext { socketCtx noTimeout with userNonblock := true }

theorem failure_unchanged_iff_again :
    ∃ r, (OptionCall.fcntl oNonblock).run (fun _ => -1) askedBefore 5 = some r ∧
      FailsUnchanged askedBefore 0 r := by
  have held : askedBefore.entry 5 = some 0 := by decide +kernel
  have ran : (OptionCall.fcntl oNonblock).run (fun _ => -1) askedBefore 5 = some _ := rfl
  refine ⟨_, ran, (failure_unchanged_iff held ran rfl).mpr fun _ _ => ?_⟩
  decide +kernel

/-- A `timeval` that the kernel refuses: more than a second of microseconds. -/
def refused : Timeval := ⟨3, 2000000⟩

/-- **A refused timeout is in the context**: `setsockopt` returns `-1`, and `do_io` will wait for five
seconds. -/
theorem refused_timeout :
    ∃ r, (OptionCall.setsockopt true solSocket 20 (some refused)).run (fun _ => -1)
        (oneContext (socketCtx noTimeout)) 5 = some r ∧
      r.called = .setsockoptF solSocket 20 (some refused) ∧ r.returned = -1 ∧
      r.table.ctx 0 = socketCtx 5000 ∧
      ¬ FailsUnchanged (oneContext (socketCtx noTimeout)) 0 r := by
  refine ⟨_, rfl, rfl, rfl, by decide +kernel, fun unchanged => ?_⟩
  exact absurd unchanged.unchanged (by decide +kernel)

end Sylar.Hook
