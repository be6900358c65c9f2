/-
**`O_NONBLOCK`: what the user asked for and what the kernel has.**

`FdCtx::init` makes the kernel's descriptor of a socket nonblocking, and `do_io` relies on it; whether
the user asked for a nonblocking socket is kept in the `FdCtx`. `fcntl` splits a request of the user
into the two; `ioctl` records it and passes it on as it is.

* `init` — `FdCtx::init`; `fcntlSetfl`, `fcntlGetfl`, `ioctlFionbio` — the hooks, on the kernel's side
  with `setfl` and `fionbio`.
* `Agrees` — what should hold after any calls: the kernel's descriptor is nonblocking, and the user
  sees the last request.
* `flags_agree_iff` — **it holds after every call exactly when no call is `ioctl(FIONBIO, 0)`.**
-/

import Sylar.Hook.FdManager
import Mathlib.Data.List.Infix

namespace Sylar.Hook

/-! ### The kernel -/

/-- The status flags of an open file description. -/
abbrev Flags := BitVec 32

def oNonblock : Flags := 0x800

/-- The flags that `F_SETFL` can change: `O_APPEND`, `O_NONBLOCK`, `O_ASYNC`, `O_DIRECT` and
`O_NOATIME`. -/
def setflMask : Flags := 0x46C00

/-- `flags & O_NONBLOCK`. -/
def hasNonblock (flags : Flags) : Bool := flags &&& oNonblock != 0

/-- `fcntl_f(fd, F_SETFL, arg)`. -/
def setfl (flags arg : Flags) : Flags := (arg &&& setflMask) ||| (flags &&& ~~~setflMask)

/-- `ioctl_f(fd, FIONBIO, &value)`. -/
def fionbio (flags : Flags) (value : Int) : Flags :=
  if value ≠ 0 then flags ||| oNonblock else flags &&& ~~~oNonblock

/-! ### The hooks -/

/-- `FdCtx::init`: the context and the kernel's flags after it. `stat` is what `fstat` says of the
descriptor: whether it is a socket, if there is one. -/
def FdCtx.init (ctx : FdCtx) (stat : Option Bool) (flags : Flags) : FdCtx × Flags :=
  if ctx.isInit then (ctx, flags)
  else
    let ctx := { ctx with recvTimeout := noTimeout, sendTimeout := noTimeout }
    let ctx := match stat with
      | none => { ctx with isInit := false, isSocket := false }
      | some isSocket => { ctx with isInit := true, isSocket }
    let r :=
      if ctx.isSocket then
        if hasNonblock flags then ({ ctx with sysNonblock := true }, flags)
        else ({ ctx with sysNonblock := true }, setfl flags (flags ||| oNonblock))
      else (ctx, flags)
    ({ r.1 with userNonblock := false, isClosed := false }, r.2)

/-- A descriptor: its context and the kernel's flags. -/
structure Descriptor where
  ctx : FdCtx
  flags : Flags
deriving DecidableEq

/-- What `FdCtx::init` makes of a socket. -/
def socketInit (fd : Nat) (flags : Flags) : Descriptor :=
  let r := FdCtx.init { fd } (some true) flags
  ⟨r.1, r.2⟩

namespace Descriptor

variable (d : Descriptor)

/-- `fcntl(fd, F_SETFL, arg)`. -/
def fcntlSetfl (arg : Flags) : Descriptor :=
  if d.ctx.isClosed || !d.ctx.isSocket then { d with flags := setfl d.flags arg }
  else
    let ctx := { d.ctx with userNonblock := hasNonblock arg }
    let arg := if ctx.sysNonblock then arg ||| oNonblock else arg &&& ~~~oNonblock
    { ctx, flags := setfl d.flags arg }

/-- `fcntl(fd, F_GETFL)`. -/
def fcntlGetfl : Flags :=
  if d.ctx.isClosed || !d.ctx.isSocket then d.flags
  else if d.ctx.userNonblock then d.flags ||| oNonblock
  else d.flags &&& ~~~oNonblock

/-- `ioctl(fd, FIONBIO, &value)`. -/
def ioctlFionbio (value : Int) : Descriptor :=
  if d.ctx.isClosed || !d.ctx.isSocket then { d with flags := fionbio d.flags value }
  else
    { ctx := { d.ctx with userNonblock := value != 0 }
      flags := fionbio d.flags value }

end Descriptor

/-- A call of a hook. -/
inductive FlagCall
  | setfl (arg : Flags)
  | getfl
  | fionbio (value : Int)
deriving DecidableEq

/-- The descriptor after a call. -/
def Descriptor.call (d : Descriptor) : FlagCall → Descriptor
  | .setfl arg => d.fcntlSetfl arg
  | .getfl => d
  | .fionbio value => d.ioctlFionbio value

/-- The descriptor after some calls. -/
def Descriptor.run (d : Descriptor) (calls : List FlagCall) : Descriptor :=
  calls.foldl Descriptor.call d

/-! ### What the user asked for -/

/-- What a call asks for, after an earlier request. -/
def requests (last : Bool) : FlagCall → Bool
  | .setfl arg => hasNonblock arg
  | .getfl => last
  | .fionbio value => value != 0

/-- The last request of a nonblocking or a blocking descriptor; a new socket is blocking. -/
def requested (calls : List FlagCall) : Bool := calls.foldl requests false

/-- The flags a call sets. -/
def sets (last : Flags) : FlagCall → Flags
  | .setfl arg => setfl last arg
  | .getfl | .fionbio _ => last

/-- The flags as last set. -/
def lastSet (flags : Flags) (calls : List FlagCall) : Flags := calls.foldl sets flags

/-- **The views agree** after some calls on a socket that had the flags `flags`. -/
structure Agrees (flags : Flags) (calls : List FlagCall) (d : Descriptor) : Prop where
  /-- the kernel's descriptor is nonblocking -/
  kernel : hasNonblock d.flags = true
  /-- `get_user_nonblock()` is the last request -/
  user : d.ctx.userNonblock = requested calls
  /-- and `F_GETFL` reports it -/
  reported : hasNonblock d.fcntlGetfl = requested calls
  /-- with the other flags as last set -/
  others : d.fcntlGetfl &&& ~~~oNonblock = lastSet flags calls &&& ~~~oNonblock

/-! ### Bits -/

theorem hasNonblock_eq (flags : Flags) : hasNonblock flags = flags.getLsbD 11 := by
  have bit : flags &&& oNonblock = if flags.getLsbD 11 then BitVec.twoPow 32 11 else 0 :=
    BitVec.and_twoPow flags 11
  unfold hasNonblock
  rw [bit]
  cases flags.getLsbD 11 <;> rfl

@[simp] theorem hasNonblock_or (flags : Flags) : hasNonblock (flags ||| oNonblock) = true := by
  rw [hasNonblock_eq, BitVec.getLsbD_or, show oNonblock.getLsbD 11 = true from rfl, Bool.or_true]

@[simp] theorem hasNonblock_without (flags : Flags) :
    hasNonblock (flags &&& ~~~oNonblock) = false := by
  rw [hasNonblock_eq, BitVec.getLsbD_and, show (~~~oNonblock).getLsbD 11 = false from rfl,
    Bool.and_false]

/-- `F_SETFL` sets `O_NONBLOCK` as asked. -/
@[simp] theorem hasNonblock_setfl (flags arg : Flags) :
    hasNonblock (setfl flags arg) = hasNonblock arg := by
  unfold setfl
  rw [hasNonblock_eq, hasNonblock_eq, BitVec.getLsbD_or, BitVec.getLsbD_and, BitVec.getLsbD_and,
    show setflMask.getLsbD 11 = true from rfl, show (~~~setflMask).getLsbD 11 = false from rfl,
    Bool.and_true, Bool.and_false, Bool.or_false]

/-- `O_NONBLOCK` aside, two flags are the same. -/
def SameOthers (a b : Flags) : Prop := ∀ i, i ≠ 11 → a.getLsbD i = b.getLsbD i

theorem getLsbD_oNonblock {i : Nat} (other : i ≠ 11) : oNonblock.getLsbD i = false := by
  have bit : oNonblock = BitVec.twoPow 32 11 := rfl
  rw [bit, BitVec.getLsbD_twoPow, decide_eq_false (Ne.symm other), Bool.and_false]

namespace SameOthers

variable {a b c : Flags}

theorem trans (first : SameOthers a b) (second : SameOthers b c) : SameOthers a c :=
  fun i other => (first i other).trans (second i other)

theorem or (flags : Flags) : SameOthers (flags ||| oNonblock) flags := by
  intro i other
  rw [BitVec.getLsbD_or, getLsbD_oNonblock other, Bool.or_false]

theorem without (flags : Flags) : SameOthers (flags &&& ~~~oNonblock) flags := by
  intro i other
  rw [BitVec.getLsbD_and, BitVec.getLsbD_not, getLsbD_oNonblock other]
  rcases Nat.lt_or_ge i 32 with inside | outside
  · rw [decide_eq_true inside, Bool.not_false, Bool.and_true, Bool.and_true]
  · rw [BitVec.getLsbD_of_ge flags i outside, Bool.false_and]

theorem setfl {arg arg' : Flags} (same : SameOthers a b) (sameArg : SameOthers arg arg') :
    SameOthers (setfl a arg) (setfl b arg') := by
  intro i other
  unfold Hook.setfl
  simp only [BitVec.getLsbD_or, BitVec.getLsbD_and, same i other, sameArg i other]

/-- `F_SETFL` of the flags that are set. -/
theorem setfl_self (flags : Flags) : SameOthers (Hook.setfl flags flags) flags := by
  intro i _
  unfold Hook.setfl
  rw [← BitVec.and_or_distrib_left, BitVec.or_not_self, BitVec.and_allOnes]

theorem fionbio (flags : Flags) (value : Int) : SameOthers (fionbio flags value) flags := by
  unfold Hook.fionbio
  split
  · exact or flags
  · exact without flags

theorem eq (same : SameOthers a b) : a &&& ~~~oNonblock = b &&& ~~~oNonblock := by
  apply BitVec.eq_of_getLsbD_eq
  intro i _
  rw [BitVec.getLsbD_and, BitVec.getLsbD_and]
  rcases eq_or_ne i 11 with rfl | other
  · rw [show (~~~oNonblock).getLsbD 11 = false from rfl, Bool.and_false, Bool.and_false]
  · rw [same i other]

end SameOthers

/-! ### Runs of calls -/

theorem run_concat (d : Descriptor) (seen : List FlagCall) (call : FlagCall) :
    d.run (seen ++ [call]) = (d.run seen).call call := List.foldl_concat ..

theorem requested_concat (seen : List FlagCall) (call : FlagCall) :
    requested (seen ++ [call]) = requests (requested seen) call := List.foldl_concat ..

theorem lastSet_concat (flags : Flags) (seen : List FlagCall) (call : FlagCall) :
    lastSet flags (seen ++ [call]) = sets (lastSet flags seen) call := List.foldl_concat ..

/-- **The invariant**: a socket whose kernel side is nonblocking. -/
structure Managed (flags : Flags) (calls : List FlagCall) (d : Descriptor) : Prop where
  open' : d.ctx.isClosed = false
  socket : d.ctx.isSocket = true
  sys : d.ctx.sysNonblock = true
  kernel : hasNonblock d.flags = true
  user : d.ctx.userNonblock = requested calls
  others : SameOthers d.flags (lastSet flags calls)

namespace Managed

variable {flags : Flags} {calls : List FlagCall} {d : Descriptor}

/-- The hooks take the branch of a socket. -/
theorem passes_eq_false (managed : Managed flags calls d) :
    (d.ctx.isClosed || !d.ctx.isSocket) = false := by
  rw [managed.open', managed.socket]
  rfl

/-- `F_SETFL` leaves the kernel's descriptor nonblocking. -/
theorem fcntlSetfl_eq (managed : Managed flags calls d) (arg : Flags) :
    d.fcntlSetfl arg =
      { ctx := { d.ctx with userNonblock := hasNonblock arg }
        flags := setfl d.flags (arg ||| oNonblock) } := by
  unfold Descriptor.fcntlSetfl
  rw [managed.passes_eq_false, if_neg Bool.false_ne_true]
  dsimp only
  rw [if_pos managed.sys]

/-- `FIONBIO` gives the kernel what the user asks for. -/
theorem ioctlFionbio_eq (managed : Managed flags calls d) (value : Int) :
    d.ioctlFionbio value =
      { ctx := { d.ctx with userNonblock := value != 0 }
        flags := Hook.fionbio d.flags value } := by
  unfold Descriptor.ioctlFionbio
  rw [managed.passes_eq_false, if_neg Bool.false_ne_true]

theorem socketInit (fd : Nat) (flags : Flags) : Managed flags [] (socketInit fd flags) := by
  unfold Hook.socketInit FdCtx.init
  dsimp only
  rw [if_neg Bool.false_ne_true, if_pos rfl]
  split
  next nonblocking => exact ⟨rfl, rfl, rfl, nonblocking, rfl, fun _ _ => rfl⟩
  next =>
    refine ⟨rfl, rfl, rfl, ?_, rfl, ?_⟩
    · exact (hasNonblock_setfl flags _).trans (hasNonblock_or flags)
    · exact (SameOthers.setfl (fun _ _ => rfl) (.or flags)).trans (.setfl_self flags)

/-- **A call that is not `ioctl(FIONBIO, 0)` keeps the invariant.** -/
theorem call (managed : Managed flags calls d) {call : FlagCall} (keeps : call ≠ .fionbio 0) :
    Managed flags (calls ++ [call]) (d.call call) := by
  have user := requested_concat calls call
  cases call with
  | setfl arg =>
    show Managed _ _ (d.fcntlSetfl arg)
    rw [managed.fcntlSetfl_eq]
    refine ⟨managed.open', managed.socket, managed.sys, ?_, user.symm, ?_⟩
    · exact (hasNonblock_setfl d.flags _).trans (hasNonblock_or arg)
    · rw [lastSet_concat]
      exact managed.others.setfl (.or arg)
  | getfl =>
    refine ⟨managed.open', managed.socket, managed.sys, managed.kernel, ?_, ?_⟩
    · exact managed.user.trans user.symm
    · rw [lastSet_concat]
      exact managed.others
  | fionbio value =>
    have asks : value ≠ 0 := by
      rintro rfl
      exact keeps rfl
    show Managed _ _ (d.ioctlFionbio value)
    rw [managed.ioctlFionbio_eq]
    refine ⟨managed.open', managed.socket, managed.sys, ?_, user.symm, ?_⟩
    · show hasNonblock (Hook.fionbio d.flags value) = true
      unfold Hook.fionbio
      rw [if_pos asks]
      exact hasNonblock_or d.flags
    · rw [lastSet_concat]
      exact (SameOthers.fionbio d.flags value).trans managed.others

/-- The calls, one after another. -/
theorem run (fd : Nat) (flags : Flags) (calls : List FlagCall) (keeps : .fionbio 0 ∉ calls) :
    Managed flags calls ((Hook.socketInit fd flags).run calls) := by
  induction calls using List.reverseRecOn with
  | nil => exact socketInit fd flags
  | append_singleton seen call ih =>
    rw [List.mem_append, not_or, List.mem_singleton] at keeps
    rw [run_concat]
    exact (ih keeps.1).call (Ne.symm keeps.2)

theorem agrees (managed : Managed flags calls d) : Agrees flags calls d := by
  have getfl : d.fcntlGetfl =
      if requested calls then d.flags ||| oNonblock else d.flags &&& ~~~oNonblock := by
    unfold Descriptor.fcntlGetfl
    rw [managed.passes_eq_false, managed.user]
    rfl
  refine ⟨managed.kernel, managed.user, ?_, ?_⟩
  · rw [getfl]
    cases requested calls with
    | true => exact hasNonblock_or d.flags
    | false => exact hasNonblock_without d.flags
  · rw [getfl]
    cases requested calls with
    | true => exact ((SameOthers.or d.flags).trans managed.others).eq
    | false => exact ((SameOthers.without d.flags).trans managed.others).eq

end Managed

/-- `ioctl(FIONBIO, 0)` makes the kernel's descriptor blocking. -/
theorem hasNonblock_ioctl_zero (d : Descriptor) :
    hasNonblock (d.ioctlFionbio 0).flags = false := by
  unfold Descriptor.ioctlFionbio
  split
  · exact hasNonblock_without d.flags
  · exact hasNonblock_without d.flags

/-- **The views agree after every call exactly when no call is `ioctl(FIONBIO, 0)`.** -/
theorem flags_agree_iff (fd : Nat) (flags : Flags) (calls : List FlagCall) :
    (∀ seen, seen <+: calls → Agrees flags seen ((socketInit fd flags).run seen)) ↔
      .fionbio 0 ∉ calls := by
  constructor
  · intro agrees member
    obtain ⟨before, after, rfl⟩ := List.append_of_mem member
    have kernel := (agrees (before ++ [.fionbio 0]) ⟨after, by rw [List.append_assoc]; rfl⟩).kernel
    rw [run_concat] at kernel
    exact Bool.false_ne_true ((hasNonblock_ioctl_zero _).symm.trans kernel)
  · intro keeps seen isPrefix
    exact (Managed.run fd flags seen fun member => keeps (isPrefix.subset member)).agrees

/-- **The user makes the socket blocking again**: so is the kernel's descriptor. -/
theorem kernel_blocks :
    ¬ ∀ seen, seen <+: [.fionbio 1, .fionbio 0] →
      Agrees 0x2 seen ((socketInit 5 0x2).run seen) := by
  intro agrees
  exact Bool.false_ne_true (agrees _ (List.prefix_refl _)).kernel

end Sylar.Hook
