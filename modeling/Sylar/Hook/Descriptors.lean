/-
**The life of a descriptor under the hooks.**

Descriptors are opened by `socket` and `accept` and closed by `close`, on threads with hooks and on
threads without; the kernel gives a closed number out again. The hooks of a thread with hooks keep
`FdMgr` in step with that: `getFdCtx(fd, true)` where a descriptor is opened, `delFdCtx` where it is
closed. A call of a hook is one step here.

* `sockets_uninitialised` — **no socket is ever initialised**: nothing calls `FdCtx::init`, so every
  context says that its descriptor is not a socket, and `do_io` and `connect_with_timeout` call the
  blocking function.
* `inherited_context` — **a context outlives its descriptor**: `close` on a thread without hooks
  leaves it, and the next socket with that number gets it.
* `fresh_settings` — **a new descriptor has the settings of a new context**, when every such `close`
  finds no context.
-/

import Sylar.Hook.Nonblock
import Sylar.Hook.DoIo

namespace Sylar.Hook

open Sylar.Library

/-- Write to an object. -/
def FdManger.setCtx (m : FdManger) (id : FdCtxId) (ctx : FdCtx) : FdManger :=
  { m with ctx := Function.update m.ctx id ctx }

/-! ### The layer -/

/-- The kernel's descriptors, with their flags, and `FdMgr`. The other fields record what happened:
the sockets that a thread with hooks was given and that are not closed yet, and the one that the last
call gave. -/
structure Layer where
  file : Nat → Option Flags
  table : FdManger
  sockets : List Nat
  returned : Option Nat

/-- A call. `enabled` says whether its thread has hooks. -/
inductive HookCall
  /-- `socket`, and what the kernel gives: a descriptor with its flags, or `-1` -/
  | socket (enabled : Bool) (result : Option (Nat × Flags))
  /-- `accept`, and what its `do_io` returns -/
  | accept (enabled : Bool) (result : Option (Nat × Flags))
  /-- the first `accept_f` of a thread without hooks, whose result `do_io` drops -/
  | dropped (result : Nat × Flags)
  | close (enabled : Bool) (fd : Nat)
  /-- `setsockopt(SOL_SOCKET)` of a timeout -/
  | setsockopt (enabled : Bool) (fd : Nat) (type : TimeoutOption) (sec usec : Int)
  /-- `fcntl(F_SETFL)` -/
  | fcntl (fd : Nat) (arg : Flags)
  /-- `ioctl(FIONBIO)` -/
  | ioctl (fd : Nat) (value : Int)
deriving DecidableEq

namespace Layer

variable (s : Layer)

/-- `getFdCtx(fd)`. -/
def held (fd : Nat) : Option FdCtxId := (s.table.getFdCtx fd false).2

/-- The context that `FdMgr` holds. -/
def context (fd : Nat) : Option FdCtx := (s.held fd).map s.table.ctx

/-- The kernel gives out a number that is not in use. -/
def opened (fd : Nat) (flags : Flags) : Option Layer :=
  match s.file fd with
  | some _ => none
  | none => some { s with file := Function.update s.file fd (some flags) }

/-- `getFdCtx(fd, true)`. -/
def created (fd : Nat) : Layer := { s with table := (s.table.getFdCtx fd true).1 }

/-- A thread with hooks is given a socket. -/
def gives (fd : Nat) : Layer := { s with sockets := fd :: s.sockets, returned := some fd }

/-- `socket`, after `socket_f`. -/
def socket (enabled : Bool) (fd : Nat) : Layer := if enabled then (s.created fd).gives fd else s

/-- `accept`, after `do_io`. -/
def accept (enabled : Bool) (fd : Nat) : Layer :=
  let s := s.created fd
  if enabled then s.gives fd else s

/-- `close_f`. -/
def closed (fd : Nat) : Layer :=
  { s with file := Function.update s.file fd none, sockets := s.sockets.filter (· ≠ fd) }

/-- `close`. -/
def close (enabled : Bool) (fd : Nat) : Layer :=
  if enabled && (s.held fd).isSome then { s with table := s.table.delFdCtx fd }.closed fd
  else s.closed fd

/-- `setsockopt` of `SO_RCVTIMEO` or `SO_SNDTIMEO`. -/
def setsockopt (enabled : Bool) (fd : Nat) (type : TimeoutOption) (sec usec : Int) : Layer :=
  if enabled then
    match s.held fd with
    | some id =>
        let timeout := UInt64.ofInt (sec * 1000 + usec.tdiv 1000)
        { s with table := s.table.setCtx id ((s.table.ctx id).setTimeout type timeout) }
    | none => s
  else s

/-- A hook that acts on the context and on the kernel's flags; without a context only `kernel` does. -/
def flagsHook (fd : Nat) (kernel : Flags → Flags) (hook : Descriptor → Descriptor) : Layer :=
  match s.held fd with
  | some id =>
      let d := hook ⟨s.table.ctx id, (s.file fd).getD 0⟩
      { s with
        file := Function.update s.file fd ((s.file fd).map fun _ => d.flags)
        table := s.table.setCtx id d.ctx }
  | none => { s with file := Function.update s.file fd ((s.file fd).map kernel) }

/-- `fcntl(fd, F_SETFL, arg)`. -/
def fcntl (fd : Nat) (arg : Flags) : Layer :=
  s.flagsHook fd (setfl · arg) (Descriptor.fcntlSetfl · arg)

/-- `ioctl(fd, FIONBIO, &value)`. -/
def ioctl (fd : Nat) (value : Int) : Layer :=
  s.flagsHook fd (fionbio · value) (Descriptor.ioctlFionbio · value)

/-- A call begins. -/
def begins : Layer := { s with returned := none }

/-- One call. -/
def next : HookCall → Option Layer
  | .socket _ none | .accept _ none => some s.begins
  | .socket enabled (some r) => (s.begins.opened r.1 r.2).map fun s => s.socket enabled r.1
  | .accept enabled (some r) => (s.begins.opened r.1 r.2).map fun s => s.accept enabled r.1
  | .dropped r => s.begins.opened r.1 r.2
  | .close enabled fd => some (s.begins.close enabled fd)
  | .setsockopt enabled fd type sec usec => some (s.begins.setsockopt enabled fd type sec usec)
  | .fcntl fd arg => some (s.begins.fcntl fd arg)
  | .ioctl fd value => some (s.begins.ioctl fd value)

end Layer

/-- The layer's runs: from an empty `FdMgr` and any open descriptors. -/
def layer : Machine Layer HookCall :=
  ⟨fun s => s.table = .empty ∧ s.sockets = [] ∧ s.returned = none, Layer.next⟩

/-- A program that has its first descriptors open. -/
def Layer.initial : Layer := ⟨fun fd => if fd < 5 then some 2 else none, .empty, [], none⟩

/-! ### What should hold -/

/-- Where `connect_with_timeout` goes after `getFdCtx`, on a thread with hooks. -/
inductive ConnectPath
  | ebadf
  /-- `return connect_f(...)` -/
  | direct
  /-- `connect_f`, and on `EINPROGRESS` the event -/
  | waits
deriving DecidableEq

/-- `connect_with_timeout`, up to its first `connect_f`. -/
def connectPath : Option FdCtx → ConnectPath
  | none => .ebadf
  | some ctx =>
      if ctx.isClosed then .ebadf
      else if !ctx.isSocket then .direct
      else if ctx.userNonblock then .direct
      else .waits

/-- **A managed socket**: what `FdCtx::init` makes of it. -/
structure Initialised (s : Layer) (fd : Nat) : Prop where
  context : ∃ ctx, s.context fd = some ctx ∧ ctx.isInit = true ∧ ctx.isSocket = true ∧
    ctx.sysNonblock = true
  kernel : (s.file fd).map hasNonblock = some true

/-- **The settings of a new context.** -/
def Fresh (s : Layer) (fd : Nat) : Prop :=
  ∃ ctx, s.context fd = some ctx ∧ ctx.recvTimeout = noTimeout ∧ ctx.sendTimeout = noTimeout ∧
    ctx.userNonblock = false

/-- **The condition**: `close` on a thread without hooks finds no context. -/
def Attended (s : Layer) : HookCall → Prop
  | .close false fd => s.held fd = none
  | _ => True

instance Attended.decide (s : Layer) : (call : HookCall) → Decidable (Attended s call)
  | .close false fd => inferInstanceAs (Decidable (s.held fd = none))
  | .close true _ | .socket _ _ | .accept _ _ | .dropped _ | .setsockopt _ _ _ _ _ | .fcntl _ _
  | .ioctl _ _ => isTrue trivial

/-! ### The table -/

/-- A context that `init` was not called on. -/
structure FdCtx.Untouched (ctx : FdCtx) : Prop where
  isInit : ctx.isInit = false
  isSocket : ctx.isSocket = false
  sysNonblock : ctx.sysNonblock = false
  userNonblock : ctx.userNonblock = false
  isClosed : ctx.isClosed = false

namespace FdCtx.Untouched

variable {ctx : FdCtx}

theorem new (fd : Nat) : FdCtx.Untouched { fd } := ⟨rfl, rfl, rfl, rfl, rfl⟩

theorem setTimeout (untouched : ctx.Untouched) (type : TimeoutOption) (timeout : UInt64) :
    (ctx.setTimeout type timeout).Untouched := by
  obtain ⟨isInit, isSocket, sysNonblock, userNonblock, isClosed⟩ := untouched
  unfold FdCtx.setTimeout
  split <;> exact ⟨isInit, isSocket, sysNonblock, userNonblock, isClosed⟩

/-- The hooks pass such a descriptor to the kernel. -/
theorem passes (untouched : ctx.Untouched) : (ctx.isClosed || !ctx.isSocket) = true := by
  rw [untouched.isSocket, Bool.not_false, Bool.or_true]

theorem fcntlSetfl (untouched : ctx.Untouched) (flags arg : Flags) :
    (Descriptor.fcntlSetfl ⟨ctx, flags⟩ arg).ctx = ctx := by
  unfold Descriptor.fcntlSetfl
  rw [if_pos untouched.passes]

theorem ioctlFionbio (untouched : ctx.Untouched) (flags : Flags) (value : Int) :
    (Descriptor.ioctlFionbio ⟨ctx, flags⟩ value).ctx = ctx := by
  unfold Descriptor.ioctlFionbio
  rw [if_pos untouched.passes]

end FdCtx.Untouched

namespace FdManger

variable {m : FdManger}

theorem entry_empty (fd : Nat) : FdManger.empty.entry fd = none := rfl

theorem ctx_delFdCtx (fd : Nat) : (m.delFdCtx fd).ctx = m.ctx := by
  unfold delFdCtx
  split <;> rfl

/-- After `getFdCtx(fd, true)` there is an entry for `fd`, and the others are the same. -/
theorem entry_getFdCtx (fd i : Nat) :
    (m.getFdCtx fd true).1.entry i =
      if i = fd then some ((m.entry fd).getD m.made) else m.entry i := by
  rw [getFdCtx_true]
  cases held : m.entry fd with
  | some id =>
    show m.entry i = _
    split
    next same => rw [same, held]; rfl
    next => rfl
  | none => exact entry_getFdCtxWrite fd i

/-- The objects after `getFdCtx(fd, true)`: there may be a new one. -/
theorem ctx_getFdCtx (fd : Nat) :
    (m.getFdCtx fd true).1.ctx =
      if m.entry fd = none then Function.update m.ctx m.made { fd } else m.ctx := by
  rw [getFdCtx_true]
  cases m.entry fd with
  | some id => rfl
  | none => rfl

end FdManger

/-! ### No socket is initialised -/

namespace Layer

variable {s s' : Layer}

theorem held_eq (fd : Nat) : s.held fd = s.table.entry fd := by
  unfold held
  rw [FdManger.getFdCtx_false]

/-- After `getFdCtx(fd, true)` there is a context. -/
theorem entry_created (fd : Nat) : (s.created fd).table.entry fd ≠ none := by
  show (s.table.getFdCtx fd true).1.entry fd ≠ none
  rw [FdManger.entry_getFdCtx, if_pos rfl]
  exact Option.some_ne_none _

theorem opened_eq_some {fd : Nat} {flags : Flags} (opens : s.opened fd flags = some s') :
    s.file fd = none ∧ s' = { s with file := Function.update s.file fd (some flags) } := by
  unfold opened at opens
  split at opens
  next => cases opens
  next unused => exact ⟨unused, (Option.some.inj opens).symm⟩

/-- **The invariant**: `init` was called on no context, and every socket has one. -/
structure Kept (s : Layer) : Prop where
  untouched : ∀ id, (s.table.ctx id).Untouched
  entries : ∀ fd ∈ s.sockets, s.table.entry fd ≠ none

namespace Kept

variable {fd : Nat}

theorem opened {flags : Flags} (kept : Kept s) (opens : s.opened fd flags = some s') :
    Kept s' := by
  obtain ⟨-, rfl⟩ := opened_eq_some opens
  exact ⟨kept.untouched, kept.entries⟩

theorem created (kept : Kept s) (fd : Nat) : Kept (s.created fd) := by
  refine ⟨fun id => ?_, fun i member => ?_⟩
  · show ((s.table.getFdCtx fd true).1.ctx id).Untouched
    rw [FdManger.ctx_getFdCtx]
    split
    · rcases eq_or_ne id s.table.made with rfl | other
      · rw [Function.update_self]
        exact .new fd
      · rw [Function.update_of_ne other]
        exact kept.untouched id
    · exact kept.untouched id
  · show (s.table.getFdCtx fd true).1.entry i ≠ none
    rw [FdManger.entry_getFdCtx]
    split
    · exact Option.some_ne_none _
    · exact kept.entries i member

theorem gives (kept : Kept s) (entry : s.table.entry fd ≠ none) : Kept (s.gives fd) := by
  refine ⟨kept.untouched, fun i member => ?_⟩
  rcases List.mem_cons.mp member with rfl | old
  · exact entry
  · exact kept.entries i old

theorem socket (kept : Kept s) (enabled : Bool) (fd : Nat) : Kept (s.socket enabled fd) := by
  unfold Layer.socket
  split
  · exact (kept.created fd).gives (entry_created fd)
  · exact kept

theorem accept (kept : Kept s) (enabled : Bool) (fd : Nat) : Kept (s.accept enabled fd) := by
  unfold Layer.accept
  dsimp only
  split
  · exact (kept.created fd).gives (entry_created fd)
  · exact kept.created fd

theorem close (kept : Kept s) (enabled : Bool) (fd : Nat) : Kept (s.close enabled fd) := by
  unfold Layer.close
  split
  · refine ⟨fun id => ?_, fun i member => ?_⟩
    · show ((s.table.delFdCtx fd).ctx id).Untouched
      rw [FdManger.ctx_delFdCtx]
      exact kept.untouched id
    · obtain ⟨old, other⟩ := List.mem_filter.mp member
      show (s.table.delFdCtx fd).entry i ≠ none
      rw [FdManger.entry_delFdCtx, if_neg (of_decide_eq_true other)]
      exact kept.entries i old
  · exact ⟨kept.untouched, fun i member => kept.entries i (List.mem_filter.mp member).1⟩

theorem setCtx (kept : Kept s) {ctx : FdCtx} (untouched : ctx.Untouched) (id : FdCtxId)
    (file : Nat → Option Flags) :
    Kept { s with file, table := s.table.setCtx id ctx } := by
  refine ⟨fun i => ?_, kept.entries⟩
  show (Function.update s.table.ctx id ctx i).Untouched
  rcases eq_or_ne i id with rfl | other
  · rw [Function.update_self]
    exact untouched
  · rw [Function.update_of_ne other]
    exact kept.untouched i

theorem setsockopt (kept : Kept s) (enabled : Bool) (fd : Nat) (type : TimeoutOption)
    (sec usec : Int) : Kept (s.setsockopt enabled fd type sec usec) := by
  unfold Layer.setsockopt
  split
  · split
    · exact kept.setCtx ((kept.untouched _).setTimeout type _) _ s.file
    · exact kept
  · exact kept

theorem flagsHook (kept : Kept s) (fd : Nat) {kernel : Flags → Flags}
    {hook : Descriptor → Descriptor}
    (same : ∀ ctx flags, FdCtx.Untouched ctx → (hook ⟨ctx, flags⟩).ctx = ctx) :
    Kept (s.flagsHook fd kernel hook) := by
  unfold Layer.flagsHook
  split
  next id _ =>
    refine kept.setCtx ?_ id _
    rw [same _ _ (kept.untouched id)]
    exact kept.untouched id
  next => exact ⟨kept.untouched, kept.entries⟩

/-- **The step lemma.** -/
theorem next (kept : Kept s) {call : HookCall} (stepped : s.next call = some s') : Kept s' := by
  have begun : Kept s.begins := ⟨kept.untouched, kept.entries⟩
  cases call with
  | socket enabled result =>
    cases result with
    | none =>
      cases stepped
      exact begun
    | some r =>
      obtain ⟨opened, opens, rfl⟩ := Option.map_eq_some_iff.mp stepped
      exact (begun.opened opens).socket enabled r.1
  | accept enabled result =>
    cases result with
    | none =>
      cases stepped
      exact begun
    | some r =>
      obtain ⟨opened, opens, rfl⟩ := Option.map_eq_some_iff.mp stepped
      exact (begun.opened opens).accept enabled r.1
  | dropped r => exact begun.opened stepped
  | close enabled fd =>
    cases stepped
    exact begun.close enabled fd
  | setsockopt enabled fd type sec usec =>
    cases stepped
    exact begun.setsockopt enabled fd type sec usec
  | fcntl fd arg =>
    cases stepped
    exact begun.flagsHook fd fun ctx flags untouched => untouched.fcntlSetfl flags arg
  | ioctl fd value =>
    cases stepped
    exact begun.flagsHook fd fun ctx flags untouched => untouched.ioctlFionbio flags value

end Kept

theorem kept_of_reachable {ok : Layer → HookCall → Prop} (reached : layer.ReachableWhen ok s) :
    Kept s := by
  refine reached.invariant ?_ fun s call s' kept _ stepped => kept.next stepped
  rintro s ⟨table, sockets, -⟩
  refine ⟨fun id => ?_, fun fd member => ?_⟩
  · rw [table]
    exact .new 0
  · rw [sockets] at member
    cases member

end Layer

/-- **No managed socket is initialised, in any run**: what a thread with hooks was given has a context
that says it is not a socket, and `do_io` and `connect_with_timeout` call the function of the kernel
and return. -/
theorem sockets_uninitialised {s : Layer} (reached : layer.Reachable s) {fd : Nat}
    (member : fd ∈ s.sockets) :
    ¬ Initialised s fd ∧ Pc.afterContext (s.context fd) = .direct ∧
      connectPath (s.context fd) = .direct := by
  have kept := Layer.kept_of_reachable reached
  obtain ⟨id, entry⟩ := Option.ne_none_iff_exists'.mp (kept.entries fd member)
  have untouched := kept.untouched id
  have context : s.context fd = some (s.table.ctx id) := by
    unfold Layer.context
    rw [Layer.held_eq, entry]
    rfl
  refine ⟨fun initialised => ?_, ?_, ?_⟩
  · obtain ⟨ctx, same, isInit, -⟩ := initialised.context
    cases context.symm.trans same
    exact Bool.false_ne_true (untouched.isInit.symm.trans isInit)
  · rw [context]
    simp [Pc.afterContext, untouched.isClosed, untouched.isSocket]
  · rw [context]
    simp [connectPath, untouched.isClosed, untouched.isSocket]

/-- A server: it opens a socket and accepts a connection. -/
def server : List HookCall := [.socket true (some (5, 2)), .accept true (some (6, 2))]

theorem sockets_uninitialised_server :
    ∃ s, layer.Reachable s ∧ 6 ∈ s.sockets ∧ ¬ Initialised s 6 := by
  obtain ⟨s, reached, member⟩ :=
    Machine.reachable_of_replay (m := layer) (s := Layer.initial) ⟨rfl, rfl, rfl⟩ server
      (fun s => 6 ∈ s.sockets) (by decide +kernel)
  have member := of_decide_eq_true member
  exact ⟨s, reached, member, (sockets_uninitialised reached member).1⟩

/-- **The first socket of a program is not initialised.** -/
theorem uninitialised_socket :
    ∃ s, layer.Reachable s ∧ 5 ∈ s.sockets ∧ ¬ Initialised s 5 := by
  obtain ⟨s, reached, state⟩ :=
    Machine.reachable_of_replay (m := layer) (s := Layer.initial) ⟨rfl, rfl, rfl⟩
      [.socket true (some (5, 2))]
      (fun s => 5 ∈ s.sockets ∧ s.context 5 = some { fd := 5 }) (by decide +kernel)
  obtain ⟨member, context⟩ := of_decide_eq_true state
  refine ⟨s, reached, member, fun initialised => ?_⟩
  obtain ⟨ctx, same, isInit, -⟩ := initialised.context
  cases context.symm.trans same
  cases isInit

/-! ### The settings of a new descriptor -/

namespace Layer

variable {s s' : Layer} {fd : Nat}

/-- **The invariant**: only an open descriptor has a context. -/
def Living (s : Layer) : Prop := ∀ fd, s.table.entry fd ≠ none → s.file fd ≠ none

namespace Living

theorem opened {flags : Flags} (living : Living s) (opens : s.opened fd flags = some s') :
    Living s' := by
  obtain ⟨-, rfl⟩ := opened_eq_some opens
  intro i entry
  show Function.update s.file fd (some flags) i ≠ none
  rcases eq_or_ne i fd with rfl | other
  · rw [Function.update_self]
    exact Option.some_ne_none flags
  · rw [Function.update_of_ne other]
    exact living i entry

theorem created (living : Living s) (opened : s.file fd ≠ none) : Living (s.created fd) := by
  intro i entry
  rcases eq_or_ne i fd with rfl | other
  · exact opened
  · refine living i ?_
    rw [show (s.created fd).table.entry i = _ from FdManger.entry_getFdCtx fd i,
      if_neg other] at entry
    exact entry

theorem socket (living : Living s) (opened : s.file fd ≠ none) (enabled : Bool) :
    Living (s.socket enabled fd) := by
  unfold Layer.socket
  split
  · exact living.created opened
  · exact living

theorem accept (living : Living s) (opened : s.file fd ≠ none) (enabled : Bool) :
    Living (s.accept enabled fd) := by
  unfold Layer.accept
  dsimp only
  split
  · exact living.created opened
  · exact living.created opened

/-- **`close` drops the context with the descriptor**, where there is none or the thread has
hooks. -/
theorem close (living : Living s) (enabled : Bool) (attended : Attended s (.close enabled fd)) :
    Living (s.close enabled fd) := by
  intro i
  unfold Layer.close
  split
  next =>
    show (s.table.delFdCtx fd).entry i ≠ none → Function.update s.file fd none i ≠ none
    rw [FdManger.entry_delFdCtx]
    rcases eq_or_ne i fd with rfl | other
    · rw [if_pos rfl]
      exact fun entry => absurd rfl entry
    · rw [if_neg other, Function.update_of_ne other]
      exact living i
  next left =>
    have none : s.table.entry fd = none := by
      cases enabled with
      | false => exact (held_eq fd).symm.trans attended
      | true =>
        rw [held_eq] at left
        simpa using left
    show s.table.entry i ≠ Option.none → Function.update s.file fd Option.none i ≠ Option.none
    rcases eq_or_ne i fd with rfl | other
    · exact fun entry => absurd none entry
    · rw [Function.update_of_ne other]
      exact living i

theorem setsockopt (living : Living s) (enabled : Bool) (fd : Nat) (type : TimeoutOption)
    (sec usec : Int) : Living (s.setsockopt enabled fd type sec usec) := by
  unfold Layer.setsockopt
  split
  · split
    · exact living
    · exact living
  · exact living

/-- The flags of an open descriptor are written. -/
theorem update_map (living : Living s) (fd : Nat) (f : Flags → Flags) (i : Nat)
    (entry : s.table.entry i ≠ none) :
    Function.update s.file fd ((s.file fd).map f) i ≠ none := by
  rcases eq_or_ne i fd with rfl | other
  · rw [Function.update_self]
    exact fun none => living i entry (Option.map_eq_none_iff.mp none)
  · rw [Function.update_of_ne other]
    exact living i entry

theorem flagsHook (living : Living s) (fd : Nat) (kernel : Flags → Flags)
    (hook : Descriptor → Descriptor) : Living (s.flagsHook fd kernel hook) := by
  unfold Layer.flagsHook
  split
  · exact living.update_map fd _
  · exact living.update_map fd _

/-- A number just given out is in use. -/
theorem file_of_opened {flags : Flags} (opens : s.opened fd flags = some s') :
    s'.file fd ≠ none := by
  obtain ⟨-, rfl⟩ := opened_eq_some opens
  show Function.update s.file fd (some flags) fd ≠ none
  rw [Function.update_self]
  exact Option.some_ne_none flags

/-- **The step lemma.** -/
theorem next (living : Living s) {call : HookCall} (attended : Attended s call)
    (stepped : s.next call = some s') : Living s' := by
  have begun : Living s.begins := living
  cases call with
  | socket enabled result =>
    cases result with
    | none =>
      cases stepped
      exact begun
    | some r =>
      obtain ⟨opened, opens, rfl⟩ := Option.map_eq_some_iff.mp stepped
      exact (begun.opened opens).socket (file_of_opened opens) enabled
  | accept enabled result =>
    cases result with
    | none =>
      cases stepped
      exact begun
    | some r =>
      obtain ⟨opened, opens, rfl⟩ := Option.map_eq_some_iff.mp stepped
      exact (begun.opened opens).accept (file_of_opened opens) enabled
  | dropped r => exact begun.opened stepped
  | close enabled fd =>
    cases stepped
    cases enabled with
    | false => exact begun.close false attended
    | true => exact begun.close true trivial
  | setsockopt enabled fd type sec usec =>
    cases stepped
    exact begun.setsockopt enabled fd type sec usec
  | fcntl fd arg =>
    cases stepped
    exact begun.flagsHook fd _ _
  | ioctl fd value =>
    cases stepped
    exact begun.flagsHook fd _ _

end Living

/-- A new entry has a new context. -/
theorem fresh_created (unused : s.table.entry fd = none) : Fresh (s.created fd) fd := by
  refine ⟨{ fd }, ?_, rfl, rfl, rfl⟩
  unfold context
  rw [held_eq]
  show ((s.table.getFdCtx fd true).1.entry fd).map (s.table.getFdCtx fd true).1.ctx = _
  rw [FdManger.entry_getFdCtx, if_pos rfl, FdManger.ctx_getFdCtx, if_pos unused, unused]
  show some (Function.update s.table.ctx s.table.made { fd } s.table.made) = _
  rw [Function.update_self]

/-- A number the kernel gives out has no entry. -/
theorem Living.entry_of_opened {flags : Flags} (living : Living s)
    (opens : s.opened fd flags = some s') : s'.table.entry fd = none := by
  obtain ⟨unused, rfl⟩ := opened_eq_some opens
  by_contra entry
  exact living fd entry unused

/-- The last call gave what it opened. -/
theorem returned_opened {i : Nat} {flags : Flags} (opens : s.begins.opened i flags = some s') :
    s'.returned = none := by
  obtain ⟨-, rfl⟩ := opened_eq_some opens
  rfl

/-- `socket` and `accept` give a number that the kernel gives out, and its context, on a thread with
hooks only. -/
theorem Living.fresh_given {flags : Flags} {i : Nat} (living : Living s.begins)
    (opens : s.begins.opened i flags = some s') (call : Bool → Layer)
    (hooked : call true = (s'.created i).gives i) (unhooked : (call false).returned = s'.returned)
    (enabled : Bool) (given : (call enabled).returned = some fd) : Fresh (call enabled) fd := by
  cases enabled with
  | false => cases (returned_opened opens).symm.trans (unhooked.symm.trans given)
  | true =>
    rw [hooked] at given ⊢
    obtain rfl : i = fd := Option.some.inj given
    exact fresh_created (living.entry_of_opened opens)

theorem returned_close (enabled : Bool) (i : Nat) :
    (s.close enabled i).returned = s.returned := by
  unfold Layer.close
  split <;> rfl

theorem returned_setsockopt (enabled : Bool) (i : Nat) (type : TimeoutOption) (sec usec : Int) :
    (s.setsockopt enabled i type sec usec).returned = s.returned := by
  unfold Layer.setsockopt
  split
  · split <;> rfl
  · rfl

theorem returned_flagsHook (i : Nat) (kernel : Flags → Flags) (hook : Descriptor → Descriptor) :
    (s.flagsHook i kernel hook).returned = s.returned := by
  unfold Layer.flagsHook
  split <;> rfl

/-- **A call gives a descriptor with fresh settings.** -/
theorem Living.fresh_of_next (living : Living s) {call : HookCall}
    (stepped : s.next call = some s') (given : s'.returned = some fd) : Fresh s' fd := by
  have begun : Living s.begins := living
  cases call with
  | socket enabled result =>
    cases result with
    | none =>
      cases stepped
      cases given
    | some r =>
      obtain ⟨opened, opens, rfl⟩ := Option.map_eq_some_iff.mp stepped
      exact begun.fresh_given opens (fun enabled => opened.socket enabled r.1) rfl rfl enabled given
  | accept enabled result =>
    cases result with
    | none =>
      cases stepped
      cases given
    | some r =>
      obtain ⟨opened, opens, rfl⟩ := Option.map_eq_some_iff.mp stepped
      exact begun.fresh_given opens (fun enabled => opened.accept enabled r.1) rfl rfl enabled given
  | dropped r => cases (returned_opened stepped).symm.trans given
  | close enabled i =>
    cases stepped
    cases (returned_close enabled i).symm.trans given
  | setsockopt enabled i type sec usec =>
    cases stepped
    cases (returned_setsockopt enabled i type sec usec).symm.trans given
  | fcntl i arg =>
    cases stepped
    cases (returned_flagsHook i _ _).symm.trans given
  | ioctl i value =>
    cases stepped
    cases (returned_flagsHook i _ _).symm.trans given

end Layer

/-- **A new descriptor has fresh settings**, in every run in which `close` on a thread without hooks
finds no context. -/
theorem fresh_settings {s : Layer} (reached : layer.ReachableWhen Attended s) {fd : Nat}
    (given : s.returned = some fd) : Fresh s fd := by
  have both : Layer.Living s ∧ ∀ fd, s.returned = some fd → Fresh s fd := by
    refine reached.invariant (P := fun s => Layer.Living s ∧ ∀ fd, s.returned = some fd → Fresh s fd)
      ?_ fun s call s' held attended stepped => ?_
    · rintro s ⟨table, -, returned⟩
      refine ⟨fun fd entry => absurd ?_ entry, fun fd given => ?_⟩
      · rw [table]
        exact FdManger.entry_empty fd
      · cases returned.symm.trans given
    · exact ⟨held.1.next attended stepped, fun fd => held.1.fresh_of_next stepped⟩
  exact both.2 fd given

/-- **A call that breaks the condition breaks the property**: a thread without hooks closes a
descriptor whose context has a timeout, and the next socket has it. -/
theorem inherits_timeout {s : Layer} {fd : Nat} {ctx : FdCtx} (held : s.context fd = some ctx)
    (timeout : ctx.recvTimeout ≠ noTimeout) (flags : Flags) :
    ∃ s', layer.replay s [.close false fd, .socket true (some (fd, flags))] = some s' ∧
      s'.returned = some fd ∧ ¬ Fresh s' fd := by
  let s₁ : Layer := (s.begins.closed fd).begins
  let s₂ : Layer := { s₁ with file := Function.update s₁.file fd (some flags) }
  have unused : s₁.file fd = none := Function.update_self ..
  have opens : s₁.opened fd flags = some s₂ := by
    unfold Layer.opened
    rw [unused]
  refine ⟨(s₂.created fd).gives fd, ?_, rfl, ?_⟩
  · show (Option.map (fun s => s.socket true fd) (s₁.opened fd flags)).bind some = _
    rw [opens]
    rfl
  · obtain ⟨id, entry, same⟩ := Option.map_eq_some_iff.mp held
    rw [Layer.held_eq] at entry
    have found : s₂.table.getFdCtx fd true = (s.table, some id) := by
      rw [FdManger.getFdCtx_true, show s₂.table.entry fd = some id from entry]
      rfl
    have context : ((s₂.created fd).gives fd).context fd = some ctx := by
      unfold Layer.context
      rw [Layer.held_eq]
      show ((s₂.table.getFdCtx fd true).1.entry fd).map (s₂.table.getFdCtx fd true).1.ctx = _
      rw [found, show s.table.entry fd = some id from entry]
      exact congrArg some same
    rintro ⟨ctx', same', recv, -⟩
    cases context.symm.trans same'
    exact timeout recv

/-- A socket with a timeout of three seconds, closed and opened again; another thread has no
hooks. -/
def reopened : List HookCall :=
  [.socket true (some (5, 2)), .setsockopt true 5 .rcvtimeo 3 0, .close true 5,
    .socket false (some (5, 2)), .close false 5, .socket true (some (5, 2))]

theorem fresh_settings_reopened :
    ∃ s, layer.ReachableWhen Attended s ∧ s.returned = some 5 ∧ Fresh s 5 := by
  have run : ∃ s, layer.ReachableWhen Attended s ∧ decide (s.returned = some 5) = true :=
    Machine.reachableWhen_of_replay (m := layer) (s := Layer.initial) ⟨rfl, rfl, rfl⟩ reopened _
      (by decide +kernel)
  obtain ⟨s, reached, given⟩ := run
  have given := of_decide_eq_true given
  exact ⟨s, reached, given, fresh_settings reached given⟩

/-- **A context outlives its descriptor**: a thread without hooks closes the socket. -/
theorem inherited_context :
    ∃ s, layer.Reachable s ∧ s.returned = some 5 ∧ ¬ Fresh s 5 := by
  obtain ⟨s, reached, state⟩ :=
    Machine.reachable_of_replay (m := layer) (s := Layer.initial) ⟨rfl, rfl, rfl⟩
      [.socket true (some (5, 2)), .setsockopt true 5 .rcvtimeo 3 0, .close false 5,
        .socket true (some (5, 2))]
      (fun s => s.returned = some 5 ∧ s.context 5 = some { fd := 5, recvTimeout := 3000 })
      (by decide +kernel)
  obtain ⟨given, context⟩ := of_decide_eq_true state
  refine ⟨s, reached, given, ?_⟩
  rintro ⟨ctx, same, recv, -⟩
  cases context.symm.trans same
  exact absurd recv (by decide)

end Sylar.Hook
