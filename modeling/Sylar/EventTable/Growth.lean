/-
**The growth of `m_fd_contexts`: `context_resize` and the loop of `add_event`.**

`m_fd_contexts` is a vector of pointers, and an `int` is compared with its size. `add_event` tests
the size under the shared lock, lets go of the lock, takes it exclusively and resizes by one half
until the vector has an entry for the descriptor.

* `FdContexts` — the pointers, and the objects they point to.
* `sizeT` — an `int` as a `size_t`: a negative one becomes larger than any size.
* `lookup` — what `add_event` does before it locks an `FdContext`, and `addEvent` — the whole.
* `InReach` — **the condition**: the descriptor is not negative, and the resize that makes it fit
  stays within `INT_MAX`.
* `proper_iff_inReach` — **exactly then the lookup ends, keeps the old entries, adds empty ones and
  finds the descriptor's own.** A negative descriptor is not rejected, as `del_event` and the others
  reject it: the vector grows until the index of `context_resize` overflows (`lookup_overflow`).
* `addEvent_refines` — `addEvent` on pointers is `add_event` on the table of contexts.
-/

import Sylar.EventTable.Operations
import Mathlib.Data.List.Infix

namespace Sylar.EventTable

/-! ### The vector of pointers -/

/-- `m_fd_contexts`, and the `FdContext` objects by their addresses. -/
structure FdContexts where
  pointers : List (Option Nat)
  objects : List FdContext
deriving DecidableEq

/-- Where the program stops: `++i` overflows, an assertion fails, or a null pointer is followed.
`rounds` is no stop: more rounds of the loop are to come. -/
inductive Stop
  | overflow
  | assertion
  | null
  | rounds
deriving DecidableEq

/-- An `int` as a `size_t`. -/
def sizeT (fd : Int32) : Nat := (fd.toInt % 2 ^ 64).toNat

namespace FdContexts

/-- `m_fd_contexts.size()`. -/
def size (t : FdContexts) : Nat := t.pointers.length

/-- `m_fd_contexts.size() > fd`; `del_event`, `cancel_event` and `cancel_all` return where it
fails. -/
def holds (t : FdContexts) (fd : Int32) : Bool := sizeT fd < t.size

/-- `*m_fd_contexts[i]`. -/
def entry (t : FdContexts) (i : Nat) : Option FdContext := do
  let a ← (← t.pointers[i]?)
  t.objects[a]?

/-- The loop of `context_resize` from `i` on. `none`: `++i` overflows. -/
def fillLoop (i : Nat) (objects : List FdContext) :
    List (Option Nat) → Option (List (Option Nat) × List FdContext)
  | [] => some ([], objects)
  | pointer :: rest =>
      let (a, objects) := match pointer with
        | some a => (a, objects)
        | none => (objects.length, objects ++ [{ fd := i }])
      if i + 1 < 2 ^ 31 then
        (fillLoop (i + 1) objects rest).map fun (filled, objects) => (some a :: filled, objects)
      else none

/-- `context_resize`; `resize` adds null pointers. -/
def contextResize (t : FdContexts) (size : Nat) : Option FdContexts :=
  let resized := t.pointers.take size ++ List.replicate (size - t.size) none
  (fillLoop 0 t.objects resized).map fun (pointers, objects) => ⟨pointers, objects⟩

/-- The loop of `add_event`, for at most so many rounds. -/
def growLoop (fd : Int32) : Nat → FdContexts → Except Stop FdContexts
  | 0, _ => .error .rounds
  | rounds + 1, t =>
      if t.size ≤ sizeT fd then
        match t.contextResize (t.size + t.size / 2) with
        | none => .error .overflow
        | some t => growLoop fd rounds t
      else .ok t

/-- `m_fd_contexts[fd]`: the address of the context. -/
def context (t : FdContexts) (fd : Int32) : Except Stop Nat :=
  match t.pointers[sizeT fd]? with
  | some (some a) => .ok a
  | _ => .error .null

/-- `add_event` up to the lock of the context: the test is made on the vector as it was under the
shared lock, and the loop runs on the vector as it is under the exclusive one. -/
def lookup (fd : Int32) (rounds : Nat) (tested table : FdContexts) :
    Except Stop (FdContexts × Nat) :=
  if tested.holds fd then (tested.context fd).map (table, ·)
  else do
    let table ← table.growLoop fd rounds
    (table.context fd).map (table, ·)

end FdContexts

/-- The members of an `IOManager` that `add_event` uses, with the vector as it is. -/
structure Members where
  fdContexts : FdContexts
  pendingEventCount : UInt64
  interest : Interest

/-- The slot of an event that has been added. `none`: an assertion fails. -/
def fillSlot (added : FdContext) (event : Event) (cb : Option Callback) (caller : Caller) :
    Option FdContext :=
  if added.getContext event ≠ {} then none
  else if cb = none ∧ caller.state ≠ .exec then none
  else some (added.setContext event (caller.continuation cb))

/-- `add_event`, and what it returns. -/
def addEvent (m : Members) (tested : FdContexts) (rounds : Nat) (fd : Int32) (event : Event)
    (cb : Option Callback) (caller : Caller) (fault : Bool) : Except Stop (Members × Int) := do
  let (table, a) ← FdContexts.lookup fd rounds tested m.fdContexts
  match table.objects[a]? with
  | none => .error .null
  | some fdCtx =>
      if fdCtx.events.has event then .error .assertion
      else
        let op := if fdCtx.events ≠ 0 then EpollOp.mod else .add
        let mask := epollEt ||| (fdCtx.events ||| event.bit)
        match epollCtl m.interest op fd.toInt.toNat mask fault with
        | none => .ok ({ m with fdContexts := table }, -1)
        | some interest =>
            match fillSlot { fdCtx with events := fdCtx.events ||| event.bit } event cb caller with
            | none => .error .assertion
            | some changed =>
                let table := { table with objects := table.objects.set a changed }
                .ok (⟨table, m.pendingEventCount + 1, interest⟩, 0)

/-- The vector of a new `IOManager`: `context_resize(32)`. -/
def FdContexts.initial : FdContexts :=
  ⟨(List.range 32).map some, (List.range 32).map fun i => { fd := i }⟩

/-- A new `IOManager`. -/
def Members.initial : Members := ⟨.initial, 0, fun _ => none⟩

/-! ### Runs that do not stop -/

theorem bind_eq_ok {α β : Type} {run : Except Stop α} {next : α → Except Stop β} {b : β}
    (ended : run >>= next = .ok b) : ∃ a, run = .ok a ∧ next a = .ok b := by
  cases run with
  | error stop => cases ended
  | ok a => exact ⟨a, rfl, ended⟩

theorem map_eq_ok {α β : Type} {run : Except Stop α} {f : α → β} {b : β}
    (ended : run.map f = .ok b) : ∃ a, run = .ok a ∧ f a = b := by
  cases run with
  | error stop => cases ended
  | ok a => exact ⟨a, rfl, Except.ok.inj ended⟩

/-! ### What is asked -/

/-- **A table of two entries or more, each non-null and of its own index**, which is an `int`. -/
structure Indexed (t : FdContexts) : Prop where
  two : 2 ≤ t.size
  int : t.size ≤ 2 ^ 31
  entry : ∀ i < t.size, ∃ ctx, t.entry i = some ctx ∧ ctx.fd = i

/-- **The growth for a descriptor**, with the address of the context that is used. -/
structure Grown (old new : FdContexts) (fd a : Nat) : Prop where
  larger : fd < new.size
  bounded : new.size ≤ max old.size (fd + fd / 2)
  samePointers : old.pointers <+: new.pointers
  sameObjects : old.objects <+: new.objects
  fresh : ∀ i, old.size ≤ i → i < new.size → new.entry i = some { fd := i }
  used : new.pointers[fd]? = some (some a) ∧ ∃ ctx, new.objects[a]? = some ctx ∧ ctx.fd = fd

/-- The size after so many rounds of the loop. -/
def sizeAfter (size : Nat) : Nat → Nat
  | 0 => size
  | rounds + 1 => sizeAfter (size + size / 2) rounds

/-- Some rounds make the vector larger than `fd`, and the last resize is to no more than
`INT_MAX`. -/
def Fits (fd size : Nat) : Prop :=
  ∃ rounds, fd < sizeAfter size rounds ∧ (rounds = 0 ∨ sizeAfter size rounds < 2 ^ 31)

/-- **The condition.** -/
def InReach (size : Nat) (fd : Int32) : Prop := 0 ≤ fd.toInt ∧ Fits fd.toInt.toNat size

/-- **What is asked of a call of `add_event`**: it fails and the table is as before, or the loop ends
with the table grown for the descriptor, and the rest of the call writes to no other context. -/
def Proper (m : Members) (tested : FdContexts) (fd : Int32) (event : Event) (cb : Option Callback)
    (caller : Caller) (fault : Bool) : Prop :=
  ∃ rounds,
    (∃ m', addEvent m tested rounds fd event cb caller fault = .ok (m', -1) ∧
      m'.fdContexts = m.fdContexts) ∨
    ∃ table a, FdContexts.lookup fd rounds tested m.fdContexts = .ok (table, a) ∧
      Grown m.fdContexts table fd.toInt.toNat a ∧
      ∀ m' result, addEvent m tested rounds fd event cb caller fault = .ok (m', result) →
        m'.fdContexts.pointers = table.pointers ∧
          ∀ b ≠ a, m'.fdContexts.objects[b]? = table.objects[b]?

/-! ### Sizes -/

theorem le_sizeAfter (size rounds : Nat) : size ≤ sizeAfter size rounds := by
  induction rounds generalizing size with
  | zero => exact Nat.le_refl _
  | succ rounds ih => exact (Nat.le_add_right _ _).trans (ih _)

/-- One round of the loop. -/
theorem fits_iff {fd size : Nat} :
    Fits fd size ↔ fd < size ∨ (size + size / 2 < 2 ^ 31 ∧ Fits fd (size + size / 2)) := by
  constructor
  · rintro ⟨rounds, larger, within⟩
    cases rounds with
    | zero => exact .inl larger
    | succ rounds =>
      have within := within.resolve_left (Nat.succ_ne_zero rounds)
      exact .inr ⟨(le_sizeAfter _ rounds).trans_lt within, rounds, larger, .inr within⟩
  · rintro (larger | ⟨within, rounds, larger, later⟩)
    · exact ⟨0, larger, .inl rfl⟩
    · refine ⟨rounds + 1, larger, .inr ?_⟩
      rcases later with rfl | later
      · exact within
      · exact later

/-- A descriptor that is not negative, as a `size_t`. -/
theorem sizeT_of_nonneg {fd : Int32} (nonneg : 0 ≤ fd.toInt) : sizeT fd = fd.toInt.toNat := by
  have small := fd.toInt_lt
  rw [sizeT, Int.emod_eq_of_lt nonneg (by omega)]

/-- **A negative descriptor is larger than any size.** -/
theorem le_sizeT_of_neg {fd : Int32} (negative : fd.toInt < 0) : 2 ^ 63 ≤ sizeT fd := by
  have least := fd.le_toInt
  unfold sizeT
  omega

theorem fits_sizeT_iff {fd : Int32} {size : Nat} (int : size ≤ 2 ^ 31) :
    Fits (sizeT fd) size ↔ InReach size fd := by
  by_cases nonneg : 0 ≤ fd.toInt
  · rw [sizeT_of_nonneg nonneg, InReach, and_iff_right nonneg]
  · have large := le_sizeT_of_neg (Int.not_le.mp nonneg)
    refine iff_of_false ?_ fun inReach => nonneg inReach.1
    rintro ⟨rounds, larger, rfl | within⟩
    · change sizeT fd < size at larger
      omega
    · omega

/-! ### `context_resize` -/

namespace FdContexts

variable {t : FdContexts}

/-- The vector with contexts added up to a size. -/
def extended (t : FdContexts) (size : Nat) : FdContexts where
  pointers := t.pointers ++ (List.range' t.objects.length (size - t.size)).map some
  objects := t.objects ++ (List.range' t.size (size - t.size)).map fun i => { fd := i }

/-- No pointer is null. -/
def NonNull (t : FdContexts) : Prop := ∃ as : List Nat, t.pointers = as.map some

theorem size_extended {size : Nat} (larger : t.size ≤ size) : (t.extended size).size = size := by
  have kept : t.pointers.length ≤ size := larger
  simp only [extended, FdContexts.size, List.length_append, List.length_map, List.length_range']
  omega

theorem extended_self (t : FdContexts) : t.extended t.size = t := by
  simp [extended]

/-- Adding contexts twice. -/
theorem extended_extended {size later : Nat} (larger : t.size ≤ size) (more : size ≤ later) :
    (t.extended size).extended later = t.extended later := by
  have sum : later - t.size = (size - t.size) + (later - size) := by omega
  have objects : (t.extended size).objects.length = t.objects.length + (size - t.size) := by
    simp [extended]
  have next : t.size + (size - t.size) = size := by omega
  rw [extended, size_extended larger, objects, extended, extended, sum, ← List.range'_append_1,
    ← List.range'_append_1, List.map_append, List.map_append, List.append_assoc, List.append_assoc,
    next]

theorem NonNull.extended (nonNull : t.NonNull) (size : Nat) : (t.extended size).NonNull := by
  obtain ⟨as, same⟩ := nonNull
  exact ⟨as ++ List.range' t.objects.length (size - t.size), by
    rw [FdContexts.extended, same, List.map_append]⟩

/-- The pointers that are there stay. -/
theorem fillLoop_append (as : List Nat) {i : Nat} (objects : List FdContext)
    (rest : List (Option Nat)) (small : i + as.length < 2 ^ 31) :
    fillLoop i objects (as.map some ++ rest) =
      (fillLoop (i + as.length) objects rest).map fun (filled, objects) =>
        (as.map some ++ filled, objects) := by
  induction as generalizing i with
  | nil => simp
  | cons a as ih =>
    rw [List.length_cons] at small ⊢
    have next : i + (as.length + 1) = i + 1 + as.length := by omega
    rw [List.map_cons, List.cons_append, fillLoop, if_pos (by omega), ih (by omega), next,
      Option.map_map]
    rfl

/-- The null ones get contexts, with their indices. -/
theorem fillLoop_replicate (count : Nat) {i : Nat} (objects : List FdContext)
    (small : i + count < 2 ^ 31) :
    fillLoop i objects (List.replicate count none) =
      some ((List.range' objects.length count).map some,
        objects ++ (List.range' i count).map fun i => { fd := i }) := by
  induction count generalizing i objects with
  | zero => simp [fillLoop]
  | succ count ih =>
    have length : (objects ++ [({ fd := i } : FdContext)]).length = objects.length + 1 :=
      List.length_append
    rw [List.replicate_succ, fillLoop, if_pos (by omega), ih _ (by omega), length]
    simp [List.range'_succ]

/-- The index of the loop cannot go past `INT_MAX`. -/
theorem fillLoop_overflow {i : Nat} (objects : List FdContext) (pointers : List (Option Nat))
    (start : i < 2 ^ 31) (large : 2 ^ 31 ≤ i + pointers.length) :
    fillLoop i objects pointers = none := by
  induction pointers generalizing i objects with
  | nil => simp only [List.length_nil] at large; omega
  | cons pointer rest ih =>
    rw [List.length_cons] at large
    unfold fillLoop
    dsimp only
    split
    next next => rw [ih _ next (by omega), Option.map_none]
    next => rfl

/-- **`context_resize` adds contexts**, as long as the size is an `int`. -/
theorem contextResize_eq (nonNull : t.NonNull) {size : Nat} (larger : t.size ≤ size)
    (int : size < 2 ^ 31) : t.contextResize size = some (t.extended size) := by
  obtain ⟨as, same⟩ := nonNull
  have length : t.size = as.length := by rw [FdContexts.size, same, List.length_map]
  have kept : t.pointers.take size = as.map some := by
    rw [List.take_of_length_le larger, same]
  rw [contextResize, kept, fillLoop_append as _ _ (by omega),
    fillLoop_replicate _ _ (by omega)]
  simp [extended, same, length]

theorem contextResize_overflow {size : Nat} (larger : t.size ≤ size) (large : 2 ^ 31 ≤ size) :
    t.contextResize size = none := by
  have kept : t.pointers.length ≤ size := larger
  rw [contextResize, fillLoop_overflow _ _ (by omega), Option.map_none]
  simp only [FdContexts.size, List.length_append, List.length_take, List.length_replicate]
  omega

/-! ### The loop of `add_event` -/

/-- **The loop ends**: with the vector extended beyond the descriptor where some rounds make it fit,
and else in an overflow. Every round makes the vector larger, and `INT_MAX` bounds it. -/
theorem growLoop_spec (fd : Int32) {rounds : Nat} (nonNull : t.NonNull) (two : 2 ≤ t.size)
    (int : t.size ≤ 2 ^ 31) (enough : 2 ^ 31 < t.size + rounds) :
    (Fits (sizeT fd) t.size ∧ ∃ size, t.growLoop fd rounds = .ok (t.extended size) ∧
        t.size ≤ size ∧ sizeT fd < size ∧ size ≤ max t.size (sizeT fd + sizeT fd / 2)) ∨
      (¬ Fits (sizeT fd) t.size ∧ t.growLoop fd rounds = .error .overflow) := by
  induction rounds generalizing t with
  | zero => omega
  | succ rounds ih =>
    rw [growLoop, fits_iff]
    by_cases more : t.size ≤ sizeT fd
    · rw [if_pos more, or_iff_right (Nat.not_lt.mpr more)]
      have larger : t.size ≤ t.size + t.size / 2 := Nat.le_add_right _ _
      by_cases within : t.size + t.size / 2 < 2 ^ 31
      · rw [contextResize_eq nonNull larger within, and_iff_right within]
        have next := size_extended larger
        have later := ih (nonNull.extended (t.size + t.size / 2)) (by omega) (by omega) (by omega)
        rw [next] at later
        rcases later with ⟨fits, size, grown, le, beyond, bounded⟩ | ⟨never, overflow⟩
        · refine .inl ⟨fits, size, ?_, larger.trans le, beyond, by omega⟩
          exact grown.trans (by rw [extended_extended larger le])
        · exact .inr ⟨never, overflow⟩
      · rw [contextResize_overflow larger (Nat.not_lt.mp within)]
        exact .inr ⟨fun fits => within fits.1, rfl⟩
    · rw [if_neg more]
      have fits := Nat.not_le.mp more
      exact .inl ⟨.inl fits, t.size, by rw [extended_self], Nat.le_refl _, fits, Nat.le_max_left _ _⟩

/-- More rounds change nothing, once the loop has ended. -/
theorem growLoop_more {fd : Int32} {rounds more : Nat} {result : Except Stop FdContexts}
    (ended : t.growLoop fd rounds = result) (stopped : result ≠ .error .rounds) (le : rounds ≤ more) :
    t.growLoop fd more = result := by
  induction rounds generalizing t more with
  | zero => exact absurd ended.symm stopped
  | succ rounds ih =>
    obtain ⟨more, rfl⟩ := Nat.exists_eq_add_one_of_ne_zero (Nat.ne_zero_of_lt le)
    rw [growLoop] at ended ⊢
    split
    next grows =>
      rw [if_pos grows] at ended
      split
      next overflow => rwa [overflow] at ended
      next resized same =>
        rw [same] at ended
        exact ih ended (Nat.le_of_succ_le_succ le)
    next enough => rwa [if_neg enough] at ended

/-- **A loop that ended has extended the vector**, and some rounds made the descriptor fit. -/
theorem growLoop_ok {fd : Int32} {rounds : Nat} {table : FdContexts} (nonNull : t.NonNull)
    (two : 2 ≤ t.size) (int : t.size ≤ 2 ^ 31) (ended : t.growLoop fd rounds = .ok table) :
    Fits (sizeT fd) t.size ∧ ∃ size, table = t.extended size := by
  have enough : 2 ^ 31 < t.size + (rounds + 2 ^ 31) := by omega
  have same := growLoop_more ended (by simp) (Nat.le_add_right rounds (2 ^ 31))
  rcases growLoop_spec fd nonNull two int enough with ⟨fits, size, grown, -⟩ | ⟨-, overflow⟩
  · rw [grown] at same
    cases same
    exact ⟨fits, size, rfl⟩
  · rw [overflow] at same
    cases same

/-- `context` looks at one pointer. -/
theorem context_eq_ok_iff {fd : Int32} {a : Nat} :
    t.context fd = .ok a ↔ t.pointers[sizeT fd]? = some (some a) := by
  unfold context
  split
  next b same => simp [same]
  next other => exact iff_of_false (by simp) (other a)

/-- **What a `lookup` that ended has found.** -/
theorem lookup_cases {fd : Int32} {rounds a : Nat} {tested table : FdContexts}
    (found : lookup fd rounds tested t = .ok (table, a)) :
    (tested.holds fd = true ∧ table = t ∧ tested.context fd = .ok a) ∨
      (tested.holds fd = false ∧ t.growLoop fd rounds = .ok table ∧ table.context fd = .ok a) := by
  unfold lookup at found
  split at found
  next held =>
    obtain ⟨b, context, same⟩ := map_eq_ok found
    cases same
    exact .inl ⟨held, rfl, context⟩
  next notHeld =>
    obtain ⟨grown, loop, found⟩ := bind_eq_ok found
    obtain ⟨b, context, same⟩ := map_eq_ok found
    cases same
    exact .inr ⟨Bool.eq_false_iff.mpr notHeld, loop, context⟩

/-- A pointer of an earlier vector is still there. -/
theorem pointer_of_earlier {tested : FdContexts} (earlier : tested.pointers <+: t.pointers) {i : Nat}
    (within : i < tested.size) : tested.pointers[i]? = t.pointers[i]? := by
  obtain ⟨later, whole⟩ := earlier
  rw [← whole, List.getElem?_append_left within]

/-! ### A table with an entry for every index -/

/-- Where an entry is. -/
theorem entry_eq_some_iff {i : Nat} {ctx : FdContext} :
    t.entry i = some ctx ↔ ∃ a, t.pointers[i]? = some (some a) ∧ t.objects[a]? = some ctx := by
  constructor
  · intro found
    obtain ⟨pointer, within, found⟩ := Option.bind_eq_some_iff.mp found
    obtain ⟨a, rfl, object⟩ := Option.bind_eq_some_iff.mp found
    exact ⟨a, within, object⟩
  · rintro ⟨a, pointer, object⟩
    exact Option.bind_eq_some_iff.mpr ⟨some a, pointer, object⟩

/-- The old entries stay. -/
theorem entry_extended_of_some {i : Nat} {ctx : FdContext} (found : t.entry i = some ctx)
    (size : Nat) : (t.extended size).entry i = some ctx := by
  obtain ⟨a, pointer, object⟩ := entry_eq_some_iff.mp found
  refine entry_eq_some_iff.mpr ⟨a, ?_, ?_⟩
  · exact (List.getElem?_append_left (List.getElem?_eq_some_iff.mp pointer).1).trans pointer
  · exact (List.getElem?_append_left (List.getElem?_eq_some_iff.mp object).1).trans object

/-- **A new entry is empty, and of its own index.** -/
theorem entry_extended_of_le {i size : Nat} (old : t.size ≤ i) (new : i < size) :
    (t.extended size).entry i = some { fd := i } := by
  have within : i - t.size < size - t.size := by omega
  refine entry_eq_some_iff.mpr ⟨t.objects.length + (i - t.size), ?_, ?_⟩
  · rw [extended, List.getElem?_append_right old, List.getElem?_map]
    change ((List.range' _ _)[i - t.size]?).map some = _
    rw [List.getElem?_range' within, Option.map_some, Nat.one_mul]
  · rw [extended, List.getElem?_append_right (Nat.le_add_right _ _), Nat.add_sub_cancel_left,
      List.getElem?_map, List.getElem?_range' within, Option.map_some, Nat.one_mul,
      Nat.add_sub_cancel' old]

end FdContexts

namespace Indexed

variable {t : FdContexts}

theorem nonNull (indexed : Indexed t) : t.NonNull := by
  refine ⟨t.pointers.map fun pointer => pointer.getD 0, List.ext_getElem? fun i => ?_⟩
  rw [List.getElem?_map, List.getElem?_map]
  by_cases within : i < t.size
  · obtain ⟨ctx, found, -⟩ := indexed.entry i within
    obtain ⟨a, pointer, -⟩ := FdContexts.entry_eq_some_iff.mp found
    simp [pointer]
  · simp [List.getElem?_eq_none (Nat.not_lt.mp within)]

/-- **The loop on such a table**, with rounds enough. -/
theorem growLoop_spec (indexed : Indexed t) (fd : Int32) :
    (Fits (sizeT fd) t.size ∧ ∃ size, t.growLoop fd (2 ^ 31) = .ok (t.extended size) ∧
        t.size ≤ size ∧ sizeT fd < size ∧ size ≤ max t.size (sizeT fd + sizeT fd / 2)) ∨
      (¬ Fits (sizeT fd) t.size ∧ t.growLoop fd (2 ^ 31) = .error .overflow) := by
  have two := indexed.two
  exact FdContexts.growLoop_spec fd indexed.nonNull two indexed.int (by omega)

/-- **What a loop that ended has done**, and for which descriptors it ends. -/
theorem growLoop_ok (indexed : Indexed t) {fd : Int32} {rounds : Nat} {table : FdContexts}
    (ended : t.growLoop fd rounds = .ok table) :
    Fits (sizeT fd) t.size ∧ ∃ size, table = t.extended size :=
  FdContexts.growLoop_ok indexed.nonNull indexed.two indexed.int ended

/-- **Growing keeps it.** -/
theorem extended (indexed : Indexed t) {size : Nat} (larger : t.size ≤ size)
    (int : size ≤ 2 ^ 31) : Indexed (t.extended size) where
  two := by rw [FdContexts.size_extended larger]; exact indexed.two.trans larger
  int := by rwa [FdContexts.size_extended larger]
  entry i within := by
    rw [FdContexts.size_extended larger] at within
    by_cases old : i < t.size
    · obtain ⟨ctx, found, own⟩ := indexed.entry i old
      exact ⟨ctx, FdContexts.entry_extended_of_some found size, own⟩
    · exact ⟨_, FdContexts.entry_extended_of_le (Nat.not_lt.mp old) within, rfl⟩

/-- **What growing gives.** -/
theorem grown (indexed : Indexed t) {size fd : Nat} (larger : t.size ≤ size) (beyond : fd < size)
    (bounded : size ≤ max t.size (fd + fd / 2)) :
    ∃ a, (t.extended size).pointers[fd]? = some (some a) ∧ Grown t (t.extended size) fd a := by
  have length := FdContexts.size_extended larger
  have entry : ∃ ctx, (t.extended size).entry fd = some ctx ∧ ctx.fd = fd := by
    by_cases old : fd < t.size
    · obtain ⟨ctx, found, own⟩ := indexed.entry fd old
      exact ⟨ctx, FdContexts.entry_extended_of_some found size, own⟩
    · exact ⟨_, FdContexts.entry_extended_of_le (Nat.not_lt.mp old) beyond, rfl⟩
  obtain ⟨ctx, found, own⟩ := entry
  obtain ⟨a, pointer, object⟩ := FdContexts.entry_eq_some_iff.mp found
  refine ⟨a, pointer, ?_⟩
  exact
    { larger := by rwa [length]
      bounded := by rwa [length]
      samePointers := List.prefix_append _ _
      sameObjects := List.prefix_append _ _
      fresh := fun i old new => FdContexts.entry_extended_of_le old (by rwa [length] at new)
      used := ⟨pointer, ctx, object, own⟩ }

end Indexed

/-! ### `lookup` -/

section Lookup

variable {fd : Int32} {tested t : FdContexts}

/-- **A lookup that ends has found the descriptor in reach**, and the entry it uses. -/
theorem inReach_of_lookup (indexed : Indexed t) (earlier : tested.pointers <+: t.pointers)
    {rounds a : Nat} {table : FdContexts}
    (found : FdContexts.lookup fd rounds tested t = .ok (table, a)) : InReach t.size fd := by
  refine (fits_sizeT_iff indexed.int).mp ?_
  rcases FdContexts.lookup_cases found with ⟨held, -, -⟩ | ⟨-, ended, -⟩
  · exact ⟨0, (of_decide_eq_true held).trans_le earlier.length_le, .inl rfl⟩
  · exact (indexed.growLoop_ok ended).1

/-- **A descriptor in reach is found**, in the vector grown for it. -/
theorem lookup_of_inReach (indexed : Indexed t) (earlier : tested.pointers <+: t.pointers)
    (inReach : InReach t.size fd) :
    ∃ size a, t.size ≤ size ∧ Grown t (t.extended size) fd.toInt.toNat a ∧
      FdContexts.lookup fd (2 ^ 31) tested t = .ok (t.extended size, a) := by
  have same := sizeT_of_nonneg inReach.1
  unfold FdContexts.lookup
  by_cases held : tested.holds fd = true
  · have here : sizeT fd < tested.size := of_decide_eq_true held
    have there : sizeT fd < t.size := here.trans_le earlier.length_le
    obtain ⟨a, pointer, grown⟩ :=
      indexed.grown (Nat.le_refl _) (same ▸ there) (Nat.le_max_left _ _)
    refine ⟨t.size, a, Nat.le_refl _, grown, ?_⟩
    have first := FdContexts.pointer_of_earlier earlier here
    rw [FdContexts.extended_self, ← same, ← first] at pointer
    rw [if_pos held, FdContexts.context_eq_ok_iff.mpr pointer, FdContexts.extended_self]
    rfl
  · rcases indexed.growLoop_spec fd with ⟨-, size, ended, larger, beyond, bounded⟩ | ⟨never, -⟩
    · rw [same] at beyond bounded
      obtain ⟨a, pointer, grown⟩ := indexed.grown larger beyond bounded
      refine ⟨size, a, larger, grown, ?_⟩
      rw [← same] at pointer
      rw [if_neg held, ended]
      change ((t.extended size).context fd).map _ = _
      rw [FdContexts.context_eq_ok_iff.mpr pointer]
      rfl
    · exact absurd ((fits_sizeT_iff indexed.int).mpr inReach) never

/-- **Any other is not found, and not rejected**: the loop goes on until an index overflows. -/
theorem lookup_overflow (indexed : Indexed t) (earlier : tested.pointers <+: t.pointers)
    (outOfReach : ¬ InReach t.size fd) :
    FdContexts.lookup fd (2 ^ 31) tested t = .error .overflow := by
  have never : ¬ Fits (sizeT fd) t.size := fun fits =>
    outOfReach ((fits_sizeT_iff indexed.int).mp fits)
  have notHeld : ¬ tested.holds fd = true := fun held =>
    never ⟨0, (of_decide_eq_true held).trans_le earlier.length_le, .inl rfl⟩
  rcases indexed.growLoop_spec fd with ⟨fits, -⟩ | ⟨-, overflow⟩
  · exact absurd fits never
  · rw [FdContexts.lookup, if_neg notHeld, overflow]
    rfl

/-- `del_event`, `cancel_event` and `cancel_all` return at a negative descriptor. -/
theorem holds_eq_false_of_neg (indexed : Indexed t) (negative : fd.toInt < 0) :
    t.holds fd = false := by
  have large := le_sizeT_of_neg negative
  have int := indexed.int
  exact decide_eq_false (by omega)

end Lookup

/-! ### The table of contexts -/

/-- The list of the contexts that the vector points to. -/
def Views (t : FdContexts) (contexts : List FdContext) : Prop := ∀ i, contexts[i]? = t.entry i

/-- **The loop makes a table of two or more hold the descriptor.** -/
theorem lt_length_growLoop {fd fuel : Nat} {contexts : List FdContext} (two : 2 ≤ contexts.length)
    (enough : fd < contexts.length + fuel) : fd < (growLoop fd fuel contexts).length := by
  induction fuel generalizing contexts with
  | zero => exact enough
  | succ fuel ih =>
    unfold growLoop
    split
    next =>
      have resized := length_contextResize contexts (Nat.le_add_right _ (contexts.length / 2))
      exact ih (by omega) (by omega)
    next larger => exact Nat.not_le.mp larger

theorem grow_of_lt {fd : Nat} {contexts : List FdContext} (held : fd < contexts.length) :
    grow fd contexts = contexts := by
  rw [grow, growLoop, if_neg (Nat.not_le.mpr held)]

namespace Views

variable {t : FdContexts} {contexts : List FdContext}

theorem length_eq (views : Views t contexts) (indexed : Indexed t) :
    contexts.length = t.size := by
  refine Nat.le_antisymm ?_ ?_
  · refine List.getElem?_eq_none_iff.mp ?_
    have beyond : t.pointers[t.size]? = none := List.getElem?_eq_none (Nat.le_refl _)
    rw [views, FdContexts.entry, beyond]
    rfl
  · by_contra shorter
    obtain ⟨ctx, found, -⟩ := indexed.entry contexts.length (Nat.not_le.mp shorter)
    rw [← views, List.getElem?_eq_none (Nat.le_refl _)] at found
    cases found

/-- **`context_resize` on the vector is `contextResize` on the table.** -/
theorem extended (views : Views t contexts) (indexed : Indexed t) {size : Nat}
    (larger : t.size ≤ size) : Views (t.extended size) (contextResize contexts size) := by
  intro i
  have length := views.length_eq indexed
  rw [contextResize, List.take_of_length_le (length ▸ larger), length]
  by_cases old : i < t.size
  · obtain ⟨ctx, found, -⟩ := indexed.entry i old
    rw [List.getElem?_append_left (length ▸ old), views, found,
      FdContexts.entry_extended_of_some found]
  · have beyond := Nat.not_lt.mp old
    rw [List.getElem?_append_right (length ▸ beyond), length, List.getElem?_map]
    by_cases new : i < size
    · rw [List.getElem?_range' (by omega), FdContexts.entry_extended_of_le beyond new,
        Option.map_some, Nat.one_mul, Nat.add_sub_cancel' beyond]
    · have none : (t.extended size).pointers[i]? = none :=
        List.getElem?_eq_none ((FdContexts.size_extended larger).trans_le (Nat.not_lt.mp new))
      rw [List.getElem?_eq_none (by simp; omega), FdContexts.entry, none]
      rfl

/-- **The loop on the vector is the loop on the table.** -/
theorem growLoop {fd : Int32} {rounds fuel : Nat} {table : FdContexts} (views : Views t contexts)
    (indexed : Indexed t) (ended : t.growLoop fd rounds = .ok table)
    (enough : sizeT fd < contexts.length + fuel) :
    Indexed table ∧ Views table (growLoop (sizeT fd) fuel contexts) := by
  induction rounds generalizing t contexts fuel with
  | zero => cases ended
  | succ rounds ih =>
    have length := views.length_eq indexed
    rw [FdContexts.growLoop] at ended
    by_cases more : t.size ≤ sizeT fd
    · obtain ⟨fuel, rfl⟩ := Nat.exists_eq_add_one_of_ne_zero (show fuel ≠ 0 by omega)
      rw [if_pos more] at ended
      rw [EventTable.growLoop, if_pos (length ▸ more), length]
      have larger : t.size ≤ t.size + t.size / 2 := Nat.le_add_right _ _
      by_cases within : t.size + t.size / 2 < 2 ^ 31
      · rw [FdContexts.contextResize_eq indexed.nonNull larger within] at ended
        have resized : (contextResize contexts (t.size + t.size / 2)).length = _ :=
          length_contextResize contexts (length ▸ larger)
        have two := indexed.two
        exact ih (views.extended indexed larger) (indexed.extended larger within.le) ended
          (by omega)
      · rw [FdContexts.contextResize_overflow larger (Nat.not_lt.mp within)] at ended
        cases ended
    · rw [if_neg more] at ended
      cases ended
      have same : EventTable.growLoop (sizeT fd) fuel contexts = contexts := by
        cases fuel with
        | zero => rfl
        | succ fuel => rw [EventTable.growLoop, if_neg (length ▸ more)]
      rw [same]
      exact ⟨indexed, views⟩

/-- **`lookup` is `grow`**, and it finds the entry that the table has there. -/
theorem lookup {fd : Int32} {rounds a : Nat} {tested table : FdContexts}
    (views : Views t contexts) (indexed : Indexed t) (earlier : tested.pointers <+: t.pointers)
    (found : FdContexts.lookup fd rounds tested t = .ok (table, a)) :
    Indexed table ∧ Views table (grow (sizeT fd) contexts) ∧
      table.pointers[sizeT fd]? = some (some a) := by
  rcases FdContexts.lookup_cases found with ⟨held, rfl, context⟩ | ⟨-, ended, context⟩
  · have here : sizeT fd < tested.size := of_decide_eq_true held
    have pointer := FdContexts.context_eq_ok_iff.mp context
    have there : sizeT fd < contexts.length := by
      rw [views.length_eq indexed]
      exact here.trans_le earlier.length_le
    rw [grow_of_lt there]
    exact ⟨indexed, views, (FdContexts.pointer_of_earlier earlier here).symm.trans pointer⟩
  · obtain ⟨indexed', views'⟩ :=
      views.growLoop indexed ended (show sizeT fd < contexts.length + (sizeT fd + 1) by omega)
    exact ⟨indexed', views', FdContexts.context_eq_ok_iff.mp context⟩

/-- **A write to a context is a write to its entry**: no other entry points to it, since each has its
own index. -/
theorem write {i a : Nat} {ctx changed : FdContext} (views : Views t contexts)
    (indexed : Indexed t) (pointer : t.pointers[i]? = some (some a))
    (object : t.objects[a]? = some ctx) (sameFd : changed.fd = ctx.fd) :
    Indexed { t with objects := t.objects.set a changed } ∧
      Views { t with objects := t.objects.set a changed } (contexts.set i changed) := by
  have within : i < t.size := (List.getElem?_eq_some_iff.mp pointer).1
  have allocated : a < t.objects.length := (List.getElem?_eq_some_iff.mp object).1
  have here : t.entry i = some ctx := FdContexts.entry_eq_some_iff.mpr ⟨a, pointer, object⟩
  have own : ctx.fd = i := by
    obtain ⟨found, same, own⟩ := indexed.entry i within
    rw [here] at same
    cases same
    exact own
  have written : ({ t with objects := t.objects.set a changed } : FdContexts).entry i =
      some changed :=
    FdContexts.entry_eq_some_iff.mpr ⟨a, pointer, List.getElem?_set_self allocated⟩
  have kept : ∀ j ≠ i, j < t.size →
      ({ t with objects := t.objects.set a changed } : FdContexts).entry j = t.entry j := by
    intro j other inside
    obtain ⟨found, same, ownJ⟩ := indexed.entry j inside
    obtain ⟨b, pointerJ, objectJ⟩ := FdContexts.entry_eq_some_iff.mp same
    have apart : a ≠ b := by
      rintro rfl
      rw [object] at objectJ
      cases objectJ
      exact other (ownJ.symm.trans own)
    rw [same]
    exact FdContexts.entry_eq_some_iff.mpr
      ⟨b, pointerJ, (List.getElem?_set_ne apart).trans objectJ⟩
  constructor
  · refine ⟨indexed.two, indexed.int, fun j inside => ?_⟩
    by_cases same : j = i
    · subst same
      exact ⟨changed, written, sameFd.trans own⟩
    · rw [kept j same inside]
      exact indexed.entry j inside
  · intro j
    by_cases same : j = i
    · subst same
      rw [written, List.getElem?_set_self (by rwa [views.length_eq indexed])]
    · rw [List.getElem?_set_ne (Ne.symm same), views j]
      by_cases inside : j < t.size
      · exact (kept j same inside).symm
      · have none : t.pointers[j]? = none := List.getElem?_eq_none (Nat.not_lt.mp inside)
        rw [FdContexts.entry, FdContexts.entry, none]
        rfl

end Views

/-- What fills a slot keeps the descriptor. -/
theorem fd_of_fillSlot {added changed : FdContext} {event : Event} {cb : Option Callback}
    {caller : Caller} (filled : fillSlot added event cb caller = some changed) :
    changed.fd = added.fd := by
  unfold fillSlot at filled
  split at filled
  next => cases filled
  next =>
    split at filled
    next => cases filled
    next =>
      cases filled
      cases event <;> rfl

section Table

variable {m : IOManager} {fd : Nat} {event : Event} {cb : Option Callback} {caller : Caller}
  {fault : Bool} {ctx : FdContext}

/-- `add_event` on the table, where `epoll_ctl` fails. -/
theorem perform_addEvent_of_none (entry : (grow fd m.fdContexts)[fd]? = some ctx)
    (clear : ctx.events.has event = false)
    (failed : epollCtl m.interest (if ctx.events ≠ 0 then .mod else .add) fd
      (epollEt ||| (ctx.events ||| event.bit)) fault = none) :
    perform m fault (.addEvent fd event cb caller) =
      some { m with fdContexts := grow fd m.fdContexts } := by
  have called : m.addEventCtl fd event fault =
      some ({ m with fdContexts := grow fd m.fdContexts }, false) := by
    simp only [IOManager.addEventCtl, entry, Option.bind_eq_bind, Option.bind_some, clear,
      Bool.false_eq_true, if_false, failed]
  rw [perform, ctl, called]
  rfl

/-- `add_event` on the table, where `epoll_ctl` succeeds and no assertion fails. -/
theorem perform_addEvent_of_some {interest : Interest} {changed : FdContext}
    (entry : (grow fd m.fdContexts)[fd]? = some ctx) (clear : ctx.events.has event = false)
    (succeeded : epollCtl m.interest (if ctx.events ≠ 0 then .mod else .add) fd
      (epollEt ||| (ctx.events ||| event.bit)) fault = some interest)
    (filled : fillSlot { ctx with events := ctx.events ||| event.bit } event cb caller =
      some changed) :
    perform m fault (.addEvent fd event cb caller) =
      some { m with
        fdContexts := (grow fd m.fdContexts).set fd changed
        pendingEventCount := m.pendingEventCount + 1
        interest := interest } := by
  have called : m.addEventCtl fd event fault =
      some ({ m with fdContexts := grow fd m.fdContexts, interest := interest }, true) := by
    simp only [IOManager.addEventCtl, entry, Option.bind_eq_bind, Option.bind_some, clear,
      Bool.false_eq_true, if_false, succeeded]
  rw [perform, ctl, called]
  simp only [Option.bind_eq_bind, Option.map_some, Option.bind_some, if_true, commit,
    IOManager.addEventCommit, entry]
  unfold fillSlot at filled
  split at filled
  next => cases filled
  next empty =>
    split at filled
    next => cases filled
    next executing =>
      cases filled
      rw [if_neg empty]
      cases cb with
      | some cb => rfl
      | none =>
        have state : caller.state = .exec := by simpa using executing
        simp only [if_pos state]
        rfl

end Table

/-! ### `add_event` -/

section AddEvent

variable {m m' : Members} {tested : FdContexts} {rounds : Nat} {fd : Int32} {event : Event}
  {cb : Option Callback} {caller : Caller} {fault : Bool} {result : Int}

/-- **What a call that returned has done.** -/
theorem addEvent_cases
    (called : addEvent m tested rounds fd event cb caller fault = .ok (m', result)) :
    ∃ table a ctx, FdContexts.lookup fd rounds tested m.fdContexts = .ok (table, a) ∧
      table.objects[a]? = some ctx ∧ ctx.events.has event = false ∧
      ((result = -1 ∧ m' = { m with fdContexts := table } ∧
          epollCtl m.interest (if ctx.events ≠ 0 then .mod else .add) fd.toInt.toNat
            (epollEt ||| (ctx.events ||| event.bit)) fault = none) ∨
        ∃ interest changed, result = 0 ∧
          epollCtl m.interest (if ctx.events ≠ 0 then .mod else .add) fd.toInt.toNat
            (epollEt ||| (ctx.events ||| event.bit)) fault = some interest ∧
          fillSlot { ctx with events := ctx.events ||| event.bit } event cb caller =
            some changed ∧
          m' = ⟨{ table with objects := table.objects.set a changed }, m.pendingEventCount + 1,
            interest⟩) := by
  obtain ⟨⟨table, a⟩, found, called⟩ := bind_eq_ok called
  dsimp only at called
  split at called
  next => cases called
  next ctx object =>
    refine ⟨table, a, ctx, found, object, ?_⟩
    split at called
    next => cases called
    next clear =>
      refine ⟨Bool.eq_false_iff.mpr clear, ?_⟩
      split at called
      next failed =>
        cases called
        exact .inl ⟨rfl, rfl, failed⟩
      next interest succeeded =>
        split at called
        next => cases called
        next changed filled =>
          cases called
          exact .inr ⟨interest, changed, rfl, succeeded, filled, rfl⟩

/-- The rest of the call leaves the vector and the other contexts. -/
theorem addEvent_frame {table : FdContexts} {a : Nat}
    (called : addEvent m tested rounds fd event cb caller fault = .ok (m', result))
    (found : FdContexts.lookup fd rounds tested m.fdContexts = .ok (table, a)) :
    m'.fdContexts.pointers = table.pointers ∧
      ∀ b ≠ a, m'.fdContexts.objects[b]? = table.objects[b]? := by
  obtain ⟨table', a', ctx, found', -, -, rest⟩ := addEvent_cases called
  rw [found] at found'
  cases found'
  rcases rest with ⟨-, rfl, -⟩ | ⟨interest, changed, -, -, -, rfl⟩
  · exact ⟨rfl, fun _ _ => rfl⟩
  · exact ⟨rfl, fun b other => List.getElem?_set_ne other.symm⟩

/-- **`add_event` on pointers is `add_event` on the table of contexts.** -/
theorem addEvent_refines {contexts : List FdContext} {scheduled : List Scheduled}
    (indexed : Indexed m.fdContexts) (earlier : tested.pointers <+: m.fdContexts.pointers)
    (views : Views m.fdContexts contexts)
    (called : addEvent m tested rounds fd event cb caller fault = .ok (m', result)) :
    Indexed m'.fdContexts ∧ ∃ contexts', Views m'.fdContexts contexts' ∧
      perform ⟨contexts, m.pendingEventCount, m.interest, scheduled⟩ fault
          (.addEvent fd.toInt.toNat event cb caller) =
        some ⟨contexts', m'.pendingEventCount, m'.interest, scheduled⟩ := by
  obtain ⟨table, a, ctx, found, object, clear, rest⟩ := addEvent_cases called
  have nonneg := (inReach_of_lookup indexed earlier found).1
  obtain ⟨indexed', views', pointer⟩ := views.lookup indexed earlier found
  rw [sizeT_of_nonneg nonneg] at views' pointer
  have entry : (grow fd.toInt.toNat contexts)[fd.toInt.toNat]? = some ctx := by
    rw [views', FdContexts.entry_eq_some_iff.mpr ⟨a, pointer, object⟩]
  rcases rest with ⟨rfl, rfl, failed⟩ | ⟨interest, changed, rfl, succeeded, filled, rfl⟩
  · exact ⟨indexed', _, views', perform_addEvent_of_none entry clear failed⟩
  · have sameFd := fd_of_fillSlot filled
    obtain ⟨written, viewed⟩ := views'.write indexed' pointer object sameFd
    exact ⟨written, _, viewed, perform_addEvent_of_some entry clear succeeded filled⟩

/-- **No call takes a pointer away**: the vector tested under the shared lock is a prefix of the one
under the exclusive lock, whoever has called in between. -/
theorem prefix_of_addEvent (indexed : Indexed m.fdContexts)
    (called : addEvent m tested rounds fd event cb caller fault = .ok (m', result)) :
    m.fdContexts.pointers <+: m'.fdContexts.pointers := by
  obtain ⟨table, a, ctx, found, -⟩ := addEvent_cases called
  rw [(addEvent_frame called found).1]
  rcases FdContexts.lookup_cases found with ⟨-, rfl, -⟩ | ⟨-, ended, -⟩
  · exact List.prefix_rfl
  · obtain ⟨-, size, rfl⟩ := indexed.growLoop_ok ended
    exact List.prefix_append _ _

/-! ### Main result -/

/-- A call as asked has ended its loop. -/
theorem inReach_of_proper (indexed : Indexed m.fdContexts)
    (earlier : tested.pointers <+: m.fdContexts.pointers)
    (proper : Proper m tested fd event cb caller fault) : InReach m.fdContexts.size fd := by
  obtain ⟨rounds, ⟨m', called, -⟩ | ⟨table, a, found, -, -⟩⟩ := proper
  · obtain ⟨table, a, ctx, found, -⟩ := addEvent_cases called
    exact inReach_of_lookup indexed earlier found
  · exact inReach_of_lookup indexed earlier found

/-- **`add_event` grows the table as asked exactly for a descriptor in reach.** -/
theorem proper_iff_inReach (indexed : Indexed m.fdContexts)
    (earlier : tested.pointers <+: m.fdContexts.pointers) :
    Proper m tested fd event cb caller fault ↔ InReach m.fdContexts.size fd := by
  constructor
  · exact inReach_of_proper indexed earlier
  · intro inReach
    obtain ⟨size, a, -, grown, found⟩ := lookup_of_inReach indexed earlier inReach
    exact ⟨2 ^ 31, .inr ⟨_, a, found, grown, fun m' result called => addEvent_frame called found⟩⟩

end AddEvent

/-! ### A new manager -/

theorem initial_eq : (⟨[], []⟩ : FdContexts).contextResize 32 = some .initial := by decide

theorem indexed_initial : Indexed .initial where
  two := by decide
  int := by decide
  entry i within := by
    have all : ∀ i < 32, FdContexts.initial.entry i = some { fd := i } := by decide
    exact ⟨_, all i within, rfl⟩

/-- Two rounds make room for the descriptor 50. -/
theorem proper_fifty :
    (Proper .initial .initial 50 .read none ⟨some 0, 0, .exec⟩ false ↔
      InReach FdContexts.initial.size 50) ∧ InReach FdContexts.initial.size 50 :=
  ⟨proper_iff_inReach indexed_initial List.prefix_rfl,
    by decide, 2, by decide, .inr (by decide)⟩

/-- **A negative descriptor is not rejected.** The vector holds no -1 for `del_event`, and in
`add_event` it grows until an index overflows. -/
theorem negative_grows :
    FdContexts.initial.holds (-1) = false ∧
      FdContexts.lookup (-1) (2 ^ 31) .initial .initial = .error .overflow ∧
      ¬ Proper .initial .initial (-1) .read none ⟨some 0, 0, .exec⟩ false := by
  have outOfReach : ¬ InReach FdContexts.initial.size (-1) := fun inReach =>
    absurd inReach.1 (by decide)
  exact ⟨holds_eq_false_of_neg indexed_initial (by decide),
    lookup_overflow indexed_initial List.prefix_rfl outOfReach,
    fun proper => outOfReach (inReach_of_proper indexed_initial List.prefix_rfl proper)⟩

end Sylar.EventTable
