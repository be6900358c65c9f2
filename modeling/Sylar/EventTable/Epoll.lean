/-
**Event masks, and `epoll_ctl` on the interest list.**

* `Mask` — `epoll_event::events`, and `m_events` (whose values are sets of `IOManager::Event`).
* `Mask.has` — the test `mask & event`.
* `Known` — the masks made of `READ` and `WRITE` only: the values `m_events` can have. `Known.has_or`
  and `Known.has_diff` say what the code's mask arithmetic does to such a set.
* `epollCtl` — the kernel: `EPOLL_CTL_ADD` of a descriptor in the list fails, so do `MOD` and `DEL`
  of one that is not, and any call may fail without effect. `epollCtl_raise` and `epollCtl_lower`:
  with the operation the code picks, a call that succeeds leaves the interest it asked for.
-/

import Mathlib.Logic.Function.Basic

namespace Sylar.EventTable

/-- A bit mask. -/
abbrev Mask := UInt32

/-- `EPOLLIN`. -/
def epollIn : Mask := 0x1

/-- `EPOLLOUT`. -/
def epollOut : Mask := 0x4

/-- `EPOLLERR`. -/
def epollErr : Mask := 0x8

/-- `EPOLLHUP`. -/
def epollHup : Mask := 0x10

/-- `EPOLLET`. -/
def epollEt : Mask := 0x80000000

/-- `IOManager::Event`, as the argument of a call. -/
inductive Event
  | read
  | write
deriving DecidableEq

/-- `READ` and `WRITE`. -/
def Event.bit : Event → Mask
  | .read => 0x1
  | .write => 0x4

/-- `mask & event`, as a condition. -/
def Mask.has (mask : Mask) (event : Event) : Bool := mask &&& event.bit != 0

/-- The mask without an event, if that is one of those asked for. -/
def Mask.without (mask asked : Mask) (event : Event) : Mask :=
  if asked.has event then mask &&& ~~~event.bit else mask

/-! ### Sets of events -/

/-- The sets of events: `NONE`, `READ`, `WRITE`, and both. -/
def Known (mask : Mask) : Prop := mask = 0 ∨ mask = 1 ∨ mask = 4 ∨ mask = 5

instance : DecidablePred Known := fun _ => inferInstanceAs (Decidable (_ ∨ _))

namespace Known

variable {mask other : Mask}

/-- Setting a bit gives a set of events. -/
theorem or (known : Known mask) (event : Event) : Known (mask ||| event.bit) := by
  rcases known with rfl | rfl | rfl | rfl <;> cases event <;> decide

/-- **Setting a bit** sets it and no other. -/
theorem has_or (known : Known mask) (event asked : Event) :
    (mask ||| event.bit).has asked = (mask.has asked || decide (asked = event)) := by
  rcases known with rfl | rfl | rfl | rfl <;> cases event <;> cases asked <;> rfl

theorem or_ne_zero (known : Known mask) (event : Event) : mask ||| event.bit ≠ 0 := by
  rcases known with rfl | rfl | rfl | rfl <;> cases event <;> decide

/-- Clearing a bit gives a set of events. -/
theorem diff (known : Known mask) (event : Event) : Known (mask &&& ~~~event.bit) := by
  rcases known with rfl | rfl | rfl | rfl <;> cases event <;> decide

/-- **Clearing a bit** clears it and no other. -/
theorem has_diff (known : Known mask) (event asked : Event) :
    (mask &&& ~~~event.bit).has asked = (mask.has asked && decide (asked ≠ event)) := by
  rcases known with rfl | rfl | rfl | rfl <;> cases event <;> cases asked <;> rfl

/-- Clearing sets no bit. -/
theorem has_of_has_diff (known : Known mask) {event asked : Event}
    (has : (mask &&& ~~~event.bit).has asked = true) : mask.has asked = true := by
  rw [known.has_diff, Bool.and_eq_true] at has
  exact has.1

/-- Clearing sets no bit. -/
theorem has_of_has_without (known : Known mask) {event asked : Event}
    (has : (mask.without other event).has asked = true) : mask.has asked = true := by
  unfold Mask.without at has
  split at has
  next => exact known.has_of_has_diff has
  next => exact has

/-- Clearing `READ` leaves `WRITE` as it is. -/
theorem has_write_without (known : Known mask) (other : Mask) :
    (mask.without other .read).has .write = mask.has .write := by
  unfold Mask.without
  split
  · rw [known.has_diff]
    simp
  · rfl

theorem without (known : Known mask) (other : Mask) (event : Event) :
    Known (mask.without other event) := by
  unfold Mask.without
  split
  · exact known.diff event
  · exact known

/-- Clearing the bits of a set one by one. -/
theorem without_both (known : Known mask) (known' : Known other) :
    (mask.without other .read).without other .write = mask &&& ~~~other := by
  rcases known with rfl | rfl | rfl | rfl <;> rcases known' with rfl | rfl | rfl | rfl <;> rfl

end Known

/-- How many events a mask names. -/
def Mask.count (mask : Mask) : Nat := (mask.has .read).toNat + (mask.has .write).toNat

theorem Mask.count_le (mask : Mask) : mask.count ≤ 2 := by
  unfold Mask.count
  cases mask.has .read <;> cases mask.has .write <;> decide

/-- Setting a bit that was clear. -/
theorem Known.count_or {mask : Mask} (known : Known mask) {event : Event}
    (clear : mask.has event = false) : (mask ||| event.bit).count = mask.count + 1 := by
  rcases known with rfl | rfl | rfl | rfl <;> cases event <;> first | rfl | cases clear

/-- A set that lost one event at most, and counts one less, lost just that. -/
theorem Known.eq_diff {mask left : Mask} (known : Known mask) (known' : Known left) {event : Event}
    (absent : left.has event = false) (fewer : mask.count = left.count + 1)
    (others : ∀ asked, asked ≠ event → mask.has asked = true → left.has asked = true) :
    mask.has event = true ∧ left = mask &&& ~~~event.bit := by
  have read := others .read
  have write := others .write
  clear others
  rcases known with rfl | rfl | rfl | rfl <;> rcases known' with rfl | rfl | rfl | rfl <;>
    cases event <;> revert absent fewer read write <;> decide

/-- Clearing a bit that was set. -/
theorem Known.count_diff {mask : Mask} (known : Known mask) {event : Event}
    (set : mask.has event = true) : (mask &&& ~~~event.bit).count + 1 = mask.count := by
  rcases known with rfl | rfl | rfl | rfl <;> cases event <;> first | rfl | cases set

/-! ### The kernel's interest list -/

/-- `EPOLL_CTL_ADD`, `EPOLL_CTL_MOD`, `EPOLL_CTL_DEL`. -/
inductive EpollOp
  | add
  | mod
  | del
deriving DecidableEq

/-- The interest list of an epoll instance. -/
abbrev Interest := Nat → Option Mask

/-- `epoll_ctl`: the new list, or `none` when the call fails. `fault`: it fails whatever the list. -/
def epollCtl (interest : Interest) (op : EpollOp) (fd : Nat) (events : Mask) (fault : Bool) :
    Option Interest :=
  if fault then none
  else
    match op, interest fd with
    | .add, none => some (Function.update interest fd (some events))
    | .mod, some _ => some (Function.update interest fd (some events))
    | .del, some _ => some (Function.update interest fd none)
    | _, _ => none

/-- **The interest in a set of events**: edge-triggered, and absent for `NONE`. -/
def interestIn (events : Mask) : Option Mask :=
  if events = 0 then none else some (epollEt ||| events)

/-- From one set of events to a larger one, with the operation the code picks. -/
theorem epollCtl_raise {interest interest' : Interest} {fd : Nat} {events more : Mask}
    {fault : Bool} (current : interest fd = interestIn events) (some' : more ≠ 0)
    (called : epollCtl interest (if events ≠ 0 then .mod else .add) fd (epollEt ||| more) fault =
      some interest') : interest' = Function.update interest fd (interestIn more) := by
  unfold epollCtl at called
  rw [current] at called
  by_cases empty : events = 0
  · subst empty
    cases fault <;> simp_all [interestIn]
  · cases fault <;> simp_all [interestIn]

/-- From one set of events to a smaller one, with the operation the code picks. -/
theorem epollCtl_lower {interest interest' : Interest} {fd : Nat} {left : Mask} {fault : Bool}
    (called : epollCtl interest (if left ≠ 0 then .mod else .del) fd (epollEt ||| left) fault =
      some interest') : interest' = Function.update interest fd (interestIn left) := by
  unfold epollCtl at called
  by_cases empty : left = 0
  · subst empty
    cases fault <;> cases current : interest fd <;> simp_all [interestIn]
  · cases fault <;> cases current : interest fd <;> simp_all [interestIn]

/-- Off the list. -/
theorem epollCtl_del {interest interest' : Interest} {fd : Nat} {events : Mask} {fault : Bool}
    (called : epollCtl interest .del fd events fault = some interest') :
    interest' = Function.update interest fd (interestIn 0) := by
  unfold epollCtl at called
  cases fault <;> cases current : interest fd <;> simp_all [interestIn]

end Sylar.EventTable
