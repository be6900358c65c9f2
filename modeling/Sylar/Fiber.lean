/-
**Fibers and tasks: what the other modules share of `fiber.h` and `scheduler.h`.**
-/

import Mathlib.Data.Option.Basic

namespace Sylar

/-- A fiber object. -/
abbrev FiberId := Nat

/-- A non-empty `std::function<void()>`. -/
abbrev Callback := Nat

/-- `Fiber::State`. -/
inductive State
  | init
  | hold
  | exec
  | term
  | ready
  | excpt
deriving DecidableEq

/-- `std::variant<Fiber::ptr, std::function<void()>>`; `none` is the null pointer, or the empty
function. -/
inductive FiberOrCb
  | fiber (f : Option FiberId)
  | cb (c : Option Callback)
deriving DecidableEq

/-- The fiber a task is. -/
def FiberOrCb.names : FiberOrCb → Option FiberId
  | .fiber f => f
  | .cb _ => none

/-- The task is there: not a null pointer, not an empty function. -/
def FiberOrCb.nonEmpty : FiberOrCb → Bool
  | .fiber f => f.isSome
  | .cb c => c.isSome

end Sylar
