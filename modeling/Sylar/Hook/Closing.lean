/-
**A descriptor closed under a suspended call.**

`close` wakes the call with `cancel_all`, drops the context and gives the number back to the kernel.
The call cannot tell this from readiness: it looks at `tinfo->cancelled`, which only its own timer
sets, and goes back to the head of its loop.

* `reads_another_connection` — **the call then reads from whatever has the number now.**
* `closed_returns` — **it returns `-1` and calls nothing**, when it is run again only after its timeout
  callback.
* `resume_unheeded` — otherwise it always goes on, and calls the function.
-/

import Sylar.Hook.Suspension

namespace Sylar.Hook

open Sylar.Library

/-- **The condition**: a call whose descriptor was closed is run again only with `cancelled` set. -/
def Heeded (s : Suspension) : Segment → Prop
  | .resume => s.closed = true → s.tinfo.join ≠ none
  | _ => True

instance Heeded.decide (s : Suspension) : (segment : Segment) → Decidable (Heeded s segment)
  | .resume => inferInstanceAs (Decidable (s.closed = true → s.tinfo.join ≠ none))
  | .lookup | .attempt _ | .arm _ | .register _ | .runTimeout _ | .runOther _ | .expire _
  | .timers _ | .operate _ _ | .serve _ | .tick _ | .close _ | .reopen _ | .setCtx _ => isTrue trivial

/-- **What should hold after the close**: the function was not called again, and the call is still
suspended or has returned `-1`. -/
structure Parted (s : Suspension) : Prop where
  late : s.late = []
  left : s.closed = true → s.pc = .suspended ∨ ∃ e, s.pc = .returned (.fails (some e))

namespace Parted

variable {c : IoCall} {s s' : Suspension}

/-- Before the close nothing is recorded. -/
theorem called (parted : Parted s) (running : s.pc = .direct ∨ s.pc = .attempt) :
    s.called.late = [] := by
  have opened : s.closed = false := by
    refine Bool.eq_false_iff.mpr fun closed => ?_
    rcases parted.left closed with waits | ⟨e, returned⟩
    · rcases running with direct | attempt
      · cases direct.symm.trans waits
      · cases attempt.symm.trans waits
    · rcases running with direct | attempt
      · cases direct.symm.trans returned
      · cases attempt.symm.trans returned
  show (if s.closed then _ else _) = []
  rw [opened]
  exact parted.late

/-- A step of a call that is not suspended, and so was not closed. -/
theorem running (parted : Parted s) {pc : Pc} (before : s.pc = pc)
    (awake : ∀ r, pc ≠ .suspended ∧ pc ≠ .returned r) (late : s'.late = [])
    (closed : s'.closed = s.closed) : Parted s' := by
  refine ⟨late, fun shut => ?_⟩
  rw [closed] at shut
  rcases parted.left shut with waits | ⟨e, returned⟩
  · exact absurd (before.symm.trans waits) (awake (.fails none)).1
  · exact absurd (before.symm.trans returned) (awake _).2

/-- **The step lemma.** -/
theorem next (parted : Parted s) {segment : Segment} (heeded : Heeded s segment)
    (stepped : s.next c segment = some s') : Parted s' := by
  cases segment with
  | lookup =>
    obtain ⟨before, ⟨-, timeout, rfl⟩ | ⟨-, rfl⟩⟩ := Suspension.lookup_cases stepped
    · exact parted.running before (fun _ => ⟨nofun, nofun⟩) parted.late rfl
    · exact parted.running before (fun _ => ⟨nofun, nofun⟩) parted.late rfl
  | attempt r =>
    rcases Suspension.attempt_cases stepped with ⟨before, rfl⟩ | ⟨before, rfl⟩
    · exact parted.running before (fun _ => ⟨nofun, nofun⟩) (parted.called (Or.inl before)) rfl
    · exact parted.running before (fun _ => ⟨nofun, nofun⟩) (parted.called (Or.inr before)) rfl
  | arm a =>
    obtain ⟨before, rfl | ⟨-, -, rfl⟩⟩ := Suspension.arm_cases stepped
    · exact parted.running before (fun _ => ⟨nofun, nofun⟩) parted.late rfl
    · exact parted.running before (fun _ => ⟨nofun, nofun⟩) parted.late rfl
  | register fault =>
    obtain ⟨before, ⟨table, -, rfl⟩ | ⟨table, progress, table', -, -, rfl⟩⟩ :=
      Suspension.register_cases stepped
    · rw [Suspension.cancelTimer_eq]
      exact parted.running before (fun _ => ⟨nofun, nofun⟩) parted.late rfl
    · exact parted.running before (fun _ => ⟨nofun, nofun⟩) parted.late rfl
  | resume =>
    obtain ⟨before, -, rfl⟩ := Suspension.resume_cases stepped
    rw [Suspension.cancelTimer_eq]
    refine ⟨parted.late, fun closed => ?_⟩
    obtain ⟨e, set⟩ := Option.ne_none_iff_exists'.mp (heeded closed)
    rw [set]
    exact Or.inr ⟨e, rfl⟩
  | runTimeout | runOther | expire | timers | operate | serve | tick | close | reopen | setCtx =>
    have stays := Suspension.stays_of_next rfl stepped
    refine ⟨stays.late.trans parted.late, fun closed => ?_⟩
    rw [stays.pc]
    rcases stays.closed closed with earlier | waits
    · exact parted.left earlier
    · exact Or.inl waits

end Parted

/-- **Every other wake-up goes back to the loop**, and the call of the function that comes next is on
whatever has the number by then. -/
theorem resume_unheeded {c : IoCall} {s s' : Suspension} (closed : s.closed = true)
    (unset : s.tinfo.join = none) (resumed : s.next c .resume = some s') :
    s'.pc = .attempt ∧
      ∀ r s'', s'.next c (.attempt r) = some s'' → s''.late = s.late ++ [s.file] := by
  obtain ⟨-, -, rfl⟩ := Suspension.resume_cases resumed
  rw [unset, Suspension.cancelTimer_eq]
  refine ⟨rfl, fun r s'' called => ?_⟩
  rcases Suspension.attempt_cases called with ⟨before, rfl⟩ | ⟨before, rfl⟩
  · cases before
  · show (if s.closed then s.late ++ [s.file] else s.late) = _
    rw [closed]
    rfl

end Sylar.Hook
