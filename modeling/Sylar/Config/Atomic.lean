/-
**A change of a variable, all of it or none.**

`fromString` catches what the conversion throws, and what a listener throws. The first comes before
anything was done; a listener throws when those before it in `m_cbs`, and it itself, have been told
of a value that is then not assigned.

* `Changed`, `Untouched` — what a call that returns `true`, or `false`, is to leave.
* `Quiet` — **the condition**: no listener throws at the change that the text comes to.
* `fromString_cases` — how a call goes: by what is thrown, and by whom.
* `all_or_nothing_iff` — **a change is all or nothing exactly when it is quiet**.
-/

import Sylar.Config.Var

namespace Sylar.Config

/-- Whom a listener that throws leaves told: the first one in any case. -/
theorem exists_told {T : Type} {old new : T} {cbs : List (Listener T)}
    (throws : ¬ ∀ i ∈ cbs, i.returns old new = true) :
    ∃ c ∈ (callAll old new cbs).1, c.new = new := by
  cases cbs with
  | nil => exact absurd (fun _ member => absurd member List.not_mem_nil) throws
  | cons i rest =>
    obtain ⟨later, calls, -⟩ := callAll_cons old new i rest
    rw [calls]
    exact ⟨_, List.mem_cons_self, rfl⟩

variable {T : Type} [DecidableEq T]

/-! ### All or nothing -/

/-- Every listener was told once of the change to `new`, and it is the value. -/
def Changed (v v' : ConfigVar T) (new : T) : Prop :=
  v'.val = new ∧ ∃ calls, v'.called = v.called ++ calls ∧
    ∀ i ∈ v.cbs, calls.filter (·.key = i.key) = [⟨i.key, v.val, new⟩]

/-- The value is what it was, and nobody was told of another one. -/
def Untouched (v v' : ConfigVar T) : Prop :=
  v'.val = v.val ∧ ∃ calls, v'.called = v.called ++ calls ∧ ∀ c ∈ calls, c.new = v'.val

/-- A call of `fromString` changes the variable and tells everybody, or neither. -/
def AllOrNothing (cast : String → Option T) (v : ConfigVar T) (val : String) : Prop :=
  let (v', returned) := v.fromString cast val
  (returned = true → ∀ new, cast val = some new → new ≠ v.val → Changed v v' new) ∧
    (returned = false → Untouched v v')

/-- **The condition**: no listener throws at the change. -/
def Quiet (cast : String → Option T) (v : ConfigVar T) (val : String) : Prop :=
  ∀ new, cast val = some new → new ≠ v.val → ∀ i ∈ v.cbs, i.returns v.val new = true

/-! ### One call -/

section Call

variable {cast : String → Option T} {v : ConfigVar T} {val : String}

/-- **How a call goes**: the conversion throws; the value is there already; every listener is told,
and then the value assigned; or a listener throws. -/
theorem fromString_cases (cast : String → Option T) (v : ConfigVar T) (val : String) :
    cast val = none ∧ v.fromString cast val = (v, false) ∨
    cast val = some v.val ∧ v.fromString cast val = (v, true) ∨
    ∃ new, cast val = some new ∧ new ≠ v.val ∧
      ((∀ i ∈ v.cbs, i.returns v.val new = true) ∧
        v.fromString cast val =
          ({ v with val := new, called := v.called ++ v.cbs.map fun i => ⟨i.key, v.val, new⟩ },
            true) ∨
      (¬ ∀ i ∈ v.cbs, i.returns v.val new = true) ∧
        v.fromString cast val =
          ({ v with called := v.called ++ (callAll v.val new v.cbs).1 }, false)) := by
  unfold ConfigVar.fromString
  cases converted : cast val with
  | none => exact .inl ⟨rfl, rfl⟩
  | some new =>
    right
    unfold ConfigVar.setValue
    rcases v.notify_cases new with ⟨rfl, notify⟩ | ⟨differs, returns, notify⟩ |
      ⟨differs, throws, notify⟩
    · exact .inl ⟨rfl, by simp only [notify]⟩
    · exact .inr ⟨new, rfl, differs, .inl ⟨returns, by simp only [notify, ConfigVar.assign]⟩⟩
    · exact .inr ⟨new, rfl, differs, .inr ⟨throws, by simp only [notify]⟩⟩

/-- **A change is all or nothing** if and only if no listener throws at it. -/
theorem all_or_nothing_iff (cast : String → Option T) (v : ConfigVar T) (val : String) :
    AllOrNothing cast v val ↔ Quiet cast v val := by
  unfold AllOrNothing Quiet
  rcases fromString_cases cast v val with ⟨failed, call⟩ | ⟨same, call⟩ |
    ⟨new, converted, differs, ⟨returns, call⟩ | ⟨throws, call⟩⟩
  · -- nothing was done
    rw [call, failed]
    exact iff_of_true ⟨nofun, fun _ => ⟨rfl, [], (List.append_nil _).symm, nofun⟩⟩ nofun
  · rw [call, same]
    refine iff_of_true ⟨?_, nofun⟩ ?_
    · rintro - new ⟨⟩ differs
      exact absurd rfl differs
    · rintro new ⟨⟩ differs
      exact absurd rfl differs
  · rw [call, converted]
    refine iff_of_true ⟨?_, nofun⟩ ?_
    · rintro - new ⟨⟩ -
      exact ⟨rfl, _, rfl, fun i member => filter_key v.distinct member⟩
    · rintro new ⟨⟩ -
      exact returns
  · -- somebody was told of the value that was not assigned
    rw [call, converted]
    refine iff_of_false ?_ fun quiet => throws (quiet new rfl differs)
    rintro ⟨-, nothing⟩
    obtain ⟨-, calls, same, installed⟩ := nothing rfl
    obtain rfl := List.append_cancel_left same
    obtain ⟨c, told, value⟩ := exists_told throws
    exact differs (value.symm.trans (installed c told))

end Call

/-- Two listeners, the second of which throws at 8. -/
def throwsAt8 : ConfigVar Nat :=
  { ConfigVar.new "system.value" 7 "" with
    cbs := [⟨1, fun _ _ => true⟩, ⟨2, fun _ new => new ≠ 8⟩], distinct := by decide }

/-- **The first listener has been told of 8**, and the value is still 7. -/
theorem told_not_assigned :
    throwsAt8.fromString (fun _ => some 8) "8" =
        ({ throwsAt8 with called := [⟨1, 7, 8⟩, ⟨2, 7, 8⟩] }, false) ∧
      ¬ AllOrNothing (fun _ => some 8) throwsAt8 "8" := by
  refine ⟨rfl, fun atomic => ?_⟩
  obtain ⟨-, calls, same, installed⟩ := atomic.2 rfl
  have told : (⟨1, 7, 8⟩ : Notice Nat) ∈ calls := by
    obtain rfl : [⟨1, 7, 8⟩, ⟨2, 7, 8⟩] = calls := same
    exact List.mem_cons_self
  exact absurd (installed _ told) (by decide)

end Sylar.Config
