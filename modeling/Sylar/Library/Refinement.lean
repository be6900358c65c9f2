/-
**Refinement backwards: what a state stands for.**

An abstract machine may settle early what a concrete one finds out later, such as the value of a
read that is still to come. A concrete state then stands for several abstract states, one for each
way things can go on.

* `ReachableWhen.backward` — **the rule**: if whatever the state after a step stands for can be
  reached from something that the state before it stands for, then everything that a reached state
  stands for is reached.
-/

import Sylar.Library.Machine

namespace Sylar.Library.Machine

variable {σ ε τ δ : Type} {concrete : Machine σ ε} {abstract : Machine τ δ}
  {ok : σ → ε → Prop} {meets : τ → δ → Prop} {stands : σ → τ → Prop}

/-- **Backward simulation.** -/
theorem ReachableWhen.backward (starts : ∀ s p, concrete.start s → stands s p → abstract.start p)
    (steps : ∀ s e s' p', concrete.ReachableWhen ok s → ok s e → concrete.step s e = some s' →
      stands s' p' →
        ∃ p, stands s p ∧ (abstract.ReachableWhen meets p → abstract.ReachableWhen meets p'))
    {s : σ} {p : τ} (reached : concrete.ReachableWhen ok s) (stand : stands s p) :
    abstract.ReachableWhen meets p := by
  induction reached generalizing p with
  | start begins => exact .start (starts _ _ begins stand)
  | step before meets stepped ih =>
    obtain ⟨q, standsBefore, goes⟩ := steps _ _ _ _ before meets stepped stand
    exact goes (ih standsBefore)

end Sylar.Library.Machine
