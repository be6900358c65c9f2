/-
**Sweeps: loops that write one entry an item.**

A loop goes over a list and its body, which may fail, acts on a state; of the state one looks at a
function of keys, `view`. The body *writes* when it replaces the entry of its item's key by a value
that depends on the item and on that entry only.

* `foldlM_eq_some` — a loop whose body does not fail; `foldlM_invariant` — a loop keeps what its body
  keeps.
* `mapM_bind_mapM` — two loops that collect results are one; `mapM_eq_self_iff` — a loop that collects
  its own items.
* `view_foldl` — a loop whose items act on entries, of which one may be acted on many times.
* `Writes` — what the body does, and on which items it runs through.
* `Writes.isSome_foldlM` — the loop runs through exactly when the body does on every item.
* `Writes.view_foldlM` — **over different keys, every entry is written once, from what it was**.
-/

import Mathlib.Data.List.Basic
import Mathlib.Logic.Function.Basic

namespace Sylar.Library

variable {σ α κ β : Type} [DecidableEq κ]

/-- **A loop whose body does not fail** on the items it comes to. -/
theorem foldlM_eq_some {σ α : Type} {body : σ → α → Option σ} {after : σ → α → σ} {items : List α}
    (runs : ∀ s, ∀ a ∈ items, body s a = some (after s a)) (s : σ) :
    items.foldlM body s = some (items.foldl after s) := by
  induction items generalizing s with
  | nil => rfl
  | cons a rest ih =>
    rw [List.foldlM_cons, runs s a List.mem_cons_self]
    exact ih (fun s b member => runs s b (List.mem_cons_of_mem a member)) (after s a)

/-- **A loop keeps what its body keeps.** -/
theorem foldlM_invariant {σ α : Type} {inv : σ → Prop} {body : σ → α → Option σ}
    (keeps : ∀ {s a s'}, inv s → body s a = some s' → inv s') {items : List α} {s s' : σ}
    (holds : inv s) (ran : items.foldlM body s = some s') : inv s' := by
  induction items generalizing s with
  | nil =>
    obtain rfl := Option.some.inj ran
    exact holds
  | cons a rest ih =>
    rw [List.foldlM_cons] at ran
    obtain ⟨middle, first, later⟩ := Option.bind_eq_some_iff.mp ran
    exact ih (keeps holds first) later

/-- **Two loops that collect results are one.** -/
theorem mapM_bind_mapM {α β γ : Type} (f : α → Option β) (g : β → Option γ) (items : List α) :
    ((items.mapM f).bind fun results => results.mapM g) = items.mapM fun a => (f a).bind g := by
  induction items with
  | nil => rfl
  | cons a rest ih =>
    rw [List.mapM_cons, List.mapM_cons, ← ih]
    cases f a with
    | none => rfl
    | some b =>
      show ((rest.mapM f).bind fun results => some (b :: results)).bind _ = _
      cases rest.mapM f with
      | some results => exact List.mapM_cons
      | none =>
        show none = (g b).bind fun _ => none
        cases g b <;> rfl

/-- **A loop that collects its own items.** -/
theorem mapM_eq_self_iff {α : Type} {f : α → Option α} {items : List α} :
    items.mapM f = some items ↔ ∀ a ∈ items, f a = some a := by
  induction items with
  | nil => simp
  | cons a rest ih =>
    rw [List.mapM_cons, List.forall_mem_cons, ← ih]
    cases f a with
    | none => simp
    | some b => cases rest.mapM f <;> simp

/-- **A loop whose items act on entries**: every entry is acted on by its own items, in order. -/
theorem view_foldl {σ α κ β : Type} {inv : σ → Prop} {view : σ → κ → β} {hits : α → κ → Bool}
    {act : β → α → β} {body : σ → α → σ} (keeps : ∀ s a, inv s → inv (body s a))
    (acts : ∀ s a k, inv s → view (body s a) k = if hits a k then act (view s k) a else view s k)
    {s : σ} (holds : inv s) (items : List α) (k : κ) :
    view (items.foldl body s) k = (items.filter (hits · k)).foldl act (view s k) := by
  induction items generalizing s with
  | nil => rfl
  | cons a rest ih =>
    rw [List.foldl_cons, ih (keeps s a holds), acts s a k holds, List.filter_cons]
    split <;> rfl

/-- The same of an entry that is there. -/
theorem foldl_map_some {α β : Type} (act : β → α → β) (b : β) (items : List α) :
    items.foldl (fun entry a => entry.map (act · a)) (some b) = some (items.foldl act b) := by
  induction items generalizing b with
  | nil => rfl
  | cons a rest ih => exact ih (act b a)

/-- The body of a loop that writes the entry of `key a`, and runs through on the items with `ok`. -/
structure Writes (inv : σ → Prop) (view : σ → κ → β) (key : α → κ) (value : α → β → β)
    (ok : α → Prop) (body : σ → α → Option σ) : Prop where
  isSome : ∀ {s a}, inv s → ((body s a).isSome = true ↔ ok a)
  keeps : ∀ {s a s'}, inv s → body s a = some s' → inv s'
  writes : ∀ {s a s'}, inv s → body s a = some s' →
    view s' = Function.update (view s) (key a) (value a (view s (key a)))

namespace Writes

variable {inv : σ → Prop} {view : σ → κ → β} {key : α → κ} {value : α → β → β} {ok : α → Prop}
  {body : σ → α → Option σ}

theorem isSome_foldlM (loop : Writes inv view key value ok body) :
    ∀ {items : List α} {s : σ}, inv s →
      ((items.foldlM body s).isSome = true ↔ ∀ a ∈ items, ok a)
  | [], s, holds => by simp
  | a :: items, s, holds => by
      rw [List.foldlM_cons, List.forall_mem_cons, ← loop.isSome holds]
      cases ran : body s a with
      | none => simp
      | some s' => simpa using loop.isSome_foldlM (loop.keeps holds ran)

/-- **Over different keys, every entry is written once, from what it was.** -/
theorem view_foldlM (loop : Writes inv view key value ok body) :
    ∀ {items : List α} {s s' : σ}, (items.Pairwise fun a b => key a ≠ key b) → inv s →
      items.foldlM body s = some s' → ∀ k,
      view s' k = (items.find? (key · = k)).elim (view s k) fun a => value a (view s k)
  | [], s, s', _, _, same, k => by
      obtain rfl := Option.some.inj same
      rfl
  | a :: items, s, s', apart, holds, ran, k => by
      rw [List.foldlM_cons] at ran
      obtain ⟨middle, first, rest⟩ := Option.bind_eq_some_iff.mp ran
      obtain ⟨differ, apart⟩ := List.pairwise_cons.mp apart
      rw [loop.view_foldlM apart (loop.keeps holds first) rest k, loop.writes holds first]
      by_cases here : key a = k
      · -- no later item has this key
        have later : items.find? (key · = k) = none :=
          List.find?_eq_none.mpr fun b member same =>
            differ b member (here.trans (of_decide_eq_true same).symm)
        rw [later, List.find?_cons_of_pos (by simpa using here), ← here, Function.update_self]
        rfl
      · rw [List.find?_cons_of_neg (by simpa using here),
          Function.update_of_ne fun same => here same.symm]

end Writes

end Sylar.Library
