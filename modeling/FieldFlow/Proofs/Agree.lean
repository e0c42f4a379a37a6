import Mathlib.Data.List.Forall2

/-!
# Agreeing results

Two computations that may fail, compared with each other.

## Main Definitions

* `Agree`: both fail with the same error, or both succeed with related results

## Design Notes

Two machines are compared operation by operation. `Agree.bind` puts the operations together, so that
the order in which failures are noticed never has to be looked at again.
-/

namespace FieldFlow

variable {ε α β γ δ : Type}

/-- One computation after another succeeds if both do. -/
theorem bind_eq_ok {x : Except ε α} {f : α → Except ε β} {b : β} :
    x >>= f = .ok b ↔ ∃ a, x = .ok a ∧ f a = .ok b := by
  cases x with
  | error e => exact ⟨nofun, fun ⟨_, h, _⟩ => nomatch h⟩
  | ok a => exact ⟨fun h => ⟨a, rfl, h⟩, fun ⟨_, rfl, h⟩ => h⟩

/-- Both computations fail with the same error, or both succeed with related results. -/
inductive Agree (Related : α → β → Prop) : Except ε α → Except ε β → Prop
  | error (e : ε) : Agree Related (.error e) (.error e)
  | ok {a : α} {b : β} (h : Related a b) : Agree Related (.ok a) (.ok b)

namespace Agree

variable {Related : α → β → Prop} {Later : γ → δ → Prop} {x : Except ε α} {y : Except ε β}

theorem bind {f : α → Except ε γ} {g : β → Except ε δ} (h : Agree Related x y)
    (next : ∀ a b, Related a b → Agree Later (f a) (g b)) : Agree Later (x >>= f) (y >>= g) := by
  cases h with
  | error e => exact .error e
  | ok h => exact next _ _ h

/-- One of two agreeing computations may go on with a function of its result. -/
theorem bind_pure {Later : γ → β → Prop} {f : α → γ} (h : Agree Related x y)
    (next : ∀ a b, Related a b → Later (f a) b) :
    Agree Later (x >>= fun a => pure (f a)) y := by
  cases h with
  | error e => exact .error e
  | ok h => exact .ok (next _ _ h)

/-- A successful computation agrees with one that succeeds, too. -/
theorem exists_of_eq_ok {a : α} (h : Agree Related x y) (hx : x = .ok a) :
    ∃ b, y = .ok b ∧ Related a b := by
  subst hx
  cases h with
  | ok h => exact ⟨_, rfl, h⟩

/-- Views of the two results that related results share are the same computation. -/
theorem map_eq_map {f : α → γ} {g : β → γ} (h : Agree Related x y)
    (same : ∀ a b, Related a b → f a = g b) : x.map f = y.map g := by
  cases h with
  | error e => rfl
  | ok h => exact congrArg Except.ok (same _ _ h)

end Agree

end FieldFlow
