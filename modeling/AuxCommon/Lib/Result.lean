import Mathlib.Data.List.Forall2
import Mathlib.Tactic.Common

/-!
# Fallible computations

`Result` is `Except`. A chain of `?` succeeds when each link does, and `Except.bind_eq_ok` takes
such a chain apart one link at a time.
-/

namespace Except

variable {ε α β : Type} {x : Except ε α} {f : α → Except ε β}

theorem bind_eq_ok {b : β} : (x >>= f) = .ok b ↔ ∃ a, x = .ok a ∧ f a = .ok b := by
  cases x with
  | error e =>
    constructor
    · intro h; cases h
    · rintro ⟨_, h, _⟩; cases h
  | ok a =>
    constructor
    · intro h; exact ⟨a, rfl, h⟩
    · rintro ⟨_, h, hf⟩; cases h; exact hf

theorem map_eq_ok {f : α → β} {b : β} : x.map f = .ok b ↔ ∃ a, x = .ok a ∧ f a = b := by
  cases x with
  | error e => exact ⟨nofun, fun ⟨_, h, _⟩ => nomatch h⟩
  | ok a =>
    constructor
    · intro h; exact ⟨a, rfl, Except.ok.inj h⟩
    · rintro ⟨_, h, rfl⟩; cases h; rfl

theorem mapError_eq_ok {ε' : Type} {f : ε → ε'} {a : α} : x.mapError f = .ok a ↔ x = .ok a := by
  cases x <;> simp [Except.mapError]

theorem bind_ne_error {e : ε} (hx : x ≠ .error e)
    (hf : ∀ a, f a ≠ .error e) : (x >>= f) ≠ .error e := by
  cases x with
  | error e' => exact fun h => hx (by cases h; rfl)
  | ok a => exact hf a

theorem isOk_iff : x.isOk = true ↔ ∃ a, x = .ok a := by
  cases x with
  | error e => exact ⟨nofun, fun ⟨_, h⟩ => nomatch h⟩
  | ok a => exact ⟨fun _ => ⟨a, rfl⟩, fun _ => rfl⟩

theorem toOption_eq_some {a : α} : x.toOption = some a ↔ x = .ok a := by
  cases x with
  | error e => exact ⟨nofun, nofun⟩
  | ok b => exact ⟨fun h => congrArg Except.ok (Option.some.inj h), fun h => by cases h; rfl⟩

theorem isOk_unit {x : Except ε Unit} : x.isOk = true ↔ x = .ok () := by
  rw [isOk_iff]
  exact ⟨fun ⟨(), h⟩ => h, fun h => ⟨(), h⟩⟩

/-- A list of computations succeeds with the list of what each of them gives. -/
theorem mapM_eq_ok {xs : List α} {ys : List β} :
    xs.mapM f = .ok ys ↔ List.Forall₂ (fun x y => f x = .ok y) xs ys := by
  induction xs generalizing ys with
  | nil =>
    rw [List.mapM_nil]
    constructor
    · rintro ⟨⟩; exact .nil
    · rintro ⟨⟩; rfl
  | cons x xs ih =>
    simp only [List.mapM_cons, bind_eq_ok, ih]
    constructor
    · rintro ⟨y, hy, ys', hys, h⟩
      cases h
      exact .cons hy hys
    · rintro (_ | ⟨hy, hys⟩)
      exact ⟨_, hy, _, hys, rfl⟩

theorem mapM_eq_ok_map {g : α → β} {xs : List α}
    (h : ∀ x ∈ xs, f x = .ok (g x)) : xs.mapM f = .ok (xs.map g) := by
  rw [mapM_eq_ok, List.forall₂_map_right_iff, List.forall₂_same]
  exact h

end Except
