import Mathlib.Tactic.Common

/-!
# Partial results

A function that may panic returns an option. `Yields P c r` says that a value of `r` satisfies `P`,
and that `r` has one if `c` holds. The rules are those of the ways to put such functions together.
-/

namespace AuxCommon

structure Yields {α : Type} (P : α → Prop) (c : Prop) (r : Option α) : Prop where
  value : ∀ a ∈ r, P a
  isSome : c → r.isSome = true

namespace Yields

variable {α β : Type} {P : α → Prop} {Q : β → Prop} {c : Prop} {r : Option α} {a : α}

theorem some (h : P a) : Yields P c (some a) := ⟨fun _ ha => Option.some.inj ha ▸ h, fun _ => rfl⟩

theorem exists_eq (h : Yields P c r) (hc : c) : ∃ a, r = .some a ∧ P a := by
  obtain ⟨a, ha⟩ := Option.isSome_iff_exists.mp (h.isSome hc)
  exact ⟨a, ha, h.value a ha⟩

theorem bind {f : α → Option β} (h : Yields P c r) (hf : ∀ a, P a → Yields Q c (f a)) :
    Yields Q c (r >>= f) := by
  cases r with
  | none => exact ⟨nofun, fun hc => h.isSome hc⟩
  | some a => exact hf a (h.value a rfl)

theorem map {f : α → β} (h : Yields P c r) (hf : ∀ a, P a → Q (f a)) : Yields Q c (r.map f) := by
  cases r with
  | none => exact ⟨nofun, fun hc => h.isSome hc⟩
  | some a => exact .some (hf a (h.value a rfl))

theorem foldlM {step : α → β → Option α} (hstep : ∀ a b, P a → Yields P c (step a b)) (h : P a)
    (bs : List β) : Yields P c (bs.foldlM step a) := by
  induction bs generalizing a with
  | nil => exact .some h
  | cons b bs ih =>
    rw [List.foldlM_cons]
    exact (hstep a b h).bind fun _ => ih

end Yields

end AuxCommon
