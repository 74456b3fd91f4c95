import Mathlib.Data.List.Count
import Mathlib.Logic.Function.Basic

/-!
# Counted references

A reference-counted allocation (`Arc`) lives as long as a strong reference to it does. `Refs`
keeps for each allocation the owners of its strong references, one entry a reference: the strong
count is the length, and a weak reference can be upgraded while the list is not empty.

`Accounts held r` says that each owner has the references that `held` gives it. A clone and a
drop keep it (`Accounts.clone`, `Accounts.drop`), and it turns what the strong count shows into
what the owners hold (`Accounts.sole`).
-/

namespace AuxCommon

open Function

/-- The owners of the strong references to each allocation. -/
abbrev Refs (γ τ : Type) := γ → List τ

namespace Refs

variable {γ τ : Type} (r : Refs γ τ) (g h : γ) (t u : τ)

/-- `Arc::strong_count`. -/
def strongCount : Nat := (r g).length

/-- Whether `Weak::upgrade` succeeds. -/
def live : Bool := !(r g).isEmpty

/-- Each owner has the references that `held` gives it. -/
def Accounts [DecidableEq τ] (held : τ → γ → Nat) (r : Refs γ τ) : Prop :=
  ∀ g u, (r g).count u = held u g

section Change

variable [DecidableEq γ]

/-- `Arc::clone` by `t` (and `Arc::new`, `Weak::upgrade`). -/
def clone : Refs γ τ := Function.update r g (t :: r g)

variable [DecidableEq τ]

/-- The drop of a reference of `t`. -/
def drop : Refs γ τ := Function.update r g ((r g).erase t)

theorem count_clone : (r.clone g t h).count u = (r h).count u + if h = g ∧ u = t then 1 else 0 := by
  unfold clone
  by_cases hg : h = g
  · subst hg
    by_cases ht : u = t
    · simp [ht]
    · simp [ht, Ne.symm ht]
  · simp [hg]

theorem count_drop : (r.drop g t h).count u = (r h).count u - if h = g ∧ u = t then 1 else 0 := by
  unfold drop
  by_cases hg : h = g
  · subst hg
    by_cases ht : u = t
    · simp [ht]
    · simp [ht, List.count_erase_of_ne ht]
  · simp [hg]

end Change

variable {r g t} [DecidableEq τ] {held : τ → γ → Nat} {n : γ → Nat}

namespace Accounts

theorem keep (ha : Accounts held r) (hn : ∀ h, n h = held t h) : Accounts (update held t n) r := by
  intro h u
  rw [ha h u]
  by_cases hu : u = t
  · rw [hu, update_self, hn]
  · rw [update_of_ne hu]

theorem clone [DecidableEq γ] (ha : Accounts held r) (hn : ∀ h, n h = held t h + if h = g then 1 else 0) :
    Accounts (update held t n) (r.clone g t) := by
  intro h u
  rw [count_clone, ha h u]
  by_cases hu : u = t
  · simp [hu, hn]
  · simp [hu]

theorem drop [DecidableEq γ] (ha : Accounts held r) (hn : ∀ h, n h = held t h - if h = g then 1 else 0) :
    Accounts (update held t n) (r.drop g t) := by
  intro h u
  rw [count_drop, ha h u]
  by_cases hu : u = t
  · simp [hu, hn]
  · simp [hu]

theorem live_iff (ha : Accounts held r) : r.live g = true ↔ ∃ u, 0 < held u g := by
  simp only [← ha g, List.count_pos_iff, live, Bool.not_eq_true',
    List.isEmpty_eq_false_iff_exists_mem]

/-- The only reference is that of its owner. -/
theorem sole (ha : Accounts held r) (hone : r.strongCount g = 1) (ht : 0 < held t g) {u : τ}
    (hu : 0 < held u g) : u = t := by
  obtain ⟨v, hv⟩ := List.length_eq_one_iff.mp hone
  rw [← ha, List.count_pos_iff, hv, List.mem_singleton] at ht hu
  rw [ht, hu]

end Accounts

end Refs

end AuxCommon
