import Mathlib.Data.List.Basic

/-!
# Texts of joined pieces

A text of pieces with a separator between them has the pieces' symbols and the separator
(`mem_of_mem_intercalate`), and splits into the pieces of what was joined
(`splitOn_intercalate_flatMap`).
-/

namespace AuxCommon

open List

variable {α : Type*} {pieces : List (List α)}

theorem mem_of_mem_intercalate {x b : α}
    (h : b ∈ [x].intercalate pieces) : b = x ∨ ∃ piece ∈ pieces, b ∈ piece := by
  induction pieces with
  | nil => cases h
  | cons piece pieces ih =>
    cases pieces with
    | nil => exact .inr ⟨piece, mem_cons_self, by simpa using h⟩
    | cons second pieces =>
      rw [intercalate_cons_cons, append_assoc, mem_append, mem_append, mem_singleton] at h
      rcases h with h | h | h
      · exact .inr ⟨piece, mem_cons_self, h⟩
      · exact .inl h
      · rcases ih h with h | ⟨p, hp, h⟩
        · exact .inl h
        · exact .inr ⟨p, mem_cons_of_mem _ hp, h⟩

/-- What was joined is split again, each piece into its own. -/
theorem splitOn_intercalate_flatMap [BEq α] [LawfulBEq α] {x : α} (h : pieces ≠ []) :
    ([x].intercalate pieces).splitOn x = pieces.flatMap (·.splitOn x) := by
  induction pieces with
  | nil => exact absurd rfl h
  | cons piece pieces ih =>
    cases pieces with
    | nil => simp
    | cons second pieces =>
      rw [intercalate_cons_cons, append_assoc, singleton_append, splitOn,
        splitOnP_append_cons (p := (· == x)) _ _ (beq_self_eq_true x), flatMap_cons]
      exact congrArg (piece.splitOn x ++ ·) (ih (by simp))

end AuxCommon
