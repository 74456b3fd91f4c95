import Mathlib.Algebra.Order.BigOperators.Group.List
import Mathlib.Algebra.Order.Ring.Nat
import Mathlib.Tactic.Common

/-!
# Saturating word arithmetic on natural numbers

Sizes are natural numbers, and the operations on them stop at the largest machine word:
`satAdd` and `satSum` are `saturating_add` and its fold, `checkedAdd` fails where the sum leaves
the word, and `wrapSum` is `Iterator::sum`, which goes round. While a sum stays within a word all
four are plain addition (`satSum_eq`, `wrapSum_eq`).
-/

namespace AuxCommon

/-- `usize::MAX` and `u64::MAX` on the 64-bit targets. -/
def wordMax : Nat := 2 ^ 64 - 1

/-- `saturating_add`. -/
def satAdd (a b : Nat) : Nat := min (a + b) wordMax

/-- `saturating_mul`. -/
def satMul (a b : Nat) : Nat := min (a * b) wordMax

/-- `checked_add`. -/
def checkedAdd (a b : Nat) : Option Nat := if a + b ≤ wordMax then some (a + b) else none

variable (l : List Nat)

/-- `fold(0, usize::saturating_add)`. -/
def satSum : Nat := l.foldl satAdd 0

/-- `Iterator::sum` in a build without overflow checks. -/
def wrapSum : Nat := l.sum % 2 ^ 64

theorem satAdd_le (a b : Nat) : satAdd a b ≤ wordMax := Nat.min_le_right _ _

theorem foldl_satAdd (a : Nat) (ha : a ≤ wordMax) : l.foldl satAdd a = min (a + l.sum) wordMax := by
  induction l generalizing a with
  | nil => simp [ha]
  | cons b l ih =>
    rw [List.foldl_cons, ih _ (satAdd_le a b), List.sum_cons, satAdd]
    omega

theorem satSum_eq : satSum l = min l.sum wordMax := by
  rw [satSum, foldl_satAdd l 0 (Nat.zero_le _), Nat.zero_add]

theorem wrapSum_eq {l : List Nat} (h : l.sum ≤ wordMax) : wrapSum l = l.sum :=
  Nat.mod_eq_of_lt (by unfold wordMax at h; omega)

theorem checkedAdd_eq_some {a b c : Nat} :
    checkedAdd a b = some c ↔ a + b ≤ wordMax ∧ c = a + b := by
  unfold checkedAdd
  split <;> simp_all [eq_comm]

end AuxCommon

/-- `i64::saturating_add`. -/
def Int64.satAdd (a b : Int64) : Int64 :=
  Int64.ofInt (max (-2 ^ 63) (min (a.toInt + b.toInt) (2 ^ 63 - 1)))
