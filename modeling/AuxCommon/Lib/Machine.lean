import Mathlib.Data.BitVec
import Mathlib.Tactic.Common

/-!
# Saturating and checked machine integers

Unsigned machine integers are bit vectors. This module has the operations of Rust's standard
library that bit vectors lack (`saturating_*`, `checked_*`, `min`, `max`, `abs_diff`, the
`NonZero` types), each with the one lemma that gives its value as a natural number. Proofs
about machine integers rewrite with the `toNat` lemmas and end in linear arithmetic.
-/

namespace AuxCommon

open BitVec

abbrev U16 := BitVec 16
abbrev U32 := BitVec 32
abbrev U64 := BitVec 64
abbrev U128 := BitVec 128
/-- `usize` on the 64-bit targets. -/
abbrev Usize := BitVec 64

end AuxCommon

namespace BitVec

variable {w v : Nat}

variable (a b : BitVec w)

/-- `saturating_add`. -/
def satAdd : BitVec w :=
  if a.toNat + b.toNat < 2 ^ w then BitVec.ofNat w (a.toNat + b.toNat) else BitVec.allOnes w

/-- `saturating_sub`. -/
def satSub : BitVec w := BitVec.ofNat w (a.toNat - b.toNat)

/-- `saturating_mul`. -/
def satMul : BitVec w :=
  if a.toNat * b.toNat < 2 ^ w then BitVec.ofNat w (a.toNat * b.toNat) else BitVec.allOnes w

/-- `checked_add`. -/
def checkedAdd : Option (BitVec w) :=
  if a.toNat + b.toNat < 2 ^ w then some (BitVec.ofNat w (a.toNat + b.toNat)) else none

/-- `Ord::max`. -/
def umax : BitVec w := if a.toNat ≤ b.toNat then b else a

/-- `Ord::min`. -/
def umin : BitVec w := if a.toNat ≤ b.toNat then a else b

/-- `abs_diff`. -/
def absDiff : BitVec w :=
  if a.toNat ≤ b.toNat then BitVec.ofNat w (b.toNat - a.toNat)
  else BitVec.ofNat w (a.toNat - b.toNat)

@[simp] theorem toNat_satAdd : (a.satAdd b).toNat = min (a.toNat + b.toNat) (2 ^ w - 1) := by
  unfold satAdd
  split
  · rename_i h
    rw [toNat_ofNat, Nat.mod_eq_of_lt h]
    omega
  · rw [toNat_allOnes]
    omega

@[simp] theorem toNat_satSub : (a.satSub b).toNat = a.toNat - b.toNat := by
  have ha := a.isLt
  rw [satSub, toNat_ofNat, Nat.mod_eq_of_lt (by omega)]

@[simp] theorem toNat_satMul : (a.satMul b).toNat = min (a.toNat * b.toNat) (2 ^ w - 1) := by
  unfold satMul
  split
  · rename_i h
    rw [toNat_ofNat, Nat.mod_eq_of_lt h]
    omega
  · rw [toNat_allOnes]
    omega

theorem checkedAdd_eq_some {a b c : BitVec w} :
    a.checkedAdd b = some c ↔ c.toNat = a.toNat + b.toNat := by
  have hc := c.isLt
  unfold checkedAdd
  split
  · rename_i h
    rw [Option.some.injEq, ← toNat_inj, toNat_ofNat, Nat.mod_eq_of_lt h]
    exact eq_comm
  · simp only [reduceCtorEq, false_iff]
    omega

theorem checkedAdd_eq_none {a b : BitVec w} :
    a.checkedAdd b = none ↔ 2 ^ w ≤ a.toNat + b.toNat := by
  unfold checkedAdd
  split <;> simp <;> omega

@[simp] theorem toNat_umax : (a.umax b).toNat = max a.toNat b.toNat := by
  unfold umax
  split <;> omega

@[simp] theorem toNat_umin : (a.umin b).toNat = min a.toNat b.toNat := by
  unfold umin
  split <;> omega

@[simp] theorem toNat_absDiff :
    (a.absDiff b).toNat = (a.toNat - b.toNat) + (b.toNat - a.toNat) := by
  have ha := a.isLt
  have hb := b.isLt
  unfold absDiff
  split <;> rw [toNat_ofNat, Nat.mod_eq_of_lt (by omega)] <;> omega

/-- A widening `u128::from` keeps the value. -/
theorem toNat_widen {a : BitVec w} (h : w ≤ v) : (a.setWidth v).toNat = a.toNat := by
  rw [toNat_setWidth]
  exact Nat.mod_eq_of_lt (a.isLt.trans_le (Nat.pow_le_pow_right (by decide) h))

end BitVec

namespace AuxCommon

/-- The `NonZeroU*` types: a machine integer together with the proof that it is not zero. -/
structure NonZero (w : Nat) where
  get : BitVec w
  ne_zero : get ≠ 0
  deriving DecidableEq

namespace NonZero

variable {w : Nat}

/-- `NonZero::new`. -/
def new (x : BitVec w) : Option (NonZero w) := if h : x ≠ 0 then some ⟨x, h⟩ else none

theorem one_ne_zero16 : (1 : BitVec 16) ≠ 0 := by decide

theorem one_ne_zero32 : (1 : BitVec 32) ≠ 0 := by decide

/-- `Ord::max`. -/
def max (a b : NonZero w) : NonZero w := if a.get.toNat ≤ b.get.toNat then b else a

theorem pos (a : NonZero w) : 0 < a.get.toNat := by
  rcases Nat.eq_zero_or_pos a.get.toNat with h | h
  · exact absurd (BitVec.eq_of_toNat_eq (by simpa using h)) a.ne_zero
  · exact h

@[simp] theorem new_get (a : NonZero w) : new a.get = some a := dif_pos a.ne_zero

theorem new_eq_some {x : BitVec w} {a : NonZero w} : new x = some a ↔ a.get = x := by
  constructor
  · intro h
    unfold new at h
    split at h
    · exact (Option.some.inj h) ▸ rfl
    · cases h
  · rintro rfl
    exact new_get a

end NonZero

end AuxCommon
