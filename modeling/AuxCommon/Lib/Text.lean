import AuxCommon.Lib.Saturating

/-!
# Texts

The operations of `str` that the crates use, on characters: blanks, letters of either case and numbers
(`str::parse::<usize>`).
-/

namespace AuxCommon

/-- `char::is_whitespace`: the Unicode property `White_Space`. -/
def isWhitespace (c : Char) : Bool :=
  (9 ≤ c.toNat && c.toNat ≤ 13) || (0x2000 ≤ c.toNat && c.toNat ≤ 0x200a) ||
    c.toNat ∈ [0x20, 0x85, 0xa0, 0x1680, 0x2028, 0x2029, 0x202f, 0x205f, 0x3000]

/-- `str::trim`. -/
def trim (text : String) : List Char :=
  ((text.toList.dropWhile isWhitespace).reverse.dropWhile isWhitespace).reverse

theorem toNat_toLower (c : Char) :
    c.toLower.toNat = if 65 ≤ c.toNat ∧ c.toNat ≤ 90 then c.toNat + 32 else c.toNat := by
  have hA : 'A'.val.toNat = 65 := rfl
  have hZ : 'Z'.val.toNat = 90 := rfl
  have hdiff : ('a'.val - 'A'.val).toNat = 32 := rfl
  have hiff : (c.val ≥ 'A'.val ∧ c.val ≤ 'Z'.val) ↔ (65 ≤ c.toNat ∧ c.toNat ≤ 90) := by
    rw [ge_iff_le, UInt32.le_iff_toNat_le, UInt32.le_iff_toNat_le, hA, hZ]
    rfl
  unfold Char.toLower
  by_cases h : 65 ≤ c.toNat ∧ c.toNat ≤ 90
  · rw [if_pos h, dif_pos (hiff.mpr h)]
    change (c.val + ('a'.val - 'A'.val)).toNat = _
    rw [UInt32.toNat_add, hdiff]
    change (c.toNat + 32) % _ = _
    omega
  · rw [if_neg h, dif_neg (mt hiff.mp h)]

theorem toLower_toLower (c : Char) : c.toLower.toLower = c.toLower := by
  refine Char.toNat_inj.mp ?_
  rw [toNat_toLower c.toLower, toNat_toLower]
  split_ifs <;> omega

/-- The digits of a number that may be written with a plus sign. -/
def stripPlus : List Char → List Char
  | '+' :: rest => rest
  | text => text

def parseUsize (text : List Char) : Option Nat :=
  let digits := stripPlus text
  if digits = [] ∨ digits.all Char.isDigit = false then none
  else if Nat.ofDigitChars 10 digits 0 ≤ wordMax then some (Nat.ofDigitChars 10 digits 0)
  else none

end AuxCommon
