import Mathlib.Algebra.Order.Field.Basic
import Mathlib.Data.List.TakeWhile
import Mathlib.Data.Rat.Cast.Order
import Mathlib.Tactic.FieldSimp
import Mathlib.Tactic.Linarith
import Mathlib.Tactic.Positivity
import Mathlib.Tactic.NormNum
import Mathlib.Tactic.Ring
import AuxCommon.Lib.Result

/-!
# The time of a proof

`numeric_date.rs`: a JSON number is read as whole seconds and a mark for a fraction, without ever
building the number. The reading is exact (`numericDate_exact`): a payload is too short for the cap on
the exponent to show.
-/

namespace AuxCommon.Dpop

open List

abbrev Text := List UInt8

/-- The bytes of a literal text. -/
def lit (text : String) : Text := text.toList.flatMap String.utf8EncodeChar

inductive DpopError
  | invalidTarget
  | invalidProof
  deriving DecidableEq, Repr

abbrev plusSign : UInt8 := 0x2B
abbrev zeroByte : UInt8 := 0x30
abbrev fullStop : UInt8 := 0x2E
abbrev hyphen : UInt8 := 0x2D

def maxNumericDateSeconds : Int := 253402300799

/-- `MAX_PROOF_JSON_BYTES`: the limit for the payload of a proof. -/
def maxProofJsonBytes : Nat := 8 * 1024

structure NumericDate where
  seconds : Int
  hasFraction : Bool
  deriving DecidableEq, Repr

namespace NumericDate

def isBetween (date : NumericDate) (minimum maximum : Int) : Bool :=
  date.seconds ≥ minimum &&
    (date.seconds < maximum || (date.seconds = maximum && !date.hasFraction))

end NumericDate

def isDigitByte (b : UInt8) : Bool := 0x30 ≤ b && b ≤ 0x39

def decimalValue (digits : Text) : Nat := digits.foldl (fun value b => value * 10 + (b.toNat - 0x30)) 0

def isExponentMark (b : UInt8) : Bool := b = 0x65 || b = 0x45

def isSign (b : UInt8) : Bool := b = plusSign || b = hyphen

def splitExponent (number : Text) : Except DpopError (Text × Int) :=
  match number.dropWhile (!isExponentMark ·) with
  | [] => .ok (number, 0)
  | _ :: exponent =>
    let digits := exponent.dropWhile isSign
    if digits = [] ∨ ¬ digits.all isDigitByte then .error .invalidProof
    else
      let magnitude : Nat :=
        digits.foldl (fun value b => min (value * 10 + (b.toNat - 0x30)) 100000) 0
      .ok (number.takeWhile (!isExponentMark ·),
        if exponent.head? = some hyphen then -(magnitude : Int) else magnitude)

/-- Digits behind the last one are zeros. -/
def parseSeconds (digits : Text) (firstNonzero : Nat) (integerEnd : Int) : Except DpopError Int :=
  if integerEnd - firstNonzero > 12 then .error .invalidProof
  else
    .ok ((List.range (integerEnd - firstNonzero).toNat).foldl (fun seconds i =>
      seconds * 10 + ((digits.getD (firstNonzero + i) zeroByte).toNat - 0x30)) 0 : Nat)

/-- The second half of `parse_number`: the digits without the point, and where the point is. -/
def parseDigits (negative : Bool) (digits : Text) (decimalPosition : Nat) (exponent : Int) :
    Except DpopError NumericDate :=
  if negative ∧ digits.any (· ≠ zeroByte) then .error .invalidProof
  else
    match digits.findIdx? (· ≠ zeroByte) with
    | none => .ok ⟨0, false⟩
    | some firstNonzero => do
      let integerEnd : Int := decimalPosition + exponent
      let seconds ← parseSeconds digits firstNonzero integerEnd
      let hasFraction := (digits.drop (max integerEnd 0).toNat).any (· ≠ zeroByte)
      if seconds > maxNumericDateSeconds ∨ (seconds = maxNumericDateSeconds ∧ hasFraction) then
        .error .invalidProof
      else return ⟨seconds, hasFraction⟩

def parseNumber (number : Text) : Except DpopError NumericDate := do
  let (mantissa, exponent) ← splitExponent number
  let negative := mantissa.head? = some hyphen
  let mantissa := if negative then mantissa.drop 1 else mantissa
  let digits := mantissa.filter (· ≠ fullStop)
  if digits = [] ∨ ¬ digits.all isDigitByte then .error .invalidProof
  else parseDigits negative digits (mantissa.takeWhile (· ≠ fullStop)).length exponent

/-! ## Texts of digits -/

/-- Facts on bytes can be checked byte by byte. -/
theorem forall_byte {motive : UInt8 → Prop} (h : ∀ n : Fin 256, motive (UInt8.ofNat n)) (b : UInt8) :
    motive b := by
  have := h ⟨b.toNat, b.toNat_lt⟩
  rwa [UInt8.ofNat_toNat] at this

theorem decimalValue_lt (digits : Text) (h : ∀ b ∈ digits, isDigitByte b = true) :
    decimalValue digits < 10 ^ digits.length := by
  suffices ∀ (digits : Text) (start k : Nat), (∀ b ∈ digits, isDigitByte b = true) → start < 10 ^ k →
      digits.foldl (fun value b => value * 10 + (b.toNat - 0x30)) start < 10 ^ (k + digits.length) by
    have := this digits 0 0 h (by decide)
    rwa [Nat.zero_add] at this
  intro digits
  induction digits with
  | nil => intro start k _ h; exact h
  | cons b digits ih =>
    intro start k hdigits hstart
    have hb := hdigits b mem_cons_self
    simp only [isDigitByte, Bool.and_eq_true, decide_eq_true_eq, UInt8.le_iff_toNat_le,
      UInt8.reduceToNat] at hb
    rw [foldl_cons, length_cons, Nat.add_comm digits.length, ← Nat.add_assoc]
    refine ih _ (k + 1) (fun d hd => hdigits d (mem_cons_of_mem _ hd)) ?_
    rw [Nat.pow_succ]
    omega

/-- A beginning that passes a test, before a text whose first byte does not. -/
theorem takeWhile_append_of_head? (test : UInt8 → Bool) (front rest : Text)
    (hfront : ∀ b ∈ front, test b = true) (hrest : ∀ b ∈ rest.head?, test b = false) :
    (front ++ rest).takeWhile test = front ∧ (front ++ rest).dropWhile test = rest := by
  rw [takeWhile_append_of_pos hfront, dropWhile_append_of_pos hfront]
  cases rest with
  | nil => simp
  | cons b rest =>
    have hb : test b = false := hrest b rfl
    simp [hb]

/-! ## JSON numbers -/

/-- A nonempty text of digits. -/
structure Digits where
  text : Text
  ne_nil : text ≠ []
  digits : ∀ b ∈ text, isDigitByte b = true

/-- The exponent of a number: its mark, its sign and its digits. -/
structure Exponent where
  upper : Bool
  sign : Option Bool
  digits : Digits

namespace Exponent

def signText : Option Bool → Text
  | none => []
  | some negative => [if negative then hyphen else plusSign]

def text (e : Exponent) : Text := (if e.upper then 0x45 else 0x65) :: (signText e.sign ++ e.digits.text)

def value (e : Exponent) : Int :=
  if e.sign = some true then -(decimalValue e.digits.text : Int) else decimalValue e.digits.text

end Exponent

/-- A number of JSON: no zero stands before other digits of the integer part. -/
structure JsonNumber where
  negative : Bool
  integer : Digits
  leading : integer.text.head? = some zeroByte → integer.text.length = 1
  fraction : Option Digits
  exponent : Option Exponent

variable (number : JsonNumber)

namespace JsonNumber

def fractionDigits : Text := (number.fraction.map Digits.text).getD []

def unsigned : Text :=
  number.integer.text ++ (number.fraction.map fun digits => fullStop :: digits.text).getD []

def mantissa : Text :=
  (if number.negative then [hyphen] else []) ++ number.unsigned

def text (number : JsonNumber) : Text := number.mantissa ++ (number.exponent.map Exponent.text).getD []

def digits : Text := number.integer.text ++ number.fractionDigits

def exponentValue : Int := (number.exponent.map Exponent.value).getD 0

/-- The number itself. -/
def value : ℚ :=
  (if number.negative then -1 else 1) *
    (decimalValue number.digits * 10 ^ (number.exponentValue - number.fractionDigits.length))

end JsonNumber

/-! ## Digits -/

theorem foldl_decimal (digits : Text) (start : Nat) :
    digits.foldl (fun value b => value * 10 + (b.toNat - 0x30)) start =
      start * 10 ^ digits.length + decimalValue digits := by
  unfold decimalValue
  induction digits generalizing start with
  | nil => simp
  | cons b digits ih =>
    rw [foldl_cons, foldl_cons, ih, ih (0 * 10 + _), length_cons]
    ring

theorem decimalValue_append (front rest : Text) :
    decimalValue (front ++ rest) = decimalValue front * 10 ^ rest.length + decimalValue rest := by
  rw [decimalValue, foldl_append, foldl_decimal]
  rfl

theorem decimalValue_cons (b : UInt8) (rest : Text) :
    decimalValue (b :: rest) = (b.toNat - 0x30) * 10 ^ rest.length + decimalValue rest := by
  rw [← singleton_append, decimalValue_append]
  simp [decimalValue]

variable {digits : Text} {m : Nat}

theorem decimalValue_of_zeros (h : ∀ b ∈ digits, b = zeroByte) : decimalValue digits = 0 := by
  induction digits with
  | nil => rfl
  | cons b digits ih =>
    obtain rfl := h b mem_cons_self
    rw [decimalValue_cons, ih fun c hc => h c (mem_cons_of_mem _ hc)]
    exact Nat.zero_mul _

theorem digit_pos : ∀ b, isDigitByte b = true → b ≠ zeroByte → 0 < b.toNat - 0x30 :=
  forall_byte (by decide +kernel)

/-- Digits with another one than zero among them are at least the power of ten of its place. -/
theorem pow_le_decimalValue (h : ∀ b ∈ digits, isDigitByte b = true) {i : Nat}
    (hi : digits.findIdx? (· ≠ zeroByte) = some i) :
    10 ^ (digits.length - 1 - i) ≤ decimalValue digits := by
  induction digits generalizing i with
  | nil => cases hi
  | cons b digits ih =>
    rw [findIdx?_cons] at hi
    rw [decimalValue_cons]
    by_cases hb : b = zeroByte
    · simp only [hb, ne_eq, not_true_eq_false, decide_false, Bool.false_eq_true, if_false,
        Option.map_eq_some_iff] at hi
      obtain ⟨j, hj, rfl⟩ := hi
      have := ih (fun c hc => h c (mem_cons_of_mem _ hc)) hj
      have hlen : (b :: digits).length - 1 - (j + 1) = digits.length - 1 - j := by
        simp only [length_cons]
        omega
      rw [hlen]
      exact this.trans (Nat.le_add_left _ _)
    · simp only [hb, ne_eq, not_false_eq_true, decide_true, if_true, Option.some.injEq] at hi
      subst hi
      have hpos := digit_pos b (h b mem_cons_self) hb
      calc 10 ^ ((b :: digits).length - 1 - 0) = 1 * 10 ^ digits.length := by simp
        _ ≤ (b.toNat - 0x30) * 10 ^ digits.length := Nat.mul_le_mul_right _ hpos
        _ ≤ _ := Nat.le_add_right _ _

theorem decimalValue_eq_zero_iff (h : ∀ b ∈ digits, isDigitByte b = true) :
    decimalValue digits = 0 ↔ digits.any (· ≠ zeroByte) = false := by
  constructor
  · intro hzero
    rw [← findIdx?_isSome]
    cases hi : digits.findIdx? (· ≠ zeroByte) with
    | none => rfl
    | some i =>
      have hle := pow_le_decimalValue h hi
      have hpos : 0 < 10 ^ (digits.length - 1 - i) := Nat.pow_pos (by decide)
      omega
  · intro hany
    refine decimalValue_of_zeros fun b hb => ?_
    simpa using any_eq_false.mp hany b hb

/-- The first `m` digits, with zeros behind the last one. -/
def firstDigits (digits : Text) (m : Nat) : Text :=
  (List.range m).map fun i => digits.getD i zeroByte

theorem firstDigits_of_le (h : m ≤ digits.length) : firstDigits digits m = digits.take m := by
  refine ext_getElem (by simp [firstDigits, h]) fun i hi _ => ?_
  have him : i < digits.length := by
    simp only [firstDigits, length_map, length_range] at hi
    omega
  simp [firstDigits, him]

theorem firstDigits_of_ge (h : digits.length ≤ m) :
    firstDigits digits m = digits ++ replicate (m - digits.length) zeroByte := by
  refine ext_getElem (by simp [firstDigits]; omega) fun i hi _ => ?_
  by_cases him : i < digits.length
  · simp [firstDigits, him]
  · rw [getElem_append_right (by omega), getElem_replicate]
    simp [firstDigits, him]

/-- In front of the first digit that is not zero. -/
theorem firstDigits_zeros {first : Nat}
    (hfirst : digits.findIdx? (· ≠ zeroByte) = some first) (hm : m ≤ first) :
    decimalValue (firstDigits digits m) = 0 := by
  refine decimalValue_of_zeros fun b hb => ?_
  obtain ⟨i, hi, rfl⟩ := mem_map.mp hb
  obtain ⟨hlt, -, hbefore⟩ := findIdx?_eq_some_iff_getElem.mp hfirst
  have hi := mem_range.mp hi
  have hzero := hbefore i (by omega)
  have hlen : i < digits.length := by omega
  simpa [hlen] using hzero

/-- The loop of `parse_seconds` reads the first digits, since those that it leaves out are zeros. -/
theorem parseSeconds_eq {first : Nat}
    (hfirst : digits.findIdx? (· ≠ zeroByte) = some first) {m : Int} (hm : ¬ m - first > 12) :
    parseSeconds digits first m = .ok (decimalValue (firstDigits digits m.toNat) : Nat) := by
  have hloop : ∀ k, (range k).foldl (fun seconds i =>
      seconds * 10 + ((digits.getD (first + i) zeroByte).toNat - 0x30)) 0 =
      decimalValue (firstDigits digits (first + k)) := by
    intro k
    rw [firstDigits, range_add, map_append, decimalValue_append, ← firstDigits,
      firstDigits_zeros hfirst (Nat.le_refl _), Nat.zero_mul, Nat.zero_add, decimalValue,
      map_map, foldl_map]
    rfl
  rw [parseSeconds, if_neg hm, hloop]
  by_cases hle : (first : Int) ≤ m
  · have hsum : first + (m - first).toNat = m.toNat := by omega
    rw [hsum]
  · have hsum : first + (m - first).toNat = first := by omega
    rw [hsum, firstDigits_zeros hfirst (Nat.le_refl _), firstDigits_zeros hfirst (by omega)]

/-- The digits with the point behind the first `m` of them: a whole number, and a rest below one. -/
theorem decimalValue_split (h : ∀ b ∈ digits, isDigitByte b = true) (m : Int) :
    ∃ rest : ℚ, (decimalValue digits : ℚ) * 10 ^ (m - digits.length) =
        decimalValue (firstDigits digits m.toNat) + rest ∧ 0 ≤ rest ∧ rest < 1 ∧
      (rest = 0 ↔ (digits.drop m.toNat).any (· ≠ zeroByte) = false) := by
  have hten : (0 : ℚ) < 10 := by norm_num
  by_cases hm : (digits.length : Int) ≤ m
  · -- every digit is in front of the point
    obtain ⟨k, rfl⟩ : ∃ k : Nat, m = digits.length + k := ⟨(m - digits.length).toNat, by omega⟩
    have hnat : ((digits.length : Int) + k).toNat = digits.length + k := by omega
    refine ⟨0, ?_, le_refl _, zero_lt_one, ?_⟩
    · rw [hnat, firstDigits_of_ge (Nat.le_add_right _ _), decimalValue_append,
        decimalValue_of_zeros (fun b hb => eq_of_mem_replicate hb), length_replicate,
        Nat.add_sub_cancel_left, add_sub_cancel_left, zpow_natCast]
      push_cast
      ring
    · rw [hnat, drop_eq_nil_of_le (Nat.le_add_right _ _)]
      simp
  · have hk : m.toNat ≤ digits.length := by omega
    obtain ⟨j, hj⟩ : ∃ j, digits.length = m.toNat + j := ⟨digits.length - m.toNat, by omega⟩
    have hdrop : ∀ b ∈ digits.drop m.toNat, isDigitByte b = true := fun b hb =>
      h b (mem_of_mem_drop hb)
    have hdropLen : (digits.drop m.toNat).length = j := by
      rw [length_drop]
      omega
    have hvalue : decimalValue digits =
        decimalValue (digits.take m.toNat) * 10 ^ j + decimalValue (digits.drop m.toNat) := by
      rw [← hdropLen, ← decimalValue_append, take_append_drop]
    have hlt : decimalValue (digits.drop m.toNat) < 10 ^ j := by
      rw [← hdropLen]
      exact decimalValue_lt _ hdrop
    have hpow : (0 : ℚ) < 10 ^ (m - digits.length) := zpow_pos hten _
    have hinv : (10 : ℚ) ^ j * 10 ^ (m - digits.length) ≤ 1 := by
      rw [← zpow_natCast, ← zpow_add₀ hten.ne']
      exact zpow_le_one_of_nonpos₀ (by norm_num) (by omega)
    have hwhole : (decimalValue (digits.take m.toNat) : ℚ) * (10 ^ j * 10 ^ (m - digits.length)) =
        decimalValue (digits.take m.toNat) := by
      rcases Int.lt_or_le m 0 with hneg | hpos
      · have hnil : m.toNat = 0 := by omega
        simp [hnil, decimalValue]
      · rw [← zpow_natCast, ← zpow_add₀ hten.ne']
        have hzero : (j : Int) + (m - digits.length) = 0 := by omega
        rw [hzero, zpow_zero, mul_one]
    refine ⟨decimalValue (digits.drop m.toNat) * 10 ^ (m - digits.length), ?_, by positivity, ?_, ?_⟩
    · rw [firstDigits_of_le hk, hvalue]
      push_cast
      rw [add_mul, mul_assoc, hwhole]
    · have hcast : (decimalValue (digits.drop m.toNat) : ℚ) < 10 ^ j := by exact_mod_cast hlt
      exact (mul_lt_mul_of_pos_right hcast hpow).trans_le hinv
    · rw [mul_eq_zero, or_iff_left hpow.ne', Nat.cast_eq_zero, decimalValue_eq_zero_iff hdrop]

/-! ## Dates -/

namespace NumericDate

/-- A date is exact for a number: its whole seconds, and whether there is more. -/
def Exact (date : NumericDate) (value : ℚ) : Prop :=
  ∃ rest : ℚ, value = date.seconds + rest ∧ 0 ≤ rest ∧ rest < 1 ∧
    (rest = 0 ↔ date.hasFraction = false)

namespace Exact

variable {date : NumericDate} {value : ℚ}

theorem ge_iff (h : date.Exact value) (minimum : Int) : (minimum : ℚ) ≤ value ↔ minimum ≤ date.seconds := by
  obtain ⟨rest, rfl, hnonneg, hlt, -⟩ := h
  constructor
  · intro hle
    have hcast : (minimum : ℚ) < (date.seconds + 1 : Int) := by
      push_cast
      linarith
    have := Int.cast_lt.mp hcast
    omega
  · intro hle
    have hcast : (minimum : ℚ) ≤ date.seconds := Int.cast_le.mpr hle
    linarith

theorem le_iff (h : date.Exact value) (maximum : Int) : value ≤ maximum ↔
      date.seconds < maximum ∨ (date.seconds = maximum ∧ date.hasFraction = false) := by
  obtain ⟨rest, rfl, hnonneg, hlt, hrest⟩ := h
  rw [← hrest]
  constructor
  · intro hle
    have hcast : (date.seconds : ℚ) ≤ maximum := by linarith
    rcases (Int.cast_le.mp hcast).lt_or_eq with hlt | heq
    · exact .inl hlt
    · refine .inr ⟨heq, ?_⟩
      rw [heq] at hle
      linarith
  · rintro (hlt' | ⟨heq, rfl⟩)
    · have hcast : ((date.seconds + 1 : Int) : ℚ) ≤ maximum := Int.cast_le.mpr hlt'
      push_cast at hcast
      linarith
    · rw [heq, add_zero]

/-- The comparison with bounds is the one of the numbers. -/
theorem isBetween_iff (h : date.Exact value) (minimum maximum : Int) :
    date.isBetween minimum maximum = true ↔ (minimum : ℚ) ≤ value ∧ value ≤ maximum := by
  rw [h.ge_iff, h.le_iff, isBetween]
  simp

end Exact

end NumericDate

/-- The exponent that `split_exponent` returns. -/
def clampExponent (exponent : Int) : Int := max (-100000) (min exponent 100000)

section Read

variable {first : Nat} (negative : Bool) (point : Nat) (exponent : Int)

theorem any_nonzero_eq : digits.any (· ≠ zeroByte) = (digits.findIdx? (· ≠ zeroByte)).isSome :=
  findIdx?_isSome.symm

theorem parseDigits_zeros (h : digits.findIdx? (· ≠ zeroByte) = none) :
    parseDigits negative digits point exponent = .ok ⟨0, false⟩ := by
  rw [parseDigits, any_nonzero_eq, h]
  simp

theorem parseDigits_negative (h : digits.findIdx? (· ≠ zeroByte) = some first) :
    parseDigits true digits point exponent = .error .invalidProof := by
  rw [parseDigits, any_nonzero_eq, h]
  simp

theorem parseDigits_positive (h : digits.findIdx? (· ≠ zeroByte) = some first)
    (hfew : ¬ point + exponent - first > 12) :
    parseDigits false digits point exponent =
      (let date : NumericDate := ⟨decimalValue (firstDigits digits (point + exponent).toNat),
        (digits.drop (point + exponent).toNat).any (· ≠ zeroByte)⟩
      if date.seconds > maxNumericDateSeconds ∨
          (date.seconds = maxNumericDateSeconds ∧ date.hasFraction) then .error .invalidProof
      else .ok date) := by
  have hmax : (max ((point : Int) + exponent) 0).toNat = (point + exponent).toNat := by omega
  rw [parseDigits, if_neg (by simp), h]
  simp only [parseSeconds_eq h hfew, hmax]
  rfl

theorem parseDigits_large (h : digits.findIdx? (· ≠ zeroByte) = some first)
    (hmany : point + exponent - first > 12) :
    parseDigits false digits point exponent = .error .invalidProof := by
  rw [parseDigits, if_neg (by simp), h]
  simp only [parseSeconds, if_pos hmany]
  rfl

end Read

/-- What is read of digits, a point and a capped exponent: the number up to the last second of the
year 9999, and nothing else. -/
theorem parseDigits_cases (h : ∀ b ∈ digits, isDigitByte b = true)
    (hlen : digits.length ≤ maxProofJsonBytes) {point : Nat} (hpoint : point ≤ digits.length)
    (negative : Bool) (exponent : Int) {value : ℚ}
    (hvalue : value = (if negative then -1 else 1) *
      (decimalValue digits * 10 ^ (point + exponent - digits.length))) :
    (∃ date, parseDigits negative digits point (clampExponent exponent) = .ok date ∧
      date.Exact value ∧ 0 ≤ value ∧ value ≤ maxNumericDateSeconds) ∨
    (parseDigits negative digits point (clampExponent exponent) = .error .invalidProof ∧
      (value < 0 ∨ (maxNumericDateSeconds : ℚ) < value)) := by
  have hten : (0 : ℚ) < 10 := by norm_num
  have hpow : (0 : ℚ) < 10 ^ (point + exponent - digits.length) := zpow_pos hten _
  unfold maxProofJsonBytes at hlen
  cases hfirst : digits.findIdx? (· ≠ zeroByte) with
  | none =>
    have hzero : value = 0 := by
      rw [hvalue, (decimalValue_eq_zero_iff h).mpr (by rw [any_nonzero_eq, hfirst]; rfl)]
      simp
    refine .inl ⟨⟨0, false⟩, parseDigits_zeros negative point _ hfirst,
      ⟨0, by simp [hzero], le_refl _, zero_lt_one, by simp⟩, hzero.ge, ?_⟩
    rw [hzero]
    decide
  | some first =>
    have hlt : first < digits.length := (findIdx?_eq_some_iff_getElem.mp hfirst).1
    have hlow : ((10 ^ (digits.length - 1 - first) : Nat) : ℚ) ≤ decimalValue digits :=
      Nat.cast_le.mpr (pow_le_decimalValue h hfirst)
    push_cast at hlow
    have hpos : (0 : ℚ) < decimalValue digits := (pow_pos hten _).trans_le hlow
    cases negative with
    | true =>
      refine .inr ⟨parseDigits_negative point _ hfirst, .inl ?_⟩
      rw [hvalue, if_pos rfl, neg_one_mul]
      exact neg_lt_zero.mpr (mul_pos hpos hpow)
    | false =>
      simp only [Bool.false_eq_true, if_false, one_mul] at hvalue
      by_cases hmany : point + clampExponent exponent - first > 12
      · refine .inr ⟨parseDigits_large point _ hfirst hmany, .inr ?_⟩
        have hexp : 12 ≤ ((digits.length - 1 - first : Nat) : Int) +
            (point + exponent - digits.length) := by
          unfold clampExponent at hmany
          omega
        calc (maxNumericDateSeconds : ℚ) < 10 ^ (12 : Int) := by norm_num [maxNumericDateSeconds]
          _ ≤ 10 ^ (((digits.length - 1 - first : Nat) : Int) + (point + exponent - digits.length)) :=
            zpow_le_zpow_right₀ (by norm_num) hexp
          _ = 10 ^ (digits.length - 1 - first) * 10 ^ (point + exponent - digits.length) := by
            rw [zpow_add₀ hten.ne', zpow_natCast]
          _ ≤ value := by
            rw [hvalue]
            exact mul_le_mul_of_nonneg_right hlow hpow.le
      · -- the cap does not move the point between the digits
        have hplace : (point + clampExponent exponent).toNat = (point + exponent).toNat := by
          unfold clampExponent at hmany ⊢
          omega
        rw [parseDigits_positive point _ hfirst hmany, hplace]
        have hexact : NumericDate.Exact ⟨decimalValue (firstDigits digits (point + exponent).toNat),
              (digits.drop (point + exponent).toNat).any (· ≠ zeroByte)⟩ value := by
          rw [hvalue]
          exact decimalValue_split h _
        have hle := hexact.le_iff maxNumericDateSeconds
        dsimp only at hle ⊢
        split_ifs with hbig
        · refine .inr ⟨rfl, .inr (not_le.mp fun hvalue => ?_)⟩
          rcases hle.mp hvalue with hsmall | ⟨hsmall, hnone⟩
          · omega
          · rcases hbig with hbig | ⟨-, hsome⟩
            · omega
            · exact Bool.noConfusion (hsome.symm.trans hnone)
        · refine .inl ⟨_, rfl, hexact, hvalue ▸ (mul_pos hpos hpow).le, hle.mpr ?_⟩
          rw [not_or, not_and, Bool.not_eq_true] at hbig
          rcases lt_or_eq_of_le (not_lt.mp hbig.1) with hsmall | hsmall
          · exact .inl hsmall
          · exact .inr ⟨hsmall, hbig.2 hsmall⟩

/-! ## Texts -/

/-- The capped fold is the cap of the fold. -/
theorem foldl_min_decimal (digits : Text) (cap start : Nat) :
    digits.foldl (fun value b => min (value * 10 + (b.toNat - 0x30)) cap) (min start cap) =
      min (digits.foldl (fun value b => value * 10 + (b.toNat - 0x30)) start) cap := by
  induction digits generalizing start with
  | nil => rfl
  | cons b digits ih =>
    rw [foldl_cons, foldl_cons, ← ih]
    congr 1
    omega

theorem digit_not_mark : ∀ b, isDigitByte b = true → isExponentMark b = false ∧ isSign b = false ∧
    b ≠ hyphen ∧ b ≠ fullStop :=
  forall_byte (by decide +kernel)

theorem Digits.exists_cons (digits : Digits) : ∃ b rest, digits.text = b :: rest ∧ isDigitByte b = true := by
  obtain ⟨b, rest, h⟩ := exists_cons_of_ne_nil digits.ne_nil
  exact ⟨b, rest, h, digits.digits b (by simp [h])⟩

theorem Exponent.dropWhile_isSign (e : Exponent) :
    (signText e.sign ++ e.digits.text).dropWhile isSign = e.digits.text := by
  obtain ⟨b, rest, htext, hb⟩ := e.digits.exists_cons
  have hsign := (digit_not_mark b hb).2.1
  have hplus : isSign plusSign = true := by decide
  have hminus : isSign hyphen = true := by decide
  rcases hs : e.sign with _ | _ | _ <;> simp [signText, htext, hsign, hplus, hminus]

theorem Exponent.head?_eq_hyphen (e : Exponent) :
    (signText e.sign ++ e.digits.text).head? = some hyphen ↔ e.sign = some true := by
  obtain ⟨b, rest, htext, hb⟩ := e.digits.exists_cons
  have hne := (digit_not_mark b hb).2.2.1
  have hplus : plusSign ≠ hyphen := by decide
  rcases hs : e.sign with _ | _ | _ <;> simp [signText, htext, hne, hplus]

namespace JsonNumber

theorem mantissa_not_mark : ∀ b ∈ number.mantissa, (!isExponentMark b) = true := by
  intro b hb
  have hdigits : ∀ (digits : Digits), b ∈ digits.text → (!isExponentMark b) = true := by
    intro digits hb
    rw [(digit_not_mark b (digits.digits b hb)).1]
    rfl
  simp only [mantissa, unsigned, mem_append] at hb
  rcases hb with hb | hb | hb
  · split at hb
    · obtain rfl := mem_singleton.mp hb
      decide
    · cases hb
  · exact hdigits _ hb
  · cases hfraction : number.fraction with
    | none => simp [hfraction] at hb
    | some digits =>
      simp only [hfraction, Option.map_some, Option.getD_some, mem_cons] at hb
      rcases hb with rfl | hb
      · decide
      · exact hdigits digits hb

theorem splitExponent_text :
    splitExponent number.text = .ok (number.mantissa, clampExponent number.exponentValue) := by
  cases hexponent : number.exponent with
  | none =>
    have htext : number.text = number.mantissa := by simp [text, hexponent]
    have hdrop : number.mantissa.dropWhile (!isExponentMark ·) = [] :=
      dropWhile_eq_nil_iff.mpr number.mantissa_not_mark
    simp [splitExponent, htext, hdrop, exponentValue, hexponent, clampExponent]
  | some e =>
    have htext : number.text = number.mantissa ++ e.text := by simp [text, hexponent]
    obtain ⟨htake, hdrop⟩ := takeWhile_append_of_head? (!isExponentMark ·) number.mantissa e.text
      number.mantissa_not_mark (by
        intro b hb
        cases hb
        cases e.upper <;> decide)
    have hall : e.digits.text.all isDigitByte = true := all_eq_true.mpr e.digits.digits
    have hfold := foldl_min_decimal e.digits.text 100000 0
    rw [Nat.zero_min] at hfold
    rw [splitExponent, htext, htake, hdrop]
    simp only [Exponent.text, e.dropWhile_isSign, e.digits.ne_nil, hall, e.head?_eq_hyphen, hfold]
    have hvalue : clampExponent number.exponentValue =
        if e.sign = some true then -((min (decimalValue e.digits.text) 100000 : Nat) : Int)
        else (min (decimalValue e.digits.text) 100000 : Nat) := by
      simp only [exponentValue, hexponent, Option.map_some, Option.getD_some, Exponent.value,
        clampExponent]
      split_ifs <;> omega
    rw [hvalue]
    simp [decimalValue]

theorem digits_digits : ∀ b ∈ number.digits, isDigitByte b = true := by
  intro b hb
  rcases mem_append.mp hb with hb | hb
  · exact number.integer.digits b hb
  · cases hfraction : number.fraction with
    | none => simp [fractionDigits, hfraction] at hb
    | some digits =>
      simp only [fractionDigits, hfraction, Option.map_some, Option.getD_some] at hb
      exact digits.digits b hb

theorem digits_ne_nil : number.digits ≠ [] := by
  simp [digits, number.integer.ne_nil]

/-- Without its sign, the mantissa is its digits and a point behind the integer part. -/
theorem unsigned_parts : number.unsigned.filter (· ≠ fullStop) = number.digits ∧
      (number.unsigned.takeWhile (· ≠ fullStop)).length = number.integer.text.length := by
  have hdigits : ∀ (digits : Digits), ∀ b ∈ digits.text, decide (b ≠ fullStop) = true :=
    fun digits b hb => decide_eq_true (digit_not_mark b (digits.digits b hb)).2.2.2
  constructor
  · rw [unsigned, filter_append, filter_eq_self.mpr (hdigits number.integer), digits,
      fractionDigits]
    cases number.fraction with
    | none => rfl
    | some digits =>
      simp only [Option.map_some, Option.getD_some]
      rw [filter_cons_of_neg (by decide), filter_eq_self.mpr (hdigits digits)]
  · rw [unsigned, (takeWhile_append_of_head? _ _ _ (hdigits number.integer) ?_).1]
    intro b hb
    cases hfraction : number.fraction with
    | none => simp [hfraction] at hb
    | some digits =>
      simp only [hfraction, Option.map_some, Option.getD_some, head?_cons] at hb
      cases hb
      decide

/-- The mantissa begins with a hyphen exactly when the number is negative. -/
theorem mantissa_parts : (decide (number.mantissa.head? = some hyphen)) = number.negative ∧
      (if number.mantissa.head? = some hyphen then number.mantissa.drop 1 else number.mantissa) =
        number.unsigned := by
  obtain ⟨b, rest, htext, hb⟩ := number.integer.exists_cons
  have hne := (digit_not_mark b hb).2.2.1
  rcases hn : number.negative with _ | _
  · have hhead : number.mantissa.head? ≠ some hyphen := by
      simp [mantissa, unsigned, hn, htext, hne]
    exact ⟨decide_eq_false hhead, by rw [if_neg hhead]; simp [mantissa, hn]⟩
  · have hhead : number.mantissa.head? = some hyphen := by simp [mantissa, hn]
    exact ⟨decide_eq_true hhead, by rw [if_pos hhead]; simp [mantissa, hn]⟩

theorem parseNumber_text :
    parseNumber number.text = parseDigits number.negative number.digits number.integer.text.length
      (clampExponent number.exponentValue) := by
  have hall : number.digits.all isDigitByte = true := all_eq_true.mpr number.digits_digits
  have hbind : parseNumber number.text = (let negative := number.mantissa.head? = some hyphen
      let mantissa := if negative then number.mantissa.drop 1 else number.mantissa
      let digits := mantissa.filter (· ≠ fullStop)
      if digits = [] ∨ ¬ digits.all isDigitByte then .error .invalidProof
      else parseDigits negative digits (mantissa.takeWhile (· ≠ fullStop)).length
        (clampExponent number.exponentValue)) := by
    rw [parseNumber, number.splitExponent_text]
    rfl
  obtain ⟨hnegative, hunsigned⟩ := number.mantissa_parts
  obtain ⟨hfilter, hpoint⟩ := number.unsigned_parts
  rw [hbind]
  simp only [hunsigned, hfilter, hpoint, hnegative, number.digits_ne_nil, hall, not_true_eq_false,
    or_self, if_false]

end JsonNumber

/-- A number within the limit is read exactly, or it is out of range. -/
theorem parseNumber_cases (hlen : number.text.length ≤ maxProofJsonBytes) :
    (∃ date, parseNumber number.text = .ok date ∧ date.Exact number.value ∧ 0 ≤ number.value ∧
      number.value ≤ maxNumericDateSeconds) ∨
    (parseNumber number.text = .error .invalidProof ∧
      (number.value < 0 ∨ (maxNumericDateSeconds : ℚ) < number.value)) := by
  have hdigits : number.digits.length ≤ number.text.length := by
    simp only [JsonNumber.digits, JsonNumber.fractionDigits, JsonNumber.text, JsonNumber.mantissa,
      JsonNumber.unsigned, length_append]
    cases number.fraction <;> simp <;> omega
  have hpoint : number.integer.text.length ≤ number.digits.length := by
    simp [JsonNumber.digits]
  have hvalue : number.value = (if number.negative then -1 else 1) * (decimalValue number.digits *
      10 ^ (number.integer.text.length + number.exponentValue - number.digits.length)) := by
    have hexp : (number.integer.text.length : Int) + number.exponentValue - number.digits.length =
        number.exponentValue - number.fractionDigits.length := by
      simp only [JsonNumber.digits, length_append]
      omega
    rw [hexp, JsonNumber.value]
  rw [number.parseNumber_text]
  exact parseDigits_cases number.digits_digits (hdigits.trans hlen) hpoint number.negative
    number.exponentValue hvalue

/-- Times are compared exactly: a number is accepted exactly when it is neither negative nor later
than the last second of the year 9999, and then compared as the rational number it is. -/
theorem numericDate_exact (number : JsonNumber) (hlen : number.text.length ≤ maxProofJsonBytes) :
    ((parseNumber number.text).isOk = true ↔
      0 ≤ number.value ∧ number.value ≤ maxNumericDateSeconds) ∧
    ∀ date, parseNumber number.text = .ok date → ∀ minimum maximum : Int,
      (date.isBetween minimum maximum = true ↔
        (minimum : ℚ) ≤ number.value ∧ number.value ≤ maximum) := by
  rcases parseNumber_cases number hlen with ⟨date, hok, hexact, hnonneg, hle⟩ | ⟨herr, hout⟩
  · rw [hok]
    refine ⟨⟨fun _ => ⟨hnonneg, hle⟩, fun _ => rfl⟩, ?_⟩
    rintro _ ⟨⟩ minimum maximum
    exact hexact.isBetween_iff minimum maximum
  · rw [herr]
    refine ⟨⟨fun hok => (Bool.false_ne_true hok).elim, ?_⟩, fun _ hok => by cases hok⟩
    rintro ⟨hnonneg, hle⟩
    rcases hout with hout | hout
    · exact absurd hout (not_lt.mpr hnonneg)
    · exact absurd hout (not_lt.mpr hle)

namespace Sample

/-- `0.00017e13`, with an exponent beyond the digits. -/
def shifted : JsonNumber where
  negative := false
  integer := ⟨lit "0", by decide +kernel, by decide +kernel⟩
  leading := by decide +kernel
  fraction := some ⟨lit "00017", by decide +kernel, by decide +kernel⟩
  exponent := some ⟨false, none, ⟨lit "13", by decide +kernel, by decide +kernel⟩⟩

/-- `253402300800`, the first second of the year 10000. -/
def year10000 : JsonNumber where
  negative := false
  integer := ⟨lit "253402300800", by decide +kernel, by decide +kernel⟩
  leading := by decide +kernel
  fraction := none
  exponent := none

theorem shifted_value : shifted.value = 1700000000 := by
  have hdigits : decimalValue shifted.digits = 17 := by decide +kernel
  have hexponent : shifted.exponentValue = 13 := by decide +kernel
  have hfraction : shifted.fractionDigits.length = 5 := by decide +kernel
  rw [JsonNumber.value, hdigits, hexponent, hfraction]
  norm_num [shifted]

theorem shifted_between :
    ∃ date, parseNumber (lit "0.00017e13") = .ok date ∧
      (date.isBetween 1700000000 1700000000 = true ↔ (1700000000 : ℚ) ≤ shifted.value ∧
        shifted.value ≤ 1700000000) := by
  have htext : shifted.text = lit "0.00017e13" := by decide +kernel
  obtain ⟨hok, hbetween⟩ := numericDate_exact shifted (by decide +kernel)
  obtain ⟨date, hdate⟩ := Except.isOk_iff.mp (hok.mpr (by
    rw [shifted_value]
    norm_num [maxNumericDateSeconds]))
  refine ⟨date, htext ▸ hdate, ?_⟩
  exact_mod_cast hbetween date hdate 1700000000 1700000000

/-- A number of twelve digits that is refused. -/
theorem year10000_refused :
    0 ≤ year10000.value ∧ year10000.value < 10 ^ 12 ∧ year10000.text = lit "253402300800" ∧
      (parseNumber year10000.text).isOk = false := by
  have hdigits : decimalValue year10000.digits = 253402300800 := by decide +kernel
  have hvalue : year10000.value = 253402300800 := by
    rw [JsonNumber.value, hdigits]
    norm_num [year10000, JsonNumber.exponentValue, JsonNumber.fractionDigits]
  rw [hvalue]
  exact ⟨by norm_num, by norm_num, by decide +kernel, by decide +kernel⟩

end Sample

end AuxCommon.Dpop
