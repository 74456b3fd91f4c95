import AuxCommon.Ids

/-!
# Policies

The policy values of `policy/types.rs`. `RetryPolicy` carries what `try_from_input` checks, so
that a policy whose durations are zero, out of order or over 64 bits of nanoseconds cannot be
built.
-/

namespace AuxCommon

/-- `ValidationError`, the cases that the modelled code raises. -/
inductive ValidationError
  | empty (field : String)
  | tooLong (field : String) (maximum actual : Nat)
  | invalidText (field : String)
  | invalidValue (field : String)
  | ordering (field : String)
  | overflow (field : String)
  deriving DecidableEq

/-- The closed priority lanes. -/
inductive Priority
  | critical | default | bulk
  deriving DecidableEq

/-- `EffectMode`. -/
inductive EffectMode
  | readOnly | idempotent | atLeastOnce | fenced
  deriving DecidableEq

/-! ## Durations -/

/-- `std::time::Duration`: 64 bits of seconds and a billion nanoseconds each. -/
structure Duration where
  nanos : U128
  bounded : nanos.toNat < 2 ^ 64 * 10 ^ 9
  deriving DecidableEq

namespace Duration

/-- `Duration::from_secs`. -/
def fromSecs (n : U64) : Duration where
  nanos := n.setWidth 128 * 10 ^ 9
  bounded := by
    have := n.isLt
    rw [BitVec.toNat_mul, BitVec.toNat_widen (by decide)]
    exact (Nat.mod_le _ _).trans_lt (Nat.mul_lt_mul_of_pos_right this (by decide))

/-- `Duration::from_millis`. -/
def fromMillis (n : U64) : Duration where
  nanos := n.setWidth 128 * 10 ^ 6
  bounded := by
    have := n.isLt
    rw [BitVec.toNat_mul, BitVec.toNat_widen (by decide)]
    refine (Nat.mod_le _ _).trans_lt ((Nat.mul_lt_mul_of_pos_right this (by decide)).trans_le ?_)
    exact Nat.mul_le_mul_left _ (by decide)

/-- `Duration::is_zero`. -/
def isZero (d : Duration) : Bool := d.nanos = 0

/-- `Duration::as_millis`. -/
def asMillis (d : Duration) : Nat := d.nanos.toNat / 10 ^ 6

/-- `Duration::checked_mul`. -/
def checkedMul (d : Duration) (m : U32) : Option Duration :=
  if h : d.nanos.toNat * m.toNat < 2 ^ 64 * 10 ^ 9 then
    some ⟨BitVec.ofNat 128 (d.nanos.toNat * m.toNat), by rw [BitVec.toNat_ofNat]; omega⟩
  else none

theorem asMillis_fromMillis (n : U64) : (fromMillis n).asMillis = n.toNat := by
  have hn := n.isLt
  rw [asMillis, fromMillis, BitVec.toNat_mul, BitVec.toNat_widen (by decide),
    Nat.mod_eq_of_lt (Nat.lt_of_le_of_lt (Nat.mul_le_mul_right _ hn.le) (by decide))]
  exact Nat.mul_div_cancel _ (by decide)

/-- A product that fits is exact. -/
theorem checkedMul_eq_some {d e : Duration} {m : U32} :
    d.checkedMul m = some e ↔ e.nanos.toNat = d.nanos.toNat * m.toNat := by
  have he := e.bounded
  unfold checkedMul
  split
  · rename_i h
    have hlt : d.nanos.toNat * m.toNat < 2 ^ 128 := h.trans (by decide)
    rw [Option.some.injEq, Duration.mk.injEq, ← BitVec.toNat_inj, BitVec.toNat_ofNat,
      Nat.mod_eq_of_lt hlt]
    exact eq_comm
  · simp only [reduceCtorEq, false_iff]
    omega

theorem checkedMul_eq_none {d : Duration} {m : U32} :
    d.checkedMul m = none ↔ 2 ^ 64 * 10 ^ 9 ≤ d.nanos.toNat * m.toNat := by
  unfold checkedMul
  split <;> simp <;> omega

end Duration

/-! ## Retries -/

/-- `BackoffMultiplier::MAX`. -/
def backoffMultiplierMax : Nat := 32

/-- `BackoffMultiplier`. -/
structure BackoffMultiplier where
  value : NonZero 32
  bounded : value.get.toNat ≤ backoffMultiplierMax
  deriving DecidableEq

/-- `RetryPolicyInput`. -/
structure RetryPolicyInput where
  maximumAttempts : NonZero 16
  maximumAge : Duration
  minimumBackoff : Duration
  maximumBackoff : Duration
  multiplier : BackoffMultiplier
  deriving DecidableEq

/-- `RetryPolicy`. -/
structure RetryPolicy extends RetryPolicyInput where
  age_pos : maximumAge.isZero = false
  minimum_pos : minimumBackoff.isZero = false
  maximum_pos : maximumBackoff.isZero = false
  backoff_le : minimumBackoff.nanos ≤ maximumBackoff.nanos
  age_lt : maximumAge.nanos.toNat < 2 ^ 64
  minimum_lt : minimumBackoff.nanos.toNat < 2 ^ 64
  maximum_lt : maximumBackoff.nanos.toNat < 2 ^ 64
  deriving DecidableEq

/-- `RetryPreset`. -/
inductive RetryPreset
  | interactive | network | maintenance
  deriving DecidableEq

/-- `DEFAULT_MAXIMUM_ATTEMPTS`. -/
def defaultMaximumAttempts : NonZero 16 := ⟨180, by decide⟩

/-- `preset_values`, as an input of the checked constructor. -/
def RetryPolicyInput.presetValues (ageSeconds minimumMillis maximumMillis : U64) :
    RetryPolicyInput where
  maximumAttempts := defaultMaximumAttempts
  maximumAge := .fromSecs ageSeconds
  minimumBackoff := .fromMillis minimumMillis
  maximumBackoff := .fromMillis maximumMillis
  multiplier := ⟨⟨2, by decide⟩, by decide⟩

/-- `RetryPolicy::preset`. -/
def RetryPolicy.preset : RetryPreset → RetryPolicy
  | .interactive => ⟨.presetValues 120 100 5000, by decide, by decide, by decide, by decide,
      by decide, by decide, by decide⟩
  | .network => ⟨.presetValues 86400 1000 900000, by decide, by decide, by decide, by decide,
      by decide, by decide, by decide⟩
  | .maintenance => ⟨.presetValues 604800 5000 21600000, by decide, by decide, by decide,
      by decide, by decide, by decide, by decide⟩

end AuxCommon
