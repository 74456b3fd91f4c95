import AuxCommon.Policy
import Mathlib.Order.Defs.LinearOrder

/-!
# Arithmetic of timestamps

The operations of `time/timestamp.rs` on the wall clock, and the advisory wake of `time/wake.rs`.
Timestamps are compared and added as integers: `Timestamp.le_iff` and `Timestamp.lt_iff` take a
proof to linear arithmetic.
-/

namespace AuxCommon

namespace Timestamp

variable {a b : Timestamp}

theorem le_iff : a ≤ b ↔ a.millis.toInt ≤ b.millis.toInt :=
  Int64.le_iff_toInt_le

theorem lt_iff : a < b ↔ a.millis.toInt < b.millis.toInt :=
  Int64.lt_iff_toInt_lt

@[ext] theorem ext (h : a.millis.toInt = b.millis.toInt) : a = b := by
  cases a; cases b
  exact congrArg Timestamp.mk (Int64.toInt_inj.mp h)

instance : LinearOrder Timestamp where
  le_refl a := le_iff.mpr le_rfl
  le_trans a b c h h' := le_iff.mpr ((le_iff.mp h).trans (le_iff.mp h'))
  lt_iff_le_not_ge a b := by rw [lt_iff, le_iff, le_iff]; omega
  le_antisymm a b h h' := ext (le_antisymm (le_iff.mp h) (le_iff.mp h'))
  le_total a b := by rw [le_iff, le_iff]; exact le_total _ _
  toDecidableLE := inferInstance
  toDecidableEq := inferInstance
  toDecidableLT := inferInstance
  compare_eq_compareOfLessAndEq a b := by
    change compare a.millis b.millis = _
    rw [compareOfLessAndEq]
    simp only [compare, compareOfLessAndEq]
    rcases a with ⟨a⟩; rcases b with ⟨b⟩
    simp only [Timestamp.mk.injEq]
    rfl

theorem toInt_max (a b : Timestamp) :
    (max a b).millis.toInt = max a.millis.toInt b.millis.toInt := by
  rcases le_total a b with h | h
  · rw [max_eq_right h, max_eq_right (le_iff.mp h)]
  · rw [max_eq_left h, max_eq_left (le_iff.mp h)]

theorem toInt_min (a b : Timestamp) :
    (min a b).millis.toInt = min a.millis.toInt b.millis.toInt := by
  rcases le_total a b with h | h
  · rw [min_eq_left h, min_eq_left (le_iff.mp h)]
  · rw [min_eq_right h, min_eq_right (le_iff.mp h)]

/-- `checked_add`. -/
def checkedAdd (t : Timestamp) (d : Duration) : Except ValidationError Timestamp :=
  let millis : Nat := d.nanos.toNat / 10 ^ 6
  if 2 ^ 63 ≤ millis then .error (.overflow "timestamp duration")
  else if 2 ^ 63 ≤ t.millis.toInt + millis then .error (.overflow "timestamp")
  else .ok ⟨Int64.ofInt (t.millis.toInt + millis)⟩

/-- `duration_since`. -/
def durationSince (t earlier : Timestamp) : Except ValidationError Duration :=
  let millis := t.millis.toInt - earlier.millis.toInt
  if millis < -2 ^ 63 ∨ 2 ^ 63 ≤ millis then .error (.overflow "timestamp")
  else if millis < 0 then .error (.ordering "timestamp")
  else .ok (.fromMillis (BitVec.ofNat 64 millis.toNat))

/-- A sum of whole milliseconds is exact. -/
theorem checkedAdd_eq_ok {t t' : Timestamp} {d : Duration} : t.checkedAdd d = .ok t' ↔
      d.asMillis < 2 ^ 63 ∧ t'.millis.toInt = t.millis.toInt + d.asMillis := by
  have hlo := t.millis.le_toInt
  have hhi := t'.millis.toInt_lt
  unfold checkedAdd Duration.asMillis
  dsimp only
  split
  · simp only [reduceCtorEq, false_iff]
    omega
  · split
    · simp only [reduceCtorEq, false_iff]
      omega
    · rw [Except.ok.injEq, Timestamp.ext_iff, Int64.toInt_ofInt_of_le (by omega) (by omega)]
      omega

end Timestamp

/-- `WakeHint`. -/
inductive WakeHint
  | now
  | atTime (time : Timestamp)
  | none
  deriving DecidableEq

/-- `WakeHint::from_timestamp`. -/
def WakeHint.fromTimestamp (t now : Timestamp) : WakeHint := if t ≤ now then .now else .atTime t

end AuxCommon
