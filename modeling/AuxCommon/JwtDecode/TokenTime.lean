import AuxCommon.Error

/-!
# The time window of a token

`jwt-decode`, `claims_policy/validation.rs`: a token is valid from `nbf` and `iat` to `exp`, give or
take the leeway of the policy, and not older than its maximum age. Every sum is checked, and one
that does not fit an `i64` rejects the token. `validateTime_exact` states the window over the
integers, with what has to fit.
-/

namespace AuxCommon.JwtDecode

/-- `JwtDecodeErrorKind`: the errors about times. -/
inductive TimeError
  | expired | notYetValid | issuedAtInvalid
  | policyOutOfRange (name : String)
  deriving DecidableEq

/-- The times of `RegisteredClaims` and `RegisteredClaimRefs`. -/
structure ClaimTimes where
  exp : Int64
  nbf : Option Int64
  iat : Option Int64

/-- `VerificationPolicy`, with the whole seconds of its durations. -/
structure TimePolicy where
  leeway : U64
  maxIssuedAge : Option U64
  requireIssuedAt : Bool

/-- The values of an `i64`. -/
def FitsI64 (x : Int) : Prop := -2 ^ 63 ≤ x ∧ x < 2 ^ 63

instance (x : Int) : Decidable (FitsI64 x) := inferInstanceAs (Decidable (_ ∧ _))

/-- The result of a checked operation on `i64`. -/
def checkedI64 (x : Int) : Option Int := if FitsI64 x then some x else none

/-- `unix_seconds` of a clock in nanoseconds since the epoch. -/
def unixSeconds (now : Int) : Except TimeError Int := do
  require (0 ≤ now) .issuedAtInvalid
  okOr .issuedAtInvalid (checkedI64 (now / 10 ^ 9))

def durationSeconds (duration : U64) (name : String) : Except TimeError Int :=
  okOr (.policyOutOfRange name) (checkedI64 duration.toNat)

def validateMaxAge (policy : TimePolicy) (iat now leeway : Int) : Except TimeError Unit :=
  match policy.maxIssuedAge with
  | none => .ok ()
  | some maxAge => do
    let maxAge ← durationSeconds maxAge "max_issued_age"
    require (((checkedI64 (iat + maxAge)).bind fun freshUntil =>
      checkedI64 (freshUntil + leeway)).any (now ≤ ·)) .issuedAtInvalid

/-- `validate_time` and `validate_time_refs`. -/
def validateTime (policy : TimePolicy) (now : Int) (claims : ClaimTimes) : Except TimeError Unit := do
  let now ← unixSeconds now
  let leeway ← durationSeconds policy.leeway "leeway"
  require (¬(checkedI64 (claims.exp.toInt + leeway)).all (· ≤ now)) .expired
  require (¬claims.nbf.any fun nbf => (checkedI64 (nbf.toInt - leeway)).all (now < ·)) .notYetValid
  match claims.iat with
  | none => require (¬(policy.requireIssuedAt || policy.maxIssuedAge.isSome)) .issuedAtInvalid
  | some iat => do
    require (¬(checkedI64 (iat.toInt - leeway)).all (now < ·)) .issuedAtInvalid
    validateMaxAge policy iat.toInt now leeway

/-- The window over the integers, at a time in seconds. The numbers on the way to a comparison
have to be such that `fits`. -/
structure InWindow (fits : Int → Prop) (policy : TimePolicy) (now : Int) (claims : ClaimTimes) :
    Prop where
  exp : fits (claims.exp.toInt + policy.leeway.toNat) ∧
    now < claims.exp.toInt + policy.leeway.toNat
  nbf : ∀ nbf, claims.nbf = some nbf →
    fits (nbf.toInt - policy.leeway.toNat) ∧ nbf.toInt - policy.leeway.toNat ≤ now
  iat : ∀ iat, claims.iat = some iat →
    fits (iat.toInt - policy.leeway.toNat) ∧ iat.toInt - policy.leeway.toNat ≤ now
  age : ∀ iat age, claims.iat = some iat → policy.maxIssuedAge = some age →
    (fits age.toNat ∧ fits (iat.toInt + age.toNat) ∧
      fits (iat.toInt + age.toNat + policy.leeway.toNat)) ∧
    now ≤ iat.toInt + age.toNat + policy.leeway.toNat
  absent : claims.iat = none → policy.requireIssuedAt = false ∧ policy.maxIssuedAge = none

theorem checkedI64_eq_some {x y : Int} : checkedI64 x = some y ↔ FitsI64 x ∧ x = y := by
  unfold checkedI64
  split <;> simp [*]

theorem not_all_checkedI64 {x : Int} {p : Int → Bool} :
    ¬(checkedI64 x).all p = true ↔ FitsI64 x ∧ p x = false := by
  unfold checkedI64
  split <;> simp [*]

theorem unixSeconds_eq_ok {now s : Int} :
    unixSeconds now = .ok s ↔ (0 ≤ now ∧ FitsI64 (now / 10 ^ 9)) ∧ now / 10 ^ 9 = s := by
  simp only [unixSeconds, Except.bind_eq_ok, require_eq_ok, okOr_eq_ok, checkedI64_eq_some]
  simp [and_assoc]

theorem durationSeconds_eq_ok {d : U64} {name : String} {s : Int} :
    durationSeconds d name = .ok s ↔ FitsI64 d.toNat ∧ d.toNat = s := by
  rw [durationSeconds, okOr_eq_ok, checkedI64_eq_some]

theorem validateMaxAge_eq_ok {policy : TimePolicy} {iat now leeway : Int} :
    validateMaxAge policy iat now leeway = .ok () ↔ ∀ age, policy.maxIssuedAge = some age →
      (FitsI64 age.toNat ∧ FitsI64 (iat + age.toNat) ∧ FitsI64 (iat + age.toNat + leeway)) ∧
        now ≤ iat + age.toNat + leeway := by
  unfold validateMaxAge
  cases policy.maxIssuedAge with
  | none => simp
  | some age =>
    simp only [Except.bind_eq_ok, durationSeconds_eq_ok, require_eq_ok, Option.any_eq_true,
      Option.bind_eq_some_iff, checkedI64_eq_some, decide_eq_true_eq, Option.some.injEq, forall_eq']
    constructor
    · rintro ⟨_, ⟨hage, rfl⟩, _, ⟨_, ⟨hsum, rfl⟩, hfits, rfl⟩, hnow⟩
      exact ⟨⟨hage, hsum, hfits⟩, hnow⟩
    · rintro ⟨⟨hage, hsum, hfits⟩, hnow⟩
      exact ⟨_, ⟨hage, rfl⟩, _, ⟨_, ⟨hsum, rfl⟩, hfits, rfl⟩, hnow⟩

theorem not_any_nbf {nbf : Option Int64} {leeway now : Int} :
    ¬(nbf.any fun nbf => (checkedI64 (nbf.toInt - leeway)).all (now < ·)) = true ↔
      ∀ t, nbf = some t → FitsI64 (t.toInt - leeway) ∧ t.toInt - leeway ≤ now := by
  cases nbf with
  | none => simp
  | some t => simp only [Option.any_some, not_all_checkedI64, decide_eq_false_iff_not, not_lt,
      Option.some.injEq, forall_eq']

/-- A token is accepted in its window, as far as the numbers of the comparisons fit an `i64`. -/
theorem validateTime_exact (policy : TimePolicy) (now : Int) (claims : ClaimTimes) :
    validateTime policy now claims = .ok () ↔
      (0 ≤ now ∧ FitsI64 (now / 10 ^ 9)) ∧ FitsI64 policy.leeway.toNat ∧
        InWindow FitsI64 policy (now / 10 ^ 9) claims := by
  obtain ⟨exp, nbf, iat⟩ := claims
  simp only [validateTime, Except.bind_eq_ok, unixSeconds_eq_ok, durationSeconds_eq_ok,
    require_eq_ok, not_all_checkedI64, not_any_nbf, decide_eq_false_iff_not, not_le]
  constructor
  · rintro ⟨_, ⟨hclock, rfl⟩, _, ⟨hleeway, rfl⟩, _, hexp, _, hnbf, h⟩
    refine ⟨hclock, hleeway, ?_⟩
    cases iat with
    | none =>
      exact ⟨hexp, hnbf, fun _ h => (by cases h), fun _ _ h => (by cases h),
        fun _ => by simpa [require_eq_ok] using h⟩
    | some iat =>
      simp only [Except.bind_eq_ok, require_eq_ok, not_lt, validateMaxAge_eq_ok] at h
      obtain ⟨_, hiat, hage⟩ := h
      refine ⟨hexp, hnbf, ?_, ?_, fun h => by cases h⟩
      · rintro _ ⟨⟩
        exact hiat
      · rintro _ age ⟨⟩
        exact hage age
  · rintro ⟨hclock, hleeway, hwindow⟩
    refine ⟨_, ⟨hclock, rfl⟩, _, ⟨hleeway, rfl⟩, (), hwindow.exp, (), hwindow.nbf, ?_⟩
    cases iat with
    | none => exact require_eq_ok.mpr (by simpa using hwindow.absent rfl)
    | some iat =>
      simp only [Except.bind_eq_ok, require_eq_ok, not_lt, validateMaxAge_eq_ok]
      exact ⟨(), hwindow.iat iat rfl, fun age => hwindow.age iat age rfl⟩

/-- A token that is valid for ever, with a leeway of one second. -/
theorem latest_expiry_rejected :
    InWindow (fun _ => True) ⟨1, none, false⟩ 0 ⟨Int64.maxValue, none, none⟩ ∧
      validateTime ⟨1, none, false⟩ 0 ⟨Int64.maxValue, none, none⟩ = .error .expired := by
  refine ⟨⟨⟨trivial, by decide⟩, ?_, ?_, ?_, fun _ => ⟨rfl, rfl⟩⟩, by decide⟩
  all_goals simp

end AuxCommon.JwtDecode
