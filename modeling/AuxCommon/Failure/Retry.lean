import AuxCommon.Enqueue
import AuxCommon.Lifecycle.Claim

/-!
# Retries

`failure/retry.rs`: an attempt that failed is scheduled again after a backoff, unless the job has
run out of time or attempts.

- **The backoff** (`RetryPolicy.backoffCap`). The cap grows by the multiplier with every attempt
  and stops at the largest backoff: the loop's early exit and its products that do not fit never
  show (`backoffCap_nanos`).
- **The schedule** (`retryTiming`). A fraction of the cap, drawn from a hash, after now; never
  before the old schedule; at least the handler's hint, which the cap cuts (`retryTiming_spec`).

What the store makes of a record is an argument of the functions that commit one.
-/

namespace AuxCommon

open Except Timestamp BitVec

/-! ## The backoff -/

namespace RetryPolicy

/-- The loop of `backoff_cap`, with the rounds that are left. -/
def backoffLoop (p : RetryPolicy) : Nat → Duration → Duration
  | 0, value => if value.nanos ≤ p.maximumBackoff.nanos then value else p.maximumBackoff
  | rounds + 1, value =>
    let value := (value.checkedMul p.multiplier.value.get).getD p.maximumBackoff
    if p.maximumBackoff.nanos ≤ value.nanos then p.maximumBackoff else p.backoffLoop rounds value

variable (p : RetryPolicy)

/-- `backoff_cap`. -/
def backoffCap (attempt : NonZero 16) : Duration :=
  p.backoffLoop (attempt.get.toNat - 1) p.minimumBackoff

/-- One product, cut at the largest backoff: where it does not fit it is over the largest. -/
theorem min_checkedMul (value : Duration) (m : U32) : min p.maximumBackoff.nanos.toNat
        ((value.checkedMul m).getD p.maximumBackoff).nanos.toNat =
      min p.maximumBackoff.nanos.toNat (value.nanos.toNat * m.toNat) := by
  cases h : value.checkedMul m with
  | some e => rw [Option.getD_some, Duration.checkedMul_eq_some.mp h]
  | none =>
    have hover := Duration.checkedMul_eq_none.mp h
    have hmax := p.maximumBackoff.bounded
    rw [Option.getD_none, min_self, min_eq_left (by omega)]

/-- The loop computes the cut power. Under the induction `value` is below the largest backoff or
the loop has left. -/
theorem backoffLoop_nanos (rounds : Nat) (value : Duration) :
    (p.backoffLoop rounds value).nanos.toNat = min p.maximumBackoff.nanos.toNat
        (value.nanos.toNat * p.multiplier.value.get.toNat ^ rounds) := by
  induction rounds generalizing value with
  | zero =>
    rw [backoffLoop, pow_zero, mul_one]
    split <;> rename_i h <;> rw [le_def] at h <;> omega
  | succ rounds ih =>
    have hpow : 0 < p.multiplier.value.get.toNat ^ rounds := Nat.pow_pos p.multiplier.value.pos
    have hstep := p.min_checkedMul value p.multiplier.value.get
    rw [backoffLoop, pow_succ', ← mul_assoc]
    split
    · rename_i hle
      rw [le_def] at hle
      have hge : p.maximumBackoff.nanos.toNat ≤
          value.nanos.toNat * p.multiplier.value.get.toNat := by omega
      rw [min_eq_left (hge.trans (Nat.le_mul_of_pos_right _ hpow))]
    · rename_i hlt
      rw [le_def] at hlt
      have heq : ((value.checkedMul p.multiplier.value.get).getD p.maximumBackoff).nanos.toNat =
          value.nanos.toNat * p.multiplier.value.get.toNat := by omega
      rw [ih, heq]

/-- The cap is the cut power, exactly. -/
theorem backoffCap_nanos (attempt : NonZero 16) : (p.backoffCap attempt).nanos.toNat =
      min p.maximumBackoff.nanos.toNat (p.minimumBackoff.nanos.toNat *
          p.multiplier.value.get.toNat ^ (attempt.get.toNat - 1)) :=
  p.backoffLoop_nanos _ _

theorem backoffCap_mono {n n' : NonZero 16} (h : n.get ≤ n'.get) :
    (p.backoffCap n).nanos ≤ (p.backoffCap n').nanos := by
  rw [le_def] at h ⊢
  rw [backoffCap_nanos, backoffCap_nanos]
  have hpow := Nat.pow_le_pow_right p.multiplier.value.pos (Nat.sub_le_sub_right h 1)
  exact min_le_min_left _ (Nat.mul_le_mul_left _ hpow)

theorem minimumBackoff_le_backoffCap (n : NonZero 16) :
    p.minimumBackoff.nanos ≤ (p.backoffCap n).nanos := by
  have hle := le_def.mp p.backoff_le
  rw [le_def, backoffCap_nanos]
  exact le_min hle (Nat.le_mul_of_pos_right _ (Nat.pow_pos p.multiplier.value.pos))

theorem backoffCap_le_maximumBackoff (n : NonZero 16) :
    (p.backoffCap n).nanos ≤ p.maximumBackoff.nanos := by
  rw [le_def, backoffCap_nanos]
  exact min_le_left _ _

end RetryPolicy

/-! ## The schedule -/

/-- `jitter_duration`. -/
def jitterDuration (sys : JobSystem) (execution : ExecutionId) (attempt : NonZero 16)
    (now : Timestamp) (cap : Duration) : Duration :=
  let capMillis : Nat := max cap.asMillis 1
  let modulus : Nat := if capMillis < 2 ^ 64 then capMillis else 2 ^ 64 - 1
  .fromMillis (BitVec.ofNat 64 ((sys.jitterSample execution attempt now).toNat % modulus))

/-- A jitter is no longer than what it is a fraction of. -/
theorem jitterDuration_le (sys : JobSystem) (execution : ExecutionId) (attempt : NonZero 16)
    (now : Timestamp) (cap : Duration) :
    (jitterDuration sys execution attempt now cap).asMillis ≤ cap.asMillis := by
  unfold jitterDuration
  dsimp only
  rw [Duration.asMillis_fromMillis, toNat_ofNat]
  refine (Nat.mod_le _ _).trans ?_
  split
  · have := Nat.mod_lt (sys.jitterSample execution attempt now).toNat
      (show 0 < max cap.asMillis 1 by omega)
    omega
  · have := Nat.mod_lt (sys.jitterSample execution attempt now).toNat
      (show 0 < 2 ^ 64 - 1 by decide)
    omega

/-- The attempt that the backoff counts: `u16::try_from` of the attempts, or the largest. -/
def backoffAttempt (attempts : AttemptHistory) : U16 :=
  BitVec.ofNat 16 (max (min attempts.attempts.get.toNat (2 ^ 16 - 1)) 1)

/-- `retry_timing`: the attempt, and when the job is due again. -/
def retryTiming (sys : JobSystem) (claim : ClaimedJob) (hint : Option Timestamp)
    (now : Timestamp) : JobResult (NonZero 16 × Timestamp) := do
  let r := claim.record
  let attempts ← okOr .leaseLost r.attempts
  let attempt ← okOr .leaseLost (NonZero.new (backoffAttempt attempts))
  let cap := r.policy.retryPolicy.backoffCap attempt
  let base ← now.checkedAdd (jitterDuration sys r.executionId attempt now cap)
  let notBefore := max base r.scheduledAt
  match hint.filter (now < ·) with
  | some hint =>
    let capped ← now.checkedAdd cap
    return (attempt, max (min hint capped) notBefore)
  | none => return (attempt, notBefore)

theorem toNat_backoffAttempt (attempts : AttemptHistory) :
    (backoffAttempt attempts).toNat = min attempts.attempts.get.toNat (2 ^ 16 - 1) := by
  have := attempts.attempts.pos
  rw [backoffAttempt, toNat_ofNat, Nat.mod_eq_of_lt (by omega)]
  omega

/-- Where a schedule lies, in milliseconds: `t` for a job that ran at `now` with the backoff `cap`,
whose schedule was `old` and whose handler asked for `hint`. -/
structure TimelyRetry (now old : Timestamp) (cap : Duration) (hint : Option Timestamp)
    (t : Timestamp) : Prop where
  now_le : now ≤ t
  old_le : old ≤ t
  hint_le : ∀ h ∈ hint, min h.millis.toInt (now.millis.toInt + cap.asMillis) ≤ t.millis.toInt
  le_cap : hint = none →
    t.millis.toInt ≤ max (now.millis.toInt + cap.asMillis) old.millis.toInt

/-- What a retry's timing comes to. -/
theorem retryTiming_spec {sys : JobSystem} {claim : ClaimedJob} {hint : Option Timestamp}
    {now t : Timestamp} {attempt : NonZero 16}
    (h : retryTiming sys claim hint now = .ok (attempt, t)) :
    ∃ attempts, claim.record.attempts = some attempts ∧ attempt.get = backoffAttempt attempts ∧
      TimelyRetry now claim.record.scheduledAt (claim.record.policy.retryPolicy.backoffCap attempt)
        hint t := by
  obtain ⟨attempts, hattempts, h⟩ := bind_eq_ok.mp h
  obtain ⟨n, hn, h⟩ := bind_eq_ok.mp h
  obtain ⟨base, hbase, h⟩ := bind_eq_ok.mp h
  obtain ⟨-, hbase⟩ := checkedAdd_eq_ok.mp (mapError_eq_ok.mp hbase)
  have hjitter := jitterDuration_le sys claim.record.executionId n now
    (claim.record.policy.retryPolicy.backoffCap n)
  have hn := NonZero.new_eq_some.mp (okOr_eq_ok.mp hn)
  refine ⟨attempts, okOr_eq_ok.mp hattempts, ?_⟩
  cases hhint : hint.filter (now < ·) with
  | none =>
    rw [hhint] at h
    cases h
    refine ⟨hn, ?_, le_max_right _ _, ?_, ?_⟩
    · rw [le_iff, toInt_max]
      omega
    · intro hint hmem
      -- A hint that was dropped is not after `now`.
      have hle : hint ≤ now := by
        rw [Option.mem_def.mp hmem, Option.filter_some] at hhint
        by_contra hlt
        simp [not_le.mp hlt] at hhint
      rw [le_iff] at hle
      rw [toInt_max]
      omega
    · intro _
      rw [toInt_max]
      omega
  | some hint' =>
    rw [hhint] at h
    obtain ⟨capped, hcapped, h⟩ := bind_eq_ok.mp h
    obtain ⟨-, hcapped⟩ := checkedAdd_eq_ok.mp (mapError_eq_ok.mp hcapped)
    have hsome := (Option.filter_eq_some_iff.mp hhint).1
    cases h
    refine ⟨hn, ?_, le_max_of_le_right (le_max_right _ _), ?_, ?_⟩
    · rw [le_iff, toInt_max, toInt_max]
      omega
    · intro hint hmem
      cases hsome.symm.trans hmem
      rw [toInt_max, toInt_min, hcapped]
      exact le_max_left _ _
    · intro hnone
      cases hsome.symm.trans hnone

/-! ## Outcomes of an attempt -/

/-- `OutcomeResult`, the two that a retry has. -/
inductive OutcomeResult
  | retried (cls : RetryClass) (notBefore : Timestamp)
  | deadLettered (code : OutcomeCode)
  deriving DecidableEq

/-- The attempts of a record after an outcome at `now`. -/
def JobRecordV1.withOutcome (r : JobRecordV1) (now : Timestamp) (code : OutcomeCode) :
    JobRecordV1 :=
  { r with attempts := r.attempts.map fun a =>
      { a with lastAttemptAt := now, lastOutcome := some code } }

/-- `ExhaustionReason`. -/
inductive ExhaustionReason
  | age | attempts
  deriving DecidableEq

/-- `outcome_code`. -/
def ExhaustionReason.outcomeCode : ExhaustionReason → Except ValidationError OutcomeCode
  | .age => OutcomeCode.tryNew "age_exhausted"
  | .attempts => OutcomeCode.tryNew "attempts_exhausted"

variable (claim : ClaimedJob)

/-- `exhaustion_reason`. -/
def exhaustionReason (now : Timestamp) : Option ExhaustionReason :=
  match claim.record.attempts with
  | none => none
  | some attempts =>
    if claim.record.retentionDeadline ≤ now ∨
        (now.durationSince attempts.firstAttemptAt).toOption.any
          (claim.record.policy.retryPolicy.maximumAge.nanos ≤ ·.nanos) then some .age
    else if claim.record.hasExhaustedAttempts then some .attempts
    else none

/-- `dead_letter_claim`'s record. -/
def deadLetterRecord (code : OutcomeCode) (now : Timestamp) : JobResult EncodedJob := do
  let _ ← currentLease claim now
  let revision ← nextRevision claim.record
  encodeJobRecord { claim.record.withOutcome now code with
    state := .deadLettered
    revision := revision }

/-- The record that `commit_scheduled_transition` puts, of `prepare_retry_record`'s. -/
def retryRecord (now notBefore : Timestamp) (code : OutcomeCode) : JobResult EncodedJob := do
  let revision ← nextRevision claim.record
  encodeJobRecord { claim.record.withOutcome now code with
    state := .scheduled
    scheduledAt := notBefore
    revision := revision }

section Commit

variable (sys : JobSystem) (commit : EncodedJob → JobResult Unit) (claim : ClaimedJob)

/-- `dead_letter_claim`. -/
def deadLetterClaim (code : OutcomeCode) (now : Timestamp) : JobResult OutcomeResult := do
  let encoded ← deadLetterRecord claim code now
  commit encoded
  return .deadLettered code

/-- `retry_claim`. It asks for the current lease only where it dead-letters. -/
def retryClaim (cls : RetryClass) (hint : Option Timestamp) (code : OutcomeCode)
    (now : Timestamp) : JobResult OutcomeResult := do
  let _ ← okOr JobSystemError.leaseLost claim.record.attempts
  match exhaustionReason claim now with
  | some reason =>
    let code ← reason.outcomeCode
    deadLetterClaim commit claim code now
  | none =>
    let (_, notBefore) ← retryTiming sys claim hint now
    if claim.record.expiresAt.any (· ≤ notBefore) then
      let code ← ExhaustionReason.age.outcomeCode
      deadLetterClaim commit claim code now
    else
      let encoded ← retryRecord claim now notBefore code
      commit encoded
      return .retried cls notBefore

end Commit

theorem deadLetterClaim_ne_retried {commit : EncodedJob → JobResult Unit} {claim : ClaimedJob}
    {code : OutcomeCode} {now : Timestamp} {cls : RetryClass} {t : Timestamp} :
    deadLetterClaim commit claim code now ≠ .ok (.retried cls t) := by
  intro h
  obtain ⟨encoded, -, h⟩ := bind_eq_ok.mp h
  obtain ⟨-, -, h⟩ := bind_eq_ok.mp h
  cases h

/-- A retry that came through has put the record with the schedule that `retry_timing` gave. -/
theorem retryClaim_retried {sys : JobSystem} {commit : EncodedJob → JobResult Unit}
    {claim : ClaimedJob} {cls cls' : RetryClass} {hint : Option Timestamp} {code : OutcomeCode}
    {now t : Timestamp} (h : retryClaim sys commit claim cls hint code now = .ok (.retried cls' t)) :
    ∃ attempt encoded, retryTiming sys claim hint now = .ok (attempt, t) ∧
      commit encoded = .ok () ∧ encoded.record.scheduledAt = t := by
  obtain ⟨-, -, h⟩ := bind_eq_ok.mp h
  split at h
  · obtain ⟨code, -, h⟩ := bind_eq_ok.mp h
    exact absurd h deadLetterClaim_ne_retried
  · obtain ⟨⟨attempt, notBefore⟩, htiming, h⟩ := bind_eq_ok.mp h
    dsimp only at h
    split at h
    · obtain ⟨code, -, h⟩ := bind_eq_ok.mp h
      exact absurd h deadLetterClaim_ne_retried
    · obtain ⟨encoded, hencoded, h⟩ := bind_eq_ok.mp h
      obtain ⟨_, hcommit, h⟩ := bind_eq_ok.mp h
      cases h
      obtain ⟨revision, -, hencoded⟩ := bind_eq_ok.mp hencoded
      have hrecord := encodeJobRecord_eq_ok.mp (mapError_eq_ok.mp hencoded)
      exact ⟨attempt, encoded, htiming, hcommit, by rw [hrecord]⟩

/-- The backoff is the cut power of the multiplier, and a retry is scheduled within it: after now,
not before the handler's time as far as the backoff reaches, and, where the handler names none,
not after the backoff or the schedule that the job had. -/
theorem retry_within_backoff :
    (∀ (p : RetryPolicy) (n : NonZero 16),
      (p.backoffCap n).nanos.toNat = min p.maximumBackoff.nanos.toNat
        (p.minimumBackoff.nanos.toNat * p.multiplier.value.get.toNat ^ (n.get.toNat - 1)) ∧
      p.minimumBackoff.nanos ≤ (p.backoffCap n).nanos ∧
      (p.backoffCap n).nanos ≤ p.maximumBackoff.nanos ∧
      ∀ n' : NonZero 16, n.get ≤ n'.get → (p.backoffCap n).nanos ≤ (p.backoffCap n').nanos) ∧
    ∀ (sys : JobSystem) (commit : EncodedJob → JobResult Unit) (claim : ClaimedJob)
      (cls cls' : RetryClass) (hint : Option Timestamp) (code : OutcomeCode) (now t : Timestamp),
      retryClaim sys commit claim cls hint code now = .ok (.retried cls' t) →
      ∃ attempts n encoded, claim.record.attempts = some attempts ∧
        n.get.toNat = min attempts.attempts.get.toNat (2 ^ 16 - 1) ∧
        commit encoded = .ok () ∧ encoded.record.scheduledAt = t ∧
        TimelyRetry now claim.record.scheduledAt (claim.record.policy.retryPolicy.backoffCap n)
          hint t := by
  refine ⟨fun p n => ⟨p.backoffCap_nanos n, p.minimumBackoff_le_backoffCap n,
    p.backoffCap_le_maximumBackoff n, fun n' => p.backoffCap_mono⟩, ?_⟩
  intro sys commit claim cls cls' hint code now t h
  obtain ⟨n, encoded, htiming, hcommit, ht⟩ := retryClaim_retried h
  obtain ⟨attempts, hattempts, hn, htimely⟩ := retryTiming_spec htiming
  exact ⟨attempts, n, encoded, hattempts, by rw [hn, toNat_backoffAttempt], hcommit, ht, htimely⟩

namespace Sample

def claimed (r : JobRecordV1) (now : Timestamp) : JobResult ClaimedJob := do
  return ⟨← prepareClaimRecord system (.repeated 1) r now 0 none, false⟩

def code : OutcomeCode := ⟨"busy", by decide, by decide, by decide +kernel⟩

/-- The job's first attempt starts at 10. -/
def firstClaim : JobResult ClaimedJob := do claimed (← enqueued job) ⟨10⟩

/-- The first attempt ends at 10000, and the second starts. -/
def secondClaim : JobResult ClaimedJob := do
  let encoded ← retryRecord (← firstClaim) ⟨10000⟩ ⟨10000⟩ code
  claimed encoded.record ⟨10000⟩

/-- A retry at `now` in a store that takes every record. -/
def retried (hint : Option Timestamp) (now : Timestamp) : JobResult OutcomeResult :=
  retryClaim system (fun _ => .ok ()) claim .transient hint code now

end Sample

theorem retry_within_backoff_sample : ∃ claim attempts n, Sample.firstClaim = .ok claim ∧
    claim.record.attempts = some attempts ∧
    n.get.toNat = min attempts.attempts.get.toNat (2 ^ 16 - 1) ∧
    TimelyRetry ⟨11⟩ claim.record.scheduledAt (claim.record.policy.retryPolicy.backoffCap n)
      (some ⟨500⟩) ⟨500⟩ := by
  have hrun : (do Sample.retried (← Sample.firstClaim) (some ⟨500⟩) ⟨11⟩) =
      .ok (.retried .transient ⟨500⟩) := by decide +kernel
  obtain ⟨claim, hclaim, hretry⟩ := bind_eq_ok.mp hrun
  obtain ⟨attempts, n, encoded, hattempts, hn, -, -, htimely⟩ :=
    retry_within_backoff.2 _ _ _ _ _ _ _ _ _ hretry
  exact ⟨claim, attempts, n, hclaim, hattempts, hn, htimely⟩

/-- The backoff cuts a handler's time: the job of the first attempt runs at 1011 though its handler
asked for 5000. A worker whose clock went back keeps the schedule: the second attempt ends at 10,
its backoff is 2000, and the job runs at 10000. -/
theorem retry_leaves_window :
    (do Sample.retried (← Sample.firstClaim) (some ⟨5000⟩) ⟨11⟩) =
      .ok (.retried .transient ⟨1011⟩) ∧
    (do Sample.retried (← Sample.secondClaim) none ⟨10⟩) = .ok (.retried .transient ⟨10000⟩) ∧
    (do
      let claim ← Sample.secondClaim
      let timing ← retryTiming Sample.system claim none ⟨10⟩
      return (timing.1.get, (claim.record.policy.retryPolicy.backoffCap timing.1).asMillis)) =
      (.ok (2, 2000) : JobResult _) := by
  decide +kernel

end AuxCommon
