import AuxCommon.Failure.Retry

/-!
# Redriving dead letters

`admin/redrive.rs`: a dead-lettered job is scheduled again, with its attempts and its checkpoint
forgotten. Of the three deadlines that a claim looks at, the redrive starts the attempts afresh
and moves the expiry of a record that has one, but it keeps the retention deadline. So a job that
died of age stays dead: `redrive_runs_iff` says which redriven jobs a claim takes at their due
time.
-/

namespace AuxCommon

open Except

/-- `RedriveExecution`, with the identity that a new execution draws. -/
inductive RedriveExecution
  | reuseExecutionId
  | newExecutionId (fresh : ExecutionId)
  deriving DecidableEq

/-- `RedriveRequest`. -/
structure RedriveRequest where
  expectedRevision : U64
  expectedOperation : OperationId
  execution : RedriveExecution
  scheduledAt : Timestamp
  deriving DecidableEq

/-- `RedriveResult`. -/
structure RedriveResult where
  jobId : JobId
  generation : U32
  executionId : ExecutionId
  reusedExecution : Bool
  deriving DecidableEq

/-- `JobOperation`: the record and the operation marker that `load_job_operation` found. -/
structure JobOperation where
  encoded : EncodedJob
  operationValue : Option StoreValue

/-- `active_operation`: the operation of the marker and its fence. -/
def JobOperation.activeOperation (a : JobOperation) : JobResult (OperationId × U64) := do
  let value ← okOr .payloadCorrupt a.operationValue
  (decodeActiveOperation value a.encoded.record.jobId).mapError
    fun _ => JobSystemError.payloadCorrupt

/-- The expiry of a redriven record: a record that had one gets a new one. -/
def redriveExpiry (r : JobRecordV1) (scheduledAt : Timestamp) :
    Except ValidationError (Option Timestamp) :=
  match r.expiresAt with
  | some _ => (scheduledAt.checkedAdd r.policy.retryPolicy.maximumAge).map some
  | none => .ok none

/-- `prepare_redrive`. -/
def prepareRedrive (r : JobRecordV1) (request : RedriveRequest) : JobResult JobRecordV1 := do
  let revision ← nextRevision r
  let executionId := match request.execution with
    | .reuseExecutionId => r.executionId
    | .newExecutionId fresh => fresh
  let generation ← okOr .leaseConflict (r.generation.checkedAdd 1)
  let expiresAt ← redriveExpiry r request.scheduledAt
  return { r with
    generation := generation
    executionId := executionId
    attempts := none
    checkpoint := none
    scheduledAt := request.scheduledAt
    expiresAt := expiresAt
    state := .scheduled
    revision := revision }

/-- `redrive_job` up to its commit: the record that `redrive_mutations` puts. -/
def redriveRecord (sys : JobSystem) (authority : JobOperation) (request : RedriveRequest) :
    JobResult EncodedJob := do
  let old := authority.encoded.record
  require (old.state = .deadLettered ∧ old.revision = request.expectedRevision) .leaseConflict
  let operation ← authority.activeOperation
  require (operation.1 = request.expectedOperation) .leaseLost
  let _ ← okOr .unregisteredHandler (sys.registry old.kind old.schemaVersion)
  let next ← prepareRedrive old request
  encodeJobRecord next

/-- `redrive_job` on what it loaded. What the store makes of the record is an argument. -/
def redriveJob (sys : JobSystem) (commit : EncodedJob → JobResult Unit) (authority : JobOperation)
    (request : RedriveRequest) : JobResult RedriveResult := do
  let next ← redriveRecord sys authority request
  commit next
  return ⟨next.record.jobId, next.record.generation, next.record.executionId,
    request.execution = .reuseExecutionId⟩

/-! ## What a redrive leaves of the deadlines -/

theorem redriveExpiry_all {r : JobRecordV1} {t : Timestamp} {expiresAt : Option Timestamp}
    (h : redriveExpiry r t = .ok expiresAt) :
    expiresAt.all (t < ·) = true ↔
      r.expiresAt = none ∨ 0 < r.policy.retryPolicy.maximumAge.asMillis := by
  unfold redriveExpiry at h
  cases hold : r.expiresAt with
  | none =>
    rw [hold] at h
    cases h
    simp
  | some old =>
    rw [hold] at h
    obtain ⟨expiry, hexpiry, rfl⟩ := map_eq_ok.mp h
    obtain ⟨-, hsum⟩ := Timestamp.checkedAdd_eq_ok.mp hexpiry
    simp only [Option.all_some, decide_eq_true_eq, reduceCtorEq, false_or, Timestamp.lt_iff]
    omega

/-- The redriven record, as far as a claim looks at it. -/
theorem prepareRedrive_spec {r next : JobRecordV1} {request : RedriveRequest}
    (h : prepareRedrive r request = .ok next) :
    next.scheduledAt = request.scheduledAt ∧ next.attempts = none ∧ next.state = .scheduled ∧
      next.retentionDeadline = r.retentionDeadline ∧
      redriveExpiry r request.scheduledAt = .ok next.expiresAt := by
  obtain ⟨revision, -, h⟩ := bind_eq_ok.mp h
  obtain ⟨generation, -, h⟩ := bind_eq_ok.mp h
  obtain ⟨expiresAt, hexpires, h⟩ := bind_eq_ok.mp h
  cases h
  exact ⟨rfl, rfl, rfl, rfl, mapError_eq_ok.mp hexpires⟩

theorem prepareRedrive_runnable {r next : JobRecordV1} {request : RedriveRequest}
    (h : prepareRedrive r request = .ok next) :
    next.Runnable request.scheduledAt ↔ request.scheduledAt < r.retentionDeadline ∧
      (r.expiresAt = none ∨ 0 < r.policy.retryPolicy.maximumAge.asMillis) := by
  obtain ⟨hscheduled, hattempts, hstate, hretention, hexpires⟩ := prepareRedrive_spec h
  rw [← redriveExpiry_all hexpires, ← hretention]
  constructor
  · intro hrun
    exact ⟨hrun.retained, hrun.alive⟩
  · rintro ⟨hretained, halive⟩
    exact ⟨hscheduled.le, halive, hretained, by rw [claimable, hstate],
      by rw [JobRecordV1.hasExhaustedAttempts, hattempts]; rfl⟩

/-- A redriven job passes the checks of a claim at its due time, and with room for the claim is
claimed there, exactly when the retention deadline of the dead letter is later and the job, if it
expires, lives for a millisecond at least. -/
theorem redrive_runs_iff (sys : JobSystem) (commit : EncodedJob → JobResult Unit)
    (authority : JobOperation) (request : RedriveRequest) (result : RedriveResult)
    (h : redriveJob sys commit authority request = .ok result) :
    ∃ next, redriveRecord sys authority request = .ok next ∧ commit next = .ok () ∧
      (next.record.Runnable request.scheduledAt ↔
        request.scheduledAt < authority.encoded.record.retentionDeadline ∧
        (authority.encoded.record.expiresAt = none ∨
          0 < authority.encoded.record.policy.retryPolicy.maximumAge.asMillis)) ∧
      ∀ token fence, ClaimRoom sys next.record request.scheduledAt fence none →
        ((prepareClaimRecord sys token next.record request.scheduledAt fence none).isOk = true ↔
          request.scheduledAt < authority.encoded.record.retentionDeadline ∧
          (authority.encoded.record.expiresAt = none ∨
            0 < authority.encoded.record.policy.retryPolicy.maximumAge.asMillis)) := by
  obtain ⟨next, hnext, h⟩ := bind_eq_ok.mp h
  obtain ⟨_, hcommit, -⟩ := bind_eq_ok.mp h
  have hprepared : prepareRedrive authority.encoded.record request = .ok next.record := by
    obtain ⟨_, -, hrest⟩ := bind_eq_ok.mp hnext
    obtain ⟨_, -, hrest⟩ := bind_eq_ok.mp hrest
    obtain ⟨_, -, hrest⟩ := bind_eq_ok.mp hrest
    obtain ⟨_, -, hrest⟩ := bind_eq_ok.mp hrest
    obtain ⟨prepared, hprepared, hrest⟩ := bind_eq_ok.mp hrest
    rw [encodeJobRecord_eq_ok.mp (mapError_eq_ok.mp hrest), hprepared]
  refine ⟨next, hnext, hcommit, prepareRedrive_runnable hprepared, ?_⟩
  intro token fence hroom
  rw [prepareClaimRecord_isOk, prepareRedrive_runnable hprepared]
  exact and_iff_left hroom

namespace Sample

/-- The job, if it is alive only until 1000. -/
def expiringJob : NewJob := { job with expiresAt := some ⟨1000⟩ }

/-- The attempt that started at 10. -/
def expiringClaim : JobResult ClaimedJob := do claimed (← enqueued expiringJob) ⟨10⟩

/-- The dead letter that the attempt leaves when it ends at 1500. -/
def aged : JobResult EncodedJob := do
  deadLetterRecord (← expiringClaim) (← ExhaustionReason.age.outcomeCode) ⟨1500⟩

/-- The dead letter that an attempt leaves whose handler gave up at 11. -/
def refused : JobResult EncodedJob := do deadLetterRecord (← firstClaim) code ⟨11⟩

/-- A dead letter with its marker. -/
def authority (encoded : EncodedJob) : JobOperation :=
  ⟨encoded, some (.operation (.marker encoded.record.jobId (.repeated 7) 1))⟩

/-- The request to run a dead letter at 2000. -/
def request : RedriveRequest := ⟨2, .repeated 7, .reuseExecutionId, ⟨2000⟩⟩

/-- A redrive in a store that takes every record. -/
def redriven (encoded : EncodedJob) : JobResult RedriveResult :=
  redriveJob system (fun _ => .ok ()) (authority encoded) request

end Sample

theorem redrive_runs_iff_sample : ∃ old next, Sample.refused = .ok old ∧
    redriveRecord Sample.system (Sample.authority old) Sample.request = .ok next ∧
    ClaimRoom Sample.system next.record ⟨2000⟩ 1 none ∧
    ((prepareClaimRecord Sample.system (.repeated 2) next.record ⟨2000⟩ 1 none).isOk = true ↔
      (⟨2000⟩ : Timestamp) < old.record.retentionDeadline ∧
      (old.record.expiresAt = none ∨
        0 < old.record.policy.retryPolicy.maximumAge.asMillis)) := by
  have hrun : (do Sample.redriven (← Sample.refused)) = .ok ⟨.repeated 1, 2, .repeated 1, true⟩ := by
    decide +kernel
  have hclaim : ∀ old next, Sample.refused = .ok old →
      redriveRecord Sample.system (Sample.authority old) Sample.request = .ok next →
      (prepareClaimRecord Sample.system (.repeated 2) next.record ⟨2000⟩ 1 none).isOk = true := by
    have hall : (Sample.refused.toOption.all fun old =>
        (redriveRecord Sample.system (Sample.authority old) Sample.request).toOption.all fun next =>
        (prepareClaimRecord Sample.system (.repeated 2) next.record ⟨2000⟩ 1 none).isOk) = true := by
      decide +kernel
    intro old next hold hnext
    rw [hold, Except.toOption, Option.all_some, hnext] at hall
    exact hall
  obtain ⟨old, hold, hredrive⟩ := Except.bind_eq_ok.mp hrun
  obtain ⟨next, hnext, -, -, hiff⟩ := redrive_runs_iff _ _ _ _ _ hredrive
  have hroom := (prepareClaimRecord_isOk.mp (hclaim old next hold hnext)).2
  exact ⟨old, next, hold, hnext, hroom, hiff _ _ hroom⟩

/-- The attempt that ends at 1500 has passed the expiry at 1000, so that its retry is a dead letter
of age. The redrive at 2000 comes through and moves the expiry, but no claim takes the job. -/
theorem aged_job_stays_dead :
    (do
      let result ← Sample.retried (← Sample.expiringClaim) none ⟨1500⟩
      let age ← ExhaustionReason.age.outcomeCode
      return decide (result = .deadLettered age)) = (.ok true : JobResult Bool) ∧
    (do return (← Sample.aged).record.retentionDeadline) = (.ok ⟨1000⟩ : JobResult Timestamp) ∧
    (do Sample.redriven (← Sample.aged)) = .ok ⟨.repeated 1, 2, .repeated 1, true⟩ ∧
    (do
      let old ← Sample.aged
      let next ← redriveRecord Sample.system (Sample.authority old) Sample.request
      prepareClaimRecord Sample.system (.repeated 2) next.record ⟨2000⟩ 1 none) =
      .error .leaseConflict := by
  decide +kernel

end AuxCommon
