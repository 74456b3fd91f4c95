import AuxCommon.Error
import AuxCommon.Store.Keys
import AuxCommon.Time

/-!
# Job records

The persisted values of `model/record.rs` and `model/definition.rs`. `encode_job_record` refuses
a record that does not pass `validate`, and nothing else writes the value of a job, so the value
of a job in the store is an `EncodedJob`: a record with the proof that it passes.
-/

namespace AuxCommon

/-- `MAX_INLINE_PAYLOAD_BYTES`. -/
def maxInlinePayloadBytes : Nat := 950 * 1024

/-- `MAX_CHECKPOINT_BYTES`. -/
def maxCheckpointBytes : Nat := 65536

/-- `PAYLOAD_DIGEST_BYTES`. -/
def payloadDigestBytes : Nat := 32

/-- A SHA-256 digest. -/
abbrev Digest := Vector UInt8 payloadDigestBytes

/-- `Bytes`. -/
abbrev Bytes := List UInt8

/-! ## Outcomes -/

/-- `OutcomeCode::MAX_BYTES`. -/
def maxOutcomeCodeBytes : Nat := 64

/-- The characters of an outcome code. -/
def isOutcomeByte (b : UInt8) : Bool :=
  (0x61 ≤ b && b ≤ 0x7a) || (0x30 ≤ b && b ≤ 0x39) || b == 0x5f || b == 0x2d

/-- `OutcomeCode`. -/
@[ext] structure OutcomeCode where
  value : String
  nonempty : value.utf8ByteSize ≠ 0
  bounded : value.utf8ByteSize ≤ maxOutcomeCodeBytes
  plain : value.toByteArray.data.toList.all isOutcomeByte = true

instance : DecidableEq OutcomeCode := fun _ _ => decidable_of_iff _ OutcomeCode.ext_iff.symm

/-- `OutcomeCode::try_new`. -/
def OutcomeCode.tryNew (value : String) : Except ValidationError OutcomeCode :=
  if hne : value.utf8ByteSize = 0 then .error (.empty "outcome code")
  else if hle : value.utf8ByteSize ≤ maxOutcomeCodeBytes then
    if hp : value.toByteArray.data.toList.all isOutcomeByte = true then .ok ⟨value, hne, hle, hp⟩
    else .error (.invalidText "outcome code")
  else .error (.tooLong "outcome code" maxOutcomeCodeBytes value.utf8ByteSize)

theorem OutcomeCode.tryNew_eq_ok {value : String} {code : OutcomeCode} :
    tryNew value = .ok code ↔ value = code.value := by
  constructor
  · intro h
    unfold tryNew at h
    split_ifs at h
    cases h; rfl
  · rintro rfl
    rw [tryNew, dif_neg code.nonempty, dif_pos code.bounded, dif_pos code.plain]

/-- `RetryClass`. -/
inductive RetryClass
  | transient | throttled | ambiguousEffect
  deriving DecidableEq

/-- `JobOutcome`. -/
inductive JobOutcome
  | complete (code : OutcomeCode)
  | continue_ (notBefore : Timestamp) (checkpoint : Bytes)
  | retry (cls : RetryClass) (notBefore : Option Timestamp) (code : OutcomeCode)
  | deadLetter (code : OutcomeCode)
  | cancelled
  deriving DecidableEq

/-- The checkpoint size check of outcomes, records and `checkpoint`. -/
def validateCheckpoint (checkpoint : Bytes) : Except ValidationError Unit :=
  if maxCheckpointBytes < checkpoint.length then
    .error (.tooLong "checkpoint" maxCheckpointBytes checkpoint.length)
  else .ok ()

/-! ## Parts of a record -/

/-- `PayloadManifest`. -/
structure PayloadManifest where
  totalLength : U32
  digest : Digest
  chunkKeys : List StoreKey
  deriving DecidableEq

/-- `PayloadManifest::MAX_CHUNKS`. -/
def maxChunks : Nat := 1024

/-- `PayloadManifest::validate`. -/
def PayloadManifest.validate (m : PayloadManifest) : Except ValidationError Unit :=
  if maxInlinePayloadBytes < m.totalLength.toNat then
    .error (.tooLong "payload" maxInlinePayloadBytes m.totalLength.toNat)
  else if maxChunks < m.chunkKeys.length then
    .error (.tooLong "payload chunks" maxChunks m.chunkKeys.length)
  else if 0 < m.totalLength.toNat ∧ m.chunkKeys = [] then .error (.empty "payload chunks")
  else if m.totalLength.toNat = 0 ∧ m.chunkKeys ≠ [] then
    .error (.invalidValue "zero-length payload chunks")
  else if ¬ m.chunkKeys.Nodup then .error (.invalidValue "duplicate payload chunk")
  else .ok ()

/-- `PayloadManifest::try_new`. -/
def PayloadManifest.tryNew (totalLength : U32) (digest : Digest) (chunkKeys : List StoreKey) :
    Except ValidationError PayloadManifest := do
  let manifest : PayloadManifest := ⟨totalLength, digest, chunkKeys⟩
  manifest.validate
  return manifest

/-- `Lease`, whose expiry is not negative. -/
structure Lease where
  owner : OwnerId
  token : LeaseToken
  fence : NonZero 64
  expiresAt : Timestamp
  expiry_nonneg : Timestamp.zero ≤ expiresAt
  deriving DecidableEq

/-- `Lease::try_new`. -/
def Lease.tryNew (owner : OwnerId) (token : LeaseToken) (fence : NonZero 64)
    (expiresAt : Timestamp) : Except ValidationError Lease :=
  if h : Timestamp.zero ≤ expiresAt then .ok ⟨owner, token, fence, expiresAt, h⟩
  else .error (.invalidValue "lease expiry")

/-- `JobState`. -/
inductive JobState
  | scheduled
  | leased (lease : Lease)
  | deadLettered
  | cancelled
  | suspended
  deriving DecidableEq

/-- The lease of a state. -/
def JobState.lease? : JobState → Option Lease
  | .leased lease => some lease
  | _ => none

/-- `AttemptHistory`. -/
structure AttemptHistory where
  attempts : NonZero 32
  firstAttemptAt : Timestamp
  lastAttemptAt : Timestamp
  lastOutcome : Option OutcomeCode
  deriving DecidableEq

/-- `AttemptHistory::validate`. -/
def AttemptHistory.validate (h : AttemptHistory) : Except ValidationError Unit :=
  if h.lastAttemptAt < h.firstAttemptAt then .error (.ordering "attempt chronology") else .ok ()

/-- `validate_cost_units`. -/
def validateCostUnits (field : String) (value : NonZero 16) : Except ValidationError Unit :=
  if maxCostUnits < value.get.toNat then .error (.tooLong field maxCostUnits value.get.toNat)
  else .ok ()

/-- `validate_execution_timeout`. -/
def validateExecutionTimeout (field : String) : Option Duration → Except ValidationError Unit
  | some timeout =>
    if timeout.isZero then .error (.invalidValue field)
    else if 2 ^ 64 ≤ timeout.nanos.toNat then .error (.overflow field)
    else .ok ()
  | none => .ok ()

/-- `JobPolicySnapshot`. -/
structure JobPolicySnapshot where
  effectMode : EffectMode
  costUnits : NonZero 16
  executionTimeout : Option Duration
  retryPolicy : RetryPolicy
  deriving DecidableEq

/-- `JobPolicySnapshot::validate`. -/
def JobPolicySnapshot.validate (p : JobPolicySnapshot) : Except ValidationError Unit := do
  validateCostUnits "job cost units" p.costUnits
  validateExecutionTimeout "execution timeout" p.executionTimeout

/-- `Deduplication`. -/
structure Deduplication where
  key : DeduplicationKey
  retainUntil : Timestamp
  retain_nonneg : Timestamp.zero ≤ retainUntil
  deriving DecidableEq

/-! ## Records -/

/-- `JobRecordV1`. -/
structure JobRecordV1 where
  jobId : JobId
  namespace_ : Namespace
  queue : QueueName
  kind : JobKind
  schemaVersion : NonZero 16
  generation : U32
  executionId : ExecutionId
  payload : PayloadManifest
  fairness : FairnessClass
  orderingKey : Option OrderingKey
  priority : Priority
  createdAt : Timestamp
  scheduledAt : Timestamp
  expiresAt : Option Timestamp
  policy : JobPolicySnapshot
  attempts : Option AttemptHistory
  state : JobState
  checkpoint : Option Bytes
  retentionDeadline : Timestamp
  deduplication : Option Deduplication
  revision : U64
  deriving DecidableEq

variable (r : JobRecordV1)

namespace JobRecordV1

/-- `validate_expiry_and_retention`. -/
def validateExpiryAndRetention : Except ValidationError Unit :=
  if r.expiresAt.any (· < r.scheduledAt) then .error (.ordering "job expiry")
  else if r.retentionDeadline < r.createdAt then .error (.ordering "job retention")
  else .ok ()

/-- `validate_checkpoint_and_lease`. -/
def validateCheckpointAndLease : Except ValidationError Unit := do
  if let some checkpoint := r.checkpoint then validateCheckpoint checkpoint
  if r.state.lease?.any fun lease => lease.expiresAt < r.createdAt then
    throw (.ordering "lease expiry")

/-- `JobRecordV1::validate`. -/
def validate (r : JobRecordV1) : Except ValidationError Unit := do
  r.payload.validate
  r.policy.validate
  if let some attempts := r.attempts then attempts.validate
  r.validateExpiryAndRetention
  r.validateCheckpointAndLease

/-- `has_exhausted_attempts`. -/
def hasExhaustedAttempts : Bool :=
  r.attempts.any fun a => r.policy.retryPolicy.maximumAttempts.get.toNat ≤ a.attempts.get.toNat

end JobRecordV1

/-- The value of a job in the store: a record that passes `validate`. -/
structure EncodedJob where
  record : JobRecordV1
  valid : record.validate = .ok ()
  deriving DecidableEq

/-- `encode_job_record`. -/
def encodeJobRecord (record : JobRecordV1) : Except StoreDataError EncodedJob :=
  if h : record.validate = .ok () then .ok ⟨record, h⟩ else .error (.malformed "invalid job record")

theorem encodeJobRecord_eq_ok {r : JobRecordV1} {e : EncodedJob} :
    encodeJobRecord r = .ok e ↔ e.record = r := by
  unfold encodeJobRecord
  constructor
  · intro h
    split at h
    · cases h; rfl
    · cases h
  · rintro rfl
    exact dif_pos e.valid

/-- `JobDefinition`: what a request fixes about a job, without its schedule. -/
structure JobDefinition where
  jobId : JobId
  namespace_ : Namespace
  queue : QueueName
  kind : JobKind
  schemaVersion : NonZero 16
  payloadLength : U32
  payloadDigest : Digest
  fairness : FairnessClass
  orderingKey : Option OrderingKey
  priority : Priority
  expiresAt : Option Timestamp
  policy : JobPolicySnapshot
  deduplication : Option Deduplication
  deriving DecidableEq

/-- `JobDefinition::from(&record)`. -/
def JobDefinition.ofRecord : JobDefinition where
  jobId := r.jobId
  namespace_ := r.namespace_
  queue := r.queue
  kind := r.kind
  schemaVersion := r.schemaVersion
  payloadLength := r.payload.totalLength
  payloadDigest := r.payload.digest
  fairness := r.fairness
  orderingKey := r.orderingKey
  priority := r.priority
  expiresAt := r.expiresAt
  policy := r.policy
  deduplication := r.deduplication

/-- `RetrySelection`. -/
inductive RetrySelection
  | preset (preset : RetryPreset)
  | custom (policy : RetryPolicy)
  deriving DecidableEq

/-- `RetryPolicy::from(selection)`. -/
def RetrySelection.policy : RetrySelection → RetryPolicy
  | .preset p => .preset p
  | .custom policy => policy

/-- `NewJob`. -/
structure NewJob where
  jobId : JobId
  kind : JobKind
  schemaVersion : NonZero 16
  payload : Bytes
  fairness : FairnessClass
  orderingKey : Option OrderingKey
  priority : Priority
  scheduledAt : Timestamp
  expiresAt : Option Timestamp
  retryOverride : Option RetrySelection
  deduplication : Option Deduplication
  deriving DecidableEq

/-- `NewJob::validate`. -/
def NewJob.validate (job : NewJob) : Except ValidationError Unit :=
  if maxInlinePayloadBytes < job.payload.length then
    .error (.tooLong "payload" maxInlinePayloadBytes job.payload.length)
  else if job.expiresAt.any (· < job.scheduledAt) then .error (.ordering "job expiry")
  else .ok ()

/-- `OperationReceipt`. The terminal disposition has one case only and is left out. -/
structure OperationReceipt where
  definitionDigest : Option Digest
  operationId : OperationId
  jobId : JobId
  generation : U32
  revision : U64
  executionId : ExecutionId
  attemptId : AttemptId
  attempts : NonZero 32
  kind : JobKind
  queue : QueueName
  effectMode : EffectMode
  createdAt : Timestamp
  completedAt : Timestamp
  owner : OwnerId
  token : LeaseToken
  fence : NonZero 64
  outcome : OutcomeCode
  deriving DecidableEq

namespace Sample

def queue : QueueName := ⟨"q", by decide, by decide, by decide⟩

def kind : JobKind := ⟨"k", by decide, by decide, by decide⟩

/-- A job that is due at 10. -/
def job : NewJob where
  jobId := .repeated 1
  kind := kind
  schemaVersion := ⟨1, NonZero.one_ne_zero16⟩
  payload := [1, 2, 3]
  fairness := .lowVolume
  orderingKey := none
  priority := .default
  scheduledAt := ⟨10⟩
  expiresAt := none
  retryOverride := none
  deduplication := none

end Sample

end AuxCommon
