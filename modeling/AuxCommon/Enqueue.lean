import AuxCommon.Transition.Wake

/-!
# Enqueueing

`enqueue/`: a request creates its job unless the job is there already, the deduplication window
of its key is open, or (for a seed) the receipt of its completion is there. An enqueue after a
completion leaves a watermark of the last fence under the operation key.
-/

namespace AuxCommon

/-- `ExistingJobMatch`. -/
inductive ExistingJobMatch
  | exactRequest | stableSeed
  deriving DecidableEq

/-- `EnqueueDisposition`. -/
inductive EnqueueDisposition
  | enqueued | alreadyPresent | deduplicated
  deriving DecidableEq

/-- `EnqueueResult`. -/
structure EnqueueResult where
  jobId : JobId
  disposition : EnqueueDisposition
  wake : WakeHint
  deriving DecidableEq

/-- `ValidatedEnqueue`. -/
structure ValidatedEnqueue where
  job : NewJob
  registration : HandlerRegistration
  digest : Digest
  now : Timestamp
  existingMatch : ExistingJobMatch

variable (job : NewJob)

/-- `build_policy`. -/
def buildPolicy (registration : HandlerRegistration) : JobPolicySnapshot where
  effectMode := registration.effectMode
  costUnits := registration.costUnits
  executionTimeout := some registration.defaultTimeout
  retryPolicy := (job.retryOverride.getD registration.defaultRetry).policy

/-- `definition`. -/
def ValidatedEnqueue.definition (request : ValidatedEnqueue) (namespace_ : Namespace) :
    Except StoreDataError JobDefinition := do
  require (request.job.payload.length < 2 ^ 32) .lengthOverflow
  return {
    jobId := request.job.jobId
    namespace_ := namespace_
    queue := request.registration.queue
    kind := request.job.kind
    schemaVersion := request.job.schemaVersion
    payloadLength := BitVec.ofNat 32 request.job.payload.length
    payloadDigest := request.digest
    fairness := request.job.fairness
    orderingKey := request.job.orderingKey
    priority := request.job.priority
    expiresAt := request.job.expiresAt
    policy := buildPolicy request.job request.registration
    deduplication := request.job.deduplication }

/-- `validate_fairness`. -/
def validateFairness : FairnessClass → FairnessPolicy → Except ValidationError Unit
  | .scoped _, .scoped _ => .ok ()
  | .lowVolume, .lowVolume => .ok ()
  | _, _ => .error (.invalidValue "fairness policy")

/-! ## What is there already -/

/-- `PriorFenceAuthority`. -/
structure PriorFenceAuthority where
  encoded : StoreValue
  fenceHighWater : U64
  deriving DecidableEq

/-- `EnqueueAuthority`. -/
inductive EnqueueAuthority
  | existing (encoded : StoreValue)
  | deduplicated (jobId : JobId)
  | missing (expectedDedupe : Option StoreValue) (priorFence : Option PriorFenceAuthority)
  deriving DecidableEq

/-- `enqueue_read_keys`. -/
def enqueueReadKeys : List StoreKey :=
  [.job job.jobId] ++ job.deduplication.toList.map (fun d => .dedupe d.key) ++
    [.operation job.jobId]

/-- `decode_prior_fence`. -/
def decodePriorFence (encoded : StoreValue) (id : JobId) :
    Except StoreDataError PriorFenceAuthority := do
  let fence ← decodeOperationFenceHighWater encoded id
  return ⟨encoded, fence⟩

/-- The end of `classify_enqueue_values`: the job and its window are not there. -/
def classifyMissing (operation : Option StoreValue) (expectedDedupe : Option StoreValue)
    (id : JobId) : Except StoreDataError EnqueueAuthority := do
  let priorFence ← operation.mapM (decodePriorFence · id)
  return .missing expectedDedupe priorFence

/-- `classify_enqueue_values`. -/
def classifyEnqueueValues (job operation : Option StoreValue)
    (dedupe : Option (Option StoreValue)) (id : JobId) (now : Timestamp) :
    Except StoreDataError EnqueueAuthority :=
  match job, dedupe with
  | some existing, _ => .ok (.existing existing)
  | none, some (some encoded) => do
    let (owner, retainUntil) ← decodeDedupeValue encoded
    if now < retainUntil then return .deduplicated owner
    else classifyMissing operation (some encoded) id
  | none, _ => classifyMissing operation none id

variable (sys : JobSystem)

/-- `read_enqueue_authority`. -/
def readEnqueueAuthority (job : NewJob) (now : Timestamp) : JobProg EnqueueAuthority := do
  match job.deduplication, ← sys.readMany (enqueueReadKeys job) with
  | none, [record, operation] => classifyEnqueueValues record operation none job.jobId now
  | some _, [record, dedupe, operation] =>
    classifyEnqueueValues record operation (some dedupe) job.jobId now
  | _, _ => throw .payloadCorrupt

/-- `enqueue_result_at`. -/
def enqueueResultAt (id : JobId) (disposition : EnqueueDisposition)
    (scheduledAt now : Timestamp) : EnqueueResult :=
  ⟨id, disposition, .fromTimestamp scheduledAt now⟩

/-- `reconcile_record`. -/
def reconcileRecord (request : ValidatedEnqueue) (value : StoreValue)
    (disposition : EnqueueDisposition) : JobResult EnqueueResult := do
  let encoded ← decodeJobRecord value
  let r := encoded.record
  (sys.validatePersistedIdentity request.job.jobId r).mapError fun
    | .leaseConflict => .jobIdConflict
    | .payloadCorrupt => .jobIdConflict
    | other => other
  require (request.existingMatch = .exactRequest → r.scheduledAt = request.job.scheduledAt)
    .jobIdConflict
  let definition ← request.definition sys.namespace_
  require (JobDefinition.ofRecord r = definition) .jobIdConflict
  return enqueueResultAt request.job.jobId disposition r.scheduledAt request.now

/-- `reconcile_completed_seed`. -/
def reconcileCompletedSeed (request : ValidatedEnqueue) (prior : PriorFenceAuthority)
    (disposition : EnqueueDisposition) : JobResult (Option EnqueueResult) :=
  match request.existingMatch with
  | .exactRequest => return none
  | .stableSeed => do
    match ← decodeOperation prior.encoded with
    | .receipt receipt => do
      let definition ← request.definition sys.namespace_
      require (receipt.kind = request.job.kind ∧ receipt.queue = request.registration.queue ∧
        receipt.effectMode = request.registration.effectMode ∧
        receipt.definitionDigest = some (sys.definitionDigest definition)) .jobIdConflict
      return some ⟨receipt.jobId, disposition, .none⟩
    | _ => return none

/-- `reconcile_after_commit`. -/
def reconcileAfterCommit (request : ValidatedEnqueue) (disposition : EnqueueDisposition) :
    JobProg EnqueueResult := do
  match ← sys.readMany [.job request.job.jobId, .operation request.job.jobId] with
  | [some encoded, _] => reconcileRecord sys request encoded disposition
  | [none, some encoded] => do
    let prior ← decodePriorFence encoded request.job.jobId
    match ← reconcileCompletedSeed sys request prior disposition with
    | some result => return result
    | none => throw .unknownCommit
  | [none, none] => throw .unknownCommit
  | _ => throw .payloadCorrupt

/-! ## The new job -/

/-- The identities that an enqueue draws. -/
structure EnqueueIds where
  execution : ExecutionId
  commit : CommitOperationId
  deriving DecidableEq

/-- `payload_chunk_capacity`. -/
def payloadChunkCapacity : JobResult Nat := do
  let bytes := sys.capabilities.maxValueBytes.get.toNat
  require (6 ≤ bytes) (.storeContract (.capabilityExceeded "payload chunk bytes"))
  return bytes - 6

/-- `[T]::chunks`, with a bound on their number. -/
def chunksOf (size : Nat) : Nat → Bytes → List Bytes
  | 0, _ => []
  | _ + 1, [] => []
  | n + 1, bytes => bytes.take size :: chunksOf size n (bytes.drop size)

/-- `build_payload_chunks`: the chunks. The key of a chunk is `payload_key` at its index. -/
def buildPayloadChunks (payload : Bytes) (capacity : Nat) : JobResult (List Bytes) := do
  require (capacity = 0 → payload = [])
    (.storeContract (.capabilityExceeded "payload chunk bytes"))
  return chunksOf (max capacity 1) payload.length payload

/-- `payload_key` of the chunks. -/
def chunkKey (id : JobId) (index : Nat) : StoreKey := .payload id (BitVec.ofNat 32 index)

/-- The retention deadline of a new record. -/
def enqueueRetention (policy : JobPolicySnapshot) (now : Timestamp) :
    Except ValidationError Timestamp :=
  match job.expiresAt with
  | some expiry => .ok (max expiry now)
  | none => (max job.scheduledAt now).checkedAdd policy.retryPolicy.maximumAge

/-- `scheduled_record`. -/
def scheduledRecord (request : ValidatedEnqueue) (execution : ExecutionId)
    (payload : PayloadManifest) : JobResult JobRecordV1 := do
  let job := request.job
  let policy := buildPolicy job request.registration
  let retention ← enqueueRetention job policy request.now
  return {
    jobId := job.jobId
    namespace_ := sys.namespace_
    queue := request.registration.queue
    kind := job.kind
    schemaVersion := job.schemaVersion
    generation := 0
    executionId := execution
    payload := payload
    fairness := job.fairness
    orderingKey := job.orderingKey
    priority := job.priority
    createdAt := request.now
    scheduledAt := job.scheduledAt
    expiresAt := job.expiresAt
    policy := policy
    attempts := none
    state := .scheduled
    checkpoint := none
    retentionDeadline := retention
    deduplication := job.deduplication
    revision := 0 }

/-- The manifest of `build_job_record`. -/
def payloadManifest (payload : Bytes) (digest : Digest) (chunkKeys : List StoreKey) :
    JobResult PayloadManifest := do
  require (payload.length < 2 ^ 32)
    (.validation (.tooLong "payload" maxInlinePayloadBytes payload.length))
  PayloadManifest.tryNew (BitVec.ofNat 32 payload.length) digest chunkKeys

/-- `build_job_record`. -/
def buildJobRecord (request : ValidatedEnqueue) (execution : ExecutionId) (chunks : Nat) :
    JobResult JobRecordV1 := do
  let payload ← payloadManifest request.job.payload request.digest
    ((List.range chunks).map (chunkKey request.job.jobId))
  scheduledRecord sys request execution payload

/-- `build_enqueue_state`, with `append_enqueue_indexes`. -/
def buildEnqueueState (request : ValidatedEnqueue) (execution : ExecutionId)
    (priorFence : Option PriorFenceAuthority) : JobResult (JobRecordV1 × List StoreMutation) := do
  let capacity ← payloadChunkCapacity sys
  let chunks ← buildPayloadChunks request.job.payload capacity
  let r ← buildJobRecord sys request execution chunks.length
  let encoded ← encodeJobRecord r
  return (r, chunks.mapIdx (fun i body => .put (chunkKey r.jobId i) (.payloadChunk body)) ++
    [.put (.job r.jobId) (.job encoded),
      .put (.due r.queue r.scheduledAt r.jobId) (.due r.scheduledAt),
      .put (.fair r.queue r.jobId) (.fairReady r.jobId)] ++
    priorFence.toList.map (fun prior =>
      .put (.operation r.jobId) (.operation (.watermark r.jobId prior.fenceHighWater))) ++
    request.job.deduplication.toList.map (fun d =>
      .put (.dedupe d.key) (.dedupe r.jobId d.retainUntil)))

/-- `append_dedupe_check`. -/
def dedupeChecks (expected : Option StoreValue) : List StoreCheck :=
  job.deduplication.toList.map fun d => expected.elim (.absent (.dedupe d.key)) (.value (.dedupe d.key))

/-- `build_enqueue_transaction`. -/
def buildEnqueueTransaction (id : CommitOperationId) (job : NewJob) (r : JobRecordV1)
    (mutations : List StoreMutation) (expectedDedupe expectedOperation : Option StoreValue) :
    JobProg StoreTransaction := do
  let current ← storeGet (.wake r.queue)
  let operation : StoreCheck :=
    expectedOperation.elim (.absent (.operation job.jobId)) (.value (.operation job.jobId))
  let wake ← wakeApply r.queue current (.lower r.scheduledAt)
  sys.checkedTransaction id
    ([.absent (.job job.jobId), operation] ++ wakeChecks wake ++ dedupeChecks job expectedDedupe)
    (mutations ++ wakeMutations wake)

/-- One round of `resolve_enqueue_commit`, and what follows a commit of unknown outcome whose job
is not visible. -/
def resolveEnqueueAttempt (request : ValidatedEnqueue) (transaction : StoreTransaction)
    (retry : Option (JobProg EnqueueResult)) : JobProg EnqueueResult := do
  match ← commitOnce transaction with
  | .committed =>
    return enqueueResultAt request.job.jobId .enqueued request.job.scheduledAt request.now
  | .conflict => reconcileAfterCommit sys request .alreadyPresent
  | .unknown =>
    match retry, ← (reconcileAfterCommit sys request .enqueued).attempt with
    | some again, .error .unknownCommit => again
    | _, result => liftM result

/-- `resolve_enqueue_commit`. Only a seed is tried twice. -/
def resolveEnqueueCommit (request : ValidatedEnqueue) (transaction : StoreTransaction) :
    JobProg EnqueueResult :=
  resolveEnqueueAttempt sys request transaction
    (if request.existingMatch = .stableSeed then
      some (resolveEnqueueAttempt sys request transaction none)
    else none)

/-- `enqueue_new`. -/
def enqueueNew (ids : EnqueueIds) (request : ValidatedEnqueue)
    (expectedDedupe : Option StoreValue) (priorFence : Option PriorFenceAuthority) :
    JobProg EnqueueResult := do
  require (priorFence.all fun prior => prior.fenceHighWater ≠ BitVec.allOnes 64)
    JobSystemError.leaseConflict
  let (r, mutations) ← buildEnqueueState sys request ids.execution priorFence
  let transaction ← buildEnqueueTransaction sys ids.commit request.job r mutations expectedDedupe
    (priorFence.map (·.encoded))
  resolveEnqueueCommit sys request transaction

/-- `enqueue_missing_job`. -/
def enqueueMissingJob (ids : EnqueueIds) (request : ValidatedEnqueue)
    (expectedDedupe : Option StoreValue) (priorFence : Option PriorFenceAuthority) :
    JobProg EnqueueResult := do
  let completed ← (match priorFence with
    | some prior => reconcileCompletedSeed sys request prior .alreadyPresent
    | none => return none : JobResult (Option EnqueueResult))
  match completed with
  | some result => return result
  | none => enqueueNew sys ids request expectedDedupe priorFence

/-- `enqueue_validated`. -/
def enqueueValidated (ids : EnqueueIds) (request : ValidatedEnqueue) : JobProg EnqueueResult := do
  match ← readEnqueueAuthority sys request.job request.now with
  | .existing encoded => reconcileRecord sys request encoded .alreadyPresent
  | .deduplicated id =>
    return enqueueResultAt id .deduplicated request.job.scheduledAt request.now
  | .missing expectedDedupe priorFence =>
    enqueueMissingJob sys ids request expectedDedupe priorFence

/-- The checks at the start of `enqueue_with_match`. -/
def validateEnqueue (job : NewJob) (now : Timestamp) (existingMatch : ExistingJobMatch) :
    JobResult ValidatedEnqueue := do
  let registration ← okOr .unregisteredHandler (sys.registry job.kind job.schemaVersion)
  job.validate
  validateFairness job.fairness registration.fairnessPolicy
  return ⟨job, registration, sys.sha256 job.payload, now, existingMatch⟩

/-- `enqueue_with_match`. -/
def enqueueWithMatch (ids : EnqueueIds) (job : NewJob) (now : Timestamp)
    (existingMatch : ExistingJobMatch) : JobProg EnqueueResult := do
  let request ← validateEnqueue sys job now existingMatch
  enqueueValidated sys ids request

/-- `enqueue`. -/
def enqueue (ids : EnqueueIds) (job : NewJob) (now : Timestamp) :
    JobProg EnqueueResult := enqueueWithMatch sys ids job now .exactRequest

/-- `ensure_seed`. -/
def ensureSeed (ids : EnqueueIds) (job : NewJob) (now : Timestamp) :
    JobProg EnqueueResult := enqueueWithMatch sys ids job now .stableSeed

namespace Sample

/-- The record of a job that is enqueued at time 0 in one chunk. -/
def enqueued : JobResult JobRecordV1 :=
  buildJobRecord system ⟨job, registration, system.sha256 job.payload, ⟨0⟩, .exactRequest⟩
    (.repeated 1) 1

end Sample

end AuxCommon
