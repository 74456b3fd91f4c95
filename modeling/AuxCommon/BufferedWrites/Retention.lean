import AuxCommon.BufferedWrites.State

/-!
# The operations of a retention provider

`append_record`, `claim_work`, `seal_candidate`, `renew_lease`, `settle_batch` and `inspect_state`
(`retention/{admission,claims,reservation,settlement,receipts,accounting}.rs`). An operation that
can fail returns its error beside the state it leaves, since a failed one may have expired
leases or evicted receipts already. `step` is the state after an operation and `run` the state
after a list of them.

A loop of the source that evicts receipts takes the length of `completed_receipt_order` as fuel:
each turn removes one entry.
-/

namespace AuxCommon.BufferedWrites

open Std

/-! ## Requests -/

/-- `BufferAppendRequest`. -/
structure BufferAppendRequest where
  record : AdmittedRecord
  reservedBytes : Nat
  capacity : BufferCapacity

/-- `BufferAppendResult`. -/
structure BufferAppendResult where
  durability : DurabilityClass
  duplicate : Bool
  watermark : Nat
  deriving DecidableEq

/-- `BufferClaimRequest`. -/
structure BufferClaimRequest where
  maxWatermark : Option Nat
  allowOpenClaim : Bool
  forceAllAges : Bool
  maxItems : Nat
  maxBytes : Nat
  leaseDuration : Duration
  nowUtcMs : Int64

/-- `OpenBatchCandidate`. -/
structure OpenBatchCandidate where
  records : List AdmittedRecord
  reservedBytes : List Nat
  fencingToken : FencingToken
  deriving DecidableEq

/-- `LeasedSealedBatch`. -/
structure LeasedSealedBatch where
  batch : SealedBatch
  pendingOperationIds : List OperationId
  fencingToken : FencingToken
  unsettledRecordCount : Nat
  deriving DecidableEq

/-- `ClaimedWork`. -/
inductive ClaimedWork
  | none
  | openCandidate (candidate : OpenBatchCandidate)
  | existingSealed (leased : LeasedSealedBatch)
  deriving DecidableEq

/-- `BufferSealAction`, without the reason of a quarantine, which is not read. -/
inductive BufferSealAction
  | installBatch (batch : SealedBatch)
  | releaseCandidate
  | quarantineSingleton (operationId : OperationId)

/-- `BufferSealRequest`. -/
structure BufferSealRequest where
  fencingToken : FencingToken
  action : BufferSealAction
  capacity : BufferCapacity
  leaseDuration : Duration
  nowUtcMs : Int64

/-- `BufferRenewRequest`. -/
structure BufferRenewRequest where
  batchId : BatchId
  fencingToken : FencingToken
  leaseDuration : Duration
  nowUtcMs : Int64

/-- `SettleDisposition`, without the reason of a quarantine, which is not read. -/
inductive SettleDisposition
  | delivered
  | handedOffToQueue
  | partialProgress (completedIds : List OperationId) (retryDelay : Duration)
  | releaseForRetry (retryDelay : Duration)
  | quarantine (completedIds : List OperationId)

/-- `BufferSettleRequest`. -/
structure BufferSettleRequest where
  batchId : BatchId
  fencingToken : FencingToken
  disposition : SettleDisposition
  nowUtcMs : Int64

/-- `BufferInspectRequest`. -/
structure BufferInspectRequest where
  operationId : Option OperationId
  nowUtcMs : Int64
  nowInstant : Instant

/-- `AdmissionReceipt`. -/
structure AdmissionReceipt where
  status : AdmissionStatus
  fingerprint : Digest

/-- `BufferSnapshot`, with the three numbers of `BufferStats` in place. -/
structure BufferSnapshot where
  reclaimableBytes : Nat
  admission : Option AdmissionReceipt
  items : Nat
  bytes : Nat
  oldestAge : Nat
  claimableOpenItems : Nat
  claimableSealedBatches : Nat
  inFlightBatches : Nat
  unsettledItems : Nat
  quarantinedItems : Nat
  unresolvedBatchIds : List BatchId
  watermark : Nat
  durability : DurabilityClass

/-- `i64::try_from(duration.as_millis()).unwrap_or(i64::MAX)`. -/
def millisOf (d : Duration) : Int64 :=
  let millis := d.nanos.toNat / 10 ^ 6
  if millis < 2 ^ 63 then Int64.ofNat millis else Int64.maxValue

/-- The end of a lease of `d` that starts `now`. -/
def leaseUntil (now : Int64) (d : Duration) : Int64 := now.satAdd (millisOf d)

/-- `ADMISSION_DIGEST_DOMAIN`. -/
def admissionDigestDomain : List UInt8 := "aux-buffered-writes/admission/v1".toUTF8.toList

/-- A field of a fingerprint behind its length in eight bytes. -/
def fingerprintField (part : List UInt8) : List UInt8 :=
  (List.range 8).map (fun i => UInt8.ofNat (part.length / 256 ^ (7 - i))) ++ part

/-- `AdmissionFingerprint::from_stored_parts`. -/
def fromStoredParts (P : Platform) (id : OperationId) (scope : TenantScope) (codec : String)
    (digest : Digest) : Digest :=
  P.sha256 (admissionDigestDomain ++
    [id.bytes, scope.bytes, codec.toUTF8.toList, digest.toList].flatMap fingerprintField)

/-- `MAX_COMPLETED_OPERATION_RECEIPTS`. -/
def maxCompletedOperationReceipts : Nat := 4096

namespace RetentionState

variable (P : Platform) (ns : Namespace) (s : RetentionState)

/-! ## Receipts -/

/-- `evict_oldest_completed`: the bytes given back and the state left. -/
def evictOldestCompleted : Option (Nat × RetentionState) :=
  match s.completedReceiptOrder with
  | [] => none
  | id :: rest =>
    let bytes := (s.admissionReceipts[id]?.filter (·.isCompleted)).elim 0 (·.accountedBytes P id)
    some (bytes, { s with
      completedReceiptOrder := rest
      admissionReceipts :=
        if 0 < bytes then s.admissionReceipts.erase id else s.admissionReceipts })

/-- The loop of `trim_completed_receipts`. -/
def trimLoop : Nat → RetentionState → RetentionState
  | 0, s => s
  | fuel + 1, s =>
    if maxCompletedOperationReceipts < s.completedReceiptOrder.length then
      (s.evictOldestCompleted P).elim s fun evicted => trimLoop fuel evicted.2
    else s

/-- `trim_completed_receipts`. -/
def trimCompletedReceipts : RetentionState := trimLoop P s.completedReceiptOrder.length s

/-- `insert_receipt`. -/
def insertReceipt (id : OperationId) (receipt : StoredAdmissionReceipt) : RetentionState :=
  let wasCompleted := s.admissionReceipts[id]?.any (·.isCompleted)
  let order := if receipt.isCompleted && !wasCompleted then s.completedReceiptOrder ++ [id]
    else s.completedReceiptOrder
  trimCompletedReceipts P { s with
    completedReceiptOrder := order
    admissionReceipts := s.admissionReceipts.insert id receipt }

/-- One turn of `complete_batch_receipts`. -/
def completeReceipt (status : AdmissionStatus) (s : RetentionState) (id : OperationId) :
    RetentionState :=
  match s.admissionReceipts[id]? with
  | none => s
  | some receipt => { s with
      completedReceiptOrder :=
        if receipt.isCompleted then s.completedReceiptOrder else s.completedReceiptOrder ++ [id]
      admissionReceipts := s.admissionReceipts.insert id { receipt with status } }

/-- `complete_batch_receipts`. -/
def completeBatchReceipts (batch : SealedBatch) (status : AdmissionStatus) : RetentionState :=
  trimCompletedReceipts P
    ((batch.records.map (·.operationId)).foldl (completeReceipt status) s)

/-- The loop of `reclaim_completed_receipts`. -/
def reclaimLoop (targetBytes : Nat) :
    Nat → Nat → RetentionState → Except BufferError Unit × RetentionState
  | 0, bytes, s => (if targetBytes < bytes then .error .full else .ok (), s)
  | fuel + 1, bytes, s =>
    if targetBytes < bytes then
      match s.evictOldestCompleted P with
      | none => (.error .full, s)
      | some (reclaimed, s') => reclaimLoop targetBytes fuel (bytes - reclaimed) s'
    else (.ok (), s)

/-- `reclaim_completed_receipts`. -/
def reclaimCompletedReceipts (targetBytes : Nat) : Except BufferError Unit × RetentionState :=
  reclaimLoop P targetBytes s.completedReceiptOrder.length (s.totalAccountedBytes P) s

/-- `find_admission_receipt`. -/
def findAdmissionReceipt (id : OperationId) : Option AdmissionReceipt :=
  s.admissionReceipts[id]?.map fun receipt =>
    ⟨receipt.status, fromStoredParts P id receipt.scope receipt.codecVersion receipt.payloadDigest⟩

/-! ## Admission -/

/-- `allocate_fence`. -/
def allocateFence : FencingToken × RetentionState :=
  let generation := satAdd s.nextGeneration 1
  (⟨generation⟩, { s with nextGeneration := generation })

/-- `expire_open_leases`. -/
def expireOpenLeases (nowUtcMs : Int64) : RetentionState :=
  { s with openRecords := s.openRecords.map fun e =>
      if e.leasedFence.isSome ∧ e.leaseExpiresAtMs ≤ nowUtcMs then { e with leasedFence := none }
      else e }

variable (record : AdmittedRecord)

/-- `admission_reserved_bytes`. -/
def admissionReservedBytes (requested : Nat) : Nat :=
  max requested (OpenRecordEntry.recordBytes P record)

/-- `check_append_capacity`. -/
def checkAppendCapacity (request : BufferAppendRequest) (itemBytes : Nat) :
    Except BufferError Unit :=
  if request.capacity.byteLimit < itemBytes then
    .error (.oversizedItem itemBytes request.capacity.byteLimit)
  else
    let protected_ := s.activeAdmissionBytes P - s.completedReceiptBytes P
    if request.capacity.itemLimit < satAdd s.activeAdmissionItems 1 ||
        (checkedAdd protected_ itemBytes).all (request.capacity.byteLimit < ·) then
      .error .full
    else .ok ()

/-- The receipt that `append_record` stores. -/
def newReceipt : StoredAdmissionReceipt where
  status := .buffered
  scope := record.scope
  codecVersion := record.codecVersion
  payloadDigest := record.digestRecord P
  watermark := satAdd s.nextWatermark 1

/-- The end of `append_record`, after its checks. -/
def admitRecord (reservedBytes watermark : Nat) (receipt : StoredAdmissionReceipt) :
    RetentionState :=
  let s := insertReceipt P { s with nextWatermark := watermark } record.operationId receipt
  { s with openRecords := s.openRecords ++ [{
      record, reservedBytes, watermark, leasedFence := none, leaseExpiresAtMs := 0 }] }

/-- `append_record`. -/
def appendRecord (request : BufferAppendRequest) (durability : DurabilityClass) :
    Except BufferError BufferAppendResult × RetentionState :=
  let record := request.record
  match s.admissionReceipts[record.operationId]? with
  | some existing =>
    match existing.verifyRecord record (record.digestRecord P) with
    | .error e => (.error e, s)
    | .ok () => (.ok { durability, duplicate := true, watermark := existing.watermark }, s)
  | none =>
    let receipt := s.newReceipt P record
    let reservedBytes := admissionReservedBytes P record request.reservedBytes
    match checkedAdd reservedBytes (receipt.accountedBytes P record.operationId) with
    | none => (.error .full, s)
    | some itemBytes =>
      match s.checkAppendCapacity P request itemBytes with
      | .error e => (.error e, s)
      | .ok () =>
        match s.reclaimCompletedReceipts P (request.capacity.byteLimit - itemBytes) with
        | (.error e, s') => (.error e, s')
        | (.ok (), s') =>
          (.ok { durability, duplicate := false, watermark := receipt.watermark },
            s'.admitRecord P record reservedBytes receipt.watermark receipt)

/-! ## Claims -/

/-- `find_open_scope`. -/
def findOpenScope (maxWatermark : Option Nat) : Option TenantScope :=
  (s.openRecords.find? fun e =>
    e.leasedFence.isNone && maxWatermark.all (e.watermark ≤ ·)).map (·.record.scope)

/-- The loop of `claim_open_candidate`: the entries left, those among them that it leased, and
whether it has stopped. -/
def leaseLoop (request : BufferClaimRequest) (scope : TenantScope) (fence : FencingToken)
    (until_ : Int64) :
    Nat → Nat → List OpenRecordEntry → List OpenRecordEntry × List OpenRecordEntry
  | _, _, [] => ([], [])
  | count, bytes, e :: es =>
    if e.leasedFence.isSome || e.record.scope ≠ scope ||
        request.maxWatermark.any (· < e.watermark) then
      let (rest, leased) := leaseLoop request scope fence until_ count bytes es
      (e :: rest, leased)
    else
      let recordBytes := e.record.payload.length
      if request.maxItems ≤ count ||
          (count ≠ 0 && request.maxBytes < satAdd bytes recordBytes) then
        (e :: es, [])
      else
        let e' := { e with leasedFence := some fence, leaseExpiresAtMs := until_ }
        let (rest, leased) := leaseLoop request scope fence until_ (count + 1)
          (satAdd bytes recordBytes) es
        (e' :: rest, e' :: leased)

/-- `claim_open_candidate`. -/
def claimOpenCandidate (request : BufferClaimRequest) (leaseUntil : Int64) :
    ClaimedWork × RetentionState :=
  match s.findOpenScope request.maxWatermark with
  | none => (.none, s)
  | some scope =>
    let (fence, s) := s.allocateFence
    let (openRecords, leased) := leaseLoop request scope fence leaseUntil 0 0 s.openRecords
    let s := { s with openRecords }
    if leased.isEmpty then (.none, s)
    else
      (.openCandidate {
        records := leased.map (·.record)
        reservedBytes := leased.map (·.accountedBytes P)
        fencingToken := fence }, s)

/-- `Iterator::min_by_key`: the first of the least elements. -/
def minByKey {α : Type} (key : α → Int64) : List α → Option α
  | [] => none
  | a :: as => some (as.foldl (fun m b => if key b < key m then b else m) a)

/-- The sealed batch that `claim_work` leases. -/
def dueBatch (request : BufferClaimRequest) : Option (BatchId × SealedBatchEntry) :=
  minByKey (fun e => e.2.batch.firstItemTimeMs) (s.sealedBatches.toList.filter fun e =>
    !e.2.isLeasedAt request.nowUtcMs &&
      (request.forceAllAges || e.2.retryIsDue request.nowUtcMs))

/-- `claim_work`. -/
def claimWork (request : BufferClaimRequest) : ClaimedWork × RetentionState :=
  let s := s.expireOpenLeases request.nowUtcMs
  let until_ := leaseUntil request.nowUtcMs request.leaseDuration
  match s.dueBatch request with
  | some (batchId, entry) =>
    let (fence, s) := s.allocateFence
    let entry := { entry with fencingToken := fence, leaseExpiresAtMs := some until_ }
    (.existingSealed {
      batch := entry.batch
      pendingOperationIds := entry.pendingOperationIds
      fencingToken := fence
      unsettledRecordCount := entry.unsettledRecordCount },
      { s with sealedBatches := s.sealedBatches.insert batchId entry })
  | none =>
    if !request.allowOpenClaim && !request.forceAllAges then (.none, s)
    else s.claimOpenCandidate P request until_

/-! ## Sealing -/

variable (fence : FencingToken)

/-- `release_candidate_fence`. -/
def releaseCandidateFence : RetentionState :=
  { s with openRecords := s.openRecords.map fun e =>
      if e.leasedFence = some fence then { e with leasedFence := none } else e }

/-- The check of one sealed record against the claimed one. -/
def claimedRecordBytes (batch : SealedBatch) (record : PersistedRecord) : Except BufferError Nat :=
  match s.openRecords.find? (·.isLeasedAs fence record.operationId) with
  | none => .error .batchNotFound
  | some e =>
    if e.record.scope ≠ batch.scope ∨ e.record.codecVersion ≠ batch.codecVersion ∨
        e.record.payload ≠ record.payload ∨ e.record.admittedAtUtcMs ≠ record.admittedAtUtcMs then
      .error (.invalidRequest "sealed records differ from the claimed records")
    else .ok (e.accountedBytes P)

/-- `claimed_batch_bytes`. -/
def claimedBatchBytes (batch : SealedBatch) : Except BufferError Nat :=
  if s.sealedBatches.contains batch.batchId || s.quarantinedBatches.contains batch.batchId then
    .error (.invalidRequest "batch identity is already retained")
  else batch.records.foldlM (fun bytes record => do
    return satAdd bytes (← s.claimedRecordBytes P fence batch record)) 0

variable (request : BufferSealRequest)

/-- The bytes that a seal releases and those that it retains; nothing for a released candidate. -/
def sealCharge : Except BufferError (Option (Nat × Nat)) :=
  match request.action with
  | .releaseCandidate => .ok none
  | .quarantineSingleton operationId =>
    match s.openRecords.find? (·.isLeasedAs request.fencingToken operationId) with
    | none => .error .batchNotFound
    | some e => .ok (some (e.accountedBytes P, OpenRecordEntry.quarantineBytes P e.record))
  | .installBatch batch =>
    if batch.namespace ≠ ns then .error .namespaceMismatch
    else do
      let released ← s.claimedBatchBytes P request.fencingToken batch
      return some (released, SealedBatchEntry.batchBytes P batch)

/-- `check_seal_capacity`. -/
def checkSealCapacity : Except BufferError Unit := do
  match ← s.sealCharge P ns request with
  | none => return ()
  | some (released, retained) =>
    let remaining := s.totalAccountedBytes P - released
    if (checkedAdd remaining retained).all (request.capacity.byteLimit < ·) then .error .full
    else return ()

/-- `quarantine_singleton`. -/
def quarantineSingleton (operationId : OperationId) (fence : FencingToken) :
    Except BufferError Unit × RetentionState :=
  match s.openRecords.find? (·.isLeasedAs fence operationId) with
  | none => (.error .batchNotFound, s)
  | some e =>
    (.ok (), releaseCandidateFence { s with
      openRecords := s.openRecords.eraseP (·.isLeasedAs fence operationId)
      quarantinedItems := s.quarantinedItems.insert operationId e.record } fence)

/-- The part of `seal_candidate` that installs a batch. -/
def installBatch (nowMono : Option Instant) (batch : SealedBatch) : RetentionState :=
  let sealedIds := batch.records.map (·.operationId)
  let s := releaseCandidateFence { s with openRecords := s.openRecords.filter fun e =>
    !(e.leasedFence = some request.fencingToken ∧ e.record.operationId ∈ sealedIds : Bool) }
    request.fencingToken
  { s with sealedBatches := s.sealedBatches.insert batch.batchId {
      batch
      completedOperations := ∅
      fencingToken := request.fencingToken
      leaseExpiresAtMs := some (leaseUntil request.nowUtcMs request.leaseDuration)
      nextRetryAtMs := request.nowUtcMs
      retryScheduledAtMs := request.nowUtcMs
      createdMono := nowMono } }

/-- `seal_candidate`. -/
def sealCandidate (nowMono : Option Instant) :
    Except BufferError (Option LeasedSealedBatch) × RetentionState :=
  let s := s.expireOpenLeases request.nowUtcMs
  if !s.openRecords.any (·.leasedFence = some request.fencingToken) then
    (.error (.staleFence request.fencingToken.generation), s)
  else match s.checkSealCapacity P ns request with
    | .error e => (.error e, s)
    | .ok () =>
      match request.action with
      | .releaseCandidate => (.ok none, s.releaseCandidateFence request.fencingToken)
      | .quarantineSingleton operationId =>
        match s.quarantineSingleton operationId request.fencingToken with
        | (.error e, s') => (.error e, s')
        | (.ok (), s') => (.ok none, s')
      | .installBatch batch =>
        (.ok (some {
          batch
          pendingOperationIds := batch.operationIds
          fencingToken := request.fencingToken
          unsettledRecordCount := batch.records.length }),
          s.installBatch request nowMono batch)

/-- `renew_lease`. -/
def renewLease (request : BufferRenewRequest) : Except BufferError Unit × RetentionState :=
  match s.sealedBatches[request.batchId]? with
  | none => (.error .batchNotFound, s)
  | some entry =>
    match entry.validateLease request.fencingToken request.nowUtcMs with
    | .error e => (.error e, s)
    | .ok () =>
      let entry := { entry with
        leaseExpiresAtMs := some (leaseUntil request.nowUtcMs request.leaseDuration) }
      (.ok (), { s with sealedBatches := s.sealedBatches.insert request.batchId entry })

/-! ## Settlement -/

variable (entry : SealedBatchEntry)

/-- `schedule_retry`. -/
def scheduleRetry (request : BufferSettleRequest) : SealedBatchEntry :=
  let retryAfter (delay : Duration) := { entry with
    retryScheduledAtMs := request.nowUtcMs
    nextRetryAtMs := leaseUntil request.nowUtcMs delay }
  match request.disposition with
  | .partialProgress _ retryDelay => retryAfter retryDelay
  | .releaseForRetry retryDelay => retryAfter retryDelay
  | .delivered | .handedOffToQueue | .quarantine _ => entry

/-- `validate_settlement`. -/
def validateSettlement (request : BufferSettleRequest) : Except BufferError Unit := do
  entry.validateLease request.fencingToken request.nowUtcMs
  let member (completedIds : List OperationId) : Except BufferError Unit :=
    if entry.batch.operationIds.length < completedIds.length ∨
        ¬completedIds ⊆ entry.batch.operationIds then
      .error (.invalidRequest "completion identities exceed sealed batch membership")
    else .ok ()
  match request.disposition with
  | .partialProgress completedIds _ => member completedIds
  | .quarantine completedIds => member completedIds
  | .delivered | .handedOffToQueue | .releaseForRetry _ => .ok ()

/-- `completed_operations.extend`. -/
def extendCompleted (completedIds : List OperationId) : SealedBatchEntry :=
  { entry with completedOperations := entry.completedOperations.insertMany completedIds }

/-- `retain_partial_progress`. -/
def retainPartialProgress (completedIds : List OperationId) : RetentionState :=
  let entry := extendCompleted entry completedIds
  if entry.pendingOperationIds.isEmpty then s.completeBatchReceipts P entry.batch .written
  else { s with sealedBatches := s.sealedBatches.insert entry.batch.batchId entry }

/-- `retain_for_retry`. -/
def retainForRetry : RetentionState :=
  { s with sealedBatches :=
      s.sealedBatches.insert entry.batch.batchId { entry with leaseExpiresAtMs := none } }

/-- The end of `settle_batch`: where the removed entry goes. -/
def settleEntry (request : BufferSettleRequest) (entry : SealedBatchEntry) : RetentionState :=
  match request.disposition with
  | .delivered => s.completeBatchReceipts P entry.batch .written
  | .handedOffToQueue => s.completeBatchReceipts P entry.batch .queued
  | .partialProgress completedIds _ => s.retainPartialProgress P entry completedIds
  | .releaseForRetry _ => s.retainForRetry entry
  | .quarantine completedIds =>
    let entry := extendCompleted entry completedIds
    { s with quarantinedBatches := s.quarantinedBatches.insert request.batchId entry }

/-- `settle_batch`. -/
def settleBatch (request : BufferSettleRequest) : Except BufferError Unit × RetentionState :=
  match s.sealedBatches[request.batchId]? with
  | none => (.error .batchNotFound, s)
  | some entry =>
    match validateSettlement entry request with
    | .error e => (.error e, s)
    | .ok () =>
      (.ok (), settleEntry P { s with sealedBatches := s.sealedBatches.erase request.batchId }
        request (scheduleRetry entry request))

/-! ## Inspection -/

/-- `inspect_state`. -/
def inspectState (request : BufferInspectRequest) (durability : DurabilityClass) :
    BufferSnapshot × RetentionState :=
  let s := s.expireOpenLeases request.nowUtcMs
  let items := s.totalAccountedItems
  ({ reclaimableBytes := s.completedReceiptBytes P
     admission := request.operationId.bind (s.findAdmissionReceipt P)
     items := items
     bytes := s.totalAccountedBytes P
     oldestAge := s.oldestAge request.nowInstant request.nowUtcMs
     claimableOpenItems := (s.openRecords.filter (·.leasedFence.isNone)).length
     claimableSealedBatches := (s.sealedBatches.toList.filter fun e =>
       !e.2.isLeasedAt request.nowUtcMs && e.2.retryIsDue request.nowUtcMs).length
     inFlightBatches :=
       (s.sealedBatches.toList.filter (·.2.isLeasedAt request.nowUtcMs)).length
     unsettledItems := items
     quarantinedItems := s.quarantineCount
     unresolvedBatchIds := s.sealedBatches.toList.map (·.1)
     watermark := s.nextWatermark
     durability }, s)

end RetentionState

/-! ## Runs -/

/-- A call on a retention provider. -/
inductive Operation
  | append (request : BufferAppendRequest) (durability : DurabilityClass)
  | claim (request : BufferClaimRequest)
  | sealCandidate (request : BufferSealRequest) (nowMono : Option Instant)
  | renew (request : BufferRenewRequest)
  | settle (request : BufferSettleRequest)
  | inspect (request : BufferInspectRequest) (durability : DurabilityClass)

namespace RetentionState

variable (P : Platform) (ns : Namespace)

variable (s : RetentionState)

/-- The state after a call. -/
def step : Operation → RetentionState
  | .append request durability => (s.appendRecord P request durability).2
  | .claim request => (s.claimWork P request).2
  | .sealCandidate request nowMono => (s.sealCandidate P ns request nowMono).2
  | .renew request => (s.renewLease request).2
  | .settle request => (s.settleBatch P request).2
  | .inspect request durability => (s.inspectState P request durability).2

/-- The state after a sequence of calls. -/
def run (operations : List Operation) : RetentionState :=
  operations.foldl (step P ns) s

@[simp] theorem run_append (a b : List Operation) :
    s.run P ns (a ++ b) = (s.run P ns a).run P ns b :=
  List.foldl_append

theorem run_cons (op : Operation) (ops : List Operation) :
    s.run P ns (op :: ops) = (s.step P ns op).run P ns ops := rfl

end RetentionState

end AuxCommon.BufferedWrites
