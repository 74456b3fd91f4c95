import AuxCommon.BufferedWrites.Values

/-!
# The state of a retention provider

`RetentionState` (`retention/state.rs`) and what it is charged (`retention/accounting.rs`,
`retention/receipts.rs`). Every write that the provider holds is in one of four containers: the
open records, the sealed batches, the quarantined items and the quarantined batches. Its receipt
stays until the write is complete, and a completed receipt until it is evicted.
-/

namespace AuxCommon.BufferedWrites

open Std

/-- `AdmissionStatus`. -/
inductive AdmissionStatus
  | buffered | written | queued
  deriving DecidableEq

/-- `DurabilityClass`. -/
inductive DurabilityClass
  | volatile | diskSynced | remoteValkey | sinkCommittedAtomic | sinkCommittedIdempotent
  | queueHandedOff
  deriving DecidableEq

/-- `BufferError`, the cases that a retention state raises. -/
inductive BufferError
  | namespaceMismatch
  | invalidRequest (reason : String)
  | full
  | duplicateIdentityConflict (operationId : OperationId)
  | oversizedItem (size limit : Nat)
  | staleFence (generation : Nat)
  | batchNotFound
  deriving DecidableEq

/-- `BufferCapacity`, without the backpressure policy. -/
structure BufferCapacity where
  itemLimit : Nat
  byteLimit : Nat
  itemLimit_le : itemLimit ≤ wordMax
  byteLimit_le : byteLimit ≤ wordMax
  deriving DecidableEq

/-! ## Open records -/

/-- `OpenRecordEntry`. -/
structure OpenRecordEntry where
  record : AdmittedRecord
  reservedBytes : Nat
  watermark : Nat
  leasedFence : Option FencingToken
  leaseExpiresAtMs : Int64
  deriving DecidableEq

namespace OpenRecordEntry

variable (P : Platform)

variable (record : AdmittedRecord)

/-- `quarantine_bytes`. -/
def quarantineBytes : Nat :=
  satAdd (satAdd (record.accountedBytes P) (record.operationId.accountedBytes P))
    retentionEntryOverheadBytes

/-- `record_bytes`. -/
def recordBytes : Nat :=
  max (satAdd (record.accountedBytes P) (P.openRecordEntrySize - P.admittedRecordSize))
    (quarantineBytes P record)

/-- `accounted_bytes`. -/
def accountedBytes (e : OpenRecordEntry) : Nat := max e.reservedBytes (recordBytes P e.record)

/-- The entry is leased under `fence` and holds the operation `id`. -/
def isLeasedAs (fence : FencingToken) (id : OperationId) (e : OpenRecordEntry) : Bool :=
  e.leasedFence = some fence ∧ e.record.operationId = id

theorem quarantineBytes_le : quarantineBytes P record ≤ recordBytes P record := Nat.le_max_right _ _

end OpenRecordEntry

/-! ## Sealed batches -/

/-- `conservative_age`: a time in the future has an unknown age. -/
def conservativeAge (firstItemTimeMs nowUtcMs : Int64) : Nat :=
  if nowUtcMs < firstItemTimeMs then 2 ^ 64 * 10 ^ 9 - 1
  else (nowUtcMs.toInt - firstItemTimeMs.toInt).toNat * 10 ^ 6

/-- `retry_is_due`. -/
def retryIsDue (scheduledAtMs retryAtMs nowMs : Int64) : Bool :=
  retryAtMs ≤ nowMs || nowMs < scheduledAtMs

/-- `SealedBatchEntry`. -/
structure SealedBatchEntry where
  batch : SealedBatch
  completedOperations : ExtTreeSet OperationId compare
  fencingToken : FencingToken
  leaseExpiresAtMs : Option Int64
  nextRetryAtMs : Int64
  retryScheduledAtMs : Int64
  createdMono : Option Instant

namespace SealedBatchEntry

variable (e : SealedBatchEntry)

/-- `is_leased_at`. -/
def isLeasedAt (nowUtcMs : Int64) : Bool :=
  e.leaseExpiresAtMs.any fun expires => nowUtcMs < expires

/-- `validate_lease`. -/
def validateLease (fence : FencingToken) (nowUtcMs : Int64) : Except BufferError Unit :=
  if e.fencingToken ≠ fence || !e.isLeasedAt nowUtcMs then .error (.staleFence fence.generation)
  else .ok ()

/-- `pending_operation_ids`. -/
def pendingOperationIds : List OperationId :=
  e.batch.operationIds.filter fun id => !e.completedOperations.contains id

/-- `unsettled_record_count`. -/
def unsettledRecordCount : Nat := e.batch.records.length

/-- `retry_is_due`. -/
def retryIsDue (e : SealedBatchEntry) (nowUtcMs : Int64) : Bool :=
  BufferedWrites.retryIsDue e.retryScheduledAtMs e.nextRetryAtMs nowUtcMs

variable (P : Platform)

/-- `overhead_bytes`. -/
def overheadBytes : Nat :=
  satAdd (satAdd (P.sealedBatchEntrySize - P.sealedBatchSize) P.batchIdSize)
    retentionEntryOverheadBytes

/-- `batch_bytes`: every possible completion entry is charged from the start. -/
def batchBytes (batch : SealedBatch) : Nat :=
  let completionReservation := satSum (batch.operationIds.map fun id =>
    satAdd (id.accountedBytes P) retentionEntryOverheadBytes)
  satAdd (satAdd (batch.accountedBytes P) (overheadBytes P)) completionReservation

/-- `accounted_bytes`. -/
def accountedBytes : Nat := batchBytes P e.batch

end SealedBatchEntry

/-! ## Receipts -/

/-- `StoredAdmissionReceipt`. -/
structure StoredAdmissionReceipt where
  status : AdmissionStatus
  scope : TenantScope
  codecVersion : String
  payloadDigest : Digest
  watermark : Nat
  deriving DecidableEq

namespace StoredAdmissionReceipt

/-- `is_completed`. -/
def isCompleted (r : StoredAdmissionReceipt) : Bool := r.status ≠ .buffered

/-- `verify_record`. -/
def verifyRecord (r : StoredAdmissionReceipt) (record : AdmittedRecord) (digest : Digest) :
    Except BufferError Unit :=
  if r.payloadDigest = digest ∧ r.scope = record.scope ∧ r.codecVersion = record.codecVersion then
    .ok ()
  else .error (.duplicateIdentityConflict record.operationId)

/-- `metadata_bytes`. -/
def metadataBytes (P : Platform) (id : OperationId) (scope : TenantScope) (codec : String) : Nat :=
  satAdd (satAdd (satAdd (satAdd P.storedAdmissionReceiptSize (satMul (id.accountedBytes P) 2))
    scope.len) codec.utf8ByteSize) retentionEntryOverheadBytes

/-- `accounted_bytes`. -/
def accountedBytes (P : Platform) (id : OperationId) (r : StoredAdmissionReceipt) : Nat :=
  metadataBytes P id r.scope r.codecVersion

theorem accountedBytes_pos (P : Platform) (id : OperationId) (r : StoredAdmissionReceipt) :
    0 < r.accountedBytes P id := by
  simp only [accountedBytes, metadataBytes, satAdd, wordMax, retentionEntryOverheadBytes]
  omega

end StoredAdmissionReceipt

/-! ## The state -/

/-- `RetentionState`. -/
structure RetentionState where
  nextWatermark : Nat := 0
  nextGeneration : Nat := 0
  openRecords : List OpenRecordEntry := []
  sealedBatches : OrdMap BatchId SealedBatchEntry := ∅
  admissionReceipts : OrdMap OperationId StoredAdmissionReceipt := ∅
  completedReceiptOrder : List OperationId := []
  quarantinedRecords : Nat := 0
  quarantinedItems : OrdMap OperationId AdmittedRecord := ∅
  quarantinedBatches : OrdMap BatchId SealedBatchEntry := ∅

namespace RetentionState

variable (P : Platform) (s : RetentionState)

/-- `quarantine_count`. -/
def quarantineCount : Nat :=
  satAdd (satAdd s.quarantinedRecords s.quarantinedItems.toList.length)
    (wrapSum (s.quarantinedBatches.toList.map fun e => e.2.batch.records.length))

/-- `total_accounted_items`. -/
def totalAccountedItems : Nat :=
  satAdd (satAdd s.openRecords.length
    (satSum (s.sealedBatches.toList.map (·.2.unsettledRecordCount)))) s.quarantineCount

/-- `receipt_bytes`. -/
def receiptBytes : Nat := satSum (s.admissionReceipts.toList.map fun e => e.2.accountedBytes P e.1)

/-- `completed_receipt_bytes`. -/
def completedReceiptBytes : Nat :=
  satSum ((s.admissionReceipts.toList.filter (·.2.isCompleted)).map
    fun e => e.2.accountedBytes P e.1)

/-- `quarantined_accounted_bytes`. -/
def quarantinedAccountedBytes : Nat :=
  satSum ((s.quarantinedItems.toList.map fun e =>
      satAdd (satAdd (e.2.accountedBytes P) (e.1.accountedBytes P)) retentionEntryOverheadBytes) ++
    s.quarantinedBatches.toList.map (·.2.accountedBytes P))

/-- `total_accounted_bytes`. -/
def totalAccountedBytes : Nat :=
  let openBytes := satSum (s.openRecords.map (·.accountedBytes P))
  let sealedBytes := wrapSum (s.sealedBatches.toList.map (·.2.accountedBytes P))
  let quarantinedBytes := s.quarantinedAccountedBytes P
  satAdd (satAdd (satAdd openBytes sealedBytes) quarantinedBytes) (s.receiptBytes P)

/-- `active_admission_bytes`. -/
def activeAdmissionBytes : Nat := s.totalAccountedBytes P - s.quarantinedAccountedBytes P

/-- `active_admission_items`. -/
def activeAdmissionItems : Nat := s.totalAccountedItems - s.quarantineCount

/-- `oldest_age`, in nanoseconds. -/
def oldestAge (nowInstant : Instant) (nowUtcMs : Int64) : Nat :=
  let openMax := (s.openRecords.map fun e =>
    max (nowInstant.nanos - e.record.admittedAtMono.nanos)
      (conservativeAge e.record.admittedAtUtcMs nowUtcMs)).foldl max 0
  let sealedMax := (s.sealedBatches.toList.map fun e =>
    let utcAge := conservativeAge e.2.batch.firstItemTimeMs nowUtcMs
    e.2.createdMono.elim utcAge fun m => max (nowInstant.nanos - m.nanos) utcAge).foldl max 0
  max openMax sealedMax

end RetentionState

end AuxCommon.BufferedWrites
