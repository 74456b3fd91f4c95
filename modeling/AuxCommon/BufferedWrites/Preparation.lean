import AuxCommon.BufferedWrites.Effects
import AuxCommon.Error

/-!
# Preparing a batch from claimed records

`prepare_candidate_slice` and `seal_prepared_candidate` (`engine/preparation.rs`): the engine
decodes the claimed records, lets the batch strategy prepare them within the bytes that were
reserved for them, and seals the result only if its charge fits in that reservation. The record
codec and the strategy are the caller's.
-/

namespace AuxCommon.BufferedWrites

open Except

/-- `PrepareError`. -/
inductive PrepareError
  | encode (error : EncodeError)
  | candidateTooLarge (size limit : Nat)
  | tooManyOperations (count limit : Nat)
  | emptyOperations
  | duplicateOperationId
  | invalidOperationId
  | permanent (reason : String)
  deriving DecidableEq

/-- `SinkLimits`. -/
structure SinkLimits where
  maxOperations : Nat
  maxPayloadBytes : Nat
  receiptOverheadBytes : Nat
  effectExpansionFactor : Nat

namespace SinkLimits

variable (limits : SinkLimits)

/-- `expanded_payload_bytes`. -/
def expandedPayloadBytes (rawBytes : Nat) : Nat :=
  satAdd (satMul rawBytes limits.effectExpansionFactor) limits.receiptOverheadBytes

/-- `validate_prepared_size`. -/
def validatePreparedSize (count rawBytes : Nat) : Except PrepareError Unit :=
  if count = 0 then .error .emptyOperations
  else if limits.maxOperations < count then .error (.tooManyOperations count limits.maxOperations)
  else
    let size := limits.expandedPayloadBytes rawBytes
    if limits.maxPayloadBytes < size then .error (.candidateTooLarge size limits.maxPayloadBytes)
    else .ok ()

end SinkLimits

/-- `BatchItems`: what a batch strategy sees. -/
structure BatchItems (T : Type) where
  batchId : BatchId
  scope : TenantScope
  items : List T
  operationIds : List OperationId
  rawPayloads : List (List UInt8)
  limits : SinkLimits
  firstItemTimeMs : Int64
  maxPreparedBytes : Nat

/-- `PreparationLayout`. -/
inductive PreparationLayout
  | records | custom
  deriving DecidableEq

/-- `PreparedWrites::default_items`, the strategy of `DefaultItemGrouping`. -/
def PreparedWrites.defaultItems {T : Type} (batch : BatchItems T) :
    Except PrepareError PreparedWrites := do
  batch.limits.validatePreparedSize batch.operationIds.length
    (satSum (batch.rawPayloads.map (·.length)))
  return { payload := .sharedRecords, operationIds := batch.operationIds }

/-- The part of an engine's configuration that preparation reads. -/
structure EngineConfig (T : Type) where
  «namespace» : Namespace
  codecVersion : String
  decode : List UInt8 → Except EncodeError T
  strategyVersion : String
  prepare : BatchItems T → Except PrepareError PreparedWrites
  layout : PreparationLayout
  effectiveLimits : SinkLimits

variable {T : Type} (P : Platform) (cfg : EngineConfig T)

/-- `AdmittedRecord::decode`. -/
def AdmittedRecord.decode (r : AdmittedRecord) : Except EncodeError T :=
  if r.codecVersion ≠ cfg.codecVersion then .error .unsupportedCodecVersion
  else cfg.decode r.payload

/-- `validate_prepared`. -/
def validatePrepared (prepared : PreparedWrites) : Except PrepareError Unit :=
  if cfg.layout = .records ∧ prepared.payload ≠ .sharedRecords then
    .error (.permanent "record layout cannot replace canonical writes with commands")
  else .ok ()

/-- `preparation_base_bytes`. -/
def preparationBaseBytes (records : List AdmittedRecord) : Nat :=
  match records with
  | [] => 0
  | first :: _ =>
    let recordsBytes := (records.map fun r =>
      PersistedRecord.recordBytes P r.operationId r.payload.length).foldl satAdd 0
    satAdd (satAdd (SealedBatch.headerBytes P cfg.namespace first.scope first.codecVersion
      cfg.strategyVersion) (SealedBatchEntry.overheadBytes P)) recordsBytes

/-- The earliest admission of the records, or zero. -/
def firstItemTime (records : List AdmittedRecord) : Int64 :=
  (minTime (records.map (·.admittedAtUtcMs))).getD 0

/-- `seal_prepared_candidate`. -/
def sealPreparedCandidate (batchId : BatchId) (records : List AdmittedRecord)
    (prepared : PreparedWrites) (retainedBudget : Nat) : Except PrepareError SealedBatch :=
  match records with
  | [] => .error .emptyOperations
  | first :: _ => do
    let batch ← (SealedBatch.tryNew {
      batchId
      «namespace» := cfg.namespace
      scope := first.scope
      codecVersion := cfg.codecVersion
      strategyVersion := cfg.strategyVersion
      firstItemTimeMs := firstItemTime records
      records := records.map (·.toPersisted)
      prepared := prepared.payload
      operationIds := prepared.operationIds }).mapError .encode
    let size := SealedBatchEntry.batchBytes P batch
    if retainedBudget < size then .error (.candidateTooLarge size retainedBudget)
    else return batch

/-- `prepare_candidate_slice`. -/
def prepareCandidateSlice (batchId : BatchId) (records : List AdmittedRecord)
    (retainedBudget : Nat) : Except PrepareError SealedBatch := do
  let items ← records.mapM fun r => (r.decode cfg).mapError .encode
  match records with
  | [] => .error .emptyOperations
  | first :: _ =>
    let base := preparationBaseBytes P cfg records
    let prepared ← cfg.prepare {
      batchId
      scope := first.scope
      items
      operationIds := records.map (·.operationId)
      rawPayloads := records.map (·.payload)
      limits := cfg.effectiveLimits
      firstItemTimeMs := firstItemTime records
      maxPreparedBytes := retainedBudget - base }
    validatePrepared cfg prepared
    sealPreparedCandidate P cfg batchId records prepared retainedBudget

variable {P cfg} {records : List AdmittedRecord}

theorem decode_all {items : List T}
    (h : records.mapM (fun r => (r.decode cfg).mapError PrepareError.encode) = .ok items) :
    ∀ r ∈ records, r.codecVersion = cfg.codecVersion := by
  induction records generalizing items with
  | nil => exact nofun
  | cons r records ih =>
    rw [List.mapM_cons] at h
    obtain ⟨item, hitem, h⟩ := bind_eq_ok.mp h
    obtain ⟨rest, hrest, -⟩ := bind_eq_ok.mp h
    rw [mapError_eq_ok] at hitem
    refine List.forall_mem_cons.mpr ⟨?_, ih hrest⟩
    unfold AdmittedRecord.decode at hitem
    split at hitem
    · cases hitem
    · rename_i hversion
      exact not_not.mp hversion

/-- What the engine seals: a batch of exactly these records, within their reservation. -/
structure Prepared (P : Platform) (cfg : EngineConfig T) (batchId : BatchId)
    (slice : List AdmittedRecord) (retainedBudget : Nat) (batch : SealedBatch) : Prop where
  records : batch.records = slice.map (·.toPersisted)
  batchId : batch.batchId = batchId
  «namespace» : batch.namespace = cfg.namespace
  scope : ∀ scope : TenantScope, (∀ r ∈ slice, r.scope = scope) → batch.scope = scope
  codecVersion : ∀ r ∈ slice, r.codecVersion = batch.codecVersion
  nonempty : slice ≠ []
  bytes : SealedBatchEntry.batchBytes P batch ≤ retainedBudget

theorem prepareCandidateSlice_eq_ok {batchId : BatchId} {retainedBudget : Nat} {batch : SealedBatch}
    (h : prepareCandidateSlice P cfg batchId records retainedBudget = .ok batch) :
    Prepared P cfg batchId records retainedBudget batch := by
  obtain ⟨items, hitems, h⟩ := bind_eq_ok.mp h
  cases records with
  | nil => cases h
  | cons first rest =>
    obtain ⟨prepared, -, h⟩ := bind_eq_ok.mp h
    obtain ⟨_, -, h⟩ := bind_eq_ok.mp h
    obtain ⟨sealed_, hsealed, h⟩ := bind_eq_ok.mp h
    dsimp only at h
    split at h
    · cases h
    · rename_i hfits
      cases h
      rw [mapError_eq_ok] at hsealed
      have hinput := SealedBatch.tryNew_eq_ok hsealed
      refine ⟨by rw [hinput], by rw [hinput], by rw [hinput], fun scope hscope => ?_, ?_, nofun,
        Nat.le_of_not_lt hfits⟩
      · rw [hinput]; exact hscope first List.mem_cons_self
      · rw [hinput]; exact decode_all hitems

end AuxCommon.BufferedWrites
