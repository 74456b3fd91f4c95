import AuxCommon.Policy
import AuxCommon.Lib.Result
import AuxCommon.Lib.Saturating

/-!
# Records and sealed batches of the write buffer

The values that the `buffered-writes` crate keeps: identifiers (`configuration/identifiers.rs`),
admitted and persisted records (`batch/record.rs`), prepared payloads (`batch/preparation.rs`) and
sealed batches (`batch/sealed.rs`, `batch/envelope.rs`), with the bytes that each is charged
(`batch/accounting.rs`). A `SealedBatch` can be built only from an input that `validate` accepts,
and carries that fact.

A `Platform` gives what the source takes from its target: the sizes of its types and SHA-256. A
batch's digest is a function of its other fields that no retention code reads, so it is left out.
-/

namespace AuxCommon.BufferedWrites

open Std

/-! ## The target -/

/-- A SHA-256 digest. -/
abbrev Digest := Vector UInt8 32

/-- `size_of` of the stored types, and the hash function. -/
structure Platform where
  sha256 : List UInt8 → Digest
  operationIdSize : Nat
  batchIdSize : Nat
  admittedRecordSize : Nat
  persistedRecordSize : Nat
  preparedOperationSize : Nat
  sealedBatchSize : Nat
  openRecordEntrySize : Nat
  sealedBatchEntrySize : Nat
  storedAdmissionReceiptSize : Nat

/-- `ARC_ALLOCATION_HEADER_BYTES`. -/
def arcAllocationHeaderBytes : Nat := 16

/-- `RETENTION_ENTRY_OVERHEAD_BYTES`. -/
def retentionEntryOverheadBytes : Nat := 64

/-! ## Errors -/

/-- `ConfigurationError`, the cases that the modelled code raises. -/
inductive ConfigurationError
  | invalidVersion
  | invalidBatchId
  | emptyNamespace
  | namespaceTooLong
  | invalidNamespace
  deriving DecidableEq

/-- `EncodeError`. -/
inductive EncodeError
  | serializationFailed
  | deserializationFailed
  | payloadTooLarge (size limit : Nat)
  | invalidInput (reason : String)
  | unsupportedCodecVersion
  deriving DecidableEq

/-! ## Identifiers -/

/-- The identifiers that `validate_identifier` checks. -/
inductive IdentifierKind
  | namespace | scope | operation
  deriving DecidableEq

/-- `MAX_NAMESPACE_BYTES`, `MAX_SCOPE_BYTES` and `MAX_OPERATION_ID_BYTES`. -/
def IdentifierKind.maxBytes : IdentifierKind → Nat
  | .namespace => 256
  | .scope => 256
  | .operation => 256

/-- The error for an empty text. -/
def IdentifierKind.emptyError : IdentifierKind → ConfigurationError
  | .namespace => .emptyNamespace
  | .scope => .invalidNamespace
  | .operation => .invalidNamespace

/-- The error for a text that is too long. -/
def IdentifierKind.lengthError : IdentifierKind → ConfigurationError
  | .namespace => .namespaceTooLong
  | .scope => .invalidNamespace
  | .operation => .invalidNamespace

/-- An ASCII letter or digit, or one of `_`, `-`, `.`, `:` and `/`. -/
def isIdentifierByte (b : UInt8) : Bool :=
  (48 ≤ b && b ≤ 57) || (65 ≤ b && b ≤ 90) || (97 ≤ b && b ≤ 122) ||
    b == 95 || b == 45 || b == 46 || b == 58 || b == 47

/-- A validated identifier, as the bytes of its text. -/
@[ext] structure Identifier (kind : IdentifierKind) where
  bytes : List UInt8
  nonempty : bytes ≠ []
  bounded : bytes.length ≤ kind.maxBytes
  charset : bytes.all isIdentifierByte = true

instance {kind : IdentifierKind} : DecidableEq (Identifier kind) := fun _ _ =>
  decidable_of_iff _ Identifier.ext_iff.symm

instance {kind : IdentifierKind} : LawfulBEq (Identifier kind) := instLawfulBEq

abbrev Namespace := Identifier .namespace
abbrev TenantScope := Identifier .scope
abbrev OperationId := Identifier .operation

namespace Identifier

variable {kind : IdentifierKind}

/-- `validate_identifier`. -/
def tryNew (bytes : List UInt8) : Except ConfigurationError (Identifier kind) :=
  if hne : bytes = [] then .error kind.emptyError
  else if hle : bytes.length ≤ kind.maxBytes then
    if hc : bytes.all isIdentifierByte = true then .ok ⟨bytes, hne, hle, hc⟩
    else .error .invalidNamespace
  else .error kind.lengthError

/-- `as_str().len()`. -/
def len (i : Identifier kind) : Nat := i.bytes.length

instance : Ord (Identifier kind) := ⟨compareOn Identifier.bytes⟩

instance : TransOrd (Identifier kind) := inferInstanceAs (TransCmp (compareOn Identifier.bytes))

instance : LawfulEqOrd (Identifier kind) where
  eq_of_compare h := Identifier.ext (Std.compare_eq_iff_eq.mp h)

end Identifier

variable (P : Platform)

/-- `OperationId::accounted_bytes`. -/
def OperationId.accountedBytes (id : OperationId) : Nat :=
  satAdd P.operationIdSize id.len

/-- `BatchId`: a UUID of version 7 and the RFC 4122 variant. -/
structure BatchId where
  uuid : Vector UInt8 16
  version : uuid[6] >>> 4 = 7
  variant : uuid[8] >>> 6 = 2
  deriving DecidableEq

namespace BatchId

/-- `TryFrom<Uuid>`. -/
def tryFrom (uuid : Vector UInt8 16) : Except ConfigurationError BatchId :=
  if h : uuid[6] >>> 4 = 7 ∧ uuid[8] >>> 6 = 2 then .ok ⟨uuid, h.1, h.2⟩
  else .error .invalidBatchId

@[ext] theorem ext {a b : BatchId} (h : a.uuid = b.uuid) : a = b := by
  cases a; cases b; simp_all

instance : Ord BatchId := ⟨compareOn BatchId.uuid⟩

instance : TransOrd BatchId := inferInstanceAs (TransCmp (compareOn BatchId.uuid))

instance : LawfulEqOrd BatchId where
  eq_of_compare h := BatchId.ext (Std.compare_eq_iff_eq.mp h)

end BatchId

/-- `FencingToken`. -/
structure FencingToken where
  generation : Nat
  deriving DecidableEq

/-- `std::time::Instant`, as nanoseconds of the monotonic clock. -/
structure Instant where
  nanos : Nat
  deriving DecidableEq

/-! ## Records -/

/-- `PersistedRecord`. -/
structure PersistedRecord where
  operationId : OperationId
  admittedAtUtcMs : Int64
  payload : List UInt8
  deriving DecidableEq

/-- `PersistedRecord::record_bytes`. -/
def PersistedRecord.recordBytes (id : OperationId) (payloadBytes : Nat) : Nat :=
  satAdd (satAdd P.persistedRecordSize id.len) payloadBytes

/-- `PersistedRecord::accounted_bytes`. -/
def PersistedRecord.accountedBytes (r : PersistedRecord) : Nat :=
  recordBytes P r.operationId r.payload.length

/-- `AdmittedRecord`. -/
structure AdmittedRecord where
  operationId : OperationId
  scope : TenantScope
  codecVersion : String
  admittedAtUtcMs : Int64
  admittedAtMono : Instant
  payload : List UInt8
  deriving DecidableEq

namespace AdmittedRecord

variable (P : Platform) (r : AdmittedRecord)

/-- `accounted_bytes`. -/
def accountedBytes : Nat :=
  satAdd (satAdd (satAdd (satAdd r.payload.length r.operationId.len) r.scope.len)
    r.codecVersion.utf8ByteSize) P.admittedRecordSize

/-- `to_persisted`. -/
def toPersisted : PersistedRecord where
  operationId := r.operationId
  admittedAtUtcMs := r.admittedAtUtcMs
  payload := r.payload

/-- `digest_record`: the hash of scope, codec version and payload with colons between them. -/
def digestRecord : Digest :=
  P.sha256 (r.scope.bytes ++ [58] ++ r.codecVersion.toUTF8.toList ++ [58] ++ r.payload)

end AdmittedRecord

/-! ## Prepared writes -/

/-- `PreparedOperation`. -/
structure PreparedOperation where
  operationId : OperationId
  payload : List UInt8
  deriving DecidableEq

/-- `PreparedOperation::accounted_bytes`. -/
def PreparedOperation.accountedBytes (o : PreparedOperation) : Nat :=
  satAdd (satAdd P.preparedOperationSize o.operationId.len) o.payload.length

/-- `PreparedPayload`. -/
inductive PreparedPayload
  | sharedRecords
  | customOperations (operations : List PreparedOperation)
  deriving DecidableEq

/-- `PreparedWrites`. -/
structure PreparedWrites where
  payload : PreparedPayload
  operationIds : List OperationId
  deriving DecidableEq

/-! ## Sealed batches -/

/-- `MAX_VERSION_BYTES`. -/
def maxVersionBytes : Nat := 128

/-- `char::is_whitespace`: the Unicode property `White_Space`. -/
def isWhitespace (c : Char) : Bool :=
  let n := c.toNat
  (0x9 ≤ n && n ≤ 0xd) || n == 0x20 || n == 0x85 || n == 0xa0 || n == 0x1680 ||
    (0x2000 ≤ n && n ≤ 0x200a) || n == 0x2028 || n == 0x2029 || n == 0x202f || n == 0x205f ||
    n == 0x3000

/-- `validate_version`. -/
def validateVersion (version : String) : Except ConfigurationError Unit :=
  let chars := version.toList
  if chars.isEmpty || maxVersionBytes < version.utf8ByteSize ||
      chars.head?.any isWhitespace || chars.getLast?.any isWhitespace || chars.any isControl then
    .error .invalidVersion
  else .ok ()

/-- `SealedBatchInput`. -/
structure SealedBatchInput where
  batchId : BatchId
  «namespace» : Namespace
  scope : TenantScope
  codecVersion : String
  strategyVersion : String
  firstItemTimeMs : Int64
  records : List PersistedRecord
  prepared : PreparedPayload
  operationIds : List OperationId
  deriving DecidableEq

/-- The least element of a list. -/
def minTime : List Int64 → Option Int64
  | [] => none
  | t :: ts => some (ts.foldl (fun a b => if b < a then b else a) t)

namespace SealedBatchInput

variable (input : SealedBatchInput)

/-- `validate_versions`. -/
def validateVersions : Except EncodeError Unit :=
  [input.codecVersion, input.strategyVersion].forM fun version =>
    (validateVersion version).mapError fun _ => .invalidInput "invalid batch version"

/-- `validate_operations`. -/
def validateOperations : Except EncodeError Unit :=
  if input.operationIds = [] ∨ ¬input.operationIds.Nodup then
    .error (.invalidInput "batch operations must be nonempty and unique")
  else
    let members := match input.prepared with
      | .sharedRecords => input.records.map (·.operationId)
      | .customOperations operations => operations.map (·.operationId)
    if members = input.operationIds then .ok ()
    else .error (.invalidInput "batch operation membership mismatch")

/-- `validate`. -/
def validate : Except EncodeError Unit := do
  input.validateVersions
  if input.records = [] ∨ ¬(input.records.map (·.operationId)).Nodup then
    .error (.invalidInput "batch records must be nonempty and unique")
  else if minTime (input.records.map (·.admittedAtUtcMs)) ≠ some input.firstItemTimeMs then
    .error (.invalidInput "batch age does not match records")
  else input.validateOperations

end SealedBatchInput

/-- `SealedBatch`: an input that passed `validate`. -/
structure SealedBatch extends SealedBatchInput where
  valid : toSealedBatchInput.validate = .ok ()
  deriving DecidableEq

namespace SealedBatch

/-- `try_new`. -/
def tryNew (input : SealedBatchInput) : Except EncodeError SealedBatch :=
  match h : input.validate with
  | .ok () => .ok ⟨input, h⟩
  | .error e => .error e

theorem tryNew_eq_ok {input : SealedBatchInput} {batch : SealedBatch}
    (h : tryNew input = .ok batch) : batch.toSealedBatchInput = input := by
  unfold tryNew at h
  split at h
  · cases h; rfl
  · cases h

/-- The operations of a batch's records are pairwise different. -/
theorem nodup_records (batch : SealedBatch) : (batch.records.map (·.operationId)).Nodup := by
  have h := batch.valid
  simp only [SealedBatchInput.validate] at h
  obtain ⟨-, -, h⟩ := Except.bind_eq_ok.mp h
  split at h
  · cases h
  · rename_i hn
    exact not_not.mp fun hd => hn (.inr hd)

variable (P : Platform)

/-- `header_bytes`. -/
def headerBytes (ns : Namespace) (scope : TenantScope) (codec strategy : String) : Nat :=
  satAdd (satAdd (satAdd (satAdd (satAdd P.sealedBatchSize ns.len) scope.len)
    codec.utf8ByteSize) strategy.utf8ByteSize) (2 * arcAllocationHeaderBytes)

/-- `accounted_bytes`. -/
def accountedBytes (batch : SealedBatch) : Nat :=
  let records := satSum (batch.records.map (·.accountedBytes P))
  let ids := satSum (batch.operationIds.map (OperationId.accountedBytes P))
  let prepared := match batch.prepared with
    | .sharedRecords => 0
    | .customOperations operations =>
      satAdd (satSum (operations.map (·.accountedBytes P))) arcAllocationHeaderBytes
  satAdd (satAdd (satAdd (headerBytes P batch.namespace batch.scope batch.codecVersion
    batch.strategyVersion) records) ids) prepared

end SealedBatch

end AuxCommon.BufferedWrites
