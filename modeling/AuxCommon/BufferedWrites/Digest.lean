import AuxCommon.BufferedWrites.Run
import AuxCommon.Lib.Delimited

/-!
# The digest of a sealed batch

Model of `batch/digest.rs` and of the envelope in `batch/envelope.rs`. `calculate_digest` hashes a
domain, words of fixed width, fields and lists behind their lengths and a tagged payload. Every part
ends itself, so the hashed bytes determine the batch (`digestInput_inj`), and an envelope whose
contents were changed under its digest is refused.
-/

namespace AuxCommon.BufferedWrites

/-- `BATCH_DIGEST_DOMAIN`. -/
def batchDigestDomain : List UInt8 := "aux-buffered-writes/batch/v2".toUTF8.toList

/-- `(bytes.len() as u64).to_le_bytes()`. -/
def lengthBytes (n : Nat) : List UInt8 := leBytes 8 n

/-- `i64::to_le_bytes`. -/
def timeBytes (t : Int64) : List UInt8 := leBytes 8 t.toBitVec.toNat

/-- What `update_field` gives to the hasher. -/
def updateField (bytes : List UInt8) : List UInt8 := lengthBytes bytes.length ++ bytes

def recordDigestBytes (record : PersistedRecord) : List UInt8 :=
  timeBytes record.admittedAtUtcMs ++ (updateField record.operationId.bytes ++
    updateField record.payload)

def operationDigestBytes (operation : PreparedOperation) : List UInt8 :=
  updateField operation.operationId.bytes ++ updateField operation.payload

def preparedDigestBytes : PreparedPayload → List UInt8
  | .sharedRecords => [0]
  | .customOperations operations =>
    1 :: (lengthBytes operations.length ++ operations.flatMap operationDigestBytes)

namespace SealedBatchInput

/-- What `calculate_digest` gives to the hasher. -/
def digestInput (input : SealedBatchInput) : List UInt8 :=
  batchDigestDomain ++ (input.batchId.uuid.toList ++ (timeBytes input.firstItemTimeMs ++
    (updateField input.namespace.bytes ++ (updateField input.scope.bytes ++
    (updateField input.codecVersion.toUTF8.data.toList ++
    (updateField input.strategyVersion.toUTF8.data.toList ++
    ((lengthBytes input.records.length ++ input.records.flatMap recordDigestBytes) ++
    ((lengthBytes input.operationIds.length ++
      input.operationIds.flatMap fun id => updateField id.bytes) ++
    preparedDigestBytes input.prepared))))))))

/-- `calculate_digest`. -/
def calculateDigest (P : Platform) (input : SealedBatchInput) : Digest := P.sha256 input.digestInput

end SealedBatchInput

/-- `BatchEnvelope`. -/
structure BatchEnvelope where
  input : SealedBatchInput
  digest : Digest

/-- `TryFrom<BatchEnvelope>`. -/
def BatchEnvelope.tryFrom (P : Platform) (envelope : BatchEnvelope) : Except EncodeError SealedBatch :=
  do
    let batch ← SealedBatch.tryNew envelope.input
    if batch.calculateDigest P ≠ envelope.digest then
      throw (.invalidInput "sealed batch digest verification failed")
    return batch

/-! ## What fits into an address space -/

/-- No byte string or list has more elements than a `usize` counts. -/
def Addressable (input : SealedBatchInput) : Prop :=
  input.codecVersion.toUTF8.data.toList.length < 256 ^ 8 ∧
  input.strategyVersion.toUTF8.data.toList.length < 256 ^ 8 ∧
  (input.records.length < 256 ^ 8 ∧ ∀ record ∈ input.records, record.payload.length < 256 ^ 8) ∧
  input.operationIds.length < 256 ^ 8 ∧
  ∀ operations, input.prepared = .customOperations operations →
    operations.length < 256 ^ 8 ∧ ∀ operation ∈ operations, operation.payload.length < 256 ^ 8

theorem Identifier.length_lt {kind : IdentifierKind} (id : Identifier kind) :
    id.bytes.length < 256 ^ 8 := by
  refine id.bounded.trans_lt ?_
  cases kind <;> decide

/-! ## The parts -/

theorem delimited_field : Delimited (fun bytes : List UInt8 => bytes.length < 256 ^ 8) updateField :=
  .field 8

theorem delimited_identifier (kind : IdentifierKind) :
    Delimited (fun _ : Identifier kind => True) fun id => updateField id.bytes :=
  delimited_field.comap (fun _ _ h => Identifier.ext h) fun id _ => id.length_lt

theorem delimited_text : Delimited (fun text : String => text.toUTF8.data.toList.length < 256 ^ 8)
    fun text => updateField text.toUTF8.data.toList :=
  delimited_field.comap
    (fun _ _ h => String.toByteArray_inj.mp (ByteArray.ext (Array.toList_inj.mp h))) fun _ h => h

theorem delimited_time : Delimited (fun _ : Int64 => True) timeBytes :=
  (Delimited.word 8).comap (fun _ _ h => Int64.toBitVec_inj.mp (BitVec.eq_of_toNat_eq h))
    fun t _ => t.toBitVec.isLt

theorem delimited_batchId : Delimited (fun _ : BatchId => True) fun id => id.uuid.toList :=
  .of_length 16 (fun id _ => id.uuid.length_toList) fun _ _ _ _ h => BatchId.ext (Vector.toList_inj.mp h)

theorem delimited_record :
    Delimited (fun record : PersistedRecord => record.payload.length < 256 ^ 8) recordDigestBytes :=
  (delimited_time.append ((delimited_identifier _).append delimited_field)).comap
    (f := fun record : PersistedRecord => (record.admittedAtUtcMs, record.operationId, record.payload))
    (by rintro ⟨⟩ ⟨⟩ h; cases h; rfl) fun _ h => ⟨trivial, trivial, h⟩

theorem delimited_operation :
    Delimited (fun operation : PreparedOperation => operation.payload.length < 256 ^ 8)
      operationDigestBytes :=
  ((delimited_identifier _).append delimited_field).comap
    (f := fun operation : PreparedOperation => (operation.operationId, operation.payload))
    (by rintro ⟨⟩ ⟨⟩ h; cases h; rfl) fun _ h => ⟨trivial, h⟩

theorem delimited_prepared : Delimited (fun prepared : PreparedPayload =>
    ∀ operations, prepared = .customOperations operations → operations.length < 256 ^ 8 ∧
      ∀ operation ∈ operations, operation.payload.length < 256 ^ 8) preparedDigestBytes := by
  intro a b ha hb s t h
  cases a with
  | sharedRecords =>
    cases b with
    | sharedRecords => exact ⟨rfl, (List.cons.inj h).2⟩
    | customOperations => exact absurd (List.cons.inj h).1 (by decide)
  | customOperations operations =>
    cases b with
    | sharedRecords => exact absurd (List.cons.inj h).1 (by decide)
    | customOperations operations' =>
      obtain ⟨rfl, hst⟩ := (delimited_operation.counted 8) (ha _ rfl) (hb _ rfl) (List.cons.inj h).2
      exact ⟨rfl, hst⟩

/-! ## The whole input -/

theorem digestInput_inj {a b : SealedBatchInput} (ha : Addressable a) (hb : Addressable b)
    (h : a.digestInput = b.digestInput) : a = b := by
  have hlist := delimited_record.counted 8
  have hids := (delimited_identifier .operation).counted 8
  have hall := (delimited_batchId.append <| delimited_time.append <|
    (delimited_identifier .namespace).append <| (delimited_identifier .scope).append <|
    delimited_text.append <| delimited_text.append <| hlist.append <| hids.append
    delimited_prepared).inj (a := (a.batchId, a.firstItemTimeMs, a.namespace, a.scope,
      a.codecVersion, a.strategyVersion, a.records, a.operationIds, a.prepared))
    (b := (b.batchId, b.firstItemTimeMs, b.namespace, b.scope, b.codecVersion, b.strategyVersion,
      b.records, b.operationIds, b.prepared))
  obtain ⟨hcodec, hstrategy, hrecords, hcount, hprepared⟩ := ha
  obtain ⟨hcodec', hstrategy', hrecords', hcount', hprepared'⟩ := hb
  have heq := hall
    ⟨trivial, trivial, trivial, trivial, hcodec, hstrategy, hrecords, ⟨hcount, fun _ _ => trivial⟩,
      hprepared⟩
    ⟨trivial, trivial, trivial, trivial, hcodec', hstrategy', hrecords',
      ⟨hcount', fun _ _ => trivial⟩, hprepared'⟩ (List.append_cancel_left h)
  cases a
  cases b
  cases heq
  rfl

/-- Batches whose digests hash the same bytes are equal. An envelope with the digest of a batch and
other contents is refused, unless the hash of the two contents collides. -/
theorem sealed_batch_digest_unambiguous (P : Platform) (batch : SealedBatch)
    (hbatch : Addressable batch.toSealedBatchInput) :
    (∀ other : SealedBatch, Addressable other.toSealedBatchInput →
      batch.digestInput = other.digestInput → batch = other) ∧
    ∀ envelope : BatchEnvelope, Addressable envelope.input →
      envelope.digest = batch.calculateDigest P → envelope.input ≠ batch.toSealedBatchInput →
      (P.sha256 envelope.input.digestInput = P.sha256 batch.digestInput →
        envelope.input.digestInput = batch.digestInput) →
      ∃ error, envelope.tryFrom P = .error error := by
  constructor
  · intro other hother h
    have heq := digestInput_inj hbatch hother h
    cases batch
    cases other
    cases heq
    rfl
  · intro envelope henvelope hdigest hne hcollision
    cases hresult : envelope.tryFrom P with
    | error error => exact ⟨error, rfl⟩
    | ok decoded =>
      obtain ⟨sealed_, hsealed, hcheck⟩ := Except.bind_eq_ok.mp hresult
      have hinput := SealedBatch.tryNew_eq_ok hsealed
      by_cases hsame : sealed_.calculateDigest P = envelope.digest
      · rw [hinput, hdigest] at hsame
        exact absurd (digestInput_inj henvelope hbatch (hcollision hsame)) hne
      · rw [if_pos hsame] at hcheck
        cases hcheck

namespace Sample

/-- The sample platform with a hash that keeps the end of its input. -/
def hashingPlatform : Platform :=
  { platform with sha256 := fun bytes => Vector.ofFn fun i => bytes.reverse[i.val]?.getD 0 }

/-- The envelope of the first batch with the contents of the second. -/
def forged : BatchEnvelope := ⟨(batch 1).toSealedBatchInput, (batch 0).calculateDigest hashingPlatform⟩

theorem addressable_batch (b : Fin 26) : Addressable (batch b).toSealedBatchInput := by
  have hversion : "v1".toUTF8.data.toList.length < 256 ^ 8 := by decide
  have hone : 1 < 256 ^ 8 := by decide
  refine ⟨hversion, hversion, ⟨hone, ?_⟩, hone, fun _ h => by cases h⟩
  intro record hrecord
  cases List.mem_singleton.mp hrecord
  change 3 < 256 ^ 8
  decide

/-- The forged envelope is refused. -/
theorem forged_refused : ∃ error, forged.tryFrom hashingPlatform = .error error :=
  (sealed_batch_digest_unambiguous hashingPlatform (batch 0) (addressable_batch 0)).2 forged
    (addressable_batch 1) rfl (by decide +kernel) fun h => absurd h (by decide +kernel)

end Sample

end AuxCommon.BufferedWrites
