import AuxCommon.Codec.Values
import AuxCommon.Store.Values

/-!
# The bytes under an operation key

`codec/value/operation.rs`: the marker of a live operation, the watermark that a new enqueue
leaves, and the receipt of a completion, with or without the digest of the job's definition. The
first byte of the body tells the four kinds apart. The model of the engine keeps these values as
`OperationValue`; `OperationValue.encode` gives their bytes, and the decoders of the engine's model
agree with those here (`decodeActiveOperation_encode`, `decodeOperationFenceHighWater_encode`).
-/

namespace AuxCommon.Codec

open Wire List Except

/-! ## Kinds -/

/-- `MARKER_KIND`. -/
def markerKind : UInt8 := 0

/-- `RECEIPT_KIND`. -/
def receiptKind : UInt8 := 1

/-- `WATERMARK_KIND`. -/
def watermarkKind : UInt8 := 2

/-- `DEFINED_RECEIPT_KIND`. -/
def definedReceiptKind : UInt8 := 3

/-! ## Writing -/

/-- `encode_operation_marker`. -/
def encodeOperationMarker (jobId : JobId) (operation : OperationId) (fenceHighWater : U64) :
    Except StoreDataError Bytes :=
  encodeValue .operation
    (markerKind :: jobId.bytes.toList ++ operation.bytes.toList ++ u64Bytes fenceHighWater)

/-- `encode_operation_watermark`. -/
def encodeOperationWatermark (jobId : JobId) (fenceHighWater : U64) :
    Except StoreDataError Bytes :=
  encodeValue .operation (watermarkKind :: jobId.bytes.toList ++ u64Bytes fenceHighWater)

variable (receipt : OperationReceipt)

/-- The kind byte of a receipt. -/
def kindOfReceipt : UInt8 :=
  if receipt.definitionDigest.isSome then definedReceiptKind else receiptKind

/-- `terminal_byte` of the one terminal disposition. -/
def terminalByte : UInt8 := 0

/-- The body of `encode_operation_receipt`. -/
def writeReceipt : Writer Unit := do
  put [kindOfReceipt receipt]
  put receipt.operationId.bytes.toList
  put receipt.jobId.bytes.toList
  put (u32Bytes receipt.generation)
  put (u64Bytes receipt.revision)
  put receipt.executionId.bytes.toList
  put receipt.attemptId.bytes.toList
  put (u32Bytes receipt.attempts.get)
  put receipt.owner.bytes.toList
  put receipt.token.bytes.toList
  put (u64Bytes receipt.fence.get)
  put [encodeEffectMode receipt.effectMode]
  put receipt.createdAt.bytes
  put receipt.completedAt.bytes
  put [terminalByte]
  putFramed .lengthOverflow receipt.kind.bytes
  putFramed .lengthOverflow receipt.queue.bytes
  putFramed .lengthOverflow (utf8 receipt.outcome.value)
  match receipt.definitionDigest with
  | some digest => put digest.toList
  | none => pure ()

/-- `encode_operation_receipt`. -/
def encodeOperationReceipt : Except StoreDataError Bytes := do
  let (_, body) ← (writeReceipt receipt).run []
  encodeValue .operation body

/-! ## Reading -/

/-- `LiveOperationAuthority`. -/
structure LiveOperationAuthority where
  jobId : JobId
  fenceHighWater : U64
  operationId : Option OperationId
  deriving DecidableEq

/-- `DecodedOperation`. -/
inductive DecodedOperation
  | live (authority : LiveOperationAuthority)
  | receipt (receipt : OperationReceipt)
  deriving DecidableEq

/-- `&body[start..end]`. -/
def slice (start stop : Nat) (body : Bytes) : Bytes := (body.take stop).drop start

/-- `decode_marker`. -/
def decodeMarker (body : Bytes) : Except StoreDataError LiveOperationAuthority := do
  require (body.length = 1 + opaqueIdBytes + opaqueIdBytes + 8) (.malformed "operation marker")
  let jobId ← (FixedId.tryFromSlice (slice 1 17 body)).mapError .ofIdentifier
  let operationId ← (FixedId.tryFromSlice (slice 17 33 body)).mapError .ofIdentifier
  return ⟨jobId, BitVec.ofNat 64 (fromBe (slice 33 41 body)), some operationId⟩

/-- `decode_watermark`. -/
def decodeWatermark (body : Bytes) : Except StoreDataError LiveOperationAuthority := do
  require (body.length = 1 + opaqueIdBytes + 8) (.malformed "operation watermark")
  let jobId ← (FixedId.tryFromSlice (slice 1 17 body)).mapError .ofIdentifier
  return ⟨jobId, BitVec.ofNat 64 (fromBe (slice 17 25 body)), none⟩

/-- `decode_terminal`. -/
def decodeTerminal (value : UInt8) : Except StoreDataError Unit :=
  require (value = terminalByte) (.malformed "terminal disposition")

/-- The terminal disposition of a receipt. -/
def readTerminal : Reader Unit := do decodeTerminal (← u8)

/-- The definition digest at the end of a receipt, for its kind. -/
def readDefinitionDigest (kind : UInt8) : Reader (Option Digest) :=
  if kind = definedReceiptKind then do return some (← digest) else return none

/-- `decode_receipt`, up to its end. -/
def readReceipt (kind : UInt8) : Reader OperationReceipt := do
  let operationId ← fixedId (.malformed "operation ID")
  let jobId ← fixedId (.malformed "job ID")
  let generation ← u32
  let revision ← u64
  let executionId ← fixedId (.malformed "execution ID")
  let attemptId ← fixedId (.malformed "attempt ID")
  let attempts ← nonZero "attempt count" u32
  let owner ← fixedId (.malformed "owner ID")
  let token ← fixedId (.malformed "lease token")
  let fence ← nonZero "lease fence" u64
  let effectMode ← readEffectMode
  let createdAt ← timestamp
  let completedAt ← timestamp
  readTerminal
  let jobKind ← name (.malformed "job kind") (.malformed "job kind")
  let queue ← name (.malformed "queue") (.malformed "queue")
  let outcome ← outcomeCode (.malformed "outcome code")
  let definitionDigest ← readDefinitionDigest kind
  return {
    definitionDigest := definitionDigest
    operationId := operationId
    jobId := jobId
    generation := generation
    revision := revision
    executionId := executionId
    attemptId := attemptId
    attempts := attempts
    kind := jobKind
    queue := queue
    effectMode := effectMode
    createdAt := createdAt
    completedAt := completedAt
    owner := owner
    token := token
    fence := fence
    outcome := outcome }

/-- The match of `decode_operation` on the kind of a body. -/
def decodeOperationBody : Bytes → Except StoreDataError DecodedOperation
  | [] => .error (.malformed "operation kind")
  | kind :: rest =>
    if kind = markerKind then return .live (← decodeMarker (kind :: rest))
    else if kind = receiptKind ∨ kind = definedReceiptKind then
      return .receipt (← readAll (readReceipt kind) rest)
    else if kind = watermarkKind then return .live (← decodeWatermark (kind :: rest))
    else .error (.malformed "operation kind")

/-- `decode_operation`. -/
def decodeOperation (encoded : Bytes) : Except StoreDataError DecodedOperation := do
  let (tag, body) ← decodeBody encoded
  require (tag = .operation) (.malformed "operation marker")
  decodeOperationBody body

/-- `decode_operation_authority`. -/
def decodeOperationAuthority (encoded : Bytes) (expectedJobId : JobId) :
    Except StoreDataError LiveOperationAuthority := do
  match ← decodeOperation encoded with
  | .live authority =>
    if authority.jobId = expectedJobId then return authority
    else throw (.malformed "operation job identity")
  | .receipt _ => throw (.malformed "operation marker")

/-- `decode_active_operation`. -/
def decodeActiveOperation (encoded : Bytes) (expectedJobId : JobId) :
    Except StoreDataError (OperationId × U64) := do
  let authority ← decodeOperationAuthority encoded expectedJobId
  let operation ← okOr (.malformed "operation marker") authority.operationId
  return (operation, authority.fenceHighWater)

/-- `decode_operation_fence_high_water`. -/
def decodeOperationFenceHighWater (encoded : Bytes) (expectedJobId : JobId) :
    Except StoreDataError U64 := do
  match ← decodeOperation encoded with
  | .live authority =>
    if authority.jobId = expectedJobId then return authority.fenceHighWater
    else throw (.malformed "operation job identity")
  | .receipt receipt =>
    if receipt.jobId = expectedJobId then return receipt.fence.get
    else throw (.malformed "operation job identity")

/-! ## Receipts -/

/-- The fields of a receipt in the order they are written. -/
def receiptBytes : Bytes :=
  [receipt.operationId.bytes.toList, receipt.jobId.bytes.toList, u32Bytes receipt.generation,
    u64Bytes receipt.revision, receipt.executionId.bytes.toList, receipt.attemptId.bytes.toList,
    u32Bytes receipt.attempts.get, receipt.owner.bytes.toList, receipt.token.bytes.toList,
    u64Bytes receipt.fence.get, [encodeEffectMode receipt.effectMode], receipt.createdAt.bytes,
    receipt.completedAt.bytes, [terminalByte], frame receipt.kind.bytes,
    frame receipt.queue.bytes, frame (utf8 receipt.outcome.value),
    receipt.definitionDigest.elim [] Vector.toList].flatten

theorem reads_terminal : Reads readTerminal (fun _ => True) (fun _ => [terminalByte]) :=
  reads_enum fun _ _ => require_eq_ok

theorem reads_definitionDigest (kind : UInt8) :
    Reads (readDefinitionDigest kind) (fun d => d.isSome = true ↔ kind = definedReceiptKind)
      (fun d => d.elim [] Vector.toList) := by
  unfold readDefinitionDigest
  split
  · rename_i hkind
    refine .map reads_digest (fun d => ?_) fun _ _ => rfl
    cases d <;> simp [hkind]
  · rename_i hkind
    refine reads_iff.mpr fun bs d rest => ?_
    have hrun : (pure none : Reader (Option Digest)).run bs = .ok (none, bs) := rfl
    rw [hrun]
    cases d <;> simp [hkind]

theorem reads_receipt (kind : UInt8) : Reads (readReceipt kind)
      (fun r => r.definitionDigest.isSome = true ↔ kind = definedReceiptKind) receiptBytes := by
  refine (ReadsIn.bind (p := OperationReceipt.operationId) (reads_fixedId _) fun _ =>
    .bind (p := OperationReceipt.jobId) (reads_fixedId _) fun _ =>
    .bind (p := OperationReceipt.generation) reads_u32 fun _ =>
    .bind (p := OperationReceipt.revision) reads_u64 fun _ =>
    .bind (p := OperationReceipt.executionId) (reads_fixedId _) fun _ =>
    .bind (p := OperationReceipt.attemptId) (reads_fixedId _) fun _ =>
    .bind (p := OperationReceipt.attempts) (reads_nonZero reads_u32) fun _ =>
    .bind (p := OperationReceipt.owner) (reads_fixedId _) fun _ =>
    .bind (p := OperationReceipt.token) (reads_fixedId _) fun _ =>
    .bind (p := OperationReceipt.fence) (reads_nonZero reads_u64) fun _ =>
    .bind (p := OperationReceipt.effectMode) reads_effectMode fun _ =>
    .bind (p := OperationReceipt.createdAt) reads_timestamp fun _ =>
    .bind (p := OperationReceipt.completedAt) reads_timestamp fun _ =>
    .bind (p := fun _ => ()) reads_terminal fun _ =>
    .bind (p := OperationReceipt.kind) (reads_name _ _) fun _ =>
    .bind (p := OperationReceipt.queue) (reads_name _ _) fun _ =>
    .bind (p := OperationReceipt.outcome) (reads_outcomeCode _) fun _ =>
    .bind (p := OperationReceipt.definitionDigest) (reads_definitionDigest kind) fun _ =>
    .pure fun r => ?_).congr (fun r _ => by simp) fun r _ _ => by simp [receiptBytes]
  cases r
  grind

theorem writes_receipt :
    Writes (writeReceipt receipt) True (kindOfReceipt receipt :: receiptBytes receipt) := by
  have hdigest : Writes (match receipt.definitionDigest with
      | some digest => put digest.toList
      | none => pure () : Writer Unit) True (receipt.definitionDigest.elim [] Vector.toList) := by
    cases receipt.definitionDigest with
    | none => exact .pure
    | some digest => exact writes_put _
  refine (Writes.put_seq <| .put_seq <| .put_seq <| .put_seq <| .put_seq <| .put_seq <|
    .put_seq <| .put_seq <| .put_seq <| .put_seq <| .put_seq <| .put_seq <| .put_seq <|
    .put_seq <| .put_seq <| .framed_seq <| .framed_seq <| .framed_seq hdigest).congr ?_
    fun _ => by simp [receiptBytes]
  have := length_utf8_outcome receipt.outcome
  have := receipt.kind.length_bytes
  have := receipt.queue.length_bytes
  simp
  omega

theorem length_receiptBytes : (receiptBytes receipt).length < 1024 := by
  have hkind : receipt.kind.bytes.length ≤ 128 := receipt.kind.bounded
  have hqueue : receipt.queue.bytes.length ≤ 128 := receipt.queue.bounded
  have houtcome := length_utf8_outcome receipt.outcome
  have hdigest : (receipt.definitionDigest.elim [] Vector.toList).length ≤ 32 := by
    cases receipt.definitionDigest with
    | none => exact Nat.zero_le _
    | some d => exact (length_digest d).le
  simp only [receiptBytes, flatten_cons, flatten_nil, length_append, length_fixedId, u32Bytes,
    u64Bytes, Timestamp.bytes, length_beBytes, length_frame, length_singleton, length_nil]
  omega

theorem encodeOperationReceipt_eq : encodeOperationReceipt receipt =
      encodeValue .operation (kindOfReceipt receipt :: receiptBytes receipt) := by
  have hrun := (writes_receipt receipt [] _).mpr ⟨trivial, rfl⟩
  rw [encodeOperationReceipt, hrun]
  rfl

/-! ## The four kinds -/

/-- The bytes of a value under an operation key. -/
def encodeOperation : OperationValue → Except StoreDataError Bytes
  | .marker jobId operation fence => encodeOperationMarker jobId operation fence
  | .watermark jobId fence => encodeOperationWatermark jobId fence
  | .receipt receipt => encodeOperationReceipt receipt

/-- What `decode_operation` makes of a value. -/
def decodedOf : OperationValue → DecodedOperation
  | .marker jobId operation fence => .live ⟨jobId, fence, some operation⟩
  | .watermark jobId fence => .live ⟨jobId, fence, none⟩
  | .receipt receipt => .receipt receipt

/-- The body of a value. -/
def bodyOf : OperationValue → Bytes
  | .marker jobId operation fence =>
    markerKind :: (jobId.bytes.toList ++ (operation.bytes.toList ++ u64Bytes fence))
  | .watermark jobId fence => watermarkKind :: (jobId.bytes.toList ++ u64Bytes fence)
  | .receipt receipt => kindOfReceipt receipt :: receiptBytes receipt

theorem encodeOperation_eq (v : OperationValue) :
    encodeOperation v = encodeValue .operation (bodyOf v) := by
  cases v with
  | marker jobId operation fence =>
    simp [encodeOperation, encodeOperationMarker, bodyOf]
  | watermark jobId fence =>
    simp [encodeOperation, encodeOperationWatermark, bodyOf]
  | receipt receipt => exact encodeOperationReceipt_eq receipt

theorem length_bodyOf (v : OperationValue) : (bodyOf v).length ≤ maxValueBodyBytes := by
  cases v with
  | marker | watermark => simp only [bodyOf, length_cons, length_append,
    length_fixedId, u64Bytes, length_beBytes, maxValueBodyBytes, Nat.reduceAdd, Nat.reduceLeDiff]
  | receipt receipt =>
    have := length_receiptBytes receipt
    simp only [bodyOf, length_cons, maxValueBodyBytes]
    omega

theorem decodedOf_inj {v v' : OperationValue} (h : decodedOf v = decodedOf v') : v = v' := by
  cases v <;> cases v' <;> simp_all [decodedOf]

/-! ## Slices -/

theorem slice_append {a b c : Bytes} {i j : Nat} (hi : a.length = i) (hj : i + b.length = j) :
    slice i j (a ++ (b ++ c)) = b := by
  rw [slice, ← append_assoc, take_left' (by simp; omega), drop_left' hi]

theorem exists_append_of_le {l : Bytes} {n : Nat} (h : n ≤ l.length) :
    ∃ a b, l = a ++ b ∧ a.length = n :=
  ⟨l.take n, l.drop n, (take_append_drop n l).symm, length_take_of_le h⟩

theorem length_u64Bytes (x : U64) : (u64Bytes x).length = 8 := length_beBytes 8 _

theorem ofNat_fromBe_u64Bytes (x : U64) : BitVec.ofNat 64 (fromBe (u64Bytes x)) = x := by
  rw [u64Bytes, fromBe_beBytes (x.isLt.trans_eq (by decide)), BitVec.ofNat_toNat,
    BitVec.setWidth_eq]

theorem u64Bytes_ofNat_fromBe {bs : Bytes} (h : bs.length = 8) :
    u64Bytes (BitVec.ofNat 64 (fromBe bs)) = bs := by
  have hlt := fromBe_lt bs
  rw [h] at hlt
  have hbs := beBytes_fromBe bs
  rw [u64Bytes, BitVec.toNat_ofNat, Nat.mod_eq_of_lt (hlt.trans_eq (by decide)), ← h, hbs]

variable {authority : LiveOperationAuthority} {kind : UInt8} {rest : Bytes} {d : DecodedOperation}

theorem decodeMarker_eq_ok : decodeMarker (kind :: rest) = .ok authority ↔ ∃ jobId operation fence,
      authority = ⟨jobId, fence, some operation⟩ ∧
        rest = jobId.bytes.toList ++ (operation.bytes.toList ++ u64Bytes fence) := by
  have hslices : ∀ a b c : Bytes, a.length = 16 → b.length = 16 → c.length = 8 →
      slice 1 17 (kind :: (a ++ (b ++ c))) = a ∧ slice 17 33 (kind :: (a ++ (b ++ c))) = b ∧
        slice 33 41 (kind :: (a ++ (b ++ c))) = c := by
    intro a b c ha hb hc
    have hlast := slice_append (a := kind :: a ++ b) (b := c) (c := []) (i := 33) (j := 41)
      (by simp; omega) (by omega)
    have hmiddle := slice_append (a := kind :: a) (b := b) (c := c) (i := 17) (j := 33)
      (by simp; omega) (by omega)
    have hfirst := slice_append (a := [kind]) (b := a) (c := b ++ c) (i := 1) (j := 17)
      (by simp) (by omega)
    exact ⟨hfirst, hmiddle, by simpa using hlast⟩
  simp only [decodeMarker, bind_eq_ok, require_eq_ok, mapError_eq_ok, FixedId.tryFromSlice_eq_ok]
  constructor
  · rintro ⟨-, hlen, jobId, hjob, operation, hoperation, hret⟩
    rw [length_cons] at hlen
    unfold opaqueIdBytes at hlen
    obtain ⟨a, after, rfl, ha⟩ := exists_append_of_le (n := 16) (l := rest) (by omega)
    rw [length_append] at hlen
    obtain ⟨b, c, rfl, hb⟩ := exists_append_of_le (n := 16) (l := after) (by omega)
    rw [length_append] at hlen
    obtain ⟨h₁, h₂, h₃⟩ := hslices a b c ha hb (by omega)
    rw [h₁] at hjob
    rw [h₂] at hoperation
    rw [h₃] at hret
    cases hret
    exact ⟨jobId, operation, _, rfl, by rw [hjob, hoperation, u64Bytes_ofNat_fromBe (by omega)]⟩
  · rintro ⟨jobId, operation, fence, rfl, rfl⟩
    obtain ⟨h₁, h₂, h₃⟩ := hslices jobId.bytes.toList operation.bytes.toList (u64Bytes fence)
      (length_fixedId _) (length_fixedId _) (length_u64Bytes _)
    refine ⟨(), ?_, jobId, h₁, operation, h₂, ?_⟩
    · rw [length_cons, length_append, length_append, length_fixedId,
        length_fixedId, length_u64Bytes, opaqueIdBytes]
    · rw [h₃, ofNat_fromBe_u64Bytes]
      rfl

theorem decodeWatermark_eq_ok : decodeWatermark (kind :: rest) = .ok authority ↔ ∃ jobId fence,
      authority = ⟨jobId, fence, none⟩ ∧ rest = jobId.bytes.toList ++ u64Bytes fence := by
  have hslices : ∀ a b : Bytes, a.length = 16 → b.length = 8 →
      slice 1 17 (kind :: (a ++ b)) = a ∧ slice 17 25 (kind :: (a ++ b)) = b := by
    intro a b ha hb
    have hlast := slice_append (a := kind :: a) (b := b) (c := []) (i := 17) (j := 25)
      (by simp; omega) (by omega)
    have hfirst := slice_append (a := [kind]) (b := a) (c := b) (i := 1) (j := 17)
      (by simp) (by omega)
    exact ⟨hfirst, by simpa using hlast⟩
  simp only [decodeWatermark, bind_eq_ok, require_eq_ok, mapError_eq_ok, FixedId.tryFromSlice_eq_ok]
  constructor
  · rintro ⟨-, hlen, jobId, hjob, hret⟩
    rw [length_cons] at hlen
    unfold opaqueIdBytes at hlen
    obtain ⟨a, b, rfl, ha⟩ := exists_append_of_le (n := 16) (l := rest) (by omega)
    rw [length_append] at hlen
    obtain ⟨h₁, h₂⟩ := hslices a b ha (by omega)
    rw [h₁] at hjob
    rw [h₂] at hret
    cases hret
    exact ⟨jobId, _, rfl, by rw [hjob, u64Bytes_ofNat_fromBe (by omega)]⟩
  · rintro ⟨jobId, fence, rfl, rfl⟩
    obtain ⟨h₁, h₂⟩ := hslices jobId.bytes.toList (u64Bytes fence) (length_fixedId _)
      (length_u64Bytes _)
    refine ⟨(), ?_, jobId, h₁, ?_⟩
    · rw [length_cons, length_append, length_fixedId, length_u64Bytes, opaqueIdBytes]
    · rw [h₂, ofNat_fromBe_u64Bytes]
      rfl

theorem kindOfReceipt_iff {receipt : OperationReceipt}
    (h : kind = receiptKind ∨ kind = definedReceiptKind) :
    (receipt.definitionDigest.isSome = true ↔ kind = definedReceiptKind) ↔
      kind = kindOfReceipt receipt := by
  have hne : receiptKind ≠ definedReceiptKind := by decide
  unfold kindOfReceipt
  rcases h with rfl | rfl <;> cases receipt.definitionDigest <;> simp [hne, hne.symm]

theorem decodeOperationBody_eq_ok {body : Bytes} :
    decodeOperationBody body = .ok d ↔ ∃ v, decodedOf v = d ∧ bodyOf v = body := by
  constructor
  · intro h
    unfold decodeOperationBody at h
    split at h
    · cases h
    rename_i kind rest
    split_ifs at h with hmarker hreceipt hwatermark
    · obtain ⟨authority, hauthority, hret⟩ := bind_eq_ok.mp h
      cases hret
      obtain ⟨jobId, operation, fence, rfl, rfl⟩ := decodeMarker_eq_ok.mp hauthority
      exact ⟨.marker jobId operation fence, rfl, by rw [bodyOf, hmarker]⟩
    · obtain ⟨receipt, hread, hret⟩ := bind_eq_ok.mp h
      cases hret
      obtain ⟨hkind, rfl⟩ := (readAll_eq_ok (reads_receipt kind)).mp hread
      exact ⟨.receipt receipt, rfl, by rw [bodyOf, ← (kindOfReceipt_iff hreceipt).mp hkind]⟩
    · obtain ⟨authority, hauthority, hret⟩ := bind_eq_ok.mp h
      cases hret
      obtain ⟨jobId, fence, rfl, rfl⟩ := decodeWatermark_eq_ok.mp hauthority
      exact ⟨.watermark jobId fence, rfl, by rw [bodyOf, hwatermark]⟩
  · rintro ⟨v, rfl, rfl⟩
    cases v with
    | marker jobId operation fence =>
      rw [bodyOf, decodeOperationBody, if_pos rfl]
      exact bind_eq_ok.mpr ⟨_, decodeMarker_eq_ok.mpr ⟨_, _, _, rfl, rfl⟩, rfl⟩
    | watermark jobId fence =>
      rw [bodyOf, decodeOperationBody, if_neg (by decide), if_neg (by decide), if_pos rfl]
      exact bind_eq_ok.mpr ⟨_, decodeWatermark_eq_ok.mpr ⟨_, _, rfl, rfl⟩, rfl⟩
    | receipt receipt =>
      have hkind : kindOfReceipt receipt = receiptKind ∨
          kindOfReceipt receipt = definedReceiptKind := by
        unfold kindOfReceipt
        split <;> simp
      have hmarker : kindOfReceipt receipt ≠ markerKind := by
        rcases hkind with h | h <;> rw [h] <;> decide
      rw [bodyOf, decodeOperationBody, if_neg hmarker, if_pos hkind]
      exact bind_eq_ok.mpr ⟨receipt, (readAll_eq_ok (reads_receipt _)).mpr
        ⟨(kindOfReceipt_iff hkind).mpr rfl, rfl⟩, rfl⟩

variable {encoded : Bytes} {v : OperationValue}

/-- What is decoded is what was encoded, and nothing else is accepted. -/
theorem decodeOperation_eq_ok :
    decodeOperation encoded = .ok d ↔ ∃ v, decodedOf v = d ∧ encodeOperation v = .ok encoded := by
  simp only [decodeOperation, bind_eq_ok, Prod.exists, decodeBody_eq_ok, require_eq_ok,
    decodeOperationBody_eq_ok, encodeOperation_eq]
  constructor
  · rintro ⟨_, _, hencode, -, rfl, v, hd, rfl⟩
    exact ⟨v, hd, hencode⟩
  · rintro ⟨v, hd, hencode⟩
    exact ⟨_, _, hencode, (), rfl, v, hd, rfl⟩

theorem exists_encodeOperation (v : OperationValue) :
    ∃ encoded, encodeOperation v = .ok encoded := by
  rw [encodeOperation_eq]
  exact ⟨_, encodeValue_eq_ok.mpr ⟨length_bodyOf v, rfl⟩⟩

theorem decodeOperation_encode
    (h : encodeOperation v = .ok encoded) : decodeOperation encoded = .ok (decodedOf v) :=
  decodeOperation_eq_ok.mpr ⟨v, rfl, h⟩

theorem encodeOperation_inj {v v' : OperationValue}
    (h : encodeOperation v = .ok encoded) (h' : encodeOperation v' = .ok encoded) : v = v' := by
  have hd := decodeOperation_encode h
  rw [decodeOperation_encode h'] at hd
  exact (decodedOf_inj (ok.inj hd)).symm

/-! ## The engine's decoders -/

/-- The engine's model decodes a value as the source decodes its bytes. -/
theorem decodeActiveOperation_encode (expected : JobId) (h : encodeOperation v = .ok encoded) :
    decodeActiveOperation encoded expected =
      AuxCommon.decodeActiveOperation (.operation v) expected := by
  have hok : ∀ {α β : Type} (a : α) (f : α → Except StoreDataError β),
      (ok a >>= f) = f a := fun _ _ => rfl
  simp only [decodeActiveOperation, decodeOperationAuthority, decodeOperation_encode h, hok,
    AuxCommon.decodeActiveOperation, AuxCommon.decodeOperation]
  cases v with
  | marker jobId _ _ | watermark jobId _ =>
    by_cases hid : jobId = expected <;> simp only [decodedOf, hid, if_true, if_false] <;> rfl
  | receipt receipt => rfl

theorem decodeOperationFenceHighWater_encode
    (expected : JobId) (h : encodeOperation v = .ok encoded) :
    decodeOperationFenceHighWater encoded expected =
      AuxCommon.decodeOperationFenceHighWater (.operation v) expected := by
  unfold decodeOperationFenceHighWater
  rw [decodeOperation_encode h]
  cases v <;> rfl

/-- The bytes under an operation key are unambiguous: the four kinds are encoded without
collisions, every value is decoded from its bytes and nothing else is accepted, the fence is
returned for every kind, and the live operation exactly for the marker of the given job. -/
theorem operation_codec_exact :
    (∀ v v' encoded, encodeOperation v = .ok encoded → encodeOperation v' = .ok encoded → v = v') ∧
    (∀ v, ∃ encoded, encodeOperation v = .ok encoded ∧
      decodeOperation encoded = .ok (decodedOf v)) ∧
    (∀ encoded d, decodeOperation encoded = .ok d →
      ∃ v, decodedOf v = d ∧ encodeOperation v = .ok encoded) ∧
    (∀ encoded jobId fence, decodeOperationFenceHighWater encoded jobId = .ok fence ↔
      ∃ v, encodeOperation v = .ok encoded ∧ v.jobId = jobId ∧ v.fence = fence) ∧
    (∀ encoded jobId operation fence,
      decodeActiveOperation encoded jobId = .ok (operation, fence) ↔
        encodeOperation (.marker jobId operation fence) = .ok encoded) := by
  refine ⟨fun _ _ _ => encodeOperation_inj, ?_, fun _ _ => decodeOperation_eq_ok.mp, ?_, ?_⟩
  · intro v
    obtain ⟨encoded, h⟩ := exists_encodeOperation v
    exact ⟨encoded, h, decodeOperation_encode h⟩
  · intro encoded jobId fence
    constructor
    · intro h
      obtain ⟨d, hd, -⟩ := bind_eq_ok.mp h
      obtain ⟨v, -, hv⟩ := decodeOperation_eq_ok.mp hd
      rw [decodeOperationFenceHighWater_encode jobId hv, AuxCommon.decodeOperationFenceHighWater_eq_ok] at h
      exact ⟨v, hv, h⟩
    · rintro ⟨v, hv, h⟩
      rw [decodeOperationFenceHighWater_encode jobId hv, AuxCommon.decodeOperationFenceHighWater_eq_ok]
      exact h
  · intro encoded jobId operation fence
    constructor
    · intro h
      obtain ⟨authority, hauthority, -⟩ := bind_eq_ok.mp h
      obtain ⟨d, hd, -⟩ := bind_eq_ok.mp hauthority
      obtain ⟨v, -, hv⟩ := decodeOperation_eq_ok.mp hd
      rw [decodeActiveOperation_encode jobId hv, AuxCommon.decodeActiveOperation_eq_ok] at h
      rwa [← StoreValue.operation.inj h]
    · intro h
      rw [decodeActiveOperation_encode jobId h, AuxCommon.decodeActiveOperation_eq_ok]

end AuxCommon.Codec
