import AuxCommon.Job.Record
import AuxCommon.Store.KeyCodec

/-!
# The bytes of values

The envelope of `codec/value/envelope.rs` and the readers and writers that the value codecs share.
Offsets into a body are bounded by its length, so the overflow check of `Reader::take` is left out.
Each reader comes with the bytes it reads (`Wire.Reads`), each writer with the bytes it appends
(`Wire.Writes`).
-/

namespace AuxCommon.Codec

open Wire Except Reads

abbrev Reader (α : Type) := Wire.Reader StoreDataError α
abbrev Writer (α : Type) := Wire.Writer StoreDataError α

/-! ## Envelopes -/

/-- `ValueTag`, the same tags as those of keys. -/
abbrev ValueTag := KeyTag

/-- `VALUE_VERSION`. -/
def valueVersion : UInt8 := 0x01

/-- `MAX_VALUE_BODY_BYTES`. -/
def maxValueBodyBytes : Nat := 1048576

/-- `ValueCodec::encode`. -/
def encodeValue (tag : ValueTag) (body : Bytes) : Except StoreDataError Bytes := do
  require (body.length ≤ maxValueBodyBytes)
    (.invalidLength "value body" body.length maxValueBodyBytes)
  require (body.length < 2 ^ 32) .lengthOverflow
  return valueVersion :: tag.asByte :: beBytes 4 body.length ++ body

/-- `ValueCodec::decode_body`. -/
def decodeBody : Bytes → Except StoreDataError (ValueTag × Bytes)
  | version :: tag :: l₀ :: l₁ :: l₂ :: l₃ :: body => do
    require (version = valueVersion) (.unknownVersion version)
    let tag ← KeyTag.tryFromByte tag
    let length := fromBe [l₀, l₁, l₂, l₃]
    require (length ≤ maxValueBodyBytes) (.invalidLength "value body" length maxValueBodyBytes)
    require (length ≤ body.length) .truncated
    require (length = body.length) .trailingBytes
    return (tag, body)
  | version :: _ => do
    require (version = valueVersion) (.unknownVersion version)
    throw .truncated
  | [] => .error .truncated

theorem encodeValue_eq_ok {tag : ValueTag} {body encoded : Bytes} :
    encodeValue tag body = .ok encoded ↔
      body.length ≤ maxValueBodyBytes ∧ encoded = valueVersion :: tag.asByte :: frame body := by
  simp only [encodeValue, bind_eq_ok, require_eq_ok]
  constructor
  · rintro ⟨-, hmax, -, -, hret⟩
    exact ⟨hmax, (ok.inj hret).symm⟩
  · rintro ⟨hmax, rfl⟩
    exact ⟨(), hmax, (), by unfold maxValueBodyBytes at hmax; omega, rfl⟩

/-- An envelope is opened exactly when it is one that `encodeValue` closes. -/
theorem decodeBody_eq_ok {encoded body : Bytes} {tag : ValueTag} :
    decodeBody encoded = .ok (tag, body) ↔ encodeValue tag body = .ok encoded := by
  rw [encodeValue_eq_ok]
  constructor
  · intro h
    unfold decodeBody at h
    split at h
    · rename_i version t l₀ l₁ l₂ l₃ after
      simp only [bind_eq_ok, require_eq_ok] at h
      obtain ⟨-, rfl, _, htag, -, hmax, -, -, -, hlen, hret⟩ := h
      cases hret
      have hword : beBytes 4 body.length = [l₀, l₁, l₂, l₃] := by
        rw [← hlen]
        exact beBytes_fromBe [l₀, l₁, l₂, l₃]
      rw [KeyTag.tryFromByte_eq_ok.mp htag, frame, hword]
      exact ⟨hlen ▸ hmax, rfl⟩
    · obtain ⟨_, -, h⟩ := bind_eq_ok.mp h
      cases h
    · cases h
  · rintro ⟨hmax, rfl⟩
    obtain ⟨l₀, l₁, l₂, l₃, hword⟩ : ∃ l₀ l₁ l₂ l₃, beBytes 4 body.length = [l₀, l₁, l₂, l₃] :=
      ⟨_, _, _, _, rfl⟩
    have hlen : fromBe [l₀, l₁, l₂, l₃] = body.length :=
      hword ▸ fromBe_beBytes (by unfold maxValueBodyBytes at hmax; omega)
    rw [frame, hword]
    simp only [decodeBody, List.cons_append, List.nil_append, bind_eq_ok, require_eq_ok, hlen]
    exact ⟨(), trivial, tag, KeyTag.tryFromByte_eq_ok.mpr rfl, (), hmax, (), le_rfl, (), trivial,
      rfl⟩

/-! ## Readers -/

/-- `Reader::finish`, after a value was read from the whole body. -/
def readAll {α : Type} (r : Reader α) (body : Bytes) : Except StoreDataError α := do
  let (a, rest) ← r.run body
  require (rest = []) .trailingBytes
  return a

theorem readAll_eq_ok {α : Type} {r : Reader α} {P : α → Prop} {w : α → Bytes} (hr : Reads r P w)
    {body : Bytes} {a : α} : readAll r body = .ok a ↔ P a ∧ body = w a := by
  simp only [readAll, bind_eq_ok, Prod.exists, reads_iff.mp hr, require_eq_ok]
  constructor
  · rintro ⟨_, _, ⟨hP, rfl⟩, -, rfl, hret⟩
    cases hret
    exact ⟨hP, List.append_nil _⟩
  · rintro ⟨hP, rfl⟩
    exact ⟨a, [], ⟨hP, (List.append_nil _).symm⟩, (), rfl, rfl⟩

/-- `Reader::u8`. -/
def u8 : Reader UInt8 := byte .truncated

/-- `Reader::u32`. -/
def u32 : Reader U32 := word .truncated 4

/-- `Reader::u64`. -/
def u64 : Reader U64 := word .truncated 8

/-- `Timestamp::from_millis(reader.i64()?)`. -/
def timestamp : Reader Timestamp := do return ⟨.ofBitVec (← u64)⟩

/-- `Reader::bytes`. -/
def bytes : Reader Bytes := framed .truncated

def u64Bytes (x : U64) : Bytes := beBytes 8 x.toNat

theorem reads_u8 : Reads u8 (fun _ => True) ([·]) := reads_byte _

theorem reads_u32 : Reads u32 (fun _ => True) u32Bytes := reads_word _ 4

theorem reads_u64 : Reads u64 (fun _ => True) u64Bytes := reads_word _ 8

theorem reads_bytes : Reads bytes (·.length < 256 ^ 4) frame := reads_framed _

theorem reads_timestamp : Reads timestamp (fun _ => True) Timestamp.bytes := by
  refine (ReadsIn.bind (p := fun t : Timestamp => t.millis.toBitVec) reads_u64 fun x =>
    .pure fun t => ?_).congr (fun _ _ => by simp) fun t _ _ => by simp [u64Bytes, Timestamp.bytes]
  cases t
  simp [Timestamp.mk.injEq, ← Int64.toBitVec_inj]

/-! ## Checked readers -/

variable (invalid : StoreDataError)

/-- An identifier of 16 bytes. No 16 bytes are refused, so the error is never raised. -/
def fixedId {kind : IdKind} : Reader (FixedId kind) := do
  (FixedId.tryFromSlice (← take .truncated opaqueIdBytes)).mapError fun _ => invalid

@[simp] theorem length_fixedId {kind : IdKind} (id : FixedId kind) : id.bytes.toList.length = 16 :=
  id.bytes.length_toList

theorem reads_fixedId {kind : IdKind} :
    Reads (fixedId invalid : Reader (FixedId kind)) (fun _ => True) (·.bytes.toList) := by
  refine (check (g := fun id : FixedId kind => id.bytes.toList) (Q := fun _ => True)
    (reads_take _ _) fun a id => ?_).congr (fun id _ => by simp) fun _ _ _ => rfl
  rw [mapError_eq_ok, FixedId.tryFromSlice_eq_ok, and_true]

/-- A `NonZero` integer, with the name of the field in the error. -/
def nonZero {w : Nat} (field : String) (r : Reader (BitVec w)) : Reader (NonZero w) := do
  okOr (StoreDataError.malformed field) (NonZero.new (← r))

theorem reads_nonZero {w : Nat} {field : String} {r : Reader (BitVec w)} {v : BitVec w → Bytes}
    (hr : Reads r (fun _ => True) v) :
    Reads (nonZero field r) (fun _ => True) (fun x => v x.get) := by
  refine (check (g := fun x : NonZero w => x.get) (Q := fun _ => True) hr
    fun a x => ?_).congr (fun _ _ => by simp) fun _ _ _ => rfl
  rw [okOr_eq_ok, NonZero.new_eq_some, and_true, eq_comm]

/-- `str::from_utf8`. -/
def fromUtf8 (bs : Bytes) : Option String := String.fromUTF8? ⟨bs.toArray⟩

/-- `str::as_bytes`. -/
def utf8 (s : String) : Bytes := s.toByteArray.data.toList

theorem fromUtf8_eq_some {bs : Bytes} {s : String} : fromUtf8 bs = some s ↔ bs = utf8 s := by
  unfold fromUtf8 utf8 String.fromUTF8?
  constructor
  · intro h
    split at h
    · cases h; rfl
    · cases h
  · rintro rfl
    exact dif_pos s.isValidUTF8

/-- `Reader::text`. -/
def text : Reader String := do
  okOr invalid (fromUtf8 (← bytes))

theorem reads_text :
    Reads (text invalid) (fun s => (utf8 s).length < 256 ^ 4) (fun s => frame (utf8 s)) := by
  refine (check (g := utf8) (Q := fun _ => True) reads_bytes fun a s => ?_).congr
    (fun _ _ => by simp) fun _ _ _ => rfl
  rw [okOr_eq_ok, fromUtf8_eq_some, and_true]

/-- A queue name or a job kind, with the errors of the text and of the name. -/
def name {kind : TextKind} (notText notName : StoreDataError) : Reader (ValidatedText kind) := do
  (ValidatedText.tryNew (← text notText)).mapError fun _ => notName

theorem reads_name {kind : TextKind} (notText notName : StoreDataError) :
    Reads (name notText notName : Reader (ValidatedText kind)) (fun _ => True)
      (fun t => frame t.bytes) := by
  refine (check (g := fun t : ValidatedText kind => t.value) (Q := fun _ => True)
    (reads_text _) fun a t => ?_).congr (fun t _ => ?_) fun _ _ _ => rfl
  · rw [mapError_eq_ok, ValidatedText.tryNew_eq_ok, and_true]
  · exact iff_of_true ⟨t.length_bytes, trivial⟩ trivial

/-- `From<ValidationError>`. -/
def ofValidation (_ : ValidationError) : StoreDataError := .malformed "validated value"

/-- An outcome code. -/
def outcomeCode (notText : StoreDataError) : Reader OutcomeCode := do
  (OutcomeCode.tryNew (← text notText)).mapError ofValidation

theorem length_utf8_outcome (code : OutcomeCode) : (utf8 code.value).length ≤ 64 := code.bounded

theorem reads_outcomeCode (notText : StoreDataError) :
    Reads (outcomeCode notText) (fun _ => True) (fun code => frame (utf8 code.value)) := by
  refine (check (g := fun code : OutcomeCode => code.value) (Q := fun _ => True)
    (reads_text _) fun a code => ?_).congr (fun code _ => ?_) fun _ _ _ => rfl
  · rw [mapError_eq_ok, OutcomeCode.tryNew_eq_ok, and_true]
  · have := length_utf8_outcome code
    exact iff_of_true ⟨by omega, trivial⟩ trivial

/-- `<[u8; 32]>::try_from`. -/
def digestFromSlice (bytes : Bytes) : Except StoreDataError Digest :=
  if h : bytes.toArray.size = payloadDigestBytes then .ok ⟨bytes.toArray, h⟩ else .error .truncated

theorem digestFromSlice_eq_ok {bytes : Bytes} {d : Digest} :
    digestFromSlice bytes = .ok d ↔ bytes = d.toList := by
  constructor
  · intro h
    unfold digestFromSlice at h
    split at h
    · cases h; simp
    · cases h
  · rintro rfl
    rw [digestFromSlice, dif_pos (by simp)]
    rfl

/-- A SHA-256 digest. -/
def digest : Reader Digest := do
  digestFromSlice (← take .truncated payloadDigestBytes)

@[simp] theorem length_digest (d : Digest) : d.toList.length = 32 := Vector.length_toList

theorem reads_digest : Reads digest (fun _ => True) Vector.toList := by
  refine (check (g := fun d : Digest => d.toList) (Q := fun _ => True)
    (reads_take _ _) fun a d => ?_).congr (fun d _ => by simp) fun _ _ _ => rfl
  rw [digestFromSlice_eq_ok, and_true]

/-! ## Modes -/

/-- `encode_effect_mode`. -/
def encodeEffectMode : EffectMode → UInt8
  | .readOnly => 0
  | .idempotent => 1
  | .atLeastOnce => 2
  | .fenced => 3

/-- `decode_effect_mode`. -/
def decodeEffectMode : UInt8 → Except StoreDataError EffectMode
  | 0 => .ok .readOnly
  | 1 => .ok .idempotent
  | 2 => .ok .atLeastOnce
  | 3 => .ok .fenced
  | _ => .error (.malformed "effect mode")

/-- A byte that stands for a value of an enumeration. -/
theorem reads_enum {α : Type} {f : UInt8 → Except StoreDataError α} {g : α → UInt8}
    (hf : ∀ b a, f b = .ok a ↔ b = g a) :
    Reads (u8 >>= fun b => (liftM (f b) : Reader α)) (fun _ => True) (fun a => [g a]) :=
  (check (g := g) (Q := fun _ => True) reads_u8
    fun b a => by rw [hf, and_true]).congr (fun _ _ => by simp) fun _ _ _ => rfl

theorem decodeEffectMode_eq_ok (b : UInt8) (mode : EffectMode) :
    decodeEffectMode b = .ok mode ↔ b = encodeEffectMode mode := by
  constructor
  · intro h
    unfold decodeEffectMode at h
    split at h <;> cases h <;> rfl
  · rintro rfl
    cases mode <;> rfl

/-- `decode_effect_mode(reader.u8()?)`. -/
def readEffectMode : Reader EffectMode := do decodeEffectMode (← u8)

theorem reads_effectMode :
    Reads readEffectMode (fun _ => True) (fun mode => [encodeEffectMode mode]) :=
  reads_enum decodeEffectMode_eq_ok

end AuxCommon.Codec
