import AuxCommon.Fairness.Values
import AuxCommon.Lib.Bytes

/-!
# Keys of the job store

The keys of `keys/keyspace.rs`, one constructor for each key function, and their order: a store
orders keys by their bytes, the tag and the length-delimited components that `codec/key.rs`
writes after the header. The header (the version and the namespace) is the same for all keys of
one system and is left out.
-/

namespace AuxCommon

open Std ValidatedText FixedId

/-- The permit keys of `permit_keys_for_slot` and `ordering_permit_key`. -/
inductive PermitKey
  | primary (queue : QueueName) (primary : FairnessKey) (slot : U32)
  | secondary (queue : QueueName) (primary secondary : FairnessKey) (slot : U32)
  | ordering (queue : QueueName) (ordering : OrderingKey) (slot : U32)
  deriving DecidableEq

/-- `StoreKey`, as the key functions build it. -/
inductive StoreKey
  | job (jobId : JobId)
  | payload (jobId : JobId) (index : U32)
  | due (queue : QueueName) (scheduledAt : Timestamp) (jobId : JobId)
  | fair (queue : QueueName) (jobId : JobId)
  | lease (queue : QueueName) (jobId : JobId)
  | deadLetter (queue : QueueName) (jobId : JobId)
  | dedupe (key : DeduplicationKey)
  | wake (queue : QueueName)
  | operation (jobId : JobId)
  | cancellation (jobId : JobId)
  | permit (key : PermitKey)
  deriving DecidableEq

/-- Whether a key is the wake key of a queue. -/
def StoreKey.isWake : StoreKey → Bool
  | .wake _ => true
  | _ => false

/-- `KeyTag`. No key function uses the tag of schedules. -/
inductive KeyTag
  | job | payloadChunk | due | fairReady | lease | deadLetter | schedule | dedupe | wake | permit
  | operation | cancellation
  deriving DecidableEq

/-- `KeyTag::as_byte`. -/
def KeyTag.asByte : KeyTag → UInt8
  | .job => 0x4a
  | .payloadChunk => 0x50
  | .due => 0x44
  | .fairReady => 0x46
  | .lease => 0x4c
  | .deadLetter => 0x58
  | .schedule => 0x53
  | .dedupe => 0x55
  | .wake => 0x57
  | .permit => 0x52
  | .operation => 0x4f
  | .cancellation => 0x43

theorem KeyTag.asByte_inj {a b : KeyTag} (h : a.asByte = b.asByte) : a = b := by
  revert h
  cases a <;> cases b <;> decide

/-- `as_str().as_bytes()`. -/
def ValidatedText.bytes {kind : TextKind} (t : ValidatedText kind) : List UInt8 :=
  t.value.toByteArray.data.toList

theorem ValidatedText.bytes_inj {kind : TextKind} {a b : ValidatedText kind}
    (h : a.bytes = b.bytes) : a = b := by
  have hv : a.value = b.value :=
    String.toByteArray_inj.mp (ByteArray.ext (Array.toList_inj.mp h))
  cases a; cases b
  simp_all

theorem ValidatedText.length_bytes {kind : TextKind} (t : ValidatedText kind) :
    t.bytes.length < 256 ^ 4 := by
  have h : t.bytes.length = t.value.utf8ByteSize := rfl
  have := t.bounded
  rw [h]
  unfold maxNameBytes at this
  omega

theorem OpaqueBytes.length_bytes {kind : KeyKind} (k : OpaqueBytes kind) :
    k.bytes.length < 256 ^ 4 := by
  have := k.bounded
  cases kind <;> simp only [KeyKind.maxBytes] at this <;> omega

theorem FixedId.toList_inj {kind : IdKind} {a b : FixedId kind}
    (h : a.bytes.toList = b.bytes.toList) : a = b := by
  cases a; cases b
  exact congrArg mk (Vector.toList_inj.mp h)

/-- `as_millis().to_be_bytes()`. -/
def Timestamp.bytes (t : Timestamp) : List UInt8 := beBytes 8 t.millis.toBitVec.toNat

theorem Timestamp.bytes_inj {a b : Timestamp} (h : a.bytes = b.bytes) : a = b := by
  have hn := beBytes_inj (n := 8) (a.millis.toBitVec.isLt.trans_eq (by decide))
    (b.millis.toBitVec.isLt.trans_eq (by decide)) h
  cases a; cases b
  exact congrArg Timestamp.mk (Int64.toBitVec_inj.mp (BitVec.eq_of_toNat_eq hn))

/-- `to_be_bytes` of a `u32`. -/
def u32Bytes (x : U32) : List UInt8 := beBytes 4 x.toNat

theorem u32Bytes_inj {a b : U32} (h : u32Bytes a = u32Bytes b) : a = b :=
  BitVec.eq_of_toNat_eq (beBytes_inj (n := 4) (a.isLt.trans_eq (by decide))
    (b.isLt.trans_eq (by decide)) h)

namespace StoreKey

def tag : StoreKey → KeyTag
  | .job _ => .job
  | .payload _ _ => .payloadChunk
  | .due _ _ _ => .due
  | .fair _ _ => .fairReady
  | .lease _ _ => .lease
  | .deadLetter _ _ => .deadLetter
  | .dedupe _ => .dedupe
  | .wake _ => .wake
  | .operation _ => .operation
  | .cancellation _ => .cancellation
  | .permit _ => .permit

/-- The bytes of the fixed words in permit keys. -/
def word (s : String) : List UInt8 := s.toByteArray.data.toList

/-- The components that the key functions pass to `KeyCodec::encode`. -/
def components : StoreKey → List (List UInt8)
  | .job id => [id.bytes.toList]
  | .payload id index => [id.bytes.toList, u32Bytes index]
  | .due q t id => [q.bytes, t.bytes, id.bytes.toList]
  | .fair q id => [q.bytes, id.bytes.toList]
  | .lease q id => [q.bytes, id.bytes.toList]
  | .deadLetter q id => [q.bytes, id.bytes.toList]
  | .dedupe key => [key.bytes]
  | .wake q => [q.bytes]
  | .operation id => [id.bytes.toList]
  | .cancellation id => [id.bytes.toList]
  | .permit (.primary q p slot) =>
    [word "scope", word "primary", q.bytes, p.bytes, u32Bytes slot]
  | .permit (.secondary q p s slot) =>
    [word "scope", word "secondary", q.bytes, p.bytes, s.bytes, u32Bytes slot]
  | .permit (.ordering q o slot) => [word "ordering", q.bytes, o.bytes, u32Bytes slot]

/-- `KeyCodec::encode`, after the header. -/
def encode (k : StoreKey) : List UInt8 := k.tag.asByte :: frames k.components

theorem length_components (k : StoreKey) : ∀ c ∈ k.components, c.length < 256 ^ 4 := by
  have hid : ∀ {kind} (id : FixedId kind), id.bytes.toList.length < 256 ^ 4 := by
    intro kind id
    rw [Vector.length_toList]
    decide
  have h8 : ∀ t : Timestamp, t.bytes.length < 256 ^ 4 := by
    intro t
    rw [Timestamp.bytes, length_beBytes]
    decide
  have h4 : ∀ x : U32, (u32Bytes x).length < 256 ^ 4 := by
    intro x
    rw [u32Bytes, length_beBytes]
    decide
  have hw : (word "scope").length < 256 ^ 4 ∧ (word "primary").length < 256 ^ 4 ∧
      (word "secondary").length < 256 ^ 4 ∧ (word "ordering").length < 256 ^ 4 := by decide
  rcases k with _ | _ | _ | _ | _ | _ | _ | _ | _ | _ | (_ | _ | _) <;>
    simp only [components, List.forall_mem_cons, hid, h8, h4, hw, length_bytes,
      OpaqueBytes.length_bytes, List.not_mem_nil, false_implies, implies_true, and_self]

/-- Keys with the same bytes are the same key. -/
theorem encode_inj {a b : StoreKey} (h : a.encode = b.encode) : a = b := by
  obtain ⟨htag, hframes⟩ := List.cons.inj h
  have htag : a.tag = b.tag := KeyTag.asByte_inj htag
  have hcomp : a.components = b.components :=
    frames_inj a.length_components b.length_components hframes
  cases a <;> cases b <;> cases htag
  case permit.permit p q =>
    cases p <;> cases q <;> simp only [components, List.cons.injEq, reduceCtorEq, and_false] at hcomp
    · obtain ⟨-, -, hq, hp, hs, -⟩ := hcomp
      rw [bytes_inj hq, OpaqueBytes.ext hp, u32Bytes_inj hs]
    · obtain ⟨-, -, hq, hp, hs, hslot, -⟩ := hcomp
      rw [bytes_inj hq, OpaqueBytes.ext hp, OpaqueBytes.ext hs, u32Bytes_inj hslot]
    · obtain ⟨-, hq, ho, hs, -⟩ := hcomp
      rw [bytes_inj hq, OpaqueBytes.ext ho, u32Bytes_inj hs]
  all_goals simp only [components, List.cons.injEq] at hcomp
  case job | operation | cancellation => rw [toList_inj hcomp.1]
  case dedupe => rw [OpaqueBytes.ext hcomp.1]
  case wake => rw [bytes_inj hcomp.1]
  case payload => rw [toList_inj hcomp.1, u32Bytes_inj hcomp.2.1]
  case due =>
    rw [bytes_inj hcomp.1, Timestamp.bytes_inj hcomp.2.1, toList_inj hcomp.2.2.1]
  case fair | lease | deadLetter =>
    rw [bytes_inj hcomp.1, toList_inj hcomp.2.1]

instance : Ord StoreKey := ⟨compareOn StoreKey.encode⟩

instance : TransOrd StoreKey := inferInstanceAs (TransCmp (compareOn StoreKey.encode))

instance : LawfulEqOrd StoreKey where
  eq_of_compare h := encode_inj (Std.compare_eq_iff_eq.mp h)

/-- `due_queue_prefix`: whether a key is in the due index of a queue. -/
def isDueOf (queue : QueueName) : StoreKey → Bool
  | .due q _ _ => q = queue
  | _ => false

end StoreKey

end AuxCommon
