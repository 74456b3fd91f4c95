import AuxCommon.Error
import AuxCommon.Lib.ByteOrder
import AuxCommon.Lib.Wire
import AuxCommon.Store.Keys

/-!
# The bytes of a key

`codec/key.rs`: a key is a version byte, the namespace behind its length, a tag and the components,
each behind its length. `KeyCodec.encode` and `KeyCodec.decodeBorrowed` are inverse to each other,
and the range over an encoded key holds the encoded keys whose components extend its own. The keys
of `keys/keyspace.rs` are ordered in the model without the header; `StoreKey.bytes` adds it.
-/

namespace AuxCommon

open List Except StoreKey

/-- The bytes of a `StoreKey`. -/
abbrev KeyBytes := List UInt8

/-- `KeyTag::try_from_byte`. -/
def KeyTag.tryFromByte : UInt8 → Except StoreDataError KeyTag
  | 0x4a => .ok .job
  | 0x50 => .ok .payloadChunk
  | 0x44 => .ok .due
  | 0x46 => .ok .fairReady
  | 0x4c => .ok .lease
  | 0x58 => .ok .deadLetter
  | 0x53 => .ok .schedule
  | 0x55 => .ok .dedupe
  | 0x57 => .ok .wake
  | 0x52 => .ok .permit
  | 0x4f => .ok .operation
  | 0x43 => .ok .cancellation
  | other => .error (.unknownTag other)

theorem KeyTag.tryFromByte_eq_ok {byte : UInt8} {tag : KeyTag} :
    tryFromByte byte = .ok tag ↔ byte = tag.asByte := by
  constructor
  · intro h
    unfold tryFromByte at h
    split at h <;> cases h <;> rfl
  · rintro rfl
    cases tag <;> decide

variable (ns : Namespace)

namespace KeyCodec

/-- `KEY_VERSION`. -/
def keyVersion : UInt8 := 0x01

/-- `NAMESPACE_LENGTH_BYTES`. -/
def namespaceLengthBytes : Nat := 4

/-- `MAX_COMPONENTS`. -/
def maxComponents : Nat := 64

/-- The length of the components in `encode`, added up in a `usize`. -/
def componentBytes : Nat → List KeyBytes → Except StoreDataError Nat
  | total, [] => .ok total
  | total, component :: components =>
    if 2 ^ 32 ≤ component.length then .error .lengthOverflow
    else if 2 ^ 64 ≤ total + 4 + component.length then .error .lengthOverflow
    else componentBytes (total + 4 + component.length) components

/-- `KeyCodec::encode`. -/
def encode (tag : KeyTag) (components : List KeyBytes) : Except StoreDataError KeyBytes := do
  require (components.length ≤ maxComponents) (.malformed "too many key components")
  let componentBytes ← componentBytes 0 components
  require (ns.bytes.length < 2 ^ 32) .lengthOverflow
  require (namespaceLengthBytes + 1 + ns.bytes.length + 1 + componentBytes < 2 ^ 64)
    .lengthOverflow
  return keyVersion :: beBytes 4 ns.bytes.length ++ ns.bytes ++
    tag.asByte :: frames components

/-- `decode_header`, with the bytes behind the header. -/
def decodeHeader : KeyBytes → Except StoreDataError (KeyTag × KeyBytes)
  | version :: l₀ :: l₁ :: l₂ :: l₃ :: rest => do
    require (version = keyVersion) (.unknownVersion version)
    require (fromBe [l₀, l₁, l₂, l₃] = ns.bytes.length) (.malformed "key prefix")
    require (rest.take ns.bytes.length = ns.bytes) (.malformed "key prefix")
    match rest.drop ns.bytes.length with
    | [] => .error (.malformed "key prefix")
    | tag :: components => return (← KeyTag.tryFromByte tag, components)
  | _ => .error .truncated

/-- `decode_component_slices`, with room for so many components more. -/
def decodeComponentSlices : Nat → KeyBytes → Except StoreDataError (List KeyBytes)
  | _, [] => .ok []
  | 0, _ :: _ => .error (.malformed "too many key components")
  | room + 1, b :: bytes => do
    let (component, rest) ← (Wire.framed StoreDataError.truncated).run (b :: bytes)
    return component :: (← decodeComponentSlices room rest)

/-- `KeyCodec::decode_borrowed`. -/
def decodeBorrowed (key : KeyBytes) : Except StoreDataError (KeyTag × List KeyBytes) := do
  let (tag, components) ← decodeHeader ns key
  return (tag, ← decodeComponentSlices maxComponents components)

/-! ## What is accepted -/

/-- Component lists that a key can hold. -/
def Fits (components : List KeyBytes) : Prop :=
  components.length ≤ maxComponents ∧ ∀ c ∈ components, c.length < 256 ^ 4

/-- The header of a key. -/
def header (tag : KeyTag) : KeyBytes :=
  keyVersion :: frame ns.bytes ++ [tag.asByte]

theorem componentBytes_eq_ok {components : List KeyBytes} {total n : Nat}
    (hroom : total + components.length * (4 + 2 ^ 32) < 2 ^ 64) :
    componentBytes total components = .ok n ↔
      (∀ c ∈ components, c.length < 256 ^ 4) ∧ n = total + (frames components).length := by
  induction components generalizing total with
  | nil => simp [componentBytes, frames, eq_comm]
  | cons c cs ih =>
    rw [componentBytes, forall_mem_cons]
    rw [length_cons] at hroom
    split
    · rename_i h
      simp only [reduceCtorEq, false_iff]
      rintro ⟨⟨hc, -⟩, -⟩
      omega
    · rename_i h
      rw [if_neg (by omega), ih (by omega)]
      have hlen : (frames (c :: cs)).length = 4 + c.length + (frames cs).length := by
        rw [frames_cons, length_append, length_frame]
      rw [hlen]
      constructor
      · rintro ⟨hcs, rfl⟩
        exact ⟨⟨by omega, hcs⟩, by omega⟩
      · rintro ⟨⟨-, hcs⟩, rfl⟩
        exact ⟨hcs, by omega⟩

variable {cs : List KeyBytes} {ns ns' : Namespace} {tag tag' : KeyTag} {key : KeyBytes}

theorem length_frames_le (h : ∀ c ∈ cs, c.length < 256 ^ 4) :
    (frames cs).length ≤ cs.length * (4 + 2 ^ 32) := by
  induction cs with
  | nil => simp [frames]
  | cons c cs ih =>
    obtain ⟨hc, hcs⟩ := forall_mem_cons.mp h
    have := ih hcs
    rw [frames_cons, length_append, length_frame, length_cons]
    omega

theorem encode_eq_ok : encode ns tag cs = .ok key ↔ Fits cs ∧ key = header ns tag ++ frames cs := by
  have hns : ns.bytes.length ≤ 128 := ns.bounded
  have hbytes : keyVersion :: beBytes 4 ns.bytes.length ++ ns.bytes ++ tag.asByte :: frames cs =
      header ns tag ++ frames cs := by simp [header, frame]
  simp only [encode, bind_eq_ok, require_eq_ok, hbytes, Fits]
  constructor
  · rintro ⟨-, hlen, n, hn, -, -, -, -, hkey⟩
    rw [componentBytes_eq_ok (by unfold maxComponents at hlen; omega)] at hn
    exact ⟨⟨hlen, hn.1⟩, (ok.inj hkey).symm⟩
  · rintro ⟨⟨hlen, hcs⟩, rfl⟩
    have hn := (componentBytes_eq_ok (n := (frames cs).length)
      (by unfold maxComponents at hlen; omega)).mpr ⟨hcs, (Nat.zero_add _).symm⟩
    have htotal := length_frames_le hcs
    unfold maxComponents at hlen
    exact ⟨(), hlen, _, hn, (), by omega, (), by unfold namespaceLengthBytes; omega, rfl⟩

theorem decodeHeader_eq_ok {key rest : KeyBytes} :
    decodeHeader ns key = .ok (tag, rest) ↔ key = header ns tag ++ rest := by
  constructor
  · intro h
    unfold decodeHeader at h
    split at h
    · rename_i version l₀ l₁ l₂ l₃ after
      simp only [bind_eq_ok, require_eq_ok] at h
      obtain ⟨-, rfl, -, hlen, -, htake, h⟩ := h
      split at h
      · cases h
      · rename_i t components hdrop
        obtain ⟨_, htag, hret⟩ := bind_eq_ok.mp h
        cases hret
        have hafter : after = ns.bytes ++ tag.asByte :: rest := by
          rw [← take_append_drop ns.bytes.length after, htake, hdrop,
            KeyTag.tryFromByte_eq_ok.mp htag]
        have hframe : beBytes 4 ns.bytes.length = [l₀, l₁, l₂, l₃] := by
          rw [← hlen]
          exact beBytes_fromBe [l₀, l₁, l₂, l₃]
        rw [hafter, header, frame, hframe]
        simp
    · cases h
  · rintro rfl
    have hns : ns.bytes.length ≤ 128 := ns.bounded
    obtain ⟨l₀, l₁, l₂, l₃, hword⟩ : ∃ l₀ l₁ l₂ l₃, beBytes 4 ns.bytes.length = [l₀, l₁, l₂, l₃] :=
      ⟨_, _, _, _, rfl⟩
    have hlen : fromBe [l₀, l₁, l₂, l₃] = ns.bytes.length := hword ▸ fromBe_beBytes (by omega)
    have hkey : header ns tag ++ rest =
        keyVersion :: l₀ :: l₁ :: l₂ :: l₃ :: (ns.bytes ++ tag.asByte :: rest) := by
      simp [header, frame, hword]
    rw [hkey]
    simp only [decodeHeader, bind_eq_ok, require_eq_ok, take_left, drop_left]
    exact ⟨(), trivial, (), hlen, (), trivial, tag, KeyTag.tryFromByte_eq_ok.mpr rfl, rfl⟩

theorem decodeComponentSlices_eq_ok {room : Nat} {bytes : KeyBytes} :
    decodeComponentSlices room bytes = .ok cs ↔
      cs.length ≤ room ∧ (∀ c ∈ cs, c.length < 256 ^ 4) ∧ bytes = frames cs := by
  fun_induction decodeComponentSlices room bytes generalizing cs with
  | case1 room =>
    simp only [ok.injEq]
    constructor
    · rintro rfl
      simp [frames]
    · rintro ⟨-, -, h⟩
      cases cs with
      | nil => rfl
      | cons c cs => exact absurd h.symm (frame_append_ne_nil _ _)
  | case2 b bytes =>
    simp only [reduceCtorEq, false_iff]
    rintro ⟨hlen, -, h⟩
    rw [length_eq_zero_iff.mp (Nat.le_zero.mp hlen)] at h
    cases h
  | case3 room b bytes ih =>
    simp only [bind_eq_ok, Prod.exists, Wire.reads_iff.mp (Wire.reads_framed _)]
    constructor
    · rintro ⟨c, rest, ⟨hc, hbytes⟩, cs', hcs', hret⟩
      cases hret
      obtain ⟨hlen, hfits, rfl⟩ := (ih rest).mp hcs'
      exact ⟨Nat.succ_le_succ hlen, forall_mem_cons.mpr ⟨hc, hfits⟩, hbytes⟩
    · rintro ⟨hlen, hfits, hbytes⟩
      cases cs with
      | nil => cases hbytes
      | cons c cs =>
        obtain ⟨hc, hfits⟩ := forall_mem_cons.mp hfits
        exact ⟨c, frames cs, ⟨hc, hbytes⟩, cs,
          (ih _).mpr ⟨Nat.le_of_succ_le_succ hlen, hfits, rfl⟩, rfl⟩

/-- What is decoded is what was encoded, and nothing else is accepted. -/
theorem decodeBorrowed_eq_ok :
    decodeBorrowed ns key = .ok (tag, cs) ↔ encode ns tag cs = .ok key := by
  rw [encode_eq_ok, decodeBorrowed, bind_eq_ok]
  constructor
  · rintro ⟨⟨tag', rest⟩, hheader, h⟩
    obtain ⟨cs', hcs', hret⟩ := bind_eq_ok.mp h
    cases hret
    obtain ⟨hlen, hfits, rfl⟩ := decodeComponentSlices_eq_ok.mp hcs'
    exact ⟨⟨hlen, hfits⟩, decodeHeader_eq_ok.mp hheader⟩
  · rintro ⟨⟨hlen, hfits⟩, rfl⟩
    refine ⟨(tag, frames cs), decodeHeader_eq_ok.mpr rfl, bind_eq_ok.mpr ⟨cs, ?_, rfl⟩⟩
    exact decodeComponentSlices_eq_ok.mpr ⟨hlen, hfits, rfl⟩

/-! ## Prefixes -/

theorem header_append_inj {r r' : KeyBytes}
    (h : header ns tag ++ r = header ns' tag' ++ r') : ns = ns' ∧ tag = tag' ∧ r = r' := by
  have hlen : ∀ ns : Namespace, ns.bytes.length < 256 ^ 4 := fun ns => ns.length_bytes
  simp only [header, cons_append, append_assoc, cons.injEq, true_and] at h
  obtain ⟨hns, hrest⟩ := frame_append_inj (hlen ns) (hlen ns') h
  obtain ⟨htag, hr⟩ := cons.inj hrest
  exact ⟨OpaqueBytes.ext hns, KeyTag.asByte_inj htag, hr⟩

theorem header_append_prefix {cs cs' : List KeyBytes} (hcs : Fits cs) (hcs' : Fits cs') :
    header ns tag ++ frames cs <+: header ns' tag' ++ frames cs' ↔
      ns = ns' ∧ tag = tag' ∧ cs <+: cs' := by
  constructor
  · rintro ⟨t, h⟩
    rw [append_assoc] at h
    obtain ⟨rfl, rfl, hframes⟩ := header_append_inj h
    obtain ⟨ds, rfl, -⟩ := prefix_of_frames_append hcs.2 hcs'.2 hframes
    exact ⟨rfl, rfl, prefix_append _ _⟩
  · rintro ⟨rfl, rfl, ds, rfl⟩
    exact ⟨frames ds, by simp [frames]⟩

theorem exists_prefixEnd (r : KeyBytes) : ∃ e, prefixEnd (header ns tag ++ r) = some e :=
  prefixEnd_isSome (mem_cons_self : keyVersion ∈ _) (by decide)

/-- The range over an encoded key holds the keys of its namespace and tag whose components
extend its own. -/
theorem between_encode {cs cs' : List KeyBytes}
    {p e k : KeyBytes} (hp : encode ns tag cs = .ok p) (he : prefixEnd p = some e)
    (hk : encode ns' tag' cs' = .ok k) :
    Between p e k ↔ ns = ns' ∧ tag = tag' ∧ cs <+: cs' := by
  obtain ⟨hcs, rfl⟩ := encode_eq_ok.mp hp
  obtain ⟨hcs', rfl⟩ := encode_eq_ok.mp hk
  rw [between_prefixEnd he, header_append_prefix hcs hcs']

end KeyCodec

/-! ## The keys of a system -/

namespace StoreKey

/-- The key functions of `keys/keyspace.rs`: the bytes of a key in a namespace. -/
def bytes (k : StoreKey) : Except StoreDataError KeyBytes :=
  KeyCodec.encode ns k.tag k.components

end StoreKey

/-- `due_queue_prefix`. -/
def dueQueuePrefix (queue : QueueName) : Except StoreDataError KeyBytes :=
  KeyCodec.encode ns .due [queue.bytes]

theorem dueQueuePrefix_prefix {queue : QueueName} {k : StoreKey} :
    KeyTag.due = k.tag ∧ [queue.bytes] <+: k.components ↔ k.isDueOf queue = true := by
  cases k with
  | due q t id =>
    simp only [tag, components, isDueOf, cons_prefix_cons,
      nil_prefix, and_true, true_and, decide_eq_true_eq]
    exact ⟨fun h => (ValidatedText.bytes_inj h).symm, fun h => h ▸ rfl⟩
  | _ => simp [tag, isDueOf]

/-- Keys are collision free and prefixes exact: encoding is injective, decoding inverts it and
accepts nothing else, and the range over an encoded prefix holds the encoded keys that extend it.
The range over a queue's due prefix holds the due keys of that queue and no others. -/
theorem KeyCodec.layout_exact :
    (∀ ns tag cs ns' tag' cs' key, encode ns tag cs = .ok key → encode ns' tag' cs' = .ok key →
      ns = ns' ∧ tag = tag' ∧ cs = cs') ∧
    (∀ ns key tag cs, decodeBorrowed ns key = .ok (tag, cs) ↔ encode ns tag cs = .ok key) ∧
    (∀ ns tag cs p, encode ns tag cs = .ok p → ∃ e, prefixEnd p = some e ∧
      ∀ ns' tag' cs' key, encode ns' tag' cs' = .ok key →
        (Between p e key ↔ ns = ns' ∧ tag = tag' ∧ cs <+: cs')) ∧
    (∀ ns queue p, dueQueuePrefix ns queue = .ok p → ∃ e, prefixEnd p = some e ∧
      ∀ ns' (k : StoreKey) key, k.bytes ns' = .ok key →
        (Between p e key ↔ ns = ns' ∧ k.isDueOf queue = true)) := by
  have hend : ∀ {ns tag cs p}, encode ns tag cs = .ok p → ∃ e, prefixEnd p = some e := by
    intro ns tag cs p hp
    rw [(encode_eq_ok.mp hp).2]
    exact exists_prefixEnd _
  refine ⟨?_, fun _ _ _ _ => decodeBorrowed_eq_ok, ?_, ?_⟩
  · intro ns tag cs ns' tag' cs' key h h'
    obtain ⟨hcs, rfl⟩ := encode_eq_ok.mp h
    obtain ⟨hcs', heq⟩ := encode_eq_ok.mp h'
    obtain ⟨hns, htag, hframes⟩ := header_append_inj heq
    exact ⟨hns, htag, frames_inj hcs.2 hcs'.2 hframes⟩
  · intro ns tag cs p hp
    obtain ⟨e, he⟩ := hend hp
    exact ⟨e, he, fun _ _ _ _ hk => between_encode hp he hk⟩
  · intro ns queue p hp
    obtain ⟨e, he⟩ := hend hp
    refine ⟨e, he, fun ns' k key hk => ?_⟩
    rw [between_encode hp he hk, dueQueuePrefix_prefix]

end AuxCommon
