import AuxCommon.Lib.Machine
import AuxCommon.Lib.OrdMap

/-!
# Identifiers, bounded keys and time

The identifier types of `ids/types.rs` and the wall-clock type of `time/timestamp.rs`. Each
value carries the bounds that its constructor checks, so a key that is empty or too long
cannot be built. The types that the source generates from one macro or one const-generic
struct are one structure here, indexed by the kind of identifier.
-/

namespace AuxCommon

open Std

/-- `IdentifierError`, without the entropy error of identifier generation. -/
inductive IdentifierError
  | invalidLength (kind : String) (expected actual : Nat)
  | empty (kind : String)
  | tooLong (kind : String) (maximum actual : Nat)
  | invalidText (kind : String)
  deriving DecidableEq

/-! ## Fixed-size identifiers -/

/-- The identifiers that `fixed_identifier!` generates. -/
inductive IdKind
  | job | schedule | occurrence | execution | attempt | leaseToken | operation | commitOperation
  | owner
  deriving DecidableEq

/-- The label in an identifier's errors. -/
def IdKind.label : IdKind → String
  | .job => "job ID"
  | .schedule => "schedule ID"
  | .occurrence => "occurrence ID"
  | .execution => "execution ID"
  | .attempt => "attempt ID"
  | .leaseToken => "lease token"
  | .operation => "operation ID"
  | .commitOperation => "commit operation ID"
  | .owner => "owner ID"

/-- `OPAQUE_ID_BYTES`. -/
def opaqueIdBytes : Nat := 16

/-- An opaque identifier of 16 bytes. -/
structure FixedId (kind : IdKind) where
  bytes : Vector UInt8 opaqueIdBytes
  deriving DecidableEq

abbrev JobId := FixedId .job
abbrev ScheduleId := FixedId .schedule
abbrev OccurrenceId := FixedId .occurrence
abbrev ExecutionId := FixedId .execution
abbrev AttemptId := FixedId .attempt
abbrev LeaseToken := FixedId .leaseToken
abbrev OperationId := FixedId .operation
abbrev CommitOperationId := FixedId .commitOperation
abbrev OwnerId := FixedId .owner

namespace FixedId

variable {kind : IdKind}

/-- `try_from_slice`. -/
def tryFromSlice (bytes : List UInt8) : Except IdentifierError (FixedId kind) :=
  if h : bytes.toArray.size = opaqueIdBytes then .ok ⟨⟨bytes.toArray, h⟩⟩
  else .error (.invalidLength kind.label opaqueIdBytes bytes.length)

/-- The identifier whose 16 bytes are all `b`. -/
def repeated (b : UInt8) : FixedId kind := ⟨Vector.replicate _ b⟩

instance : Ord (FixedId kind) := ⟨compareOn FixedId.bytes⟩

instance : TransOrd (FixedId kind) := inferInstanceAs (TransCmp (compareOn FixedId.bytes))

instance : LawfulEqOrd (FixedId kind) where
  eq_of_compare {a b} h := by
    have hb : a.bytes = b.bytes := Std.compare_eq_iff_eq.mp h
    cases a; cases b
    exact congrArg FixedId.mk hb

theorem tryFromSlice_toList (id : FixedId kind) : tryFromSlice id.bytes.toList = .ok id := by
  rw [tryFromSlice, dif_pos (by simp)]
  congr 2

theorem tryFromSlice_eq_ok {bytes : List UInt8} {id : FixedId kind} :
    tryFromSlice bytes = .ok id ↔ bytes = id.bytes.toList := by
  constructor
  · intro h
    unfold tryFromSlice at h
    split at h
    · cases h; simp
    · cases h
  · rintro rfl
    exact tryFromSlice_toList id

end FixedId

/-! ## Bounded opaque keys -/

/-- The newtypes over `OpaqueBytes`. -/
inductive KeyKind
  | fairness | ordering | deduplication | namespace
  deriving DecidableEq

/-- The `MAX` of a kind of key. -/
def KeyKind.maxBytes : KeyKind → Nat
  | .fairness => 128
  | .ordering => 128
  | .deduplication => 256
  | .namespace => 128

/-- The label in a key's errors. -/
def KeyKind.label : KeyKind → String
  | .fairness => "fairness key"
  | .ordering => "ordering key"
  | .deduplication => "deduplication key"
  | .namespace => "namespace"

/-- `OpaqueBytes<MAX>`: between one and `MAX` bytes. -/
structure OpaqueBytes (kind : KeyKind) where
  bytes : List UInt8
  nonempty : bytes ≠ []
  bounded : bytes.length ≤ kind.maxBytes
  deriving DecidableEq

abbrev FairnessKey := OpaqueBytes .fairness
abbrev OrderingKey := OpaqueBytes .ordering
abbrev DeduplicationKey := OpaqueBytes .deduplication
abbrev Namespace := OpaqueBytes .namespace

namespace OpaqueBytes

variable {kind : KeyKind}

/-- `try_new`. -/
def tryNew (bytes : List UInt8) : Except IdentifierError (OpaqueBytes kind) :=
  if hne : bytes = [] then .error (.empty kind.label)
  else if hle : bytes.length ≤ kind.maxBytes then .ok ⟨bytes, hne, hle⟩
  else .error (.tooLong kind.label kind.maxBytes bytes.length)

/-- The key of the one byte `b`. -/
def single (b : UInt8) : OpaqueBytes kind :=
  ⟨[b], List.cons_ne_nil _ _, by cases kind <;> simp [KeyKind.maxBytes]⟩

@[ext] theorem ext {a b : OpaqueBytes kind} (h : a.bytes = b.bytes) : a = b := by
  cases a; cases b; simp_all

instance : Ord (OpaqueBytes kind) := ⟨compareOn OpaqueBytes.bytes⟩

instance : TransOrd (OpaqueBytes kind) := inferInstanceAs (TransCmp (compareOn OpaqueBytes.bytes))

instance : LawfulEqOrd (OpaqueBytes kind) where
  eq_of_compare h := OpaqueBytes.ext (Std.compare_eq_iff_eq.mp h)

end OpaqueBytes

/-! ## Names -/

/-- The newtypes over `ValidatedText`. -/
inductive TextKind
  | jobKind | queueName
  deriving DecidableEq

/-- The label in a name's errors. -/
def TextKind.label : TextKind → String
  | .jobKind => "job kind"
  | .queueName => "queue name"

/-- `MAX_NAME_BYTES`. -/
def maxNameBytes : Nat := 128

/-- `char::is_control`: the Unicode category `Cc`. -/
def isControl (c : Char) : Bool := c.toNat < 0x20 || (0x7f ≤ c.toNat && c.toNat < 0xa0)

/-- `ValidatedText`: a nonempty text of at most 128 bytes without control characters. -/
structure ValidatedText (kind : TextKind) where
  value : String
  nonempty : value.utf8ByteSize ≠ 0
  bounded : value.utf8ByteSize ≤ maxNameBytes
  printable : value.toList.any isControl = false
  deriving DecidableEq

abbrev JobKind := ValidatedText .jobKind
abbrev QueueName := ValidatedText .queueName

namespace ValidatedText

variable {kind : TextKind}

/-- `try_new`. -/
def tryNew (value : String) : Except IdentifierError (ValidatedText kind) :=
  if hne : value.utf8ByteSize = 0 then .error (.empty kind.label)
  else if hle : value.utf8ByteSize ≤ maxNameBytes then
    if hp : value.toList.any isControl = false then .ok ⟨value, hne, hle, hp⟩
    else .error (.invalidText kind.label)
  else .error (.tooLong kind.label maxNameBytes value.utf8ByteSize)

theorem tryNew_value (t : ValidatedText kind) : tryNew t.value = .ok t := by
  rw [tryNew, dif_neg t.nonempty, dif_pos t.bounded, dif_pos t.printable]

theorem tryNew_eq_ok {value : String} {t : ValidatedText kind} :
    tryNew value = .ok t ↔ value = t.value := by
  constructor
  · intro h
    unfold tryNew at h
    split_ifs at h
    cases h; rfl
  · rintro rfl
    exact tryNew_value t

end ValidatedText

/-! ## Time -/

/-- `Timestamp`: milliseconds since the epoch. -/
structure Timestamp where
  millis : Int64
  deriving DecidableEq

namespace Timestamp

def zero : Timestamp := ⟨0⟩

instance : LE Timestamp := ⟨fun a b => a.millis ≤ b.millis⟩
instance : LT Timestamp := ⟨fun a b => a.millis < b.millis⟩
instance (a b : Timestamp) : Decidable (a ≤ b) := inferInstanceAs (Decidable (a.millis ≤ b.millis))
instance (a b : Timestamp) : Decidable (a < b) := inferInstanceAs (Decidable (a.millis < b.millis))
instance : Ord Timestamp := ⟨compareOn Timestamp.millis⟩

end Timestamp

end AuxCommon
