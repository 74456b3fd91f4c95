import AuxCommon.Lib.Partial
import Mathlib.Data.List.Basic

/-!
# The fields of a span or an event

Model of `SpanFields` (`telemetry/src/wide_log/field_security.rs`): the values recorded on a span
or an event, each of which passes the emission mode, the allowlist and the blocklist when it is
recorded (`normalizeValueForKey`), and of `SafeTelemetryValue::record_on` (`safe_value.rs`), which
marks a string as safe for the time of one recording.

The numbers of the floating point are those of a type `F`, of which the layer asks what `Floats`
says. A reading of the clock is named by its number, and a duration is what `F` makes of the names
of two readings: the layer never compares times, so a line with names where the source has times
stands for the lines of every clock.

An empty entry of the blocklist makes `has_sensitive_suffix` read behind the end of the key. Such a
panic is the result `none`; without an empty entry there is none (`Policy.Total`).

`Alike` relates two recordings that may differ in a value that the policy hides, and
`SpanFields.visit_alike` says that they leave the same fields.
-/

namespace AuxCommon.WideLog

/-- What the layer asks of the floating-point numbers. -/
class Floats (F : Type) extends BEq F where
  isFinite : F → Bool
  text : F → String
  zero : F
  /-- The milliseconds between two readings of the clock. -/
  elapsedMs : Nat → Nat → F

inductive FieldEmissionMode where
  | redactSensitive
  | strictAllowlist
  | typedOnly
  deriving DecidableEq

inductive FieldValueSafety where
  | structured
  | freeText
  deriving DecidableEq

/-- The JSON values that are recorded. -/
inductive Value (F : Type) where
  | string (value : String)
  | int (value : Int)
  | float (value : F)
  | bool (value : Bool)
  | array (values : List (Value F))

variable {F : Type}

namespace Value

variable [Floats F]

def beq : Value F → Value F → Bool
  | .string a, .string b => a == b
  | .int a, .int b => a == b
  | .float a, .float b => a == b
  | .bool a, .bool b => a == b
  | .array as, .array bs => beqs as bs
  | _, _ => false
where
  beqs : List (Value F) → List (Value F) → Bool
    | [], [] => true
    | a :: as, b :: bs => beq a b && beqs as bs
    | _, _ => false

instance : BEq (Value F) := ⟨beq⟩

/-- `value_to_string`. -/
def toText : Value F → Option String
  | .string value => some value
  | .int value => some (toString value)
  | .float value => some (Floats.text value)
  | .bool value => some (toString value)
  | .array [] => none
  | .array (value :: _) => value.toText

end Value

/-! ## Sensitive keys -/

def isAsciiUppercase (b : UInt8) : Bool := 65 ≤ b && b ≤ 90

def isAsciiAlphanumeric (b : UInt8) : Bool :=
  48 ≤ b && b ≤ 57 || 65 ≤ b && b ≤ 90 || 97 ≤ b && b ≤ 122

def toAsciiLowercase (b : UInt8) : UInt8 := if isAsciiUppercase b then b + 32 else b

/-- `matches!(byte, b'.' | b'_' | b'-')`. -/
def isSeparator (b : UInt8) : Bool := b == 46 || b == 95 || b == 45

def hasSensitiveSuffix (key suffix : String) : Option Bool :=
  let key := key.toUTF8.data.toList
  let suffix := suffix.toUTF8.data.toList
  if key.length < suffix.length then some false
  else
    let suffixStart := key.length - suffix.length
    if !((key.drop suffixStart).zip suffix).all
        (fun (left, right) => toAsciiLowercase left == toAsciiLowercase right) then some false
    else if suffixStart = 0 then some true
    else if (key[suffixStart - 1]?).any isSeparator then some true
    -- `key[suffix_start]`, which panics if the suffix is empty
    else (key[suffixStart]?).map fun first =>
      isAsciiUppercase first && (key[suffixStart - 1]?).any isAsciiAlphanumeric

/-! ## Inserting -/

/-- What `SpanFields` carries beside the values. -/
structure Policy where
  mode : FieldEmissionMode
  fieldAllowlist : List String
  sensitiveFieldBlocklist : List String

/-- The policy of `SpanFields::default`. -/
def Policy.default : Policy := ⟨.redactSensitive, [], []⟩

variable (policy : Policy)

namespace Policy

def shouldEmitKey (key : String) : Bool :=
  match policy.mode with
  | .redactSensitive => true
  | .strictAllowlist | .typedOnly => policy.fieldAllowlist.any (· == key)

def isSensitiveKey (key : String) : Option Bool :=
  policy.sensitiveFieldBlocklist.anyM (hasSensitiveSuffix key)

def normalizeValueForKey (key : String) (value : Value F) (safety : FieldValueSafety) :
    Option (Option (Value F)) :=
  if !policy.shouldEmitKey key then some none
  else if policy.mode = .typedOnly ∧ safety = .freeText then some none
  else (policy.isSensitiveKey key).map fun sensitive =>
    some (if sensitive then .string "[REDACTED]" else value)

end Policy

structure SpanFields (F : Type) where
  policy : Policy
  values : List (String × Value F)

variable (fields : SpanFields F)

namespace SpanFields

def new : SpanFields F := ⟨policy, []⟩

variable [Floats F]

/-- The existing value of a key after a further one is inserted. -/
def merge (existing value : Value F) : Value F :=
  if existing == value then existing
  else
    match existing with
    | .array arr => if arr.contains value then existing else .array (arr ++ [value])
    | other => .array [other, value]

def insertNormalized (key : String) (value : Value F) :
    List (String × Value F) → List (String × Value F)
  | [] => [(key, value)]
  | (existingKey, existing) :: rest =>
    if existingKey = key then (existingKey, merge existing value) :: rest
    else (existingKey, existing) :: insertNormalized key value rest

/-- `insert_str`, `insert_safe_str` and `insert_value`, which differ in how safe the value is. -/
def insert (key : String) (value : Value F) (safety : FieldValueSafety) : Option (SpanFields F) :=
  (fields.policy.normalizeValueForKey key value safety).map fun
    | none => fields
    | some value => { fields with values := insertNormalized key value fields.values }

def insertStr (key value : String) : Option (SpanFields F) :=
  fields.insert key (.string value) .freeText

def insertSafeStr (key value : String) : Option (SpanFields F) :=
  fields.insert key (.string value) .structured

def insertValue (key : String) (value : Value F) : Option (SpanFields F) :=
  fields.insert key value .structured

/-- An insertion that is left out for some keys. -/
def insertUnless (skip : Bool) (fields : SpanFields F) (key : String) (value : Value F)
    (safety : FieldValueSafety) : Option (SpanFields F) :=
  if skip then some fields else fields.insert key value safety

omit [Floats F] in
def isEmpty (fields : SpanFields F) : Bool := fields.values.isEmpty

omit [Floats F] in
def containsKey (key : String) : Bool :=
  fields.values.any fun (existingKey, _) => existingKey == key

omit [Floats F] in
def get (key : String) : Option (Value F) :=
  fields.values.findSome? fun (existingKey, value) => if existingKey == key then some value else none

def valueAsString (key : String) : Option String :=
  (fields.get key).bind Value.toText

/-! ## Merging the fields of a child -/

def extendArrayUnique (arr : List (Value F)) : Value F → List (Value F)
  | .array incoming => incoming.foldl (fun arr item => if arr.contains item then arr else arr ++ [item]) arr
  | item => if arr.contains item then arr else arr ++ [item]

/-- The existing value of a key after the one of another set of fields is merged into it. -/
def absorb (existing value : Value F) : Value F :=
  match existing with
  | .array arr => .array (extendArrayUnique arr value)
  | other => if other == value then other else .array (extendArrayUnique [other] value)

def extendOne (key : String) (value : Value F) : List (String × Value F) → List (String × Value F)
  | [] => [(key, value)]
  | (existingKey, existing) :: rest =>
    if existingKey = key then (existingKey, absorb existing value) :: rest
    else (existingKey, existing) :: extendOne key value rest

def extend (fields other : SpanFields F) : SpanFields F :=
  { fields with
    values := other.values.foldl (fun values (key, value) => extendOne key value values) fields.values }

def selectKeys (keys : List String) : Option (SpanFields F) :=
  keys.foldlM
    (fun selected key =>
      match fields.get key with
      | some value => selected.insertValue key value
      | none => some selected)
    (.new fields.policy)

def extendAllowlist (fields other : SpanFields F) (allowlist : List String) :
    Option (SpanFields F) :=
  if allowlist.isEmpty then some fields
  else (other.selectKeys allowlist).map fun filtered =>
    if filtered.isEmpty then fields else fields.extend filtered

end SpanFields

/-! ## Recording -/

/-- One value handed to the visitor, by the method that gets it. The integers of 128 bits have no
method of their own and arrive as their debug text. -/
inductive Recorded (F : Type) where
  | bool (value : Bool)
  | i64 (value : Int)
  | u64 (value : Nat)
  | i128 (value : Int)
  | u128 (value : Nat)
  | f64 (value : F)
  | str (value : String)
  | error (text : String)
  | debug (text : String)

/-- A string that `record_on` is recording. -/
structure SafeRecording where
  field : String
  value : String
  deriving DecidableEq

variable (recordings : List SafeRecording)

/-- `is_safe_recording`, by the stack of the recordings under way on the thread. -/
def isSafeRecording (field value : String) : Bool :=
  recordings.getLast?.any fun recording => recording.field == field && recording.value == value

namespace SpanFields

variable [Floats F]

/-- The methods of `Visit`. -/
def visit (fields : SpanFields F) (field : String) : Recorded F → Option (SpanFields F)
  | .bool value => fields.insertValue field (.bool value)
  | .i64 value => fields.insertValue field (.int value)
  | .u64 value => fields.insertValue field (.int value)
  | .i128 value => fields.insertStr field (toString value)
  | .u128 value => fields.insertStr field (toString value)
  | .f64 value =>
    if Floats.isFinite value then fields.insertValue field (.float value)
    else fields.insertStr field (Floats.text value)
  | .str value =>
    if isSafeRecording recordings field value then fields.insertSafeStr field value
    else fields.insertStr field value
  | .error text => fields.insertStr field text
  | .debug text => fields.insertStr field text

/-- The values of one recording, in order, when no string is marked as safe. -/
def visitAll (values : List (String × Recorded F)) : Option (SpanFields F) :=
  values.foldlM (fun fields (field, value) => fields.visit [] field value) fields

/-- `record_on`: the string is marked as safe while it is recorded. -/
def visitSafe (field value : String) : Option (SpanFields F) :=
  fields.visit [⟨field, value⟩] field (.str value)

end SpanFields

/-! ## What a recording shows -/

/-- Two strings, two integers or two booleans, of one type. -/
def Recorded.SameType : Recorded F → Recorded F → Prop
  | .bool _, .bool _ | .i64 _, .i64 _ | .u64 _, .u64 _ | .i128 _, .i128 _ | .u128 _, .u128 _
  | .str _, .str _ | .error _, .error _ | .debug _, .debug _ => True
  | _, _ => False

/-- A value that arrives as a string. -/
def Recorded.IsText : Recorded F → Prop
  | .str _ | .error _ | .debug _ => True
  | _ => False

/-- Two recordings under one key that differ at most in a value that the policy hides: any value
under a key that is not emitted, values of a type under a sensitive key (in the two modes that do
not ask for the type, of any type), and strings where only typed values are emitted. A key for which
the test of the blocklist panics is like a sensitive one. -/
inductive Alike (policy : Policy) : String × Recorded F → String × Recorded F → Prop
  | same (recording : String × Recorded F) : Alike policy recording recording
  | unlisted {key : String} {value value' : Recorded F} (h : policy.shouldEmitKey key = false) :
      Alike policy (key, value) (key, value')
  | sensitive {key : String} {value value' : Recorded F} (h : policy.isSensitiveKey key ≠ some false)
      (ht : policy.mode = .typedOnly → value.SameType value') : Alike policy (key, value) (key, value')
  | text {key : String} {value value' : Recorded F} (h : policy.mode = .typedOnly)
      (hv : value.IsText) (hv' : value'.IsText) : Alike policy (key, value) (key, value')

/-- A string recorded through `record_on` under a key that is not emitted or is sensitive. -/
def Policy.Hides (key : String) : Prop :=
  policy.shouldEmitKey key = false ∨ policy.isSensitiveKey key ≠ some false

/-- No entry of the blocklist is empty. -/
def Policy.Total : Prop := "" ∉ policy.sensitiveFieldBlocklist

theorem length_utf8_pos {text : String} (h : text ≠ "") : 0 < text.toUTF8.data.toList.length := by
  have hsize : text.toUTF8.data.toList.length = text.utf8ByteSize := Array.length_toList
  rw [hsize]
  exact Nat.pos_of_ne_zero fun hzero => h (String.utf8ByteSize_eq_zero_iff.mp hzero)

theorem hasSensitiveSuffix_isSome (key : String) {suffix : String} (h : suffix ≠ "") :
    (hasSensitiveSuffix key suffix).isSome = true := by
  have hpos := length_utf8_pos h
  unfold hasSensitiveSuffix
  dsimp only
  split
  · rfl
  · split
    · rfl
    · split
      · rfl
      · split
        · rfl
        · rw [Option.isSome_map, List.getElem?_eq_getElem (by omega)]
          rfl

namespace Policy

variable {policy : Policy}

theorem Total.isSensitiveKey (h : policy.Total) (key : String) :
    (policy.isSensitiveKey key).isSome = true := by
  unfold Total at h
  unfold Policy.isSensitiveKey
  generalize policy.sensitiveFieldBlocklist = blocklist at h ⊢
  induction blocklist with
  | nil => rfl
  | cons suffix rest ih =>
    obtain ⟨b, hb⟩ := Option.isSome_iff_exists.mp
      (hasSensitiveSuffix_isSome key fun hempty => h (hempty ▸ List.mem_cons_self))
    rw [List.anyM, hb]
    cases b with
    | true => rfl
    | false => exact ih fun hmem => h (List.mem_cons_of_mem _ hmem)

/-- Under a sensitive key what is inserted does not depend on the value. -/
theorem normalizeValueForKey_sensitive {key : String} (h : policy.isSensitiveKey key ≠ some false)
    (value value' : Value F) (safety : FieldValueSafety) :
    policy.normalizeValueForKey key value safety =
      policy.normalizeValueForKey key value' safety := by
  unfold normalizeValueForKey
  cases hkey : policy.isSensitiveKey key with
  | none => rfl
  | some sensitive =>
    cases sensitive with
    | true => rfl
    | false => exact absurd hkey h

end Policy

namespace SpanFields

/-- The policy does not change while values are inserted, and if it has no empty entry, nothing
panics. -/
abbrev Keeps (policy : Policy) : Option (SpanFields F) → Prop :=
  Yields (·.policy = policy) policy.Total

variable [Floats F] {fields other : SpanFields F} {key : String} {policy : Policy}

section Keeps

variable (hp : fields.policy = policy)

include hp

theorem insert_keeps (key : String) (value : Value F) (safety : FieldValueSafety) :
    Keeps policy (fields.insert key value safety) := by
  refine Yields.map (P := fun _ => True) ⟨fun _ _ => trivial, fun h => ?_⟩ fun inserted _ => ?_
  · unfold Policy.normalizeValueForKey
    split
    · rfl
    · split
      · rfl
      · rw [Option.isSome_map, hp]
        exact h.isSensitiveKey key
  · cases inserted <;> exact hp

theorem insertUnless_keeps (skip : Bool) (key : String) (value : Value F)
    (safety : FieldValueSafety) : Keeps policy (fields.insertUnless skip key value safety) := by
  cases skip with
  | true => exact .some hp
  | false => exact insert_keeps hp key value safety

omit hp in
/-- Every recording is one insertion. -/
theorem visit_eq_insert (fields : SpanFields F) (key : String) (recordings : List SafeRecording)
    (value : Recorded F) :
    ∃ inserted safety, fields.visit recordings key value = fields.insert key inserted safety := by
  cases value <;> simp only [visit, insertValue, insertStr, insertSafeStr] <;> (try split) <;>
    exact ⟨_, _, rfl⟩

theorem visit_keeps (recordings : List SafeRecording) (key : String) (value : Recorded F) :
    Keeps policy (fields.visit recordings key value) := by
  obtain ⟨inserted, safety, hv⟩ := visit_eq_insert fields key recordings value
  exact hv ▸ insert_keeps hp key inserted safety

theorem visitAll_keeps (values : List (String × Recorded F)) :
    Keeps policy (fields.visitAll values) :=
  Yields.foldlM (P := fun f : SpanFields F => f.policy = policy)
    (fun _ recording h => visit_keeps h [] recording.1 recording.2) hp values

theorem extendAllowlist_keeps (ho : other.policy = policy) (allowlist : List String) :
    Keeps policy (fields.extendAllowlist other allowlist) := by
  have hselect : Keeps policy (other.selectKeys allowlist) := by
    refine Yields.foldlM (P := fun f : SpanFields F => f.policy = policy) (a := .new other.policy)
      (fun selected key h => ?_) ho allowlist
    split
    · exact insert_keeps h key _ .structured
    · exact .some h
  unfold extendAllowlist
  split
  · exact .some hp
  · refine hselect.map fun filtered _ => ?_
    split <;> exact hp

end Keeps

/-! ## Hidden values -/

theorem insert_unlisted (h : fields.policy.shouldEmitKey key = false) (value : Value F)
    (safety : FieldValueSafety) : fields.insert key value safety = some fields := by
  simp [insert, Policy.normalizeValueForKey, h]

/-- Free text is dropped where only typed values are emitted. -/
theorem insertStr_typedOnly (h : fields.policy.mode = .typedOnly) (value : String) :
    fields.insertStr key value = some fields := by
  simp [insertStr, insert, Policy.normalizeValueForKey, h]

/-- Under a sensitive key an insertion does not depend on the value. -/
theorem insert_sensitive (h : fields.policy.isSensitiveKey key ≠ some false) (value value' : Value F)
    (safety : FieldValueSafety) :
    fields.insert key value safety = fields.insert key value' safety := by
  rw [insert, Policy.normalizeValueForKey_sensitive h value value']
  rfl

/-- Nor on its safety, in the modes that do not ask for the type. -/
theorem insert_sensitive_untyped (h : fields.policy.isSensitiveKey key ≠ some false)
    (ht : fields.policy.mode ≠ .typedOnly) (value value' : Value F)
    (safety safety' : FieldValueSafety) :
    fields.insert key value safety = fields.insert key value' safety' := by
  rw [insert_sensitive h value value']
  simp [insert, Policy.normalizeValueForKey, ht]

theorem visit_unlisted (h : fields.policy.shouldEmitKey key = false)
    (recordings : List SafeRecording) (value : Recorded F) :
    fields.visit recordings key value = some fields := by
  obtain ⟨inserted, safety, hv⟩ := visit_eq_insert fields key recordings value
  rw [hv, insert_unlisted h]

theorem visit_sensitive_untyped (h : fields.policy.isSensitiveKey key ≠ some false)
    (ht : fields.policy.mode ≠ .typedOnly) (value value' : Recorded F) :
    fields.visit [] key value = fields.visit [] key value' := by
  obtain ⟨inserted, safety, hv⟩ := visit_eq_insert fields key [] value
  obtain ⟨inserted', safety', hv'⟩ := visit_eq_insert fields key [] value'
  rw [hv, hv', insert_sensitive_untyped h ht]

/-- Two values of one type are inserted with one safety. -/
theorem visit_sensitive_sameType (h : fields.policy.isSensitiveKey key ≠ some false)
    {value value' : Recorded F} (ht : value.SameType value') :
    fields.visit [] key value = fields.visit [] key value' := by
  cases value <;> cases value' <;> first
    | exact ht.elim
    | exact insert_sensitive h _ _ _

theorem visit_text_typedOnly (h : fields.policy.mode = .typedOnly) {value : Recorded F}
    (hv : value.IsText) : fields.visit [] key value = some fields := by
  cases value <;> first
    | exact hv.elim
    | exact insertStr_typedOnly h _

/-- Recordings that differ only in what the policy hides leave the same fields. -/
theorem visit_alike {recording recording' : String × Recorded F}
    (h : Alike fields.policy recording recording') :
    fields.visit [] recording.1 recording.2 = fields.visit [] recording'.1 recording'.2 := by
  cases h with
  | same => rfl
  | unlisted h => rw [visit_unlisted h, visit_unlisted h]
  | sensitive h ht =>
    by_cases hm : fields.policy.mode = .typedOnly
    · exact visit_sensitive_sameType h (ht hm)
    · exact visit_sensitive_untyped h hm _ _
  | text h hv hv' => rw [visit_text_typedOnly h hv, visit_text_typedOnly h hv']

theorem visitAll_alike {policy : Policy} (hp : fields.policy = policy)
    {values values' : List (String × Recorded F)} (h : List.Forall₂ (Alike policy) values values') :
    fields.visitAll values = fields.visitAll values' := by
  induction h generalizing fields with
  | nil => rfl
  | @cons recording recording' rest rest' hr _ ih =>
    subst hp
    rw [visitAll, visitAll, List.foldlM_cons, List.foldlM_cons]
    dsimp only
    rw [visit_alike hr]
    cases hmid : fields.visit [] recording'.1 recording'.2 with
    | none => rfl
    | some mid => exact ih ((visit_keeps rfl ..).value mid hmid)

theorem visitSafe_hidden (h : fields.policy.Hides key) (value value' : String) :
    fields.visitSafe key value = fields.visitSafe key value' := by
  rcases h with h | h
  · rw [visitSafe, visitSafe, visit_unlisted h, visit_unlisted h]
  · simpa [visitSafe, visit, isSafeRecording, insertSafeStr] using insert_sensitive h _ _ _

end SpanFields

end AuxCommon.WideLog
