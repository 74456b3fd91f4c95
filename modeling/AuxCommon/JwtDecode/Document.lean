import AuxCommon.Lib.Bytes
import AuxCommon.Lib.Machine
import AuxCommon.Lib.Result

/-!
# Documents without duplicate members

`jwt-decode/src/json/document.rs`: two visitors read a JSON document. One only looks for an object
that has a name twice, the other builds the value as well.

- **The parser** is not part of the repository. `Answer` is what it hands to a visitor that reads
  everything: a scalar, a sequence or a map, whose entries come one at a time, and at any point the
  parser may report an error instead (bad syntax, a number out of range, too many levels). Names and
  texts arrive decoded.
- **The names seen so far** (`SeenNames`). Sixteen are kept in an array and the others in a set.
- **Both checks** accept a document when the parser gets to its end and no object has a name twice
  (`duplicate_checks_agree`), at any depth and for any number of members.
-/

namespace AuxCommon.JwtDecode

/-! ## What the parser hands over -/

/-- An `f64` by its bits: `is_finite` looks at the exponent. -/
def isFinite (bits : U64) : Bool := bits.extractLsb' 52 11 != BitVec.allOnes 11

mutual

/-- The answer to one `deserialize_any`. A number that does not fit a float is an error of the
parser, so that a float it hands over is finite. -/
inductive Answer
  | fail
  | null
  | bool (value : Bool)
  | i64 (value : Int64)
  | u64 (value : U64)
  | f64 (bits : U64) (finite : isFinite bits = true)
  | str (value : String)
  | seq (elements : Elements)
  | map (members : Members)

/-- The answers to `next_element_seed`. -/
inductive Elements
  | fail
  | finish
  | next (value : Answer) (rest : Elements)

/-- The answers to `next_key` and `next_value_seed`. -/
inductive Members
  | fail
  | finish
  | next (name : String) (value : Answer) (rest : Members)

end

/-- The answers for one byte string, and that of `Deserializer::end`. -/
structure Document where
  root : Answer
  atEnd : Bool

mutual

/-- The parser reports no error: what it has read is one JSON value. -/
def Answer.Complete : Answer → Prop
  | .fail => False
  | .seq elements => elements.Complete
  | .map members => members.Complete
  | _ => True

def Elements.Complete : Elements → Prop
  | .fail => False
  | .finish => True
  | .next value rest => value.Complete ∧ rest.Complete

def Members.Complete : Members → Prop
  | .fail => False
  | .finish => True
  | .next _ value rest => value.Complete ∧ rest.Complete

end

/-- The names of one object, in their order. -/
def Members.names : Members → List String
  | .next name _ rest => name :: rest.names
  | _ => []

mutual

/-- The names of each object, at every depth. -/
def Answer.objects : Answer → List (List String)
  | .seq elements => elements.objects
  | .map members => members.names :: members.objects
  | _ => []

def Elements.objects : Elements → List (List String)
  | .next value rest => value.objects ++ rest.objects
  | _ => []

def Members.objects : Members → List (List String)
  | .next _ value rest => value.objects ++ rest.objects
  | _ => []

end

/-- No object has a name twice. -/
def Answer.Unique (answer : Answer) : Prop := ∀ names ∈ answer.objects, names.Nodup

/-- The bytes are one JSON value. -/
def Document.Complete (document : Document) : Prop :=
  document.root.Complete ∧ document.atEnd = true

/-! ## The names of one object -/

/-- `inline_names`, `inline_len` and `overflow_names`. -/
structure SeenNames where
  inlineNames : Vector (Option String) 16 := .replicate 16 none
  inlineLen : Nat := 0
  overflowNames : List String := []
  bound : inlineLen ≤ 16 := by decide

open List

namespace SeenNames

def contains (seen : SeenNames) (name : String) : Bool :=
  ((seen.inlineNames.toList.take seen.inlineLen).filterMap id).any (· == name) ||
    seen.overflowNames.contains name

def record (seen : SeenNames) (name : String) : SeenNames :=
  if h : seen.inlineLen < 16 then
    { seen with
      inlineNames := seen.inlineNames.set seen.inlineLen (some name)
      inlineLen := seen.inlineLen + 1
      bound := h }
  else { seen with overflowNames := seen.overflowNames.insert name }

theorem contains_empty (name : String) : ({} : SeenNames).contains name = false := rfl

/-- Array and set together are the set of the names seen. -/
theorem contains_record (seen : SeenNames) (name x : String) :
    (seen.record name).contains x = (x == name || seen.contains x) := by
  unfold record
  split
  next h =>
    have hlen : seen.inlineLen < seen.inlineNames.toList.length := by simpa using h
    have htake : (seen.inlineNames.toList.set seen.inlineLen (some name)).take
        (seen.inlineLen + 1) = seen.inlineNames.toList.take seen.inlineLen ++ [some name] := by
      rw [take_succ_eq_append_getElem (by simpa using hlen), getElem_set_self,
        take_set_of_le (le_refl _)]
    simp only [contains, Vector.toList_set, htake, filterMap_append, any_append]
    grind
  next => grind [contains]

end SeenNames

/-! ## The first visitor -/

/-- An error of the parser, or `Error::custom` of a visitor. -/
inductive DocumentError
  | parser
  | custom (message : String)
  deriving DecidableEq

def duplicateMember : DocumentError := .custom "duplicate JSON member"

namespace DuplicateRejectingVisitor

mutual

/-- `deserialize_any(DuplicateRejectingVisitor)`. -/
def visit : Answer → Except DocumentError Unit
  | .fail => .error .parser
  | .seq elements => visitSeq elements
  | .map members => visitMap {} members
  | _ => .ok ()

def visitSeq : Elements → Except DocumentError Unit
  | .fail => .error .parser
  | .finish => .ok ()
  | .next value rest => do
    visit value
    visitSeq rest

def visitMap (seen : SeenNames) : Members → Except DocumentError Unit
  | .fail => .error .parser
  | .finish => .ok ()
  | .next name value rest => do
    if seen.contains name then throw duplicateMember
    visit value
    visitMap (seen.record name) rest

end

end DuplicateRejectingVisitor

/-! ## The second visitor -/

/-- `serde_json::Number`. -/
inductive Number
  | posInt (value : U64)
  | negInt (value : Int64)
  | float (bits : U64)
  deriving DecidableEq

namespace Number

/-- `From<i64>`. -/
def fromI64 (value : Int64) : Number :=
  if value < 0 then .negInt value else .posInt value.toBitVec

/-- `from_f64`. -/
def fromF64 (bits : U64) : Option Number := if isFinite bits then some (.float bits) else none

end Number

/-- `serde_json::Value`. The order of an object's members depends on a feature of the crate. -/
inductive Value
  | null
  | bool (value : Bool)
  | number (value : Number)
  | string (value : String)
  | array (values : List Value)
  | object (members : List (String × Value))

variable (members : List (String × Value))

/-- `Map::contains_key`. -/
def containsKey (name : String) : Bool :=
  members.any (·.1 == name)

/-- `Map::insert`. -/
def insertMember (name : String) (value : Value) : List (String × Value) :=
  members.filter (·.1 != name) ++ [(name, value)]

theorem containsKey_insertMember (name : String) (value : Value)
    (x : String) : containsKey (insertMember members name value) x =
      (x == name || containsKey members x) := by
  rw [Bool.eq_iff_iff]
  by_cases hx : x = name
  · simp [containsKey, insertMember, hx]
  · have hkeep : ∀ y : String, ¬y = name ∧ y = x ↔ y = x :=
      fun y => ⟨And.right, fun h => ⟨h ▸ hx, h⟩⟩
    simp [containsKey, insertMember, hx, Ne.symm hx, hkeep]

namespace DuplicateRejectingValueVisitor

mutual

/-- `deserialize_any(DuplicateRejectingValueVisitor)`. -/
def visit : Answer → Except DocumentError Value
  | .fail => .error .parser
  | .null => .ok .null
  | .bool value => .ok (.bool value)
  | .i64 value => .ok (.number (.fromI64 value))
  | .u64 value => .ok (.number (.posInt value))
  | .f64 bits _ => ((Number.fromF64 bits).map .number).elim (.error (.custom "invalid number")) .ok
  | .str value => .ok (.string value)
  | .seq elements => return .array (← visitSeq [] elements)
  | .map members => return .object (← visitMap [] members)

def visitSeq (values : List Value) : Elements → Except DocumentError (List Value)
  | .fail => .error .parser
  | .finish => .ok values
  | .next value rest => do
    visitSeq (values ++ [← visit value]) rest

def visitMap (result : List (String × Value)) :
    Members → Except DocumentError (List (String × Value))
  | .fail => .error .parser
  | .finish => .ok result
  | .next name value rest => do
    if containsKey result name then throw duplicateMember
    visitMap (insertMember result name (← visit value)) rest

end

end DuplicateRejectingValueVisitor

/-! ## The two checks -/

section Checks

variable (parse : Bytes → Document)

/-- `reject_duplicate_members`. -/
def rejectDuplicateMembers (bytes : Bytes) : Except Unit Unit := do
  (DuplicateRejectingVisitor.visit (parse bytes).root).mapError fun _ => ()
  if (parse bytes).atEnd then return else throw ()

/-- `value_rejecting_duplicate_members`. -/
def valueRejectingDuplicateMembers (bytes : Bytes) : Except Unit Value := do
  let value ← (DuplicateRejectingValueVisitor.visit (parse bytes).root).mapError fun _ => ()
  if (parse bytes).atEnd then return value else throw ()

end Checks

/-! ## The visitors agree -/

open DuplicateRejectingValueVisitor in
/-- The second visitor ends as the first one does, with the same error: the map that it builds has
the names that the first one has seen. -/
theorem map_visit_eq (answer : Answer) : (visit answer).map (fun _ => ()) =
      DuplicateRejectingVisitor.visit answer := by
  refine @Answer.rec (fun answer => (visit answer).map (fun _ => ()) =
      DuplicateRejectingVisitor.visit answer)
    (fun elements => ∀ values, (visitSeq values elements).map (fun _ => ()) =
        DuplicateRejectingVisitor.visitSeq elements)
    (fun members => ∀ result seen, (∀ x, containsKey result x = seen.contains x) →
      (visitMap result members).map (fun _ => ()) = DuplicateRejectingVisitor.visitMap seen members)
    rfl rfl (fun _ => rfl) (fun _ => rfl) (fun _ => rfl) ?_ (fun _ => rfl) ?_ ?_
    (fun _ => rfl) (fun _ => rfl) ?_ (fun _ _ _ => rfl) (fun _ _ _ => rfl) ?_ answer
  · intro bits hfinite
    simp only [visit, Number.fromF64, hfinite, if_true]
    rfl
  · intro elements ih
    simp only [visit, DuplicateRejectingVisitor.visit]
    rw [← ih []]
    cases visitSeq [] elements <;> rfl
  · intro members ih
    simp only [visit, DuplicateRejectingVisitor.visit]
    rw [← ih [] {} fun x => (SeenNames.contains_empty x).symm]
    cases visitMap [] members <;> rfl
  · intro value rest ihvalue ihrest values
    simp only [visitSeq, DuplicateRejectingVisitor.visitSeq]
    rw [← ihvalue]
    cases visit value with
    | error e => rfl
    | ok v => exact ihrest _
  · intro name value rest ihvalue ihrest result seen hseen
    simp only [visitMap, DuplicateRejectingVisitor.visitMap]
    rw [← ihvalue, hseen]
    cases seen.contains name with
    | true => rfl
    | false =>
      cases visit value with
      | error e => rfl
      | ok v =>
        refine ihrest _ _ fun x => ?_
        rw [containsKey_insertMember, SeenNames.contains_record, hseen]

open DuplicateRejectingVisitor in
/-- The first visitor accepts what is complete and has no name twice in an object. -/
theorem visit_eq_ok (answer : Answer) :
    visit answer = .ok () ↔ answer.Complete ∧ answer.Unique := by
  refine @Answer.rec (fun answer => visit answer = .ok () ↔ answer.Complete ∧ answer.Unique)
    (fun elements => visitSeq elements = .ok () ↔
      elements.Complete ∧ ∀ names ∈ elements.objects, names.Nodup)
    (fun members => ∀ seen, visitMap seen members = .ok () ↔
      members.Complete ∧ (∀ names ∈ members.objects, names.Nodup) ∧ members.names.Nodup ∧
        ∀ x ∈ members.names, seen.contains x = false)
    ?_ ?_ ?_ ?_ ?_ ?_ ?_ ?_ ?_ ?_ ?_ ?_ ?_ ?_ ?_ answer
  case refine_8 =>
    intro elements ih
    simp only [visit, Answer.Complete, Answer.Unique, Answer.objects]
    exact ih
  case refine_9 =>
    intro members ih
    simp only [visit, Answer.Complete, Answer.Unique, Answer.objects, forall_mem_cons]
    rw [ih, and_congr_right_iff]
    simp [SeenNames.contains_empty, and_comm]
  case refine_12 =>
    intro value rest ihvalue ihrest
    simp only [visitSeq, Elements.Complete, Elements.objects, forall_mem_append]
    rw [Except.bind_eq_ok]
    unfold Answer.Unique at ihvalue
    grind
  case refine_15 =>
    intro name value rest ihvalue ihrest seen
    simp only [visitMap, Members.Complete, Members.objects, Members.names,
      forall_mem_append, forall_mem_cons, nodup_cons]
    unfold Answer.Unique at ihvalue
    cases hname : seen.contains name with
    | true => simp [throw, throwThe, MonadExceptOf.throw, bind, Except.bind]
    | false =>
      -- a name of the rest is neither this one nor one that was seen before it
      have hrest : (∀ x ∈ rest.names, (seen.record name).contains x = false) ↔
          name ∉ rest.names ∧ ∀ x ∈ rest.names, seen.contains x = false := by
        simp only [SeenNames.contains_record]
        grind
      have hstep := ihrest (seen.record name)
      rw [hrest] at hstep
      simp only [Bool.false_eq_true, if_false]
      rw [Except.bind_eq_ok]
      grind
  all_goals simp [visit, visitSeq, visitMap, Answer.Complete, Answer.Unique, Answer.objects,
      Elements.Complete, Elements.objects, Members.Complete, Members.objects, Members.names]

/-- Both checks accept the same documents: those that are one JSON value in which no object has a
name twice. -/
theorem duplicate_checks_agree (parse : Bytes → Document) (bytes : Bytes) :
    ((rejectDuplicateMembers parse bytes).isOk =
      (valueRejectingDuplicateMembers parse bytes).isOk) ∧
    (rejectDuplicateMembers parse bytes = .ok () ↔
      (parse bytes).Complete ∧ (parse bytes).root.Unique) := by
  unfold rejectDuplicateMembers valueRejectingDuplicateMembers Document.Complete
  constructor
  · rw [← map_visit_eq]
    cases DuplicateRejectingValueVisitor.visit (parse bytes).root with
    | error e => rfl
    | ok value => cases (parse bytes).atEnd <;> rfl
  · rw [and_right_comm, ← visit_eq_ok]
    cases DuplicateRejectingVisitor.visit (parse bytes).root with
    | error e => simp [Except.mapError, bind, Except.bind]
    | ok value => cases (parse bytes).atEnd <;> simp [Except.mapError, bind, Except.bind, pure,
        Except.pure, throw, throwThe, MonadExceptOf.throw]

end AuxCommon.JwtDecode
