import AuxCommon.Job.Record

/-!
# Values of the job store

The values that the functions of `keys/keyspace.rs` and `codec/value/` write, one constructor for
each value tag, and the decoders with their errors. A value that a decoder does not expect is
refused with the error of the source.
-/

namespace AuxCommon

/-- The body of a permit value: the lease that owns the permit. -/
structure PermitValue where
  jobId : JobId
  generation : U32
  owner : OwnerId
  token : LeaseToken
  fence : U64
  deriving DecidableEq

/-- The values under an operation key: the marker of the live operation, the watermark that a new
enqueue leaves, and the receipt of a completion. -/
inductive OperationValue
  | marker (jobId : JobId) (operation : OperationId) (fenceHighWater : U64)
  | watermark (jobId : JobId) (fenceHighWater : U64)
  | receipt (receipt : OperationReceipt)
  deriving DecidableEq

/-- The job of a value. -/
def OperationValue.jobId : OperationValue → JobId
  | .marker id _ _ => id
  | .watermark id _ => id
  | .receipt r => r.jobId

/-- The fence of a value. -/
def OperationValue.fence : OperationValue → U64
  | .marker _ _ fence => fence
  | .watermark _ fence => fence
  | .receipt r => r.fence.get

/-- The values of the store. -/
inductive StoreValue
  | job (encoded : EncodedJob)
  | payloadChunk (body : Bytes)
  | due (time : Timestamp)
  | wake (time : Timestamp)
  | fairReady (jobId : JobId)
  | lease (jobId : JobId)
  | deadLetter (jobId : JobId)
  | dedupe (jobId : JobId) (retainUntil : Timestamp)
  | permit (value : PermitValue)
  | operation (value : OperationValue)
  | cancellation
  deriving DecidableEq

abbrev StoreCheck := Check StoreKey StoreValue
abbrev StoreMutation := Mutation StoreKey StoreValue
abbrev StoreTransaction := Transaction CommitOperationId StoreKey StoreValue
/-- `decode_job_record`, with the bytes it was given. -/
def decodeJobRecord : StoreValue → Except StoreDataError EncodedJob
  | .job e => .ok e
  | _ => .error (.malformed "expected job value")

/-- `decode_timestamp_value` of a wake value. -/
def decodeWakeValue : StoreValue → Except StoreDataError Timestamp
  | .wake t => .ok t
  | _ => .error (.malformed "timestamp index")

/-- `decode_dedupe_value`. -/
def decodeDedupeValue : StoreValue → Except StoreDataError (JobId × Timestamp)
  | .dedupe id t => .ok (id, t)
  | _ => .error (.malformed "dedupe marker")

/-- `decode_operation`. -/
def decodeOperation : StoreValue → Except StoreDataError OperationValue
  | .operation v => .ok v
  | _ => .error (.malformed "operation marker")

/-- `decode_active_operation`. -/
def decodeActiveOperation (v : StoreValue) (expected : JobId) :
    Except StoreDataError (OperationId × U64) := do
  match ← decodeOperation v with
  | .marker id operation fence =>
    if id = expected then .ok (operation, fence) else .error (.malformed "operation job identity")
  | .watermark id _ =>
    if id = expected then .error (.malformed "operation marker")
    else .error (.malformed "operation job identity")
  | .receipt _ => .error (.malformed "operation marker")

/-- `decode_operation_fence_high_water`. -/
def decodeOperationFenceHighWater (v : StoreValue) (expected : JobId) :
    Except StoreDataError U64 := do
  match ← decodeOperation v with
  | .marker id _ fence =>
    if id = expected then .ok fence else .error (.malformed "operation job identity")
  | .watermark id fence =>
    if id = expected then .ok fence else .error (.malformed "operation job identity")
  | .receipt receipt =>
    if receipt.jobId = expected then .ok receipt.fence.get
    else .error (.malformed "operation job identity")

theorem decodeActiveOperation_eq_ok {v : StoreValue} {id : JobId} {operation : OperationId}
    {fence : U64} : decodeActiveOperation v id = .ok (operation, fence) ↔
      v = .operation (.marker id operation fence) := by
  constructor
  · intro h
    obtain ⟨o, ho, hmarker⟩ := Except.bind_eq_ok.mp h
    have hv : v = .operation o := by cases v <;> cases ho; rfl
    rw [hv]
    cases o with
    | marker id' operation' fence' =>
      dsimp only at hmarker
      split at hmarker
      · cases hmarker; subst_vars; rfl
      · cases hmarker
    | watermark id' fence' => dsimp only at hmarker; split at hmarker <;> cases hmarker
    | receipt receipt => cases hmarker
  · rintro rfl
    exact if_pos rfl

theorem decodeOperationFenceHighWater_eq_ok {v : OperationValue} {id : JobId} {fence : U64} :
    decodeOperationFenceHighWater (.operation v) id = .ok fence ↔
      v.jobId = id ∧ v.fence = fence := by
  have hif : ∀ (c : Prop) [Decidable c] (x : U64) (e : StoreDataError),
      (if c then Except.ok x else .error e) = .ok fence ↔ c ∧ x = fence := by
    intro c _ x e
    split <;> simp_all
  cases v with
  | marker jobId _ fence' | watermark jobId fence' => exact hif (jobId = id) fence' _
  | receipt r => exact hif (r.jobId = id) r.fence.get _

end AuxCommon
