import AuxCommon.Store.Values

/-!
# The engine's view of its store

`engine.rs`: the configuration of one node, and the requests it makes to its store. A node's
registry, the limits of its adapter and the hash functions are parameters; the byte limits of an
adapter are predicates on what they bound, since values are not bytes here. Random identifiers
(`generate()`) are arguments of the operations that draw them.
-/

namespace AuxCommon

/-- `FairnessPolicy`. -/
inductive FairnessPolicy
  | scoped (weight : NonZero 16)
  | lowVolume
  deriving DecidableEq

/-- `HandlerRegistration`, with what `HandlerDefinition::validate` checks. -/
structure HandlerRegistration where
  queue : QueueName
  effectMode : EffectMode
  costUnits : NonZero 16
  fairnessPolicy : FairnessPolicy
  defaultRetry : RetrySelection
  defaultTimeout : Duration
  cost_le : costUnits.get.toNat ≤ maxCostUnits
  timeout_pos : defaultTimeout.isZero = false
  timeout_lt : defaultTimeout.nanos.toNat < 2 ^ 64

/-- `StoreCapabilities`: the counts, and whether keys and transactions keep to the byte limits. -/
structure StoreCapabilities where
  maxGetManyKeys : NonZero 32
  maxTransactionKeys : NonZero 32
  maxRangeItems : NonZero 32
  maxValueBytes : NonZero 64
  keysFit : List StoreKey → Bool
  transactionFits : List StoreCheck → List StoreMutation → Bool

/-- `JobSystem`: one node. -/
structure JobSystem where
  namespace_ : Namespace
  owner : OwnerId
  registry : JobKind → NonZero 16 → Option HandlerRegistration
  capabilities : StoreCapabilities
  sha256 : Bytes → Digest
  /-- `job_definition_digest`. -/
  definitionDigest : JobDefinition → Digest
  /-- The first eight bytes of the hash in `jitter_duration`. -/
  jitterSample : ExecutionId → NonZero 16 → Timestamp → U64
  isShutdown : Bool

/-- The programs of the engine. -/
abbrev JobProg (α : Type) := Prog CommitOperationId StoreKey StoreValue JobSystemError α

/-- The store of a deployment. -/
abbrev JobWorld := World CommitOperationId StoreKey StoreValue

/-! ## Requests -/

/-- `store().get(key)`. -/
def storeGet (key : StoreKey) : JobProg (Option StoreValue) :=
  .read [key] fun
    | [.ok value] => .ret (.ok value)
    | _ => .ret (.error (.store .failed))

/-- `store().get_many(keys)`. -/
def storeGetMany (keys : List StoreKey) : JobProg (List (Option StoreValue)) :=
  .read keys fun answers => .ret ((answers.mapM id).mapError .store)

/-- `commit_once`. -/
def commitOnce (t : StoreTransaction) : JobProg CommitOutcome :=
  .commit t fun
    | .ok outcome => .ret (.ok outcome)
    | .error e => .ret (.error (.store e))

namespace JobSystem

variable (sys : JobSystem)

/-- `validate_get_many`. -/
def validateGetMany (keys : List StoreKey) : JobResult Unit :=
  if sys.capabilities.maxGetManyKeys.get.toNat < keys.length then
    .error (.storeContract (.capabilityExceeded "get-many keys"))
  else if sys.capabilities.keysFit keys then .ok ()
  else .error (.storeContract (.capabilityExceeded "get-many key bytes"))

/-- `read_many`. -/
def readMany (keys : List StoreKey) : JobProg (List (Option StoreValue)) := do
  sys.validateGetMany keys
  if keys.isEmpty then return [] else storeGetMany keys

/-- `validate_counts`. -/
def validateCounts (checks : List StoreCheck) (mutations : List StoreMutation) :
    Except StoreContractError Unit :=
  if checks.isEmpty ∧ mutations.isEmpty then .error .emptyTransaction
  else if sys.capabilities.maxTransactionKeys.get.toNat < checks.length then
    .error (.capabilityExceeded "transaction checks")
  else if sys.capabilities.maxTransactionKeys.get.toNat < mutations.length then
    .error (.capabilityExceeded "transaction mutations")
  else if ¬ (checks.map Check.key).Nodup then .error (.duplicateTransactionKey "checks")
  else if ¬ (mutations.map Mutation.key).Nodup then .error (.duplicateTransactionKey "mutations")
  else .ok ()

/-- `checked_transaction`. -/
def checkedTransaction (id : CommitOperationId) (checks : List StoreCheck)
    (mutations : List StoreMutation) : JobResult StoreTransaction := do
  (sys.validateCounts checks mutations).mapError .storeContract
  require (checks.length + mutations.length ≤ sys.capabilities.maxTransactionKeys.get.toNat)
    (.storeContract (.capabilityExceeded "transaction keys"))
  require (sys.capabilities.transactionFits checks mutations = true)
    (.storeContract (.capabilityExceeded "transaction bytes"))
  return ⟨id, checks, mutations⟩

/-- A transaction is made of what it was asked for, with one write for each key. -/
theorem checkedTransaction_eq_ok {sys : JobSystem} {id : CommitOperationId}
    {checks : List StoreCheck} {mutations : List StoreMutation} {t : StoreTransaction}
    (h : sys.checkedTransaction id checks mutations = .ok t) :
    t = ⟨id, checks, mutations⟩ ∧ (mutations.map Mutation.key).Nodup := by
  obtain ⟨_, hcounts, h⟩ := Except.bind_eq_ok.mp h
  obtain ⟨_, -, h⟩ := Except.bind_eq_ok.mp h
  obtain ⟨_, -, h⟩ := Except.bind_eq_ok.mp h
  cases h
  refine ⟨rfl, Decidable.of_not_not fun hdup => ?_⟩
  have hcounts := Except.mapError_eq_ok.mp hcounts
  unfold validateCounts at hcounts
  rw [if_pos hdup] at hcounts
  split at hcounts
  · cases hcounts
  · split at hcounts
    · cases hcounts
    · split at hcounts
      · cases hcounts
      · split at hcounts <;> cases hcounts

/-- `validate_persisted_identity`. -/
def validatePersistedIdentity (requested : JobId) (record : JobRecordV1) : JobResult Unit :=
  if record.jobId ≠ requested ∨ record.namespace_ ≠ sys.namespace_ then .error .leaseConflict
  else if record.payload.chunkKeys =
      (List.range record.payload.chunkKeys.length).map
        fun i => .payload record.jobId (BitVec.ofNat 32 i) then .ok ()
  else .error .payloadCorrupt

end JobSystem

namespace Sample

def registration : HandlerRegistration where
  queue := queue
  effectMode := .idempotent
  costUnits := ⟨1, NonZero.one_ne_zero16⟩
  fairnessPolicy := .lowVolume
  defaultRetry := .preset .network
  defaultTimeout := .fromSecs 30
  cost_le := by decide
  timeout_pos := by decide
  timeout_lt := by decide

/-- A store without limits that matter. -/
def capabilities : StoreCapabilities where
  maxGetManyKeys := ⟨4096, by decide⟩
  maxTransactionKeys := ⟨4096, by decide⟩
  maxRangeItems := ⟨4096, by decide⟩
  maxValueBytes := ⟨65536, by decide⟩
  keysFit _ := true
  transactionFits _ _ := true

def system : JobSystem where
  namespace_ := .single 1
  owner := .repeated 1
  registry _ _ := some registration
  capabilities := capabilities
  sha256 _ := Vector.replicate _ 0
  definitionDigest _ := Vector.replicate _ 0
  jitterSample _ _ _ := 0
  isShutdown := false

end Sample

end AuxCommon
