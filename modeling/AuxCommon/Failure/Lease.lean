import AuxCommon.Enqueue
import AuxCommon.Lifecycle.Claim
import AuxCommon.Transition.Commit

/-!
# Renewals and checkpoints

`failure/lease.rs`: a worker extends the lease of its claim, or stores a checkpoint with it. Both
change the claim in memory, build a transaction from it and commit; what fails on the way is put
back. A call returns its result and the claim as it leaves it.

- **Ends** (`Renewal`, `Checkpointed`). A call has lost its lease, was refused before the store was
  asked, had nothing to do, or leaves a claim that the store holds (`Stored`).
- **Errors** restore the claim, and revoke its authority once the lease may be lost.
- **The expiry** only moves forward: a lease is made within the deadline of its claim
  (`WithinDeadline`), and a renewal that is cut stays within it.

Events for the observer are left out.
-/

namespace AuxCommon

open Except

/-- `HEARTBEAT_MIN_INTERVAL`, in milliseconds. -/
def heartbeatMinInterval : Int := 100

/-- `ClaimedJob`, with what a renewal reads of it. -/
structure LeasedClaim extends ClaimedJob where
  encoded : EncodedJob
  leaseKey : StoreKey
  permitKeys : List StoreKey
  operationId : OperationId
  fenceHighWater : U64
  cancelled : Bool
  lastHeartbeat : Int64
  executionDeadline : Option Timestamp
  deriving DecidableEq

variable (claim : LeasedClaim)

namespace LeasedClaim

/-- `lose_authority`. -/
def loseAuthority : LeasedClaim :=
  { claim with authorityLost := true, cancelled := true }

/-- `replace_encoded_authority`. -/
def replaceEncodedAuthority (encoded : EncodedJob) (operation : OperationId) : LeasedClaim :=
  { claim with encoded := encoded, operationId := operation }

end LeasedClaim

/-! ## The transaction -/

/-- `permit_value_for_record`. -/
def permitValueForRecord (r : JobRecordV1) : Except StoreDataError StoreValue :=
  match r.state with
  | .leased lease =>
    .ok (.permit ⟨r.jobId, r.generation, lease.owner, lease.token, lease.fence.get⟩)
  | _ => .error (.malformed "permit requires leased record")

/-- `authority_checks`. The permits are checked against the encoded record, not the one in
memory. -/
def authorityChecks : JobResult (List StoreCheck) := do
  let permit ← permitValueForRecord claim.encoded.record
  return [.value (.job claim.record.jobId) (.job claim.encoded),
      .value claim.leaseKey (.lease claim.record.jobId),
      .value (.operation claim.record.jobId)
        (.operation (.marker claim.record.jobId claim.operationId claim.fenceHighWater))] ++
    claim.permitKeys.map (.value · permit)

variable (sys : JobSystem)

/-- `lease_record_transaction`. -/
def leaseRecordTransaction (id : Option CommitOperationId) (claim : LeasedClaim) (r : JobRecordV1)
    (encoded : EncodedJob) (operation : OperationId) : JobResult StoreTransaction := do
  let checks ← authorityChecks claim
  let permit ← permitValueForRecord r
  let lease ← okOr .leaseLost r.state.lease?
  let id ← okOr .entropyUnavailable id
  sys.checkedTransaction id (checks ++ [.absent (.cancellation r.jobId)])
    ([.put (.job r.jobId) (.job encoded),
      .put (.operation r.jobId) (.operation (.marker r.jobId operation lease.fence.get))] ++
    claim.permitKeys.map (.put · permit))

/-- The identities that one call draws, each unless the entropy fails. -/
structure LeaseIds where
  operation : Option OperationId
  commit : Option CommitOperationId
  refresh : Option CommitOperationId
  deriving DecidableEq

/-- `RenewalTransaction` and `CheckpointTransaction`. -/
structure LeaseTransaction where
  operationId : OperationId
  encoded : EncodedJob
  transaction : StoreTransaction

/-- `build_renewal_transaction` and `build_checkpoint_transaction`. -/
def buildLeaseTransaction (ids : LeaseIds) (claim : LeasedClaim) : JobResult LeaseTransaction := do
  -- `fresh_operation`
  let operation ← okOr .entropyUnavailable ids.operation
  let encoded ← encodeJobRecord claim.record
  let transaction ← leaseRecordTransaction sys ids.commit claim claim.record encoded operation
  return ⟨operation, encoded, transaction⟩

/-! ## Renewals -/

/-- `RenewalResult`. -/
inductive RenewalResult
  | renewed (expiresAt : Timestamp)
  | coalesced (expiresAt : Timestamp)
  deriving DecidableEq

/-- `heartbeat_is_coalesced`. -/
def heartbeatIsCoalesced (now : Timestamp) : Bool :=
  claim.lastHeartbeat ≠ Int64.minValue &&
    let elapsed := now.millis.toInt - claim.lastHeartbeat.toInt
    decide (-2 ^ 63 ≤ elapsed ∧ elapsed < 2 ^ 63) && decide (elapsed < heartbeatMinInterval)

/-- `renewal_expiry`. -/
def renewalExpiry (claim : LeasedClaim) (leaseExpiry now : Timestamp) : JobResult Timestamp := do
  let registration ←
    okOr .unregisteredHandler (sys.registry claim.record.kind claim.record.schemaVersion)
  let expiresAt := max (← now.checkedAdd registration.defaultTimeout) leaseExpiry
  return claim.executionDeadline.elim expiresAt (min expiresAt)

/-- `RenewalState`. -/
structure RenewalState where
  previousState : JobState
  previousRevision : U64

namespace RenewalState

def replace (state : JobState) : RenewalState × LeasedClaim :=
  (⟨claim.record.state, claim.record.revision⟩,
    { claim with record := { claim.record with state := state } })

def restore (previous : RenewalState) (claim : LeasedClaim) : LeasedClaim :=
  { claim with record := { claim.record with
    state := previous.previousState
    revision := previous.previousRevision } }

end RenewalState

/-- `prepare_renewal_record`. -/
def prepareRenewalRecord (lease : Lease) (expiresAt : Timestamp) :
    JobResult RenewalState × LeasedClaim :=
  match Lease.tryNew lease.owner lease.token lease.fence expiresAt with
  | .error e => (.error (.validation e), claim)
  | .ok next =>
    let (previous, claim) := RenewalState.replace claim (.leased next)
    match nextRevision claim.record with
    | .error e => (.error e, previous.restore claim)
    | .ok revision =>
      (.ok previous, { claim with record := { claim.record with revision := revision } })

/-- `complete_renewal`. -/
def completeRenewal (now : Timestamp) (prepared : LeaseTransaction) : LeasedClaim :=
  { claim.replaceEncodedAuthority prepared.encoded prepared.operationId with
    lastHeartbeat := now.millis }

/-- `renew`. -/
def renew (ids : LeaseIds) (claim : LeasedClaim) (now : Timestamp) :
    JobProg (JobResult RenewalResult × LeasedClaim) :=
  match currentLease claim.toClaimedJob now with
  | .error e => return (.error e, claim.loseAuthority)
  | .ok lease =>
    if heartbeatIsCoalesced claim now then return (.ok (.coalesced lease.expiresAt), claim)
    else
      match renewalExpiry sys claim lease.expiresAt now with
      | .error e => return (.error e, claim)
      | .ok expiresAt =>
        match prepareRenewalRecord claim lease expiresAt with
        | (.error e, claim) => return (.error e, claim)
        | (.ok previous, claim) =>
          match buildLeaseTransaction sys ids claim with
          | .error e => return (.error e, previous.restore claim)
          | .ok prepared => do
            match ← (commitRecord sys ids.refresh prepared.transaction claim.record.jobId
              claim.encoded prepared.encoded).attempt with
            | .ok () => return (.ok (.renewed expiresAt), completeRenewal claim now prepared)
            | .error e => return (.error e, (previous.restore claim).loseAuthority)

/-! ## Checkpoints -/

/-- `CheckpointResult`. -/
structure CheckpointResult where
  bytes : U32
  deriving DecidableEq

/-- `CheckpointState`. -/
structure CheckpointState where
  previousCheckpoint : Option Bytes
  previousRevision : U64

def CheckpointState.restore (previous : CheckpointState) (claim : LeasedClaim) : LeasedClaim :=
  { claim with record := { claim.record with
    checkpoint := previous.previousCheckpoint
    revision := previous.previousRevision } }

/-- `prepare_checkpoint_record`. -/
def prepareCheckpointRecord (checkpoint : Bytes) : JobResult CheckpointState × LeasedClaim :=
  let previous : CheckpointState := ⟨claim.record.checkpoint, claim.record.revision⟩
  let claim := { claim with record := { claim.record with checkpoint := some checkpoint } }
  match nextRevision claim.record with
  | .error e => (.error e, previous.restore claim)
  | .ok revision =>
    (.ok previous, { claim with record := { claim.record with revision := revision } })

/-- `checkpoint`. -/
def checkpoint (sys : JobSystem) (ids : LeaseIds) (claim : LeasedClaim) (checkpoint : Bytes)
    (now : Timestamp) : JobProg (JobResult CheckpointResult × LeasedClaim) :=
  match validateCheckpoint checkpoint with
  | .error e => return (.error (.validation e), claim)
  | .ok () =>
    match currentLease claim.toClaimedJob now with
    | .error e => return (.error e, claim.loseAuthority)
    | .ok _ =>
      match prepareCheckpointRecord claim checkpoint with
      | (.error e, claim) => return (.error e, claim)
      | (.ok previous, claim) =>
        match buildLeaseTransaction sys ids claim with
        | .error e => return (.error e, previous.restore claim)
        | .ok prepared => do
          -- `commit_checkpoint`
          match ← (commitRecord sys ids.refresh prepared.transaction claim.record.jobId
            claim.encoded prepared.encoded).attempt with
          | .ok () =>
            return (.ok ⟨BitVec.ofNat 32 checkpoint.length⟩,
              claim.replaceEncodedAuthority prepared.encoded prepared.operationId)
          | .error e => return (.error e, (previous.restore claim).loseAuthority)

/-! ## How a call ends -/

open Prog

/-- The store has the claim's encoded value, or had it when a transaction of the call had applied,
and that is the one of its record. -/
structure Stored (w : JobWorld) (claim : LeasedClaim) : Prop where
  encoded : claim.encoded.record = claim.record
  store : ∃ contents, w.Reached contents ∧
    contents[StoreKey.job claim.record.jobId]? = some (.job claim.encoded)

variable {lease : Lease} {token : LeaseToken}

section Ends

variable {sys : JobSystem} {ids : LeaseIds} {claim : LeasedClaim} {now : Timestamp}
  {w w' : JobWorld} {prepared : LeaseTransaction}

theorem buildLeaseTransaction_eq_ok (h : buildLeaseTransaction sys ids claim = .ok prepared) :
    prepared.encoded.record = claim.record ∧
      Puts prepared.transaction (.job claim.record.jobId) (.job prepared.encoded) := by
  obtain ⟨operation, -, h⟩ := bind_eq_ok.mp h
  obtain ⟨encoded, hencoded, h⟩ := bind_eq_ok.mp h
  obtain ⟨transaction, htransaction, h⟩ := bind_eq_ok.mp h
  cases h
  obtain ⟨checks, -, htransaction⟩ := bind_eq_ok.mp htransaction
  obtain ⟨permit, -, htransaction⟩ := bind_eq_ok.mp htransaction
  obtain ⟨id, -, htransaction⟩ := bind_eq_ok.mp htransaction
  obtain ⟨lease, -, htransaction⟩ := bind_eq_ok.mp htransaction
  obtain ⟨rfl, hkeys⟩ := JobSystem.checkedTransaction_eq_ok htransaction
  exact ⟨encodeJobRecord_eq_ok.mp (mapError_eq_ok.mp hencoded), hkeys, by simp⟩

/-- A commit that returns has left the claim's new value. -/
theorem stored_of_commit (hbuilt : buildLeaseTransaction sys ids claim = .ok prepared)
    (h : Ends (commitRecord sys ids.refresh prepared.transaction claim.record.jobId claim.encoded
      prepared.encoded) w (.ok ()) w') :
    Stored w' (claim.replaceEncodedAuthority prepared.encoded prepared.operationId) :=
  have hputs := buildLeaseTransaction_eq_ok hbuilt
  ⟨hputs.1, commitTransition_ends hputs.2 rfl h⟩

/-- The ways in which a renewal ends, with the store at its last answer. -/
inductive Renewal (sys : JobSystem) (ids : LeaseIds) (claim : LeasedClaim) (now : Timestamp)
    (w : JobWorld) : JobResult RenewalResult → LeasedClaim → Prop
  | lost (e : JobSystemError) : Renewal sys ids claim now w (.error e) claim.loseAuthority
  | refused {e : JobSystemError} {lease : Lease}
    (hlease : currentLease claim.toClaimedJob now = .ok lease)
    (hcall : renew sys ids claim now = .ret (.ok (.error e, claim))) :
    Renewal sys ids claim now w (.error e) claim
  | coalesced {lease : Lease} (hlease : currentLease claim.toClaimedJob now = .ok lease)
    (hcall : renew sys ids claim now = .ret (.ok (.ok (.coalesced lease.expiresAt), claim))) :
    Renewal sys ids claim now w (.ok (.coalesced lease.expiresAt)) claim
  | renewed {lease next : Lease} {claim' : LeasedClaim}
    (hlease : currentLease claim.toClaimedJob now = .ok lease)
    (hexpiry : renewalExpiry sys claim lease.expiresAt now = .ok next.expiresAt)
    (hstate : claim'.record.state = .leased next)
    (hdeadline : claim'.executionDeadline = claim.executionDeadline) (hstored : Stored w claim') :
    Renewal sys ids claim now w (.ok (.renewed next.expiresAt)) claim'

theorem Lease.expiresAt_of_tryNew {owner : OwnerId} {fence : NonZero 64} {expiresAt : Timestamp}
    (h : Lease.tryNew owner token fence expiresAt = .ok lease) : lease.expiresAt = expiresAt := by
  unfold Lease.tryNew at h
  split at h <;> cases h
  rfl

theorem prepareRenewalRecord_cases (claim : LeasedClaim) (lease : Lease) (expiresAt : Timestamp) :
    (∃ e, prepareRenewalRecord claim lease expiresAt = (.error e, claim)) ∨
      ∃ next revision, next.expiresAt = expiresAt ∧ prepareRenewalRecord claim lease expiresAt =
          (.ok ⟨claim.record.state, claim.record.revision⟩,
            { claim with record := { claim.record with
              state := .leased next
              revision := revision } }) := by
  unfold prepareRenewalRecord
  cases hnext : Lease.tryNew lease.owner lease.token lease.fence expiresAt with
  | error e => exact .inl ⟨_, rfl⟩
  | ok next =>
    have hexpiry := Lease.expiresAt_of_tryNew hnext
    cases hrevision : nextRevision { claim.record with state := .leased next } with
    | error e => exact .inl ⟨e, by simp [RenewalState.replace, hrevision, RenewalState.restore]⟩
    | ok revision =>
      exact .inr ⟨next, revision, hexpiry, by simp [RenewalState.replace, hrevision]⟩

theorem renew_ends {out : JobResult (JobResult RenewalResult × LeasedClaim)}
    (h : Ends (renew sys ids claim now) w out w') :
    ∃ r claim', out = .ok (r, claim') ∧ Renewal sys ids claim now w' r claim' := by
  cases hlease : currentLease claim.toClaimedJob now with
  | error e =>
    have hcall : renew sys ids claim now = .ret (.ok (.error e, claim.loseAuthority)) := by
      rw [renew, hlease]
      rfl
    rw [hcall] at h
    cases h
    exact ⟨_, _, rfl, .lost e⟩
  | ok lease =>
    -- what is refused in memory leaves the claim as it was
    have refuse : ∀ e, renew sys ids claim now = .ret (.ok (.error e, claim)) →
        ∃ r claim', out = .ok (r, claim') ∧ Renewal sys ids claim now w' r claim' := by
      intro e hcall
      rw [hcall] at h
      cases h
      exact ⟨_, _, rfl, .refused hlease hcall⟩
    cases hbeat : heartbeatIsCoalesced claim now with
    | true =>
      have hcall : renew sys ids claim now =
          .ret (.ok (.ok (.coalesced lease.expiresAt), claim)) := by
        simp only [renew, hlease, hbeat, if_true]
        rfl
      rw [hcall] at h
      cases h
      exact ⟨_, _, rfl, .coalesced hlease hcall⟩
    | false =>
      cases hexpiry : renewalExpiry sys claim lease.expiresAt now with
      | error e =>
        apply refuse e
        simp only [renew, hlease, hbeat, Bool.false_eq_true, if_false, hexpiry]
        rfl
      | ok expiresAt =>
        rcases prepareRenewalRecord_cases claim lease expiresAt with
          ⟨e, hprepare⟩ | ⟨next, revision, rfl, hprepare⟩
        · apply refuse e
          simp only [renew, hlease, hbeat, Bool.false_eq_true, if_false, hexpiry, hprepare]
          rfl
        · generalize hchanged : ({ claim with record := { claim.record with
            state := .leased next
            revision := revision } } : LeasedClaim) = changed at hprepare
          have hrestore : RenewalState.restore ⟨claim.record.state, claim.record.revision⟩ changed =
              claim := by rw [← hchanged]; rfl
          simp only [renew, hlease, hbeat, Bool.false_eq_true, if_false, hexpiry, hprepare,
            hrestore] at h refuse
          cases hbuilt : buildLeaseTransaction sys ids changed with
          | error e => exact refuse e (by rw [hbuilt]; rfl)
          | ok prepared =>
            simp only [hbuilt] at h
            obtain ⟨result, _, hcommit, h⟩ := Ends.of_attempt_bind h
            cases result with
            | error e =>
              cases h
              exact ⟨_, _, rfl, .lost e⟩
            | ok u =>
              cases h
              have hstored := stored_of_commit hbuilt hcommit
              subst hchanged
              exact ⟨_, _, rfl, .renewed hlease hexpiry rfl rfl ⟨hstored.encoded, hstored.store⟩⟩

/-- The ways in which a checkpoint ends, with the store at its last answer. -/
inductive Checkpointed (sys : JobSystem) (ids : LeaseIds) (claim : LeasedClaim) (bytes : Bytes)
    (now : Timestamp) (w : JobWorld) : JobResult CheckpointResult → LeasedClaim → Prop
  | lost (e : JobSystemError) : Checkpointed sys ids claim bytes now w (.error e) claim.loseAuthority
  | refused {e : JobSystemError}
    (hlease : bytes.length ≤ maxCheckpointBytes →
      ∃ lease, currentLease claim.toClaimedJob now = .ok lease)
    (hcall : checkpoint sys ids claim bytes now = .ret (.ok (.error e, claim))) :
    Checkpointed sys ids claim bytes now w (.error e) claim
  | stored {result : CheckpointResult} {claim' : LeasedClaim}
    (hcheckpoint : claim'.record.checkpoint = some bytes)
    (hstate : claim'.record.state = claim.record.state)
    (hdeadline : claim'.executionDeadline = claim.executionDeadline) (hstored : Stored w claim') :
    Checkpointed sys ids claim bytes now w (.ok result) claim'

theorem prepareCheckpointRecord_cases (claim : LeasedClaim) (bytes : Bytes) :
    (∃ e, prepareCheckpointRecord claim bytes = (.error e, claim)) ∨
      ∃ revision, prepareCheckpointRecord claim bytes =
        (.ok ⟨claim.record.checkpoint, claim.record.revision⟩,
          { claim with record := { claim.record with
            checkpoint := some bytes
            revision := revision } }) := by
  unfold prepareCheckpointRecord
  cases hrevision : nextRevision { claim.record with checkpoint := some bytes } with
  | error e => exact .inl ⟨e, by simp [hrevision, CheckpointState.restore]⟩
  | ok revision => exact .inr ⟨revision, by simp [hrevision]⟩

theorem checkpoint_tooLong (sys : JobSystem) (ids : LeaseIds) (claim : LeasedClaim) (now : Timestamp)
    {bytes : Bytes} {n : Nat} (hlength : bytes.length = n) (hlong : maxCheckpointBytes < n) :
    checkpoint sys ids claim bytes now =
      .ret (.ok (.error (.validation (.tooLong "checkpoint" maxCheckpointBytes n)), claim)) := by
  have hbytes : validateCheckpoint bytes = .error (.tooLong "checkpoint" maxCheckpointBytes n) := by
    rw [validateCheckpoint, hlength, if_pos hlong]
  simp only [checkpoint, hbytes]
  rfl

theorem checkpoint_ends {bytes : Bytes} {out : JobResult (JobResult CheckpointResult × LeasedClaim)}
    (h : Ends (checkpoint sys ids claim bytes now) w out w') :
    ∃ r claim', out = .ok (r, claim') ∧ Checkpointed sys ids claim bytes now w' r claim' := by
  have refuse : ∀ e, (bytes.length ≤ maxCheckpointBytes →
      ∃ lease, currentLease claim.toClaimedJob now = .ok lease) →
      checkpoint sys ids claim bytes now = .ret (.ok (.error e, claim)) →
      ∃ r claim', out = .ok (r, claim') ∧ Checkpointed sys ids claim bytes now w' r claim' := by
    intro e hlease hcall
    rw [hcall] at h
    cases h
    exact ⟨_, _, rfl, .refused hlease hcall⟩
  cases hbytes : validateCheckpoint bytes with
  | error e =>
    refine refuse (.validation e) (fun hle => ?_) ?_
    · rw [validateCheckpoint, if_neg (by omega)] at hbytes
      cases hbytes
    · simp only [checkpoint, hbytes]
      rfl
  | ok u =>
    cases hlease : currentLease claim.toClaimedJob now with
    | error e =>
      have hcall : checkpoint sys ids claim bytes now =
          .ret (.ok (.error e, claim.loseAuthority)) := by
        simp only [checkpoint, hbytes, hlease]
        rfl
      rw [hcall] at h
      cases h
      exact ⟨_, _, rfl, .lost e⟩
    | ok lease =>
      rcases prepareCheckpointRecord_cases claim bytes with ⟨e, hprepare⟩ | ⟨revision, hprepare⟩
      · refine refuse e (fun _ => ⟨lease, hlease⟩) ?_
        simp only [checkpoint, hbytes, hlease, hprepare]
        rfl
      · generalize hchanged : ({ claim with record := { claim.record with
          checkpoint := some bytes
          revision := revision } } : LeasedClaim) = changed at hprepare
        have hrestore : CheckpointState.restore ⟨claim.record.checkpoint, claim.record.revision⟩
            changed = claim := by rw [← hchanged]; rfl
        cases hbuilt : buildLeaseTransaction sys ids changed with
        | error e =>
          refine refuse e (fun _ => ⟨lease, hlease⟩) ?_
          simp only [checkpoint, hbytes, hlease, hprepare, hbuilt, hrestore]
          rfl
        | ok prepared =>
          simp only [checkpoint, hbytes, hlease, hprepare, hbuilt, hrestore] at h
          obtain ⟨result, _, hcommit, h⟩ := Ends.of_attempt_bind h
          cases result with
          | error e =>
            cases h
            exact ⟨_, _, rfl, .lost e⟩
          | ok u =>
            cases h
            have hstored := stored_of_commit hbuilt hcommit
            subst hchanged
            exact ⟨_, _, rfl, .stored rfl rfl rfl hstored⟩

end Ends

/-! ## What a call keeps -/

namespace LeasedClaim

/-- The record, its encoded value and the operation are those of before. -/
structure Kept (claim claim' : LeasedClaim) : Prop where
  record : claim'.record = claim.record
  encoded : claim'.encoded = claim.encoded
  operationId : claim'.operationId = claim.operationId

/-- The lease does not outlive the deadline of the claim. -/
def WithinDeadline : Prop :=
  ∀ lease, claim.record.state = .leased lease →
    ∀ deadline, claim.executionDeadline = some deadline → lease.expiresAt ≤ deadline

theorem kept_refl : claim.Kept claim := ⟨rfl, rfl, rfl⟩

theorem kept_loseAuthority : claim.Kept claim.loseAuthority :=
  ⟨rfl, rfl, rfl⟩

/-- A claim starts within its deadline. -/
theorem withinDeadline_of_claim {sys : JobSystem} {r : JobRecordV1}
    {now : Timestamp} {fenceHighWater : U64} {claim : LeasedClaim}
    (h : prepareClaimRecord sys token r now fenceHighWater claim.executionDeadline =
      .ok claim.record) : claim.WithinDeadline := by
  intro lease hlease deadline hdeadline
  obtain ⟨_, -, h⟩ := bind_eq_ok.mp h
  obtain ⟨authority, hauthority, h⟩ := bind_eq_ok.mp h
  obtain ⟨_, -, h⟩ := bind_eq_ok.mp h
  obtain ⟨made, hmade, h⟩ := bind_eq_ok.mp h
  obtain ⟨_, -, h⟩ := bind_eq_ok.mp h
  have hstate : JobState.leased made = claim.record.state :=
    congrArg JobRecordV1.state (ok.inj h)
  cases hstate.trans hlease
  rw [Lease.expiresAt_of_tryNew (mapError_eq_ok.mp hmade)]
  obtain ⟨_, -, hauthority⟩ := bind_eq_ok.mp hauthority
  obtain ⟨_, -, hauthority⟩ := bind_eq_ok.mp hauthority
  obtain ⟨_, -, hauthority⟩ := bind_eq_ok.mp hauthority
  obtain ⟨_, -, hauthority⟩ := bind_eq_ok.mp hauthority
  obtain ⟨_, -, hauthority⟩ := bind_eq_ok.mp hauthority
  obtain ⟨expiresAt, -, hauthority⟩ := bind_eq_ok.mp hauthority
  obtain ⟨_, -, hauthority⟩ := bind_eq_ok.mp hauthority
  cases hauthority
  rw [hdeadline]
  exact min_le_right _ _

end LeasedClaim

theorem state_of_currentLease {claim : ClaimedJob} {now : Timestamp}
    (h : currentLease claim now = .ok lease) : claim.record.state = .leased lease := by
  unfold currentLease at h
  split at h
  · cases h
  · have h := okOr_eq_ok.mp h
    unfold ClaimedJob.leaseAt at h
    split at h
    · split at h <;> cases h
      assumption
    · cases h

/-- A renewal does not shorten a lease within its deadline, and stays within it. -/
theorem renewalExpiry_spec {sys : JobSystem} {claim : LeasedClaim}
    {now expiresAt : Timestamp} (hwithin : claim.WithinDeadline)
    (hstate : claim.record.state = .leased lease)
    (h : renewalExpiry sys claim lease.expiresAt now = .ok expiresAt) :
    lease.expiresAt ≤ expiresAt ∧
      ∀ deadline, claim.executionDeadline = some deadline → expiresAt ≤ deadline := by
  obtain ⟨_, -, h⟩ := bind_eq_ok.mp h
  obtain ⟨later, -, h⟩ := bind_eq_ok.mp h
  cases h
  cases hdeadline : claim.executionDeadline with
  | none => exact ⟨le_max_right _ _, fun _ h => by cases h⟩
  | some deadline =>
    refine ⟨le_min (le_max_right _ _) (hwithin lease hstate deadline hdeadline), ?_⟩
    rintro _ ⟨⟩
    exact min_le_right _ _

/-- A call that fails leaves the claim as it was, apart from the authority that it revokes unless it
has not asked the store for anything. A call that returns leaves a claim that the store holds, or held
when its transaction applied, unless the renewal was coalesced, and a renewal does not shorten the
lease. -/
theorem lease_updates_exact (sys : JobSystem) (ids : LeaseIds) (claim : LeasedClaim)
    (now : Timestamp) (hwithin : claim.WithinDeadline) (s : OrdMap StoreKey StoreValue)
    (w : JobWorld) :
    (∀ out, Ends (renew sys ids claim now) ⟨s, [], []⟩ out w →
      ∃ r claim', out = .ok (r, claim') ∧ claim'.WithinDeadline ∧
        (∀ e, r = .error e → claim.Kept claim' ∧
          (claim'.authorityLost = true ∨ claim' = claim ∧ renew sys ids claim now = .ret out ∧
            ∃ lease, currentLease claim.toClaimedJob now = .ok lease)) ∧
        (∀ t, r = .ok (.coalesced t) → claim' = claim ∧ renew sys ids claim now = .ret out) ∧
        (∀ t, r = .ok (.renewed t) → Stored w claim') ∧
        (∀ result, r = .ok result → ∃ lease lease', claim.record.state = .leased lease ∧
          claim'.record.state = .leased lease' ∧ lease.expiresAt ≤ lease'.expiresAt)) ∧
    (∀ bytes out, Ends (checkpoint sys ids claim bytes now) ⟨s, [], []⟩ out w →
      ∃ r claim', out = .ok (r, claim') ∧ claim'.WithinDeadline ∧
        (∀ e, r = .error e → claim.Kept claim' ∧
          (claim'.authorityLost = true ∨ claim' = claim ∧
            checkpoint sys ids claim bytes now = .ret out ∧ (bytes.length ≤ maxCheckpointBytes →
              ∃ lease, currentLease claim.toClaimedJob now = .ok lease))) ∧
        (∀ result, r = .ok result →
          Stored w claim' ∧ claim'.record.checkpoint = some bytes)) := by
  constructor
  · intro out h
    obtain ⟨r, claim', rfl, hend⟩ := renew_ends h
    refine ⟨r, claim', rfl, ?_⟩
    cases hend with
    | lost e =>
      refine ⟨hwithin, fun _ _ => ⟨claim.kept_loseAuthority, .inl rfl⟩, ?_, ?_, ?_⟩
      all_goals rintro _ ⟨⟩
    | @refused e lease hlease hcall =>
      refine ⟨hwithin, fun _ _ => ⟨claim.kept_refl, .inr ⟨rfl, hcall, lease, hlease⟩⟩, ?_, ?_, ?_⟩
      all_goals rintro _ ⟨⟩
    | @coalesced lease hlease hcall =>
      have hstate := state_of_currentLease hlease
      refine ⟨hwithin, ?_, fun _ _ => ⟨rfl, hcall⟩, ?_,
        fun _ _ => ⟨lease, lease, hstate, hstate, le_refl _⟩⟩
      all_goals rintro _ ⟨⟩
    | @renewed lease next _ hlease hexpiry hnext hdeadline hstored =>
      have hstate := state_of_currentLease hlease
      obtain ⟨hle, hcut⟩ := renewalExpiry_spec hwithin hstate hexpiry
      refine ⟨?_, ?_, ?_, fun _ _ => hstored, fun _ _ => ⟨lease, next, hstate, hnext, hle⟩⟩
      · intro lease' hlease' deadline hd
        cases hnext.symm.trans hlease'
        exact hcut deadline (hdeadline ▸ hd)
      all_goals rintro _ ⟨⟩
  · intro bytes out h
    obtain ⟨r, claim', rfl, hend⟩ := checkpoint_ends h
    refine ⟨r, claim', rfl, ?_⟩
    cases hend with
    | lost e =>
      refine ⟨hwithin, fun _ _ => ⟨claim.kept_loseAuthority, .inl rfl⟩, ?_⟩
      rintro _ ⟨⟩
    | @refused e hlease hcall =>
      refine ⟨hwithin, fun _ _ => ⟨claim.kept_refl, .inr ⟨rfl, hcall, hlease⟩⟩, ?_⟩
      rintro _ ⟨⟩
    | stored hcheckpoint hstate hdeadline hstored =>
      refine ⟨?_, ?_, fun _ _ => ⟨hstored, hcheckpoint⟩⟩
      · intro lease hlease deadline hd
        exact hwithin lease (hstate ▸ hlease) deadline (hdeadline ▸ hd)
      · rintro _ ⟨⟩

namespace Sample

def leaseIds : LeaseIds := ⟨some (.repeated 2), some (.repeated 2), some (.repeated 3)⟩

/-- The job's first attempt starts at 10. It has no deadline, and has not renewed yet. -/
def leased : JobResult LeasedClaim := do
  let record ← prepareClaimRecord system (.repeated 1) (← enqueued job) ⟨10⟩ 0 none
  let encoded ← encodeJobRecord record
  return ⟨⟨record, false⟩, encoded, .lease queue record.jobId, [], .repeated 1, 1, false,
    Int64.minValue, none⟩

/-- A store that holds the claim. -/
def holding : OrdMap StoreKey StoreValue :=
  let jobId := claim.record.jobId
  ((∅ : OrdMap StoreKey StoreValue).insert (.job jobId) (.job claim.encoded)
    |>.insert claim.leaseKey (.lease jobId)
    |>.insert (.operation jobId) (.operation (.marker jobId claim.operationId claim.fenceHighWater)))

/-- The renewal at 20, without other writers. -/
def renewal : JobResult (JobResult RenewalResult × LeasedClaim) × JobWorld :=
  (renew system leaseIds claim ⟨20⟩).run ⟨holding claim, [], []⟩

theorem withinDeadline_leased {claim : LeasedClaim} (h : leased = .ok claim) :
    claim.WithinDeadline := by
  obtain ⟨_, -, h⟩ := bind_eq_ok.mp h
  obtain ⟨record, hrecord, h⟩ := bind_eq_ok.mp h
  obtain ⟨_, -, h⟩ := bind_eq_ok.mp h
  cases h
  exact LeasedClaim.withinDeadline_of_claim hrecord

end Sample

theorem lease_updates_exact_sample : ∃ claim claim', Sample.leased = .ok claim ∧
    (Sample.renewal claim).1 = .ok (.ok (.renewed ⟨30020⟩), claim') ∧
    Stored (Sample.renewal claim).2 claim' := by
  have hrun : (do
      let claim ← Sample.leased
      let (result, _) ← (Sample.renewal claim).1
      result) = .ok (.renewed ⟨30020⟩) := by decide +kernel
  obtain ⟨claim, hclaim, hrun⟩ := bind_eq_ok.mp hrun
  obtain ⟨⟨result, claim'⟩, hout, hresult⟩ := bind_eq_ok.mp hrun
  cases hresult
  obtain ⟨r, left, heq, -, -, -, hstored, -⟩ := (lease_updates_exact Sample.system Sample.leaseIds
    claim ⟨20⟩ (Sample.withinDeadline_leased hclaim) _ _).1 _
    (Prog.ends_run _ _)
  cases hout.symm.trans heq
  exact ⟨claim, claim', hclaim, hout, hstored _ rfl⟩

/-- A checkpoint that is too long is an error, and the claim keeps its authority. -/
theorem long_checkpoint_not_revoked : ∃ claim lease, Sample.leased = .ok claim ∧
    currentLease claim.toClaimedJob ⟨20⟩ = .ok lease ∧
    checkpoint Sample.system Sample.leaseIds claim (List.replicate 65537 0) ⟨20⟩ =
      .ret (.ok (.error (.validation (.tooLong "checkpoint" 65536 65537)), claim)) ∧
    claim.authorityLost = false := by
  have hrun : (do
      let claim ← Sample.leased
      let lease ← currentLease claim.toClaimedJob ⟨20⟩
      return (lease.expiresAt, claim.authorityLost)) = (.ok (⟨30010⟩, false) : JobResult _) := by
    decide +kernel
  obtain ⟨claim, hclaim, hrun⟩ := bind_eq_ok.mp hrun
  obtain ⟨lease, hlease, hrun⟩ := bind_eq_ok.mp hrun
  exact ⟨claim, lease, hclaim, hlease,
    checkpoint_tooLong _ _ claim _ List.length_replicate (by decide),
    congrArg Prod.snd (ok.inj hrun)⟩

end AuxCommon
