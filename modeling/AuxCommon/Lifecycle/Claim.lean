import AuxCommon.Engine

/-!
# The record of a claim

`lifecycle/claim/authority.rs`: a claim asks whether the record is due, alive and has attempts
left (`JobRecordV1.Runnable`), and puts it under a new lease. What a claim needs besides (a
registered handler and counters that can go up) is `ClaimRoom`; `prepareClaimRecord_isOk` says
that the two together are what a claim asks for.
-/

namespace AuxCommon

open Except

/-- `ClaimedJob`, the fields that an outcome's record is made from. -/
structure ClaimedJob where
  record : JobRecordV1
  authorityLost : Bool
  deriving DecidableEq

/-- `lease_at`. -/
def ClaimedJob.leaseAt (claim : ClaimedJob) (now : Timestamp) : Option Lease :=
  match claim.record.state with
  | .leased lease => if now < lease.expiresAt then some lease else none
  | _ => none

/-- `current_lease`. -/
def currentLease (claim : ClaimedJob) (now : Timestamp) : JobResult Lease :=
  if claim.authorityLost then .error .leaseLost else okOr .leaseLost (claim.leaseAt now)

variable (r : JobRecordV1)

/-- `next_revision`. -/
def nextRevision : JobResult U64 := okOr .leaseConflict (r.revision.checkedAdd 1)

/-- `claimable`. -/
def claimable (now : Timestamp) : Bool :=
  match r.state with
  | .scheduled => true
  | .leased lease => lease.expiresAt ≤ now
  | _ => false

/-- `next_attempt`. -/
def nextAttempt (now : Timestamp) : Option AttemptHistory :=
  match r.attempts with
  | none => some ⟨⟨1, NonZero.one_ne_zero32⟩, now, now, none⟩
  | some h => do
    let attempts ← h.attempts.get.checkedAdd 1
    let attempts ← NonZero.new attempts
    return ⟨attempts, h.firstAttemptAt, now, h.lastOutcome⟩

/-- The fence that `claim_authority` goes on from. -/
def previousFence (fenceHighWater : U64) : U64 :=
  match r.state with
  | .leased lease => lease.fence.get.umax fenceHighWater
  | _ => fenceHighWater

/-- `claim_authority`: the attempts, the fence and the expiry of the new lease. -/
def claimAuthority (sys : JobSystem) (r : JobRecordV1) (now : Timestamp) (fenceHighWater : U64)
    (deadline : Option Timestamp) : JobResult (AttemptHistory × NonZero 64 × Timestamp) := do
  let registration ← okOr .unregisteredHandler (sys.registry r.kind r.schemaVersion)
  require (r.hasExhaustedAttempts = false) .leaseConflict
  let attempts ← okOr .leaseConflict (nextAttempt r now)
  let fence ← okOr .leaseConflict ((previousFence r fenceHighWater).checkedAdd 1)
  let fence ← okOr .leaseConflict (NonZero.new fence)
  let expiresAt ← now.checkedAdd registration.defaultTimeout
  let expiresAt := deadline.elim expiresAt (min expiresAt)
  require (now < expiresAt) .leaseConflict
  return (attempts, fence, expiresAt)

/-- `prepare_claim_record`. The token of the lease is drawn. -/
def prepareClaimRecord (sys : JobSystem) (token : LeaseToken) (r : JobRecordV1) (now : Timestamp)
    (fenceHighWater : U64) (deadline : Option Timestamp) : JobResult JobRecordV1 := do
  require (r.scheduledAt ≤ now ∧ r.expiresAt.all (now < ·) ∧ now < r.retentionDeadline ∧
    claimable r now = true) .leaseConflict
  let (attempts, fence, expiresAt) ← claimAuthority sys r now fenceHighWater deadline
  let generation ← okOr .leaseConflict (r.generation.checkedAdd 1)
  let lease ← Lease.tryNew sys.owner token fence expiresAt
  let revision ← okOr .leaseConflict (r.revision.checkedAdd 1)
  return { r with
    generation := generation
    attempts := some attempts
    state := .leased lease
    revision := revision }

/-! ## What a claim asks for -/

/-- The checks of time, state and attempts. -/
structure JobRecordV1.Runnable (r : JobRecordV1) (now : Timestamp) : Prop where
  due : r.scheduledAt ≤ now
  alive : r.expiresAt.all (now < ·) = true
  retained : now < r.retentionDeadline
  claimable : claimable r now = true
  attempts_left : r.hasExhaustedAttempts = false

/-- The rest: a handler whose lease can be told in time, and counters below their end. -/
structure ClaimRoom (sys : JobSystem) (r : JobRecordV1) (now : Timestamp) (fenceHighWater : U64)
    (deadline : Option Timestamp) : Prop where
  lease : ∃ registration expiresAt, sys.registry r.kind r.schemaVersion = some registration ∧
    now.checkedAdd registration.defaultTimeout = .ok expiresAt ∧
    now < deadline.elim expiresAt (min expiresAt) ∧
    Timestamp.zero ≤ deadline.elim expiresAt (min expiresAt)
  attempts : (nextAttempt r now).isSome = true
  fence : (previousFence r fenceHighWater).toNat + 1 < 2 ^ 64
  generation : r.generation.toNat + 1 < 2 ^ 32
  revision : r.revision.toNat + 1 < 2 ^ 64

/-- A counter goes up unless it is at its end. -/
theorem exists_checkedAdd_one {w : Nat} (hw : 0 < w) {e : JobSystemError} {a : BitVec w} :
    (∃ b, okOr e (a.checkedAdd 1) = .ok b) ↔ a.toNat + 1 < 2 ^ w := by
  have hone : (1 : BitVec w).toNat = 1 := Nat.mod_eq_of_lt (Nat.one_lt_two_pow hw.ne')
  simp only [okOr_eq_ok, BitVec.checkedAdd_eq_some, hone]
  constructor
  · rintro ⟨b, hb⟩
    exact hb ▸ b.isLt
  · intro h
    exact ⟨BitVec.ofNat w (a.toNat + 1), by rw [BitVec.toNat_ofNat, Nat.mod_eq_of_lt h]⟩

theorem prepareClaimRecord_isOk {sys : JobSystem} {token : LeaseToken} {r : JobRecordV1}
    {now : Timestamp} {fenceHighWater : U64} {deadline : Option Timestamp} :
    (prepareClaimRecord sys token r now fenceHighWater deadline).isOk = true ↔
      r.Runnable now ∧ ClaimRoom sys r now fenceHighWater deadline := by
  rw [isOk_iff]
  constructor
  · rintro ⟨r', h⟩
    obtain ⟨_, hrequire, h⟩ := bind_eq_ok.mp h
    obtain ⟨hdue, halive, hretained, hclaimable⟩ := require_eq_ok.mp hrequire
    obtain ⟨authority, hauthority, h⟩ := bind_eq_ok.mp h
    obtain ⟨generation, hgeneration, h⟩ := bind_eq_ok.mp h
    obtain ⟨lease, hlease, h⟩ := bind_eq_ok.mp h
    obtain ⟨revision, hrevision, -⟩ := bind_eq_ok.mp h
    obtain ⟨registration, hregistration, hauthority⟩ := bind_eq_ok.mp hauthority
    obtain ⟨_, hleft, hauthority⟩ := bind_eq_ok.mp hauthority
    obtain ⟨attempts, hattempts, hauthority⟩ := bind_eq_ok.mp hauthority
    obtain ⟨next, hnext, hauthority⟩ := bind_eq_ok.mp hauthority
    obtain ⟨fence, -, hauthority⟩ := bind_eq_ok.mp hauthority
    obtain ⟨expiresAt, hexpires, hauthority⟩ := bind_eq_ok.mp hauthority
    obtain ⟨_, hlater, hauthority⟩ := bind_eq_ok.mp hauthority
    cases hauthority
    refine ⟨⟨hdue, halive, hretained, hclaimable, require_eq_ok.mp hleft⟩,
      ⟨registration, expiresAt, okOr_eq_ok.mp hregistration, mapError_eq_ok.mp hexpires,
        require_eq_ok.mp hlater, ?_⟩, ?_, (exists_checkedAdd_one (by decide)).mp ⟨_, hnext⟩,
      (exists_checkedAdd_one (by decide)).mp ⟨_, hgeneration⟩,
      (exists_checkedAdd_one (by decide)).mp ⟨_, hrevision⟩⟩
    · have hlease := mapError_eq_ok.mp hlease
      unfold Lease.tryNew at hlease
      split at hlease
      · assumption
      · cases hlease
    · rw [okOr_eq_ok.mp hattempts]
      rfl
  · rintro ⟨hrun, hroom⟩
    obtain ⟨registration, expiresAt, hregistration, hexpires, hlater, hnonneg⟩ := hroom.lease
    obtain ⟨attempts, hattempts⟩ := Option.isSome_iff_exists.mp hroom.attempts
    obtain ⟨next, hnext⟩ := (exists_checkedAdd_one (e := .leaseConflict) (by decide)).mpr hroom.fence
    obtain ⟨generation, hgeneration⟩ :=
      (exists_checkedAdd_one (e := .leaseConflict) (by decide)).mpr hroom.generation
    obtain ⟨revision, hrevision⟩ :=
      (exists_checkedAdd_one (e := .leaseConflict) (by decide)).mpr hroom.revision
    have hne : next ≠ 0 := by
      rintro rfl
      have hsum := BitVec.checkedAdd_eq_some.mp (okOr_eq_ok.mp hnext)
      have hzero : (0 : BitVec 64).toNat = 0 := rfl
      have hone : (1 : BitVec 64).toNat = 1 := rfl
      omega
    have hauthority : claimAuthority sys r now fenceHighWater deadline =
        .ok (attempts, ⟨next, hne⟩, deadline.elim expiresAt (min expiresAt)) :=
      bind_eq_ok.mpr ⟨registration, okOr_eq_ok.mpr hregistration,
        bind_eq_ok.mpr ⟨(), require_eq_ok.mpr hrun.attempts_left,
        bind_eq_ok.mpr ⟨attempts, okOr_eq_ok.mpr hattempts,
        bind_eq_ok.mpr ⟨next, hnext,
        bind_eq_ok.mpr ⟨⟨next, hne⟩, okOr_eq_ok.mpr (NonZero.new_eq_some.mpr rfl),
        bind_eq_ok.mpr ⟨expiresAt, mapError_eq_ok.mpr hexpires,
        bind_eq_ok.mpr ⟨(), require_eq_ok.mpr hlater, rfl⟩⟩⟩⟩⟩⟩⟩
    exact ⟨_, bind_eq_ok.mpr ⟨(),
        require_eq_ok.mpr ⟨hrun.due, hrun.alive, hrun.retained, hrun.claimable⟩,
        bind_eq_ok.mpr ⟨_, hauthority,
        bind_eq_ok.mpr ⟨generation, hgeneration,
        bind_eq_ok.mpr ⟨_, mapError_eq_ok.mpr (dif_pos hnonneg),
        bind_eq_ok.mpr ⟨revision, hrevision, rfl⟩⟩⟩⟩⟩⟩

end AuxCommon
