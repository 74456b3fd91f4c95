import AuxCommon.BufferedWrites.Fences

/-!
# Fencing

A claim gives out open records or a sealed batch under a new fence, and a seal turns records into a
batch under the fence of the records. `Issues` keeps, beside the state, the fences in the order in
which claims gave them out and the last fence that each record and each batch was given out under.
`delivery_fenced` is what this history says about the calls that name a fence: they succeed only
under the last fence of what they change, while its lease runs, and a call that fails changes
nothing. One thing has to be excepted: a seal first takes the leases away that have expired at the
time it is called with, whether or not it then succeeds (`stale_seal_expires_leases`).
-/

namespace AuxCommon.BufferedWrites

open Std List RetentionState

/-- What a lease covers. -/
inductive Work
  | record (id : OperationId)
  | batch (id : BatchId)
  deriving DecidableEq

/-- The fences that claims gave out, in order, and the last fence of each piece of work. -/
structure Issues where
  fences : List Nat := []
  latest : Work → Option FencingToken := fun _ => none

namespace Issues

/-- The work is given out under the fence. -/
def give (i : Issues) (fence : FencingToken) (works : List Work) : Issues :=
  { i with latest := fun w => if w ∈ works then some fence else i.latest w }

/-- A claim gives the work out under a new fence. -/
def claim (i : Issues) (fence : FencingToken) (works : List Work) : Issues :=
  { i.give fence works with fences := i.fences ++ [fence.generation] }

/-- The history after what a claim returned. -/
def claimed (i : Issues) : ClaimedWork → Issues
  | .none => i
  | .openCandidate c => i.claim c.fencingToken (c.records.map (.record ·.operationId))
  | .existingSealed leased => i.claim leased.fencingToken [.batch leased.batch.batchId]

/-- The history after a call, which its result decides. -/
def step (P : Platform) (ns : Namespace) (s : RetentionState) (i : Issues) :
    Operation → Issues
  | .claim request => i.claimed (s.claimWork P request).1
  | .sealCandidate request nowMono =>
    match (s.sealCandidate P ns request nowMono).1 with
    | .ok (some leased) => i.give leased.fencingToken [.batch leased.batch.batchId]
    | .ok none | .error _ => i
  | .append _ _ | .renew _ | .settle _ | .inspect _ _ => i

end Issues

/-- The state and the history after a sequence of calls. -/
def history (P : Platform) (ns : Namespace) (ops : List Operation) :
    RetentionState × Issues :=
  ops.foldl (fun h op => (h.1.step P ns op, h.2.step P ns h.1 op)) ({}, {})

/-- The records that a seal takes out of the open ones. -/
def BufferSealAction.taken : BufferSealAction → List OperationId
  | .installBatch batch => batch.records.map (·.operationId)
  | .quarantineSingleton id => [id]
  | .releaseCandidate => []

namespace RetentionState

/-- A lease of the state under the fence covers the work at the time. -/
def Covers (s : RetentionState) (now : Int64) (fence : FencingToken) : Work → Prop
  | .record id => ∃ e ∈ s.openRecords, e.record.operationId = id ∧ e.leasedFence = some fence ∧
      now < e.leaseExpiresAtMs
  | .batch k => ∃ e, s.sealedBatches[k]? = some e ∧ e.fencingToken = fence ∧
      e.isLeasedAt now = true

end RetentionState

/-- The fence is the last one of the work, and its lease runs. -/
structure Holds (s : RetentionState) (i : Issues) (now : Int64) (fence : FencingToken) (w : Work) :
    Prop where
  covers : s.Covers now fence w
  latest : i.latest w = some fence

/-- What fences and leases guarantee in a state with its history. -/
structure Fenced (P : Platform) (ns : Namespace) (s : RetentionState) (i : Issues) :
    Prop where
  increasing : i.fences.Pairwise fun a b => a < wordMax → a < b
  oneLease : ∀ now w fence fence', s.Covers now fence w → s.Covers now fence' w → fence = fence'
  sealed : ∀ request nowMono result,
    (s.sealCandidate P ns request nowMono).1 = .ok result →
      (∃ id, Holds s i request.nowUtcMs request.fencingToken (.record id)) ∧
      ∀ id ∈ request.action.taken, Holds s i request.nowUtcMs request.fencingToken (.record id)
  renewed : ∀ request, (s.renewLease request).1 = .ok () →
    Holds s i request.nowUtcMs request.fencingToken (.batch request.batchId)
  settled : ∀ request, (s.settleBatch P request).1 = .ok () →
    Holds s i request.nowUtcMs request.fencingToken (.batch request.batchId)
  staleSeal : ∀ request nowMono,
    (¬∃ id, Holds s i request.nowUtcMs request.fencingToken (.record id)) →
      (s.sealCandidate P ns request nowMono).2 = s.expireOpenLeases request.nowUtcMs
  staleRenewal : ∀ request,
    ¬Holds s i request.nowUtcMs request.fencingToken (.batch request.batchId) →
      (s.renewLease request).2 = s
  staleSettlement : ∀ request,
    ¬Holds s i request.nowUtcMs request.fencingToken (.batch request.batchId) →
      (s.settleBatch P request).2 = s

variable {P : Platform} {ns : Namespace} {s s' : RetentionState} {i : Issues}

/-! ## The history of a state -/

/-- Every lease is under the last fence of what it covers. -/
structure Tracked (s : RetentionState) (i : Issues) : Prop where
  records : ∀ e ∈ s.openRecords, ∀ fence, e.leasedFence = some fence →
    i.latest (.record e.record.operationId) = some fence
  batches : ∀ (k : BatchId) e, s.sealedBatches[k]? = some e → i.latest (.batch k) = some e.fencingToken
  increasing : i.fences.Pairwise fun a b => a < wordMax → a < b
  issued : ∀ fence ∈ i.fences, fence ≤ s.nextGeneration
  bounded : s.nextGeneration ≤ wordMax

namespace Tracked

theorem empty : Tracked {} {} where
  records _ h := by cases h
  batches k e h := by simp at h
  increasing := .nil
  issued _ h := by cases h
  bounded := Nat.zero_le _

/-- A call that takes leases away and leaves the fences of the batches it keeps. -/
theorem unleases (h : Tracked s i) (hu : Unleases s s')
    (hbatches : ∀ (k : BatchId) e, s'.sealedBatches[k]? = some e →
      ∃ e₀, s.sealedBatches[k]? = some e₀ ∧ e.fencingToken = e₀.fencingToken) : Tracked s' i where
  records e he fence hf := by
    obtain hmem | hnone := hu.openRecords e he
    · exact h.records e hmem fence hf
    · rw [hnone] at hf
      cases hf
  batches k e he := by
    obtain ⟨e₀, he₀, hfence⟩ := hbatches k e he
    rw [hfence]
    exact h.batches k e₀ he₀
  increasing := h.increasing
  issued fence hf := hu.generation ▸ h.issued fence hf
  bounded := hu.generation ▸ h.bounded

/-- A new fence is after all that were given out. -/
theorem claim_increasing (h : Tracked s i) (works : List Work) :
    (i.claim ⟨satAdd s.nextGeneration 1⟩ works).fences.Pairwise fun a b => a < wordMax → a < b := by
  refine pairwise_append.mpr ⟨h.increasing, pairwise_singleton _ _, ?_⟩
  intro a ha b hb hlt
  obtain rfl := mem_singleton.mp hb
  have hle := h.issued a ha
  dsimp only [satAdd]
  omega

theorem claim_issued (h : Tracked s i) (works : List Work) :
    ∀ fence ∈ (i.claim ⟨satAdd s.nextGeneration 1⟩ works).fences,
      fence ≤ satAdd s.nextGeneration 1 := by
  intro fence hf
  have hbounded := h.bounded
  obtain hf | hf := mem_append.mp hf
  · have hle := h.issued fence hf
    unfold satAdd
    omega
  · exact Nat.le_of_eq (mem_singleton.mp hf)

end Tracked

namespace RetentionState

variable {fence : FencingToken} {now : Int64} {e : OpenRecordEntry}

theorem claimOpenCandidate_tracked (hs : Sound P s) (h : Tracked s i)
    (request : BufferClaimRequest) (until_ : Int64) :
    Tracked (s.claimOpenCandidate P request until_).2
      (i.claimed (s.claimOpenCandidate P request until_).1) := by
  have hbounded : satAdd s.nextGeneration 1 ≤ wordMax := Nat.min_le_right _ _
  have hsound := hs.releases (claimOpenCandidate_releases (P := P) (s := s) request until_)
  unfold claimOpenCandidate at hsound ⊢
  split
  · exact h
  · rename_i scope hscope
    rw [hscope] at hsound
    dsimp only [allocateFence] at hsound ⊢
    generalize hloop : leaseLoop request scope ⟨satAdd s.nextGeneration 1⟩ until_ 0 0
      s.openRecords = loop at hsound ⊢
    obtain ⟨hmem, hleased⟩ : (∀ e ∈ loop.1, e ∈ s.openRecords ∨ e ∈ loop.2 ∧ _) ∧ _ :=
      hloop ▸ leaseLoop_mem
    split
    · rename_i hempty
      refine ⟨fun e he fence hf => ?_, h.batches, h.increasing, fun fence hf => ?_, hbounded⟩
      · obtain hold | ⟨hnew, -⟩ := hmem e he
        · exact h.records e hold fence hf
        · rw [isEmpty_iff.mp hempty] at hnew
          cases hnew
      · have hle := h.issued fence hf
        have hmax := h.bounded
        dsimp only [satAdd]
        omega
    · rename_i hempty
      rw [if_neg hempty] at hsound
      refine ⟨fun e he fence hf => ?_, fun k e he => ?_, h.claim_increasing _, h.claim_issued _,
        hbounded⟩
      · have hin : ∀ e' ∈ loop.2, Work.record e'.record.operationId ∈
            (loop.2.map (·.record)).map (Work.record ·.operationId) := fun e' he' =>
          mem_map_of_mem (mem_map_of_mem he')
        dsimp only [Issues.claimed, Issues.claim, Issues.give]
        split
        · -- the identity of a leased record is the identity of no other
          rename_i hid
          obtain ⟨r, hr, heq⟩ := mem_map.mp hid
          obtain ⟨e', he', rfl⟩ := mem_map.mp hr
          obtain ⟨hin', hfence⟩ := hleased e' he'
          have hsame : e' = e := inj_on_of_nodup_map (openRecords_nodup hsound) hin' he
            (Work.record.inj heq)
          rw [← hf, ← hsame, hfence]
        · rename_i hid
          obtain hold | ⟨hnew, -⟩ := hmem e he
          · exact h.records e hold fence hf
          · exact absurd (hin e hnew) hid
      · dsimp only [Issues.claimed, Issues.claim, Issues.give]
        rw [if_neg (by simp)]
        exact h.batches k e he

theorem claimWork_tracked (hs : Sound P s) (h : Tracked s i) (request : BufferClaimRequest) :
    Tracked (s.claimWork P request).2 (i.step P ns s (.claim request)) := by
  have hexpired : Tracked (s.expireOpenLeases request.nowUtcMs) i :=
    h.unleases (expireOpenLeases_unleases _) fun k e he => ⟨e, he, rfl⟩
  have hsound := hs.releases (expireOpenLeases_releases (s := s) request.nowUtcMs)
  unfold Issues.step claimWork
  dsimp only
  cases hdue : (s.expireOpenLeases request.nowUtcMs).dueBatch request with
  | none =>
    dsimp only
    split
    · exact hexpired
    · exact claimOpenCandidate_tracked hsound hexpired request _
  | some due =>
    obtain ⟨k, entry⟩ := due
    have hentry := dueBatch_eq_some hdue
    have hkey := hsound.sealedKey k entry hentry
    refine ⟨fun e he fence hf => ?_, fun k' e he => ?_, hexpired.claim_increasing _,
      hexpired.claim_issued _, Nat.min_le_right _ _⟩
    · dsimp only [Issues.claimed, Issues.claim, Issues.give]
      rw [if_neg (by simp)]
      exact hexpired.records e he fence hf
    · dsimp only [Issues.claimed, Issues.claim, Issues.give]
      rw [OrdMap.get_insert] at he
      by_cases hk : k' = k
      · rw [if_pos hk] at he
        cases he
        rw [if_pos (by rw [hkey, hk]; exact mem_singleton_self _)]
      · rw [if_neg hk] at he
        rw [if_neg (by rw [hkey]; simpa using hk)]
        exact hexpired.batches k' e he

/-! ## Seals -/

/-- A record that is leased after the expiry of leases has a lease that runs. -/
theorem covers_of_expired
    (he : e ∈ (s.expireOpenLeases now).openRecords) (hf : e.leasedFence = some fence) :
    s.Covers now fence (.record e.record.operationId) := by
  obtain ⟨e₀, he₀, rfl⟩ := mem_map.mp he
  split at hf
  · cases hf
  · rename_i hrun
    rw [if_neg hrun]
    refine ⟨e₀, he₀, rfl, hf, ?_⟩
    rw [hf] at hrun
    exact Int64.not_le.mp fun hle => hrun ⟨rfl, hle⟩

theorem Covers.holds {w : Work} (h : Tracked s i)
    (hc : s.Covers now fence w) : Holds s i now fence w := by
  refine ⟨hc, ?_⟩
  cases w with
  | record id =>
    obtain ⟨e, he, rfl, hf, -⟩ := hc
    exact h.records e he fence hf
  | batch k =>
    obtain ⟨e, he, rfl, -⟩ := hc
    exact h.batches k e he

/-- A seal is charged only for records that are leased under its fence. -/
theorem covers_taken {request : BufferSealRequest} {charged : Option (Nat × Nat)}
    (h : (s.expireOpenLeases request.nowUtcMs).sealCharge P ns request = .ok charged) :
    ∀ id ∈ request.action.taken, s.Covers request.nowUtcMs request.fencingToken (.record id) := by
  unfold sealCharge at h
  cases haction : request.action with
  | releaseCandidate => exact nofun
  | quarantineSingleton id =>
    rw [haction] at h
    dsimp only at h
    split at h
    · cases h
    · rename_i e hfind
      intro id' hid'
      obtain rfl := mem_singleton.mp hid'
      obtain ⟨hf, rfl⟩ := isLeasedAs_iff.mp (find?_some hfind)
      exact covers_of_expired (mem_of_find?_eq_some hfind) hf
  | installBatch batch =>
    rw [haction] at h
    dsimp only at h
    split at h
    · cases h
    · obtain ⟨released, hreleased, -⟩ := Except.bind_eq_ok.mp h
      obtain ⟨-, -, es, hsub, hall, hwrites, -⟩ := claimedBatchBytes_eq_ok hreleased
      intro id hid
      obtain ⟨r, hr, rfl⟩ := mem_map.mp hid
      have hw : batch.write r ∈ es.map (·.record.write) :=
        hwrites ▸ mem_map_of_mem (f := batch.write) hr
      obtain ⟨e, he, heq⟩ := mem_map.mp hw
      rw [show r.operationId = e.record.operationId from
        (congrArg Write.operationId heq).symm]
      exact covers_of_expired (hsub he) (hall e he)

/-- A seal fails and expires leases, or it takes records that are leased under its fence. -/
theorem sealCandidate_cases (s : RetentionState) (P : Platform) (ns : Namespace)
    (request : BufferSealRequest) (nowMono : Option Instant) :
    (∃ e, s.sealCandidate P ns request nowMono = (.error e, s.expireOpenLeases request.nowUtcMs)) ∨
      (∃ id, s.Covers request.nowUtcMs request.fencingToken (.record id)) ∧
      ∀ id ∈ request.action.taken, s.Covers request.nowUtcMs request.fencingToken (.record id) := by
  unfold sealCandidate
  dsimp only
  split
  · exact .inl ⟨_, rfl⟩
  · rename_i hany
    rw [Bool.not_eq_true', Bool.not_eq_false] at hany
    obtain ⟨e, he, hf⟩ := any_eq_true.mp hany
    have hgroup : ∃ id, s.Covers request.nowUtcMs request.fencingToken (.record id) :=
      ⟨_, covers_of_expired he (of_decide_eq_true hf)⟩
    cases hcheck : (s.expireOpenLeases request.nowUtcMs).checkSealCapacity P ns request with
    | error e => exact .inl ⟨_, rfl⟩
    | ok _ =>
      refine .inr ⟨hgroup, ?_⟩
      obtain ⟨charged, hcharge, -⟩ := Except.bind_eq_ok.mp hcheck
      exact covers_taken hcharge

theorem sealCandidate_tracked (h : Tracked s i) (request : BufferSealRequest)
    (nowMono : Option Instant) :
    Tracked (s.sealCandidate P ns request nowMono).2
      (i.step P ns s (.sealCandidate request nowMono)) := by
  have hunleases : Unleases s (s.sealCandidate P ns request nowMono).2 :=
    sealCandidate_unleases request nowMono
  -- all but an installation leave the batches as they are
  have hkeep : (s.sealCandidate P ns request nowMono).2.sealedBatches = s.sealedBatches →
      Tracked (s.sealCandidate P ns request nowMono).2 i := fun heq =>
    h.unleases hunleases fun k e he => ⟨e, heq ▸ he, rfl⟩
  unfold Issues.step
  dsimp only
  generalize hresult : s.sealCandidate P ns request nowMono = result at hunleases hkeep ⊢
  unfold sealCandidate at hresult
  dsimp only at hresult
  split at hresult
  · subst hresult
    exact hkeep rfl
  · split at hresult
    · subst hresult
      exact hkeep rfl
    · split at hresult
      · subst hresult
        exact hkeep rfl
      · unfold quarantineSingleton at hresult
        split at hresult <;> rename_i hq <;> split at hq <;> cases hq <;> subst hresult <;>
          exact hkeep rfl
      · rename_i batch _
        subst hresult
        refine ⟨fun e he fence hf => ?_, fun k e he => ?_, h.increasing,
          fun fence hf => h.issued fence hf, h.bounded⟩
        · dsimp only [Issues.give]
          rw [if_neg (by simp)]
          obtain hmem | hnone := hunleases.openRecords e he
          · exact h.records e hmem fence hf
          · rw [hnone] at hf
            cases hf
        · dsimp only [Issues.give]
          dsimp only [installBatch] at he
          rw [OrdMap.get_insert] at he
          by_cases hk : k = batch.batchId
          · rw [if_pos hk] at he
            cases he
            rw [if_pos (by rw [hk]; exact mem_singleton_self _)]
          · rw [if_neg hk] at he
            rw [if_neg (by simpa using hk)]
            exact h.batches k e he

/-! ## Renewals and settlements -/

theorem validateLease_eq_ok {e : SealedBatchEntry} {u : Unit}
    (h : e.validateLease fence now = .ok u) : e.fencingToken = fence ∧ e.isLeasedAt now = true := by
  unfold SealedBatchEntry.validateLease at h
  split at h
  · cases h
  · rename_i hvalid
    simpa using hvalid

/-- A renewal fails and changes nothing, or its lease runs. -/
theorem renewLease_cases (request : BufferRenewRequest) :
    (∃ e, s.renewLease request = (.error e, s)) ∨
      s.Covers request.nowUtcMs request.fencingToken (.batch request.batchId) := by
  unfold renewLease
  split
  · exact .inl ⟨_, rfl⟩
  · rename_i entry hentry
    split
    · exact .inl ⟨_, rfl⟩
    · rename_i hvalid
      exact .inr ⟨entry, hentry, validateLease_eq_ok hvalid⟩

/-- A settlement fails and changes nothing, or its lease runs. -/
theorem settleBatch_cases (request : BufferSettleRequest) :
    (∃ e, s.settleBatch P request = (.error e, s)) ∨
      s.Covers request.nowUtcMs request.fencingToken (.batch request.batchId) := by
  unfold settleBatch
  split
  · exact .inl ⟨_, rfl⟩
  · rename_i entry hentry
    split
    · exact .inl ⟨_, rfl⟩
    · rename_i hvalid
      obtain ⟨_, hlease, -⟩ := Except.bind_eq_ok.mp hvalid
      exact .inr ⟨entry, hentry, validateLease_eq_ok hlease⟩

theorem completeBatchReceipts_sealedBatches (ho : Ordered s) (batch : SealedBatch)
    {status : AdmissionStatus} (hstatus : status ≠ .buffered) :
    (s.completeBatchReceipts P batch status).sealedBatches = s.sealedBatches := by
  have hdone := foldl_completes hstatus (batch.records.map (·.operationId)) ho
  exact (trimCompletedReceipts_retains hdone.ordered).sealedBatches.trans hdone.sealedBatches

/-- What a settlement leaves of the batches has the fences it had. -/
theorem settleEntry_fences (ho : Ordered s) (request : BufferSettleRequest)
    {entry : SealedBatchEntry} (hkey : entry.batch.batchId = request.batchId) (k : BatchId)
    (e : SealedBatchEntry) (he : (s.settleEntry P request entry).sealedBatches[k]? = some e) :
    s.sealedBatches[k]? = some e ∨ k = request.batchId ∧ e.fencingToken = entry.fencingToken := by
  have hinsert : ∀ e' : SealedBatchEntry, e'.fencingToken = entry.fencingToken →
      (s.sealedBatches.insert entry.batch.batchId e')[k]? = some e →
      s.sealedBatches[k]? = some e ∨ k = request.batchId ∧ e.fencingToken = entry.fencingToken := by
    intro e' hfence he
    rw [OrdMap.get_insert, hkey] at he
    split at he
    · rename_i hk
      cases he
      exact .inr ⟨hk, hfence⟩
    · exact .inl he
  have hcomplete : ∀ (batch : SealedBatch) (status : AdmissionStatus), status ≠ .buffered →
      (s.completeBatchReceipts P batch status).sealedBatches[k]? = some e →
      s.sealedBatches[k]? = some e := fun batch status hstatus he =>
    completeBatchReceipts_sealedBatches ho batch hstatus ▸ he
  unfold settleEntry at he
  split at he
  · exact .inl (hcomplete _ .written nofun he)
  · exact .inl (hcomplete _ .queued nofun he)
  · unfold retainPartialProgress at he
    dsimp only at he
    split at he
    · exact .inl (hcomplete _ .written nofun he)
    · exact hinsert (extendCompleted entry _) rfl he
  · exact hinsert { entry with leaseExpiresAtMs := none } rfl he
  · exact .inl he

theorem settleBatch_tracked (hs : Sound P s) (h : Tracked s i) (request : BufferSettleRequest) :
    Tracked (s.settleBatch P request).2 i := by
  refine h.unleases (settleBatch_unleases hs request) fun k e he => ?_
  unfold settleBatch at he
  split at he
  · exact ⟨e, he, rfl⟩
  · rename_i entry hentry
    split at he
    · exact ⟨e, he, rfl⟩
    · have ho : Ordered { s with sealedBatches := s.sealedBatches.erase request.batchId } :=
        hs.ordered.congr rfl rfl
      have hkey : (scheduleRetry entry request).batch.batchId = request.batchId := by
        rw [(scheduleRetry_batch entry request).1, hs.sealedKey _ _ hentry]
      obtain hold | ⟨rfl, hfence⟩ := settleEntry_fences ho request hkey k e he
      · dsimp only at hold
        rw [OrdMap.get_erase] at hold
        split at hold
        · cases hold
        · exact ⟨e, hold, rfl⟩
      · refine ⟨entry, hentry, hfence.trans ?_⟩
        unfold scheduleRetry
        split <;> rfl

theorem appendRecord_tracked (hs : Sound P s) (h : Tracked s i) (request : BufferAppendRequest)
    (durability : DurabilityClass) : Tracked (s.appendRecord P request durability).2 i := by
  refine h.unleases (appendRecord_unleases hs request durability) fun k e he => ⟨e, ?_, rfl⟩
  obtain ⟨t, hretains, heq | ⟨hnone, reserved, heq⟩⟩ := appendRecord_cases hs request durability
  · rw [heq, hretains.sealedBatches] at he
    exact he
  · have hbuffered : (s.newReceipt P request.record).status = .buffered := rfl
    have htrim := trimCompletedReceipts_retains (P := P)
      (withReceipt_ordered (s.newReceipt P request.record).watermark hretains.ordered hnone
        hbuffered)
    rw [heq, admit_eq hbuffered] at he
    rw [htrim.sealedBatches] at he
    exact hretains.sealedBatches ▸ he

theorem renewLease_tracked (h : Tracked s i) (request : BufferRenewRequest) :
    Tracked (s.renewLease request).2 i := by
  refine h.unleases (renewLease_unleases request) fun k e he => ?_
  unfold renewLease at he
  split at he
  · exact ⟨e, he, rfl⟩
  · rename_i entry hentry
    split at he
    · exact ⟨e, he, rfl⟩
    · dsimp only at he
      rw [OrdMap.get_insert] at he
      split at he
      · rename_i hk
        cases he
        exact ⟨entry, hk ▸ hentry, rfl⟩
      · exact ⟨e, he, rfl⟩

variable (ns)

theorem step_tracked (hs : Sound P s) (h : Tracked s i) (op : Operation) :
    Tracked (s.step P ns op) (i.step P ns s op) := by
  cases op with
  | append request durability => exact appendRecord_tracked hs h request durability
  | claim request => exact claimWork_tracked hs h request
  | sealCandidate request nowMono => exact sealCandidate_tracked h request nowMono
  | renew request => exact renewLease_tracked h request
  | settle request => exact settleBatch_tracked hs h request
  | inspect request durability =>
    exact h.unleases (expireOpenLeases_unleases _) fun k e he => ⟨e, he, rfl⟩

end RetentionState

theorem history_tracked (P : Platform) (ns : Namespace) (ops : List Operation) :
    Sound P (history P ns ops).1 ∧ Tracked (history P ns ops).1 (history P ns ops).2 := by
  refine foldlRecOn ops _
    (motive := fun h : RetentionState × Issues => Sound P h.1 ∧ Tracked h.1 h.2)
    ⟨.empty P, .empty⟩ ?_
  rintro ⟨s, i⟩ ⟨hs, h⟩ op -
  exact ⟨step_sound ns hs op, step_tracked ns hs h op⟩

open RetentionState in
/-- After every sequence of calls, with any clock readings: the fences of claims increase, work has
at most one lease that runs, a seal, a renewal or a settlement succeeds only under the last fence of
what it takes and while the lease runs, and otherwise changes nothing, but for the leases that a
seal finds expired. -/
theorem delivery_fenced (P : Platform) (ns : Namespace) (ops : List Operation) :
    Fenced P ns (history P ns ops).1 (history P ns ops).2 := by
  obtain ⟨hs, h⟩ := history_tracked P ns ops
  generalize history P ns ops = after at hs h
  obtain ⟨s, i⟩ := after
  refine ⟨h.increasing, ?_, ?_, ?_, ?_, ?_, ?_, ?_⟩
  · rintro now (id | k) fence fence' hc hc'
    · obtain ⟨e, he, rfl, hf, -⟩ := hc
      obtain ⟨e', he', hid, hf', -⟩ := hc'
      have hsame := inj_on_of_nodup_map (openRecords_nodup hs) he' he hid
      rw [hsame, hf] at hf'
      exact Option.some.inj hf'
    · obtain ⟨e, he, rfl, -⟩ := hc
      obtain ⟨e', he', rfl, -⟩ := hc'
      rw [Option.some.inj (he.symm.trans he')]
  · intro request nowMono result hok
    obtain ⟨e, heq⟩ | ⟨⟨id, hgroup⟩, htaken⟩ :=
      sealCandidate_cases s P ns request nowMono
    · rw [heq] at hok
      cases hok
    · exact ⟨⟨id, hgroup.holds h⟩, fun id hid => (htaken id hid).holds h⟩
  · intro request hok
    obtain ⟨e, heq⟩ | hc := renewLease_cases (s := s) request
    · rw [heq] at hok
      cases hok
    · exact hc.holds h
  · intro request hok
    obtain ⟨e, heq⟩ | hc := settleBatch_cases (P := P) (s := s) request
    · rw [heq] at hok
      cases hok
    · exact hc.holds h
  · intro request nowMono hstale
    obtain ⟨e, heq⟩ | ⟨⟨id, hgroup⟩, -⟩ :=
      sealCandidate_cases s P ns request nowMono
    · rw [heq]
    · exact absurd ⟨id, hgroup.holds h⟩ hstale
  · intro request hstale
    obtain ⟨e, heq⟩ | hc := renewLease_cases (s := s) request
    · rw [heq]
    · exact absurd (hc.holds h) hstale
  · intro request hstale
    obtain ⟨e, heq⟩ | hc := settleBatch_cases (P := P) (s := s) request
    · rw [heq]
    · exact absurd (hc.holds h) hstale

namespace Sample

/-- A worker releases its batch, to be retried in ten seconds. -/
def release (fence : Nat) : Operation := .settle {
  batchId := batchId
  fencingToken := ⟨fence⟩
  disposition := .releaseForRetry (.fromMillis 10000)
  nowUtcMs := 0 }

/-- A worker gives its candidate back. -/
def giveBack (fence : Nat) (now : Int64) : BufferSealRequest where
  fencingToken := ⟨fence⟩
  action := .releaseCandidate
  capacity := capacity 4000
  leaseDuration := .fromMillis 1000
  nowUtcMs := now

/-- The batch of the first record is released, and then the second record is claimed. -/
def releasedThenClaimed : List Operation :=
  [append 0 0 4000, claim, install 1 0 4000, release 1, append 1 0 4000, claim]

end Sample

open Sample in
/-- The batch of fence 1 has been released, and fence 2 leases a record until 1000. A seal under
fence 1 with a clock at 2000 is refused, but takes the lease of fence 2 away, whose holder is then
refused with its clock at 0. -/
theorem stale_seal_expires_leases :
    let s := (history platform provider releasedThenClaimed).1
    let stale := s.sealCandidate platform provider (giveBack 1 2000) none
    stale.1 = .error (.staleFence 1) ∧ stale.2.openRecords ≠ s.openRecords ∧
      (s.sealCandidate platform provider (giveBack 2 0) none).1 = .ok none ∧
      (stale.2.sealCandidate platform provider (giveBack 2 0) none).1 =
        .error (.staleFence 2) := by
  decide +kernel

end AuxCommon.BufferedWrites
