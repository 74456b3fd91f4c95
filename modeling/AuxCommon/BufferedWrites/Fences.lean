import AuxCommon.BufferedWrites.Run

/-!
# The leases of open records

An operation releases leases or issues one new fence and leases records under it (`Leases`). So
while the 64-bit generation has not reached its maximum, where it stays, a record that is leased
under the fence of a claim is one of the claimed records, with the charge it was claimed with
(`Claimed`, `run_claimed`).
-/

namespace AuxCommon.BufferedWrites

open Std List

variable {P : Platform} {ns : Namespace} {s s' : RetentionState} {fence : FencingToken}
  {e : OpenRecordEntry} {claimed : List (AdmittedRecord × Nat)} {c : OpenBatchCandidate}

namespace RetentionState

/-- An open record of the next state is one of this state, or without a lease, or leased under the
fence that the operation issued. -/
structure Leases (s s' : RetentionState) : Prop where
  openRecords : ∀ e ∈ s'.openRecords, e ∈ s.openRecords ∨ e.leasedFence = none ∨
    e.leasedFence = some ⟨satAdd s.nextGeneration 1⟩ ∧
      s'.nextGeneration = satAdd s.nextGeneration 1
  generation : s'.nextGeneration = s.nextGeneration ∨
    s'.nextGeneration = satAdd s.nextGeneration 1

/-- An open record of the next state is one of this state or without a lease, and no fence was
issued. -/
structure Unleases (s s' : RetentionState) : Prop where
  openRecords : ∀ e ∈ s'.openRecords, e ∈ s.openRecords ∨ e.leasedFence = none
  generation : s'.nextGeneration = s.nextGeneration

namespace Unleases

theorem refl (s : RetentionState) : Unleases s s := ⟨fun _ he => .inl he, rfl⟩

theorem trans {t : RetentionState} (h : Unleases s t) (h' : Unleases t s') : Unleases s s' where
  openRecords e he := (h'.openRecords e he).elim (h.openRecords e) .inr
  generation := h'.generation.trans h.generation

theorem leases (h : Unleases s s') : Leases s s' where
  openRecords e he := (h.openRecords e he).imp_right .inl
  generation := .inl h.generation

/-- A step after the release of leases. -/
theorem before {t : RetentionState} (h : Unleases s t) (ht : Leases t s') : Leases s s' where
  openRecords e he := by
    rcases ht.openRecords e he with hmem | hnew
    · exact (h.openRecords e hmem).imp_right .inl
    · rw [h.generation] at hnew; exact .inr hnew
  generation := by rw [← h.generation]; exact ht.generation

end Unleases

theorem mem_expireOpenLeases {now : Int64}
    (he : e ∈ (s.expireOpenLeases now).openRecords) : e ∈ s.openRecords ∨ e.leasedFence = none := by
  obtain ⟨e₀, he₀, rfl⟩ := mem_map.mp he
  split
  · exact .inr rfl
  · exact .inl he₀

theorem mem_releaseCandidateFence (he : e ∈ (s.releaseCandidateFence fence).openRecords) :
    e ∈ s.openRecords ∨ e.leasedFence = none := by
  obtain ⟨e₀, he₀, rfl⟩ := mem_map.mp he
  split
  · exact .inr rfl
  · exact .inl he₀

theorem expireOpenLeases_unleases (now : Int64) : Unleases s (s.expireOpenLeases now) :=
  ⟨fun _ he => mem_expireOpenLeases he, rfl⟩

theorem releaseCandidateFence_unleases (fence : FencingToken) :
    Unleases s (s.releaseCandidateFence fence) :=
  ⟨fun _ he => mem_releaseCandidateFence he, rfl⟩

theorem retains_unleases (h : Retains s s') : Unleases s s' := by
  rw [h.frame]; exact ⟨fun _ he => .inl he, rfl⟩

theorem completes_unleases {status : AdmissionStatus} {ids : List OperationId}
    (h : Completes status ids s s') : Unleases s s' := by
  rw [h.frame]; exact ⟨fun _ he => .inl he, rfl⟩

variable {request : BufferClaimRequest} {until_ : Int64}

/-- The open records that a claim leaves are old ones and those that it leases. -/
theorem leaseLoop_mem {scope : TenantScope} {count bytes : Nat} {es : List OpenRecordEntry} :
    let r := leaseLoop request scope fence until_ count bytes es
    (∀ e ∈ r.1, e ∈ es ∨ e ∈ r.2 ∧ e.leasedFence = some fence) ∧
      ∀ e ∈ r.2, e ∈ r.1 ∧ e.leasedFence = some fence := by
  induction es generalizing count bytes with
  | nil => exact ⟨nofun, nofun⟩
  | cons e₀ es ih =>
    unfold leaseLoop
    split
    · grind
    · dsimp only
      split <;> grind

theorem claimOpenCandidate_leases (request : BufferClaimRequest) (until_ : Int64) :
    Leases s (s.claimOpenCandidate P request until_).2 := by
  unfold claimOpenCandidate
  split
  · exact (Unleases.refl s).leases
  · dsimp only [allocateFence]
    refine ⟨fun e he => ?_, ?_⟩
    · have hmem := leaseLoop_mem.1 e (by split at he <;> exact he)
      rcases hmem with h | ⟨-, h⟩
      · exact .inl h
      · exact .inr (.inr ⟨h, by split <;> rfl⟩)
    · right; split <;> rfl

theorem claimWork_leases (request : BufferClaimRequest) : Leases s (s.claimWork P request).2 := by
  refine (expireOpenLeases_unleases request.nowUtcMs).before ?_
  unfold claimWork
  dsimp only
  split
  · exact ⟨fun e he => .inl he, .inr rfl⟩
  · split
    · exact (Unleases.refl _).leases
    · exact claimOpenCandidate_leases request _

theorem sealCandidate_unleases (request : BufferSealRequest) (nowMono : Option Instant) :
    Unleases s (s.sealCandidate P ns request nowMono).2 := by
  refine (expireOpenLeases_unleases request.nowUtcMs).trans ?_
  unfold sealCandidate
  dsimp only
  split
  · exact .refl _
  · split
    · exact .refl _
    · split
      · exact releaseCandidateFence_unleases _
      · rename_i id _
        have hq : Unleases (s.expireOpenLeases request.nowUtcMs)
            ((s.expireOpenLeases request.nowUtcMs).quarantineSingleton id request.fencingToken).2 := by
          unfold quarantineSingleton
          split
          · exact .refl _
          · refine ⟨fun e he => ?_, rfl⟩
            exact (mem_releaseCandidateFence he).imp_left mem_of_mem_eraseP
        split <;> rename_i heq <;> rw [heq] at hq <;> exact hq
      · refine ⟨fun e he => ?_, rfl⟩
        exact (mem_releaseCandidateFence he).imp_left mem_of_mem_filter

theorem admit_unleases {record : AdmittedRecord} {reserved : Nat} {receipt : StoredAdmissionReceipt}
    (ho : Ordered s) (hnone : s.admissionReceipts[record.operationId]? = none)
    (hbuffered : receipt.status = .buffered) :
    Unleases s (s.admitRecord P record reserved receipt.watermark receipt) := by
  have htrim := retains_unleases (trimCompletedReceipts_retains (P := P)
    (withReceipt_ordered receipt.watermark ho hnone hbuffered))
  rw [admit_eq hbuffered]
  refine ⟨fun e he => ?_, htrim.generation⟩
  rcases mem_append.mp he with hmem | hmem
  · exact htrim.openRecords e hmem
  · rw [mem_singleton.mp hmem]; exact .inr rfl

/-- An append keeps the state but for completed receipts, or admits its record to such a state. -/
theorem appendRecord_cases (hs : Sound P s) (request : BufferAppendRequest)
    (durability : DurabilityClass) :
    ∃ t, Retains s t ∧ ((s.appendRecord P request durability).2 = t ∨
      t.admissionReceipts[request.record.operationId]? = none ∧
      ∃ reserved, (s.appendRecord P request durability).2 =
        t.admitRecord P request.record reserved (s.newReceipt P request.record).watermark
          (s.newReceipt P request.record)) := by
  have hkeep := Retains.refl hs.ordered
  unfold appendRecord
  dsimp only
  cases hnone : s.admissionReceipts[request.record.operationId]? with
  | some existing =>
    refine ⟨s, hkeep, .inl ?_⟩
    dsimp only
    split <;> rfl
  | none =>
    dsimp only
    split
    · exact ⟨s, hkeep, .inl rfl⟩
    · rename_i itemBytes _
      split
      · exact ⟨s, hkeep, .inl rfl⟩
      · have hretains := reclaimLoop_retains (P := P) (request.capacity.byteLimit - itemBytes)
          s.completedReceiptOrder.length (s.totalAccountedBytes P) hs.ordered
        unfold reclaimCompletedReceipts
        generalize reclaimLoop P (request.capacity.byteLimit - itemBytes)
          s.completedReceiptOrder.length (s.totalAccountedBytes P) s = reclaimed at hretains
        obtain ⟨result, t⟩ := reclaimed
        cases result with
        | error e => exact ⟨t, hretains, .inl rfl⟩
        | ok _ =>
          exact ⟨t, hretains, .inr ⟨(hretains.receipts _).elim (·.trans hnone) (·.2), _, rfl⟩⟩

theorem appendRecord_unleases (hs : Sound P s) (request : BufferAppendRequest)
    (durability : DurabilityClass) : Unleases s (s.appendRecord P request durability).2 := by
  obtain ⟨t, hretains, heq | ⟨hnone, reserved, heq⟩⟩ := appendRecord_cases hs request durability
  · rw [heq]
    exact retains_unleases hretains
  · rw [heq]
    exact (retains_unleases hretains).trans (admit_unleases hretains.ordered hnone rfl)

theorem settleEntry_unleases (ho : Ordered s) (request : BufferSettleRequest)
    (entry : SealedBatchEntry) : Unleases s (s.settleEntry P request entry) := by
  have hcomplete : ∀ (batch : SealedBatch) (status : AdmissionStatus), status ≠ .buffered →
      Unleases s (s.completeBatchReceipts P batch status) := by
    intro batch status hstatus
    have hdone := foldl_completes hstatus (batch.records.map (·.operationId)) ho
    exact (completes_unleases hdone).trans
      (retains_unleases (trimCompletedReceipts_retains hdone.ordered))
  unfold settleEntry
  split
  · exact hcomplete _ _ nofun
  · exact hcomplete _ _ nofun
  · unfold retainPartialProgress
    dsimp only
    split
    · exact hcomplete _ _ nofun
    · exact ⟨fun _ he => .inl he, rfl⟩
  · exact ⟨fun _ he => .inl he, rfl⟩
  · exact ⟨fun _ he => .inl he, rfl⟩

theorem settleBatch_unleases (hs : Sound P s) (request : BufferSettleRequest) :
    Unleases s (s.settleBatch P request).2 := by
  unfold settleBatch
  split
  · exact .refl s
  · split
    · exact .refl s
    · have ho : Ordered { s with sealedBatches := s.sealedBatches.erase request.batchId } :=
        hs.ordered.congr rfl rfl
      have hsettled := settleEntry_unleases (P := P) ho request
      exact ⟨(hsettled _).openRecords, (hsettled _).generation⟩

theorem renewLease_unleases (request : BufferRenewRequest) :
    Unleases s (s.renewLease request).2 := by
  unfold renewLease
  split
  · exact .refl s
  · split
    · exact .refl s
    · exact ⟨fun _ he => .inl he, rfl⟩

variable (ns) in
theorem step_leases (hs : Sound P s) (op : Operation) : Leases s (s.step P ns op) := by
  cases op with
  | append request durability => exact (appendRecord_unleases hs request durability).leases
  | claim request => exact claimWork_leases request
  | sealCandidate request nowMono => exact (sealCandidate_unleases request nowMono).leases
  | renew request => exact (renewLease_unleases request).leases
  | settle request => exact (settleBatch_unleases hs request).leases
  | inspect request durability => exact (expireOpenLeases_unleases request.nowUtcMs).leases

/-- While fences have not run out, an operation issues a new one or none. -/
theorem Leases.mono (h : Leases s s') (hgen : s'.nextGeneration < wordMax) :
    s.nextGeneration < wordMax ∧ s.nextGeneration ≤ s'.nextGeneration := by
  rcases h.generation with heq | heq
  · omega
  · unfold satAdd at heq; omega

/-- No lease is under a fence that has not been issued. -/
def FencesIssued (s : RetentionState) : Prop :=
  ∀ e ∈ s.openRecords, ∀ fence, e.leasedFence = some fence → fence.generation ≤ s.nextGeneration

theorem FencesIssued.expire (h : FencesIssued s) (now : Int64) :
    FencesIssued (s.expireOpenLeases now) := by
  intro e he fence hfence
  rcases mem_expireOpenLeases he with hmem | hnone
  · exact h e hmem fence hfence
  · rw [hnone] at hfence; cases hfence

theorem Leases.fencesIssued (h : Leases s s') (hs : FencesIssued s)
    (hgen : s'.nextGeneration < wordMax) : FencesIssued s' := by
  intro e he fence hfence
  rcases h.openRecords e he with hmem | hnone | ⟨hnew, hnext⟩
  · exact (hs e hmem fence hfence).trans (h.mono hgen).2
  · rw [hnone] at hfence; cases hfence
  · rw [hnew] at hfence; cases hfence; exact hnext.ge

/-- The records that are leased under `fence` are among the claimed ones, with the charge that they
were claimed with. -/
structure Claimed (P : Platform) (fence : FencingToken) (claimed : List (AdmittedRecord × Nat))
    (s : RetentionState) : Prop where
  issued : fence.generation ≤ s.nextGeneration
  entries : ∀ e ∈ s.openRecords, e.leasedFence = some fence →
    (e.record, e.accountedBytes P) ∈ claimed

theorem Claimed.leases
    (hc : Claimed P fence claimed s) (h : Leases s s') (hgen : s'.nextGeneration < wordMax) :
    Claimed P fence claimed s' where
  issued := hc.issued.trans (h.mono hgen).2
  entries e he hfence := by
    rcases h.openRecords e he with hmem | hnone | ⟨hnew, hnext⟩
    · exact hc.entries e hmem hfence
    · rw [hnone] at hfence; cases hfence
    · -- a new fence is after every fence that was issued before
      rw [hnew] at hfence
      have hissued := hc.issued
      have hfence : satAdd s.nextGeneration 1 = fence.generation :=
        congrArg FencingToken.generation (Option.some.inj hfence)
      rw [hnext] at hgen
      unfold satAdd at hgen hfence
      omega

section Runs

variable (ns)

theorem run_generation (hs : Sound P s) (ops : List Operation)
    (hgen : (s.run P ns ops).nextGeneration < wordMax) : s.nextGeneration < wordMax := by
  induction ops generalizing s with
  | nil => exact hgen
  | cons op ops ih =>
    exact ((step_leases ns hs op).mono (ih (step_sound ns hs op) hgen)).1

theorem run_fencesIssued (hs : Sound P s) (hf : FencesIssued s) (ops : List Operation)
    (hgen : (s.run P ns ops).nextGeneration < wordMax) :
    FencesIssued (s.run P ns ops) := by
  induction ops generalizing s with
  | nil => exact hf
  | cons op ops ih =>
    have hs' := step_sound ns hs op
    have hnext := run_generation ns hs' ops hgen
    exact ih hs' ((step_leases ns hs op).fencesIssued hf hnext) hgen

theorem run_claimed (hs : Sound P s) (hc : Claimed P fence claimed s) (ops : List Operation)
    (hgen : (s.run P ns ops).nextGeneration < wordMax) :
    Claimed P fence claimed (s.run P ns ops) := by
  induction ops generalizing s with
  | nil => exact hc
  | cons op ops ih =>
    have hs' := step_sound ns hs op
    have hnext := run_generation ns hs' ops hgen
    exact ih hs' (hc.leases (step_leases ns hs op) hnext) hgen

end Runs

/-! ## The claimed records -/

theorem leaseLoop_leased (request : BufferClaimRequest) (scope : TenantScope)
    (fence : FencingToken) (until_ : Int64) (count bytes : Nat) (es : List OpenRecordEntry) :
    ((leaseLoop request scope fence until_ count bytes es).2.map (·.record)).Sublist
        (es.map (·.record)) ∧
      ∀ e ∈ (leaseLoop request scope fence until_ count bytes es).2, e.record.scope = scope := by
  induction es generalizing count bytes with
  | nil => exact ⟨.slnil, fun _ he => absurd he not_mem_nil⟩
  | cons e es ih =>
    unfold leaseLoop
    split
    · exact ⟨(ih _ _).1.cons _, (ih _ _).2⟩
    · rename_i hopen
      dsimp only
      split
      · exact ⟨nil_sublist _, fun _ he => absurd he not_mem_nil⟩
      · refine ⟨(ih _ _).1.cons_cons _, fun e' he' => ?_⟩
        rcases mem_cons.mp he' with rfl | he'
        · simp only [Bool.or_eq_true, decide_eq_true_eq, not_or, not_not] at hopen
          exact hopen.1.2
        · exact (ih _ _).2 e' he'

/-- What a claim gives to the engine: records of one scope with their charges, and a fence under
which no others are leased. -/
structure Candidate (c : OpenBatchCandidate)
    (claimed : List (AdmittedRecord × Nat)) : Prop where
  records : c.records = claimed.map Prod.fst
  reservedBytes : c.reservedBytes = claimed.map Prod.snd
  nodup : (claimed.map (·.1.operationId)).Nodup
  scope : ∃ scope : TenantScope, ∀ r ∈ c.records, r.scope = scope

theorem claimOpenCandidate_candidate (hs : Sound P s) (hf : FencesIssued s)
    (h : s.claimOpenCandidate P request until_ = (.openCandidate c, s'))
    (hgen : s'.nextGeneration < wordMax) :
    ∃ claimed, Candidate c claimed ∧ Claimed P c.fencingToken claimed s' := by
  unfold claimOpenCandidate at h
  split at h
  · cases h
  · rename_i scope _
    dsimp only [allocateFence] at h
    split at h
    · cases h
    · cases h
      have hnew : s.nextGeneration < satAdd s.nextGeneration 1 := by
        have hlt : satAdd s.nextGeneration 1 < wordMax := hgen
        unfold satAdd at hlt ⊢
        omega
      obtain ⟨hsub, hscope⟩ := leaseLoop_leased request scope ⟨satAdd s.nextGeneration 1⟩ until_ 0 0
        s.openRecords
      refine ⟨(leaseLoop request scope ⟨satAdd s.nextGeneration 1⟩ until_ 0 0 s.openRecords).2.map
        fun e => (e.record, e.accountedBytes P), ⟨?_, ?_, ?_, scope, ?_⟩, le_rfl, ?_⟩
      · rw [map_map]; rfl
      · rw [map_map]; rfl
      · have hids := hsub.map AdmittedRecord.operationId
        rw [map_map, map_map] at hids
        rw [map_map]
        exact hids.nodup (openRecords_nodup hs)
      · intro r hr
        obtain ⟨e, he, rfl⟩ := mem_map.mp hr
        exact hscope e he
      · intro e he hfence
        rcases leaseLoop_mem.1 _ he with hmem | ⟨hmem, -⟩
        · exact absurd (hf e hmem _ hfence) (Nat.not_le_of_lt hnew)
        · exact mem_map_of_mem hmem

theorem claimWork_candidate
    (hs : Sound P s) (hf : FencesIssued s) (h : s.claimWork P request = (.openCandidate c, s'))
    (hgen : s'.nextGeneration < wordMax) :
    ∃ claimed, Candidate c claimed ∧ Claimed P c.fencingToken claimed s' := by
  have hsound := hs.releases (expireOpenLeases_releases (s := s) request.nowUtcMs)
  unfold claimWork at h
  dsimp only at h
  split at h
  · cases h
  · split at h
    · cases h
    · exact claimOpenCandidate_candidate hsound (hf.expire request.nowUtcMs) h hgen

end RetentionState

end AuxCommon.BufferedWrites
