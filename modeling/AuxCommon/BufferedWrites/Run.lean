import AuxCommon.BufferedWrites.Steps

/-!
# Runs of a retention provider

Every operation on a sound state is a change of leases followed by one effect (`step_effect`), so
every run from the empty state stays sound (`run_sound`).
-/

namespace AuxCommon.BufferedWrites

open Std List OpenRecordEntry

variable {P : Platform} {ns : Namespace} {s : RetentionState}

namespace RetentionState

/-! ## Admission and settlement as events -/

/-- The write that an operation admits: an append that is accepted and no duplicate. -/
def admittedBy (P : Platform) (s : RetentionState) : Operation → List Write
  | .append request durability =>
    match (s.appendRecord P request durability).1 with
    | .ok result => if result.duplicate then [] else [request.record.write]
    | .error _ => []
  | .claim _ | .sealCandidate _ _ | .renew _ | .settle _ | .inspect _ _ => []

/-- The disposition completes every operation of the batch. -/
def completesBatch (entry : SealedBatchEntry) : SettleDisposition → Bool
  | .delivered | .handedOffToQueue => true
  | .partialProgress completedIds _ =>
    (extendCompleted entry completedIds).pendingOperationIds.isEmpty
  | .releaseForRetry _ | .quarantine _ => false

/-- The writes that an operation completes: those of a batch whose settlement is accepted and
completes it. -/
def settledBy (s : RetentionState) : Operation → List Write
  | .settle request =>
    match s.sealedBatches[request.batchId]? with
    | none => []
    | some entry =>
      match validateSettlement entry request with
      | .ok () => if completesBatch entry request.disposition then entry.batch.writes else []
      | .error _ => []
  | .append _ _ | .claim _ | .sealCandidate _ _ | .renew _ | .inspect _ _ => []

/-! ## Append -/

theorem appendRecord_effect (hs : Sound P s) (request : BufferAppendRequest)
    (durability : DurabilityClass) :
    Effect P (some request.capacity) s (s.admittedBy P (.append request durability)) []
      (s.appendRecord P request durability).2 := by
  unfold admittedBy appendRecord
  dsimp only
  cases hnone : s.admissionReceipts[request.record.operationId]? with
  | some existing =>
    dsimp only
    cases existing.verifyRecord request.record (request.record.digestRecord P) with
    | error e => exact .keep (.refl s)
    | ok _ => exact .keep (.refl s)
  | none =>
    cases hitem : checkedAdd (admissionReservedBytes P request.record request.reservedBytes)
        ((s.newReceipt P request.record).accountedBytes P request.record.operationId) with
    | none => exact .keep (.refl s)
    | some itemBytes =>
      dsimp only
      cases hcheck : s.checkAppendCapacity P request itemBytes with
      | error e => exact .keep (.refl s)
      | ok _ =>
        have hretains := reclaimLoop_retains (P := P) (request.capacity.byteLimit - itemBytes)
          s.completedReceiptOrder.length (s.totalAccountedBytes P) hs.ordered
        have hspec := reclaimLoop_spec (P := P) (request.capacity.byteLimit - itemBytes)
          s.completedReceiptOrder.length hs.ordered le_rfl
        rw [← totalAccountedBytes_eq hs.within] at hspec
        unfold reclaimCompletedReceipts
        generalize reclaimLoop P (request.capacity.byteLimit - itemBytes)
          s.completedReceiptOrder.length (s.totalAccountedBytes P) s = reclaimed at hretains hspec
        obtain ⟨result, t⟩ := reclaimed
        cases result with
        | error e => exact .evict hretains
        | ok _ =>
          rcases hspec with ⟨-, -, hbelow⟩ | ⟨hfull, -⟩
          · have hfits : itemBytes ≤ request.capacity.byteLimit := by
              unfold checkAppendCapacity at hcheck
              split at hcheck
              · cases hcheck
              · omega
            obtain ⟨-, hsum⟩ := checkedAdd_eq_some.mp hitem
            refine .admitRecord hretains hnone rfl rfl ?_
            have hself : max (admissionReservedBytes P request.record request.reservedBytes)
                (recordBytes P request.record) =
                admissionReservedBytes P request.record request.reservedBytes :=
              max_eq_left (le_max_right _ _)
            dsimp only at hbelow
            rw [hself]
            omega
          · cases hfull

/-! ## Seal -/

theorem openRecords_nodup (hs : Sound P s) : (s.openRecords.map (·.record.operationId)).Nodup := by
  refine nodup_iff_count_le_one.mpr fun id => ?_
  have hone := hs.held_le_one id
  have hcount := sum_hasId (s.openRecords.map (·.record.write)) id
  rw [map_map, map_map] at hcount
  have hopen : (s.openRecords.map (countId id).openRecord).sum =
      (s.openRecords.map (·.record.operationId)).count id := hcount
  unfold weigh at hone
  omega

variable {fence : FencingToken}

theorem isLeasedAs_iff {id : OperationId} {e : OpenRecordEntry} :
    e.isLeasedAs fence id = true ↔ e.leasedFence = some fence ∧ e.record.operationId = id := by
  simp [isLeasedAs]

variable {batch : SealedBatch} {request : BufferSealRequest} {c : Option BufferCapacity}

theorem claimedRecordBytes_eq_ok {record : PersistedRecord} {bytes : Nat}
    (h : s.claimedRecordBytes P fence batch record = .ok bytes) :
    ∃ e ∈ s.openRecords, e.leasedFence = some fence ∧ e.record.write = batch.write record ∧
      bytes = e.accountedBytes P := by
  unfold claimedRecordBytes at h
  split at h
  · cases h
  · rename_i e he
    obtain ⟨hfence, hid⟩ := isLeasedAs_iff.mp (find?_some he)
    split at h
    · cases h
    · rename_i hsame
      simp only [not_or, not_not] at hsame
      refine ⟨e, mem_of_find?_eq_some he, hfence, ?_, by cases h; rfl⟩
      simp [AdmittedRecord.write, SealedBatch.write, hid, hsame]

/-- The claimed records of a batch, one for each of its records. -/
theorem claimedBatchBytes_eq_ok {bytes : Nat} (h : s.claimedBatchBytes P fence batch = .ok bytes) :
    s.sealedBatches[batch.batchId]? = none ∧ s.quarantinedBatches[batch.batchId]? = none ∧
      ∃ es : List OpenRecordEntry, es ⊆ s.openRecords ∧
        (∀ e ∈ es, e.leasedFence = some fence) ∧ es.map (·.record.write) = batch.writes ∧
        bytes = min (es.map (accountedBytes P)).sum wordMax := by
  unfold claimedBatchBytes at h
  split at h
  · cases h
  · rename_i hnew
    simp only [Bool.or_eq_true, not_or, Bool.not_eq_true] at hnew
    rw [← ExtTreeMap.isSome_getElem?_eq_contains, ← ExtTreeMap.isSome_getElem?_eq_contains,
      Option.isSome_eq_false_iff, Option.isSome_eq_false_iff, Option.isNone_iff_eq_none,
      Option.isNone_iff_eq_none] at hnew
    refine ⟨hnew.1, hnew.2, ?_⟩
    -- the induction carries the sum of the entries found so far
    have hloop : ∀ (records : List PersistedRecord) (start total : Nat), start ≤ wordMax →
        records.foldlM (fun bytes record => do
          return satAdd bytes (← s.claimedRecordBytes P fence batch record)) start = .ok total →
        ∃ es : List OpenRecordEntry, es ⊆ s.openRecords ∧ (∀ e ∈ es, e.leasedFence = some fence) ∧
          es.map (·.record.write) = records.map batch.write ∧
          total = min (start + (es.map (accountedBytes P)).sum) wordMax := by
      intro records
      induction records with
      | nil =>
        intro start total hstart hfold
        cases hfold
        exact ⟨[], nil_subset _, fun e he => (not_mem_nil he).elim, rfl, by simp [hstart]⟩
      | cons record records ih =>
        intro start total _ hfold
        rw [foldlM_cons] at hfold
        obtain ⟨next, hnext, hrest⟩ := Except.bind_eq_ok.mp hfold
        obtain ⟨bytes', hbytes, hpure⟩ := Except.bind_eq_ok.mp hnext
        cases hpure
        obtain ⟨e, he, hfence, hwrite, rfl⟩ := claimedRecordBytes_eq_ok hbytes
        obtain ⟨es, hsub, hall, hwrites, htotal⟩ := ih _ total (satAdd_le _ _) hrest
        refine ⟨e :: es, cons_subset.mpr ⟨he, hsub⟩, ?_, ?_, ?_⟩
        · intro e' he'
          rcases mem_cons.mp he' with rfl | he'
          · exact hfence
          · exact hall e' he'
        · rw [map_cons, map_cons, hwrite, hwrites]
        · rw [htotal, map_cons, sum_cons, satAdd]
          omega
    obtain ⟨es, hsub, hall, hwrites, htotal⟩ := hloop batch.records 0 bytes (Nat.zero_le _) h
    exact ⟨es, hsub, hall, hwrites, by rw [htotal, Nat.zero_add]⟩

/-- The entries that an installed batch takes away are the claimed ones. -/
theorem claimed_perm (hs : Sound P s) {es : List OpenRecordEntry} (hsub : es ⊆ s.openRecords)
    (hall : ∀ e ∈ es, e.leasedFence = some fence)
    (hwrites : es.map (·.record.write) = batch.writes) :
    (s.openRecords.filter fun e =>
      decide (e.leasedFence = some fence ∧
        e.record.operationId ∈ batch.records.map (·.operationId))).Perm es := by
  have hids : es.map (·.record.operationId) = batch.records.map (·.operationId) := by
    rw [← batch.map_writes, ← hwrites, map_map]
    rfl
  have hopen := openRecords_nodup hs
  have hes : es.Nodup := (hids ▸ batch.nodup_records).of_map
  refine (perm_ext_iff_of_nodup (hopen.of_map.filter _) hes).mpr fun e => ?_
  rw [mem_filter, decide_eq_true_eq]
  constructor
  · rintro ⟨he, -, hid⟩
    rw [← hids] at hid
    obtain ⟨e', he', heq⟩ := mem_map.mp hid
    rw [← inj_on_of_nodup_map hopen (hsub he') he heq]
    exact he'
  · intro he
    exact ⟨hsub he, hall e he, hids ▸ mem_map_of_mem he⟩

theorem checkSealCapacity_eq_ok {u : Unit} {released retained : Nat}
    (hcharge : s.sealCharge P ns request = .ok (some (released, retained)))
    (h : s.checkSealCapacity P ns request = .ok u) :
    s.totalAccountedBytes P - released + retained ≤ request.capacity.byteLimit := by
  unfold checkSealCapacity at h
  rw [hcharge] at h
  obtain ⟨_, hok, hrest⟩ := Except.bind_eq_ok.mp h
  cases hok
  dsimp only at hrest
  split at hrest
  · cases hrest
  · rename_i hfits
    cases hadd : checkedAdd (s.totalAccountedBytes P - released) retained with
    | none => rw [hadd] at hfits; simp at hfits
    | some n =>
      obtain ⟨-, rfl⟩ := checkedAdd_eq_some.mp hadd
      rw [hadd] at hfits
      simpa using hfits

theorem installBatch_effect (hs : Sound P s)
    {u : Unit} (haction : request.action = .installBatch batch)
    (h : s.checkSealCapacity P ns request = .ok u) (nowMono : Option Instant) :
    Effect P (some request.capacity) s [] [] (s.installBatch request nowMono batch) := by
  have hcharge : ∃ released, s.claimedBatchBytes P request.fencingToken batch = .ok released ∧
      s.sealCharge P ns request = .ok (some (released, SealedBatchEntry.batchBytes P batch)) := by
    obtain ⟨charged, hcharged, -⟩ := Except.bind_eq_ok.mp h
    rw [hcharged]
    unfold sealCharge at hcharged
    rw [haction] at hcharged
    dsimp only at hcharged
    split at hcharged
    · cases hcharged
    · obtain ⟨released, hreleased, hpure⟩ := Except.bind_eq_ok.mp hcharged
      cases hpure
      exact ⟨released, hreleased, rfl⟩
  obtain ⟨released, hreleased, hsealCharge⟩ := hcharge
  have hroom := checkSealCapacity_eq_ok hsealCharge h
  obtain ⟨hk, hq, es, hsub, hall, hwrites, hsum⟩ := claimedBatchBytes_eq_ok hreleased
  have hperm := claimed_perm hs hsub hall hwrites
  have hsplit := (filter_append_perm (fun e : OpenRecordEntry =>
    decide (e.leasedFence = some request.fencingToken ∧
      e.record.operationId ∈ batch.records.map (·.operationId))) s.openRecords).symm
  refine .install hsplit
    (releaseCandidateFence_releases (s := { s with openRecords := _ }) _).openRecords
    ((hperm.map _).trans (by rw [hwrites])) hk hq rfl rfl ?_
  rw [(hperm.map _).sum_eq]
  rw [totalAccountedBytes_eq hs.within, hsum] at hroom
  -- the released bytes are part of the total, so they fit in a word
  have hle : (es.map (accountedBytes P)).sum ≤ s.weigh (charge P) := by
    have hopen := (hsplit.map (accountedBytes P)).sum_eq
    rw [map_append, sum_append, (hperm.map _).sum_eq] at hopen
    have hcharge : (charge P).openRecord = accountedBytes P := rfl
    unfold weigh
    rw [hcharge]
    omega
  have hwithin := hs.within
  omega

theorem quarantineSingleton_effect (id : OperationId) (fence : FencingToken)
    (c : Option BufferCapacity) :
    Effect P c s [] [] (s.quarantineSingleton id fence).2 := by
  unfold quarantineSingleton
  cases hfind : s.openRecords.find? (·.isLeasedAs fence id) with
  | none => exact .keep (.refl s)
  | some e =>
    have hid := (isLeasedAs_iff.mp (find?_some hfind)).2
    obtain ⟨before, after, hsplit, hbefore⟩ :=
      (find?_eq_some_iff_append.mp hfind).2
    have herase : s.openRecords.eraseP (·.isLeasedAs fence id) = before ++ after := by
      rw [hsplit, eraseP_append_right _ fun b hb => by simpa using hbefore b hb,
        eraseP_cons_of_pos (find?_some hfind)]
    have hperm : s.openRecords.Perm (e :: (before ++ after)) := by
      rw [hsplit]; exact perm_middle
    subst hid
    rw [herase]
    exact .quarantineItem hperm
      (releaseCandidateFence_releases (s := { s with openRecords := _ }) fence).openRecords

theorem sealCandidate_effect (hs : Sound P s) (request : BufferSealRequest)
    (nowMono : Option Instant) :
    Effect P (some request.capacity) (s.expireOpenLeases request.nowUtcMs) [] []
      (s.sealCandidate P ns request nowMono).2 := by
  have hs' := hs.releases (expireOpenLeases_releases request.nowUtcMs)
  unfold sealCandidate
  dsimp only
  split
  · exact .keep (.refl _)
  · cases hcheck : (s.expireOpenLeases request.nowUtcMs).checkSealCapacity P ns request with
    | error e => exact .keep (.refl _)
    | ok _ =>
      cases haction : request.action with
      | releaseCandidate => exact .keep (releaseCandidateFence_releases _)
      | quarantineSingleton id =>
        have heffect := quarantineSingleton_effect (P := P) (s := s.expireOpenLeases request.nowUtcMs)
          id request.fencingToken (some request.capacity)
        dsimp only
        split <;> rename_i hq <;> rw [hq] at heffect <;> exact heffect
      | installBatch batch => exact installBatch_effect hs' haction hcheck nowMono

/-! ## Settle -/

theorem scheduleRetry_batch (entry : SealedBatchEntry) (request : BufferSettleRequest) :
    (scheduleRetry entry request).batch = entry.batch ∧
      (scheduleRetry entry request).completedOperations = entry.completedOperations := by
  unfold scheduleRetry
  split <;> exact ⟨rfl, rfl⟩

/-- A settlement that completes a batch. -/
theorem completeBatchReceipts_effect (hs : Sound P s) {k : BatchId}
    {entry : SealedBatchEntry} (hk : s.sealedBatches[k]? = some entry)
    (hbatch : batch = entry.batch) {status : AdmissionStatus} (hstatus : status ≠ .buffered) :
    Effect P c s [] entry.batch.writes
      (completeBatchReceipts P { s with sealedBatches := s.sealedBatches.erase k } batch status) := by
  subst hbatch
  have hordered : Ordered { s with sealedBatches := s.sealedBatches.erase k } :=
    hs.ordered.congr rfl rfl
  have hdone := foldl_completes hstatus (entry.batch.records.map (·.operationId)) hordered
  exact .complete hk hstatus hdone (trimCompletedReceipts_retains hdone.ordered)

/-- A settlement that keeps the batch where it was. -/
theorem reinsert_effect {k : BatchId} {entry entry' : SealedBatchEntry}
    (hk : s.sealedBatches[k]? = some entry) (hbatch : entry'.batch = entry.batch) :
    Effect P c s [] [] { s with sealedBatches := (s.sealedBatches.erase k).insert k entry' } := by
  have hsame : (s.sealedBatches.erase k).insert k entry' = s.sealedBatches.insert k entry' :=
    ExtTreeMap.ext_getElem? fun k' => by
      rw [OrdMap.get_insert, OrdMap.get_insert, OrdMap.get_erase]
      split <;> rfl
  rw [hsame]
  exact .keep (.ofEntry hk hbatch)

theorem settleBatch_effect (hs : Sound P s) (request : BufferSettleRequest)
    (c : Option BufferCapacity) :
    Effect P c s [] (s.settledBy (.settle request)) (s.settleBatch P request).2 := by
  unfold settledBy settleBatch
  dsimp only
  cases hk : s.sealedBatches[request.batchId]? with
  | none => exact .keep (.refl s)
  | some entry =>
    dsimp only
    cases validateSettlement entry request with
    | error e => exact .keep (.refl s)
    | ok _ =>
      obtain ⟨hbatch, hops⟩ := scheduleRetry_batch entry request
      have hkey := hs.sealedKey _ _ hk
      unfold settleEntry
      cases request.disposition with
      | delivered => exact completeBatchReceipts_effect hs hk hbatch nofun
      | handedOffToQueue => exact completeBatchReceipts_effect hs hk hbatch nofun
      | partialProgress completedIds retryDelay =>
        have hpending : (extendCompleted (scheduleRetry entry request)
            completedIds).pendingOperationIds =
            (extendCompleted entry completedIds).pendingOperationIds := by
          simp only [SealedBatchEntry.pendingOperationIds, extendCompleted, hbatch, hops]
        dsimp only [retainPartialProgress]
        rw [hpending]
        by_cases hdone : completesBatch entry (.partialProgress completedIds retryDelay) = true
        · have hempty : (extendCompleted entry completedIds).pendingOperationIds.isEmpty = true :=
            hdone
          rw [if_pos hdone, if_pos hempty]
          exact completeBatchReceipts_effect hs hk hbatch nofun
        · have hid : (extendCompleted (scheduleRetry entry request) completedIds).batch.batchId =
              request.batchId := by
            rw [← hkey, ← hbatch]; rfl
          have hpart : ¬(extendCompleted entry completedIds).pendingOperationIds.isEmpty = true :=
            hdone
          rw [if_neg hdone, if_neg hpart, hid]
          exact reinsert_effect hk hbatch
      | releaseForRetry retryDelay =>
        dsimp only [retainForRetry, completesBatch]
        rw [show (scheduleRetry entry request).batch.batchId = request.batchId by
          rw [hbatch, hkey]]
        exact reinsert_effect hk hbatch
      | quarantine completedIds => exact .quarantineBatch hk hbatch

/-! ## Every operation -/

variable (ns)

/-- An operation on a sound state changes leases and has one effect. -/
theorem step_effect (hs : Sound P s) (op : Operation) : ∃ t, Releases s t ∧
      Effect P op.capacity t (s.admittedBy P op) (s.settledBy op) (s.step P ns op) := by
  cases op with
  | append request durability => exact ⟨s, .refl s, appendRecord_effect hs request durability⟩
  | claim request => exact ⟨_, claimWork_releases request, .keep (.refl _)⟩
  | sealCandidate request nowMono =>
    exact ⟨_, expireOpenLeases_releases _, sealCandidate_effect hs request nowMono⟩
  | renew request => exact ⟨_, renewLease_releases request, .keep (.refl _)⟩
  | settle request => exact ⟨s, .refl s, settleBatch_effect hs request _⟩
  | inspect request durability =>
    exact ⟨_, expireOpenLeases_releases request.nowUtcMs, .keep (.refl _)⟩

theorem step_sound (hs : Sound P s) (op : Operation) : Sound P (s.step P ns op) := by
  obtain ⟨t, hreleases, heffect⟩ := step_effect ns hs op
  exact heffect.sound (hs.releases hreleases)

theorem run_sound (hs : Sound P s) (ops : List Operation) : Sound P (s.run P ns ops) := by
  induction ops generalizing s with
  | nil => exact hs
  | cons op ops ih => exact ih (step_sound ns hs op)

end RetentionState

/-! ## A sample provider -/

namespace Sample

def platform : Platform where
  sha256 _ := Vector.replicate _ 0
  operationIdSize := 24
  batchIdSize := 16
  admittedRecordSize := 128
  persistedRecordSize := 64
  preparedOperationSize := 56
  sealedBatchSize := 208
  openRecordEntrySize := 168
  sealedBatchEntrySize := 304
  storedAdmissionReceiptSize := 96

def provider : Namespace := ⟨[110], by decide, by decide, by decide⟩

def scope : TenantScope := ⟨[115], by decide, by decide, by decide⟩

instance neZero_letters : NeZero 26 := ⟨by decide⟩

instance neZero_sizes : NeZero 65536 := ⟨by decide⟩

/-- The operation of a lower-case letter. -/
def operation (b : Fin 26) : OperationId :=
  ⟨[97 + UInt8.ofNat b], by simp, by simp [IdentifierKind.maxBytes], by revert b; decide⟩

def record (b : Fin 26) : AdmittedRecord where
  operationId := operation b
  scope := scope
  codecVersion := "v1"
  admittedAtUtcMs := 0
  admittedAtMono := ⟨0⟩
  payload := [1, 2, 3]

def uuid := #v[(0 : UInt8), 0, 0, 0, 0, 0, 0x70, 0, 0x80, 0, 0, 0, 0, 0, 0, 0]

def batchId : BatchId := (BatchId.tryFrom uuid).toOption.get (by decide)

/-- The batch of one record. -/
def batch (b : Fin 26) : SealedBatch where
  batchId := batchId
  «namespace» := provider
  scope := scope
  codecVersion := "v1"
  strategyVersion := "v1"
  firstItemTimeMs := 0
  records := [(record b).toPersisted]
  prepared := .sharedRecords
  operationIds := [operation b]
  valid := by revert b; decide +kernel

/-- A capacity of ten items. -/
def capacity (bytes : Fin 65536) : BufferCapacity :=
  ⟨10, bytes, by decide, by have := bytes.isLt; unfold wordMax; omega⟩

def append (b : Fin 26) (reserved : Nat) (bytes : Fin 65536) : Operation :=
  .append { record := record b, reservedBytes := reserved, capacity := capacity bytes } .volatile

def claim : Operation := .claim {
  maxWatermark := none
  allowOpenClaim := true
  forceAllAges := false
  maxItems := 10
  maxBytes := 1000
  leaseDuration := .fromMillis 1000
  nowUtcMs := 0 }

def install (fence : Nat) (b : Fin 26) (bytes : Fin 65536) : Operation := .sealCandidate {
  fencingToken := ⟨fence⟩
  action := .installBatch (batch b)
  capacity := capacity bytes
  leaseDuration := .fromMillis 1000
  nowUtcMs := 0 } none

def quarantine (fence : Nat) (b : Fin 26) (bytes : Fin 65536) : Operation := .sealCandidate {
  fencingToken := ⟨fence⟩
  action := .quarantineSingleton (operation b)
  capacity := capacity bytes
  leaseDuration := .fromMillis 1000
  nowUtcMs := 0 } none

def deliver (fence : Nat) : Operation := .settle {
  batchId := batchId
  fencingToken := ⟨fence⟩
  disposition := .delivered
  nowUtcMs := 0 }

end Sample

end AuxCommon.BufferedWrites
