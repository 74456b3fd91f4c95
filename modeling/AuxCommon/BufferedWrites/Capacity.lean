import AuxCommon.BufferedWrites.Fences
import AuxCommon.BufferedWrites.Preparation

/-!
# The byte capacity of a retention provider

Under one capacity the charge never exceeds the byte limit (`run_charge_le`), and an admission pays
for the whole life of its write: a quarantine keeps at most what the open record was charged, and a
batch that was prepared within the reservations of its records replaces them without a larger
charge. The second needs that the fence of a claim still names the claimed records; fences are
64-bit counters that stop at their maximum, so this holds while they have not run out.
-/

namespace AuxCommon.BufferedWrites

open Std List RetentionState OpenRecordEntry

variable {P : Platform} {ns : Namespace} {s s' : RetentionState} {ops : List Operation}

/-! ## One capacity -/

/-- Every call with a capacity uses this one. -/
def Fixed (capacity : BufferCapacity) (ops : List Operation) : Prop :=
  ∀ op ∈ ops, op.capacity = none ∨ op.capacity = some capacity

theorem step_charge_le {capacity : BufferCapacity} (hs : Sound P s)
    (hle : s.weigh (charge P) ≤ capacity.byteLimit) {op : Operation}
    (hop : op.capacity = none ∨ op.capacity = some capacity) :
    (s.step P ns op).weigh (charge P) ≤ capacity.byteLimit := by
  obtain ⟨t, hreleases, heffect⟩ := step_effect ns hs op
  rcases heffect.charge_le (hs.releases hreleases) with hkept | ⟨c, hc, hlimit⟩
  · rw [hreleases.weigh] at hkept
    exact hkept.trans hle
  · rcases hop with hnone | hsome
    · rw [hnone] at hc; cases hc
    · rw [hsome] at hc; cases hc; exact hlimit

theorem run_charge_le {capacity : BufferCapacity} (hs : Sound P s)
    (hle : s.weigh (charge P) ≤ capacity.byteLimit)
    (hfixed : Fixed capacity ops) :
    (s.run P ns ops).weigh (charge P) ≤ capacity.byteLimit := by
  induction ops generalizing s with
  | nil => exact hle
  | cons op ops ih =>
    exact ih (step_sound ns hs op) (step_charge_le hs hle (hfixed op mem_cons_self))
      fun op' hop' => hfixed op' (mem_cons_of_mem _ hop')

theorem run_empty_charge_le {capacity : BufferCapacity} (hfixed : Fixed capacity ops) :
    (run P ns {} ops).weigh (charge P) ≤ capacity.byteLimit :=
  run_charge_le (Sound.empty P) (by simp [weigh]) hfixed

/-! ## Seals that fit -/

theorem sum_openRecords_le : (s.openRecords.map (accountedBytes P)).sum ≤ s.weigh (charge P) := by
  have hcharge : (charge P).openRecord = accountedBytes P := rfl
  unfold weigh
  rw [hcharge]
  omega

theorem accountedBytes_le_weigh {e : OpenRecordEntry} (he : e ∈ s.openRecords) :
    e.accountedBytes P ≤ s.weigh (charge P) :=
  (single_le_sum (fun x _ => Nat.zero_le x) _ (mem_map_of_mem he)).trans sum_openRecords_le

namespace RetentionState

theorem claimedBatchBytes_ne_full (fence : FencingToken) (batch : SealedBatch) :
    s.claimedBatchBytes P fence batch ≠ .error .full := by
  unfold claimedBatchBytes
  split
  · simp
  · have hloop : ∀ (records : List PersistedRecord) (start : Nat),
        records.foldlM (fun bytes record => do
          return satAdd bytes (← s.claimedRecordBytes P fence batch record)) start ≠
          .error BufferError.full := by
      intro records
      induction records with
      | nil => intro start; exact nofun
      | cons record records ih =>
        intro start
        rw [foldlM_cons]
        refine Except.bind_ne_error (Except.bind_ne_error ?_ fun _ => nofun) fun _ => ih _
        unfold claimedRecordBytes
        split
        · simp
        · split <;> simp
    exact hloop _ _

theorem sealCharge_ne_full (request : BufferSealRequest) :
    s.sealCharge P ns request ≠ .error .full := by
  unfold sealCharge
  split
  · simp
  · split <;> simp
  · split
    · simp
    · exact Except.bind_ne_error (claimedBatchBytes_ne_full _ _) fun _ => nofun

/-- The seal retains no more than it releases. -/
def Frees (P : Platform) (ns : Namespace) (s : RetentionState) (request : BufferSealRequest) : Prop :=
  ∀ released retained, s.sealCharge P ns request = .ok (some (released, retained)) →
    retained ≤ released ∧ released ≤ s.weigh (charge P)

variable {request : BufferSealRequest}

theorem checkSealCapacity_ne_full (hs : Sound P s)
    (hle : s.weigh (charge P) ≤ request.capacity.byteLimit) (hfrees : s.Frees P ns request) :
    s.checkSealCapacity P ns request ≠ .error .full := by
  unfold checkSealCapacity
  cases hseal : s.sealCharge P ns request with
  | error e => exact fun h => sealCharge_ne_full request (hseal.trans (by cases h; rfl))
  | ok charged =>
    cases charged with
    | none => exact nofun
    | some charged =>
      obtain ⟨released, retained⟩ := charged
      obtain ⟨hretained, hreleased⟩ := hfrees released retained hseal
      have hroom : s.totalAccountedBytes P - released + retained ≤ request.capacity.byteLimit := by
        rw [totalAccountedBytes_eq hs.within]; omega
      have hadd : checkedAdd (s.totalAccountedBytes P - released) retained =
          some (s.totalAccountedBytes P - released + retained) :=
        if_pos (hroom.trans request.capacity.byteLimit_le)
      change (if _ then _ else _) ≠ _
      rw [hadd, Option.all_some, if_neg (by simpa using hroom)]
      exact nofun

theorem sealCandidate_ne_full (hs : Sound P s)
    (hle : s.weigh (charge P) ≤ request.capacity.byteLimit)
    (hfrees : (s.expireOpenLeases request.nowUtcMs).Frees P ns request) (nowMono : Option Instant) :
    (s.sealCandidate P ns request nowMono).1 ≠ .error .full := by
  have hreleases := expireOpenLeases_releases (s := s) request.nowUtcMs
  have hcheck : (s.expireOpenLeases request.nowUtcMs).checkSealCapacity P ns request ≠
      .error .full :=
    checkSealCapacity_ne_full (hs.releases hreleases) (hreleases.weigh.trans_le hle) hfrees
  unfold sealCandidate
  dsimp only
  split
  · simp
  · split
    · rename_i e he
      exact fun h => hcheck (he.trans (by cases h; rfl))
    · split
      · simp
      · have hq : ∀ id fence, ((s.expireOpenLeases request.nowUtcMs).quarantineSingleton id fence).1 ≠
            .error .full := by
          intro id fence
          unfold quarantineSingleton
          split <;> simp
        rename_i id _
        have hq := hq id request.fencingToken
        split <;> rename_i heq <;> rw [heq] at hq
        · simpa using hq
        · simp
      · simp

/-- A quarantined record is charged no more than it was as an open record. -/
theorem quarantine_frees {id : OperationId} (haction : request.action = .quarantineSingleton id) :
    s.Frees P ns request := by
  intro released retained h
  unfold sealCharge at h
  rw [haction] at h
  dsimp only at h
  split at h
  · cases h
  · rename_i e he
    cases h
    exact ⟨(quarantineBytes_le P e.record).trans (Nat.le_max_right _ _),
      accountedBytes_le_weigh (mem_of_find?_eq_some he)⟩

/-! ## Installing a prepared batch -/

/-- Members of a list with distinct keys are equal when their keys are. -/
theorem map_eq_take {α κ : Type} {f : α → κ} {l as : List α} {n : Nat}
    (hnodup : (l.map f).Nodup) (hsub : as ⊆ l) (hkeys : as.map f = (l.take n).map f) :
    as = l.take n := by
  have hinj := inj_on_of_nodup_map hnodup
  refine ext_getElem (by simpa using congrArg length hkeys) fun i h₁ h₂ => ?_
  refine hinj (hsub (getElem_mem h₁)) (mem_of_mem_take (getElem_mem h₂)) ?_
  have hi := getElem_of_eq hkeys (by simpa using h₁)
  rwa [getElem_map, getElem_map] at hi

section Install

variable {fence : FencingToken} {claimed : List (AdmittedRecord × Nat)} {T : Type}
  {cfg : EngineConfig T} {batchId : BatchId} {n : Nat} {batch : SealedBatch}

/-- The records that are taken for a batch are the ones it was prepared from, with the charges that
the preparation counted on. -/
theorem Claimed.entries_eq {es : List OpenRecordEntry} (hc : Claimed P fence claimed s)
    (hnodup : (claimed.map (·.1.operationId)).Nodup)
    (hrecords : batch.records = ((claimed.map Prod.fst).take n).map (·.toPersisted))
    (hsub : es ⊆ s.openRecords) (hall : ∀ e ∈ es, e.leasedFence = some fence)
    (hwrites : es.map (·.record.write) = batch.writes) :
    es.map (fun e => (e.record, e.accountedBytes P)) = claimed.take n := by
  refine map_eq_take (f := fun p => p.1.operationId) hnodup ?_ ?_
  · intro p hp
    obtain ⟨e, he, rfl⟩ := mem_map.mp hp
    exact hc.entries e (hsub he) (hall e he)
  · have hids : es.map (·.record.operationId) = batch.records.map (·.operationId) := by
      rw [← batch.map_writes, ← hwrites, map_map]
      rfl
    rw [map_map]
    rw [hrecords, map_map, ← map_take, map_map] at hids
    exact hids

theorem install_frees (hs : Sound P s) (hc : Claimed P fence claimed s)
    (hnodup : (claimed.map (·.1.operationId)).Nodup)
    (hprepared : Prepared P cfg batchId ((claimed.map Prod.fst).take n)
      (satSum ((claimed.map Prod.snd).take n)) batch)
    {request : BufferSealRequest} (hfence : request.fencingToken = fence)
    (haction : request.action = .installBatch batch) : s.Frees P ns request := by
  intro released retained h
  unfold sealCharge at h
  rw [haction, hfence] at h
  dsimp only at h
  split at h
  · cases h
  · obtain ⟨bytes, hbytes, h⟩ := Except.bind_eq_ok.mp h
    cases h
    obtain ⟨-, -, es, hsub, hall, hwrites, hsum⟩ := claimedBatchBytes_eq_ok hbytes
    have hentries := hc.entries_eq hnodup hprepared.records hsub hall hwrites
    have hreserved : es.map (accountedBytes P) = (claimed.map Prod.snd).take n := by
      rw [← map_take, ← hentries, map_map]; rfl
    have hopen : (es.map (accountedBytes P)).sum ≤ s.weigh (charge P) := by
      rw [← ((claimed_perm hs hsub hall hwrites).map _).sum_eq]
      exact ((filter_sublist.map _).sum_le_sum fun _ _ => Nat.zero_le _).trans sum_openRecords_le
    have hbudget := hprepared.bytes
    rw [satSum_eq, ← hreserved] at hbudget
    exact ⟨hsum ▸ hbudget, hsum ▸ (Nat.min_le_left _ _).trans hopen⟩

theorem claimedRecordBytes_isOk (hc : Claimed P fence claimed s)
    (hnodup : (claimed.map (·.1.operationId)).Nodup) {r : AdmittedRecord}
    (hr : r ∈ claimed.map Prod.fst) (hscope : batch.scope = r.scope)
    (hcodec : r.codecVersion = batch.codecVersion)
    (hheld : ∃ e ∈ s.openRecords, e.isLeasedAs fence r.operationId = true) :
    ∃ bytes, s.claimedRecordBytes P fence batch r.toPersisted = .ok bytes := by
  unfold claimedRecordBytes
  cases hfind : s.openRecords.find? (·.isLeasedAs fence r.toPersisted.operationId) with
  | none =>
    obtain ⟨e, he, hleased⟩ := hheld
    exact absurd hleased (find?_eq_none.mp hfind e he)
  | some e =>
    obtain ⟨hfence, hid⟩ := isLeasedAs_iff.mp (find?_some hfind)
    obtain ⟨p, hp, rfl⟩ := mem_map.mp hr
    have hentry := hc.entries e (mem_of_find?_eq_some hfind) hfence
    have hsame : e.record = p.1 :=
      congrArg Prod.fst (inj_on_of_nodup_map hnodup hentry hp hid)
    refine ⟨_, if_neg ?_⟩
    simp [hsame, hscope, hcodec, AdmittedRecord.toPersisted]

/-- While its records are leased under the fence of the claim, a prepared batch passes the check
against the claimed records. -/
theorem claimedBatchBytes_isOk (hc : Claimed P fence claimed s)
    (hnodup : (claimed.map (·.1.operationId)).Nodup) {budget : Nat} {scope : TenantScope}
    (hscope : ∀ r ∈ claimed.map Prod.fst, r.scope = scope)
    (hprepared : Prepared P cfg batchId ((claimed.map Prod.fst).take n) budget batch)
    (hnew : s.sealedBatches[batch.batchId]? = none ∧ s.quarantinedBatches[batch.batchId]? = none)
    (hheld : ∀ r ∈ batch.records, ∃ e ∈ s.openRecords, e.isLeasedAs fence r.operationId = true) :
    ∃ bytes, s.claimedBatchBytes P fence batch = .ok bytes := by
  have hslice : ∀ r ∈ (claimed.map Prod.fst).take n,
      ∃ bytes, s.claimedRecordBytes P fence batch r.toPersisted = .ok bytes := by
    intro r hr
    have hmem := mem_of_mem_take hr
    refine claimedRecordBytes_isOk hc hnodup hmem ?_ (hprepared.codecVersion r hr) ?_
    · rw [hscope r hmem]
      exact hprepared.scope scope fun r hr => hscope r (mem_of_mem_take hr)
    · exact hheld r.toPersisted (hprepared.records ▸ mem_map_of_mem hr)
  have hloop : ∀ (records : List AdmittedRecord) (start : Nat),
      (∀ r ∈ records, ∃ bytes, s.claimedRecordBytes P fence batch r.toPersisted = .ok bytes) →
      ∃ total, (records.map (·.toPersisted)).foldlM (fun bytes record => do
        return satAdd bytes (← s.claimedRecordBytes P fence batch record)) start = .ok total := by
    intro records
    induction records with
    | nil => exact fun start _ => ⟨start, rfl⟩
    | cons r records ih =>
      intro start hall
      obtain ⟨bytes, hbytes⟩ := hall r mem_cons_self
      obtain ⟨total, htotal⟩ := ih (satAdd start bytes) fun r hr =>
        hall r (mem_cons_of_mem _ hr)
      refine ⟨total, ?_⟩
      rw [map_cons, foldlM_cons, hbytes]
      exact htotal
  obtain ⟨total, htotal⟩ := hloop _ 0 hslice
  refine ⟨total, ?_⟩
  unfold claimedBatchBytes
  rw [if_neg (by simp [← ExtTreeMap.isSome_getElem?_eq_contains, hnew]), hprepared.records]
  exact htotal

end Install

/-- A check of the capacity fails for lack of room or for the claimed records. -/
theorem checkSealCapacity_isOk {charged : Option (Nat × Nat)}
    (hcharge : s.sealCharge P ns request = .ok charged)
    (hfull : s.checkSealCapacity P ns request ≠ .error .full) :
    s.checkSealCapacity P ns request = .ok () := by
  unfold checkSealCapacity at hfull ⊢
  rw [hcharge] at hfull ⊢
  cases charged with
  | none => rfl
  | some charged =>
    change (if _ then _ else _) ≠ _ at hfull
    change (if _ then _ else _) = _
    split at hfull
    · exact absurd rfl hfull
    · rename_i hroom
      exact if_neg hroom

/-- The operations are leased under the fence when a seal at this time looks at them. -/
def Held (s : RetentionState) (request : BufferSealRequest) (ids : List OperationId) : Prop :=
  ∀ id ∈ ids, ∃ e ∈ (s.expireOpenLeases request.nowUtcMs).openRecords,
    e.isLeasedAs request.fencingToken id = true

theorem Held.any {ids : List OperationId} (h : Held s request ids) (hne : ids ≠ []) :
    (s.expireOpenLeases request.nowUtcMs).openRecords.any
      (·.leasedFence = some request.fencingToken) = true := by
  obtain ⟨id, hid⟩ := exists_mem_of_ne_nil ids hne
  obtain ⟨e, he, hleased⟩ := h id hid
  exact any_eq_true.mpr ⟨e, he, by simpa using (isLeasedAs_iff.mp hleased).1⟩

/-- The quarantine of a leased record is never refused. -/
theorem sealCandidate_quarantines (hs : Sound P s) {id : OperationId}
    (hle : s.weigh (charge P) ≤ request.capacity.byteLimit)
    (haction : request.action = .quarantineSingleton id) (nowMono : Option Instant) :
    (s.sealCandidate P ns request nowMono).1 ≠ .error .full ∧
      (Held s request [id] → (s.sealCandidate P ns request nowMono).1 = .ok none) := by
  have hreleases := expireOpenLeases_releases (s := s) request.nowUtcMs
  have hs' := hs.releases hreleases
  have hfrees : (s.expireOpenLeases request.nowUtcMs).Frees P ns request := quarantine_frees haction
  refine ⟨sealCandidate_ne_full hs hle hfrees nowMono, fun hheld => ?_⟩
  obtain ⟨e, he, hleased⟩ := hheld id mem_cons_self
  obtain ⟨e', hfind⟩ := Option.isSome_iff_exists.mp (find?_isSome.mpr ⟨e, he, hleased⟩)
  have hseal : (s.expireOpenLeases request.nowUtcMs).sealCharge P ns request =
      .ok (some (e'.accountedBytes P, quarantineBytes P e'.record)) := by
    unfold sealCharge
    rw [haction]
    dsimp only
    rw [hfind]
  have hcheck := checkSealCapacity_isOk hseal
    (checkSealCapacity_ne_full hs' (hreleases.weigh.trans_le hle) hfrees)
  unfold sealCandidate quarantineSingleton
  rw [if_neg (by simp [hheld.any (by simp)]), hcheck, haction]
  dsimp only
  rw [hfind]

/-- A batch that was prepared within the reservation of its records is never refused for lack of
room, and it is installed while the claim is held. -/
theorem sealCandidate_installs {T : Type} {cfg : EngineConfig T} {batchId : BatchId} {n : Nat}
    {batch : SealedBatch} {claimed : List (AdmittedRecord × Nat)} {c : OpenBatchCandidate}
    (hs : Sound P s) (hc : Claimed P c.fencingToken claimed s) (hcandidate : Candidate c claimed)
    (hprepared : Prepared P cfg batchId (c.records.take n) (satSum (c.reservedBytes.take n)) batch)
    (hfence : request.fencingToken = c.fencingToken)
    (haction : request.action = .installBatch batch)
    (hle : s.weigh (charge P) ≤ request.capacity.byteLimit) (nowMono : Option Instant) :
    (s.sealCandidate P ns request nowMono).1 ≠ .error .full ∧
      (cfg.namespace = ns → s.sealedBatches[batchId]? = none →
        s.quarantinedBatches[batchId]? = none →
        Held s request (batch.records.map (·.operationId)) →
        (s.sealCandidate P ns request nowMono).1 = .ok (some {
          batch
          pendingOperationIds := batch.operationIds
          fencingToken := c.fencingToken
          unsettledRecordCount := batch.records.length })) := by
  have hreleases := expireOpenLeases_releases (s := s) request.nowUtcMs
  have hs' := hs.releases hreleases
  have hc' : Claimed P c.fencingToken claimed (s.expireOpenLeases request.nowUtcMs) := by
    refine ⟨hc.issued, fun e he hleased => ?_⟩
    rcases mem_expireOpenLeases he with hmem | hnone
    · exact hc.entries e hmem hleased
    · rw [hnone] at hleased; cases hleased
  have hprepared' := hprepared
  rw [hcandidate.records, hcandidate.reservedBytes] at hprepared'
  have hfrees : (s.expireOpenLeases request.nowUtcMs).Frees P ns request :=
    install_frees hs' hc' hcandidate.nodup hprepared' hfence haction
  refine ⟨sealCandidate_ne_full hs hle hfrees nowMono, ?_⟩
  intro hnamespace hsealed hquarantined hheld
  obtain ⟨scope, hscope⟩ := hcandidate.scope
  obtain ⟨bytes, hbytes⟩ := claimedBatchBytes_isOk hc' hcandidate.nodup
    (hcandidate.records ▸ hscope) hprepared' (hprepared.batchId ▸ ⟨hsealed, hquarantined⟩)
    (fun r hr => hfence ▸ hheld _ (mem_map_of_mem hr))
  have hseal : (s.expireOpenLeases request.nowUtcMs).sealCharge P ns request =
      .ok (some (bytes, SealedBatchEntry.batchBytes P batch)) := by
    unfold sealCharge
    rw [haction, hfence]
    dsimp only
    rw [if_neg (not_not.mpr (hprepared.namespace.trans hnamespace)), hbytes]
    rfl
  have hcheck := checkSealCapacity_isOk hseal
    (checkSealCapacity_ne_full hs' (hreleases.weigh.trans_le hle) hfrees)
  have hne : batch.records.map (·.operationId) ≠ [] := by
    rw [hprepared.records]
    simpa using hprepared.nonempty
  unfold sealCandidate
  rw [if_neg (by simp [hheld.any hne]), hcheck, haction, hfence]

end RetentionState

/-! ## The capacity -/

/-- Under one capacity the total charge never exceeds the byte limit. A batch that was prepared from
a part of a claimed candidate is never refused for lack of room, whatever happens between the claim
and the seal while fences have not run out, and is installed if the claim is still held then. A
quarantine is never refused for lack of room. -/
theorem capacity_covers_the_whole_life {T : Type} (P : Platform) (cfg : EngineConfig T)
    (ns : Namespace) (capacity : BufferCapacity) (ops : List Operation)
    (hfixed : Fixed capacity ops) :
    let s := RetentionState.run P ns {} ops
    s.totalAccountedBytes P ≤ capacity.byteLimit ∧
    (∀ (claim : BufferClaimRequest) (c : OpenBatchCandidate) (t : RetentionState),
      s.claimWork P claim = (.openCandidate c, t) →
      ∀ between : List Operation, Fixed capacity between →
      let s' := t.run P ns between
      s'.nextGeneration < wordMax →
      ∀ (n : Nat) (batchId : BatchId) (batch : SealedBatch),
      prepareCandidateSlice P cfg batchId (c.records.take n) (satSum (c.reservedBytes.take n)) =
        .ok batch →
      ∀ (request : BufferSealRequest) (nowMono : Option Instant),
      request.fencingToken = c.fencingToken → request.action = .installBatch batch →
      request.capacity = capacity →
      (s'.sealCandidate P ns request nowMono).1 ≠ .error .full ∧
      (cfg.namespace = ns → s'.sealedBatches[batchId]? = none →
        s'.quarantinedBatches[batchId]? = none →
        s'.Held request (batch.records.map (·.operationId)) →
        (s'.sealCandidate P ns request nowMono).1 = .ok (some {
          batch
          pendingOperationIds := batch.operationIds
          fencingToken := c.fencingToken
          unsettledRecordCount := batch.records.length }))) ∧
    ∀ (request : BufferSealRequest) (nowMono : Option Instant) (id : OperationId),
      request.action = .quarantineSingleton id → request.capacity = capacity →
      (s.sealCandidate P ns request nowMono).1 ≠ .error .full ∧
      (s.Held request [id] → (s.sealCandidate P ns request nowMono).1 = .ok none) := by
  intro s
  have hs : Sound P s := run_sound ns (Sound.empty P) ops
  have hle : s.weigh (charge P) ≤ capacity.byteLimit := run_empty_charge_le hfixed
  refine ⟨(totalAccountedBytes_eq hs.within).trans_le hle, ?_, ?_⟩
  · intro claim c t hclaim between hbetween s' hgen n batchId batch hprepared request nowMono
      hfence haction hcapacity
    have hstep : s.step P ns (.claim claim) = t := congrArg Prod.snd hclaim
    have hsound : Sound P t := hstep ▸ step_sound ns hs _
    have hgen_t := run_generation ns hsound between hgen
    have hgen_s := ((hstep ▸ step_leases ns hs (.claim claim) :
      Leases s t).mono hgen_t).1
    have hissued := run_fencesIssued ns (Sound.empty P) nofun ops hgen_s
    obtain ⟨claimed, hcandidate, hclaimed⟩ :=
      claimWork_candidate hs hissued hclaim hgen_t
    have hle_t : (s.step P ns (.claim claim)).weigh (charge P) ≤ capacity.byteLimit :=
      step_charge_le hs hle (.inl rfl)
    rw [hstep] at hle_t
    exact sealCandidate_installs
      (run_sound ns hsound between)
      (run_claimed ns hsound hclaimed between hgen) hcandidate
      (prepareCandidateSlice_eq_ok hprepared) hfence haction
      (hcapacity ▸ run_charge_le hsound hle_t hbetween) nowMono
  · intro request nowMono id haction hcapacity
    exact sealCandidate_quarantines hs (hcapacity ▸ hle) haction nowMono

namespace Sample

def engine : EngineConfig (List UInt8) where
  «namespace» := provider
  codecVersion := "v1"
  decode := .ok
  strategyVersion := "v1"
  prepare := PreparedWrites.defaultItems
  layout := .records
  effectiveLimits := ⟨10, 1000, 0, 1⟩

/-- A claim of everything for a lease of so many milliseconds. -/
def claimFor (lease : Nat) : BufferClaimRequest where
  maxWatermark := none
  allowOpenClaim := true
  forceAllAges := false
  maxItems := 10
  maxBytes := 1000
  leaseDuration := .fromMillis lease
  nowUtcMs := 0

/-- The request that installs the batch of one record. -/
def installing (fence : FencingToken) (b : Fin 26) : BufferSealRequest where
  fencingToken := fence
  action := .installBatch (batch b)
  capacity := capacity 2000
  leaseDuration := .fromMillis 1000
  nowUtcMs := 0

end Sample

open Sample in
/-- A claimed record is prepared and installed. -/
theorem capacity_covers_the_whole_life_installed :
    ∃ c t, (RetentionState.run platform provider {} [append 0 1000 2000]).claimWork platform
        (claimFor 1000) = (.openCandidate c, t) ∧
      prepareCandidateSlice platform engine batchId (c.records.take 1)
        (satSum (c.reservedBytes.take 1)) = .ok (batch 0) ∧
      (t.sealCandidate platform provider (installing c.fencingToken 0) none).1 = .ok (some {
        batch := batch 0
        pendingOperationIds := [operation 0]
        fencingToken := ⟨1⟩
        unsettledRecordCount := 1 }) := by
  have hfixed : Fixed (capacity 2000) [append 0 1000 2000] := by simp [Fixed, append,
    Operation.capacity]
  obtain ⟨-, hinstall, -⟩ := capacity_covers_the_whole_life platform engine provider
    (capacity 2000) [append 0 1000 2000] hfixed
  refine ⟨_, _, rfl, rfl, ?_⟩
  refine (hinstall (claimFor 1000) _ _ rfl [] nofun (by decide) 1 batchId (batch 0) rfl
    (installing ⟨1⟩ 0) none rfl rfl rfl).2 rfl rfl rfl ?_
  intro id hid
  cases mem_singleton.mp hid
  exact ⟨_, mem_singleton_self _, by decide⟩

namespace Sample

/-- The state after the admission of the first record, with a lease that ends at once. -/
def leased (generation : Nat) : RetentionState :=
  let s := RetentionState.run platform provider {} [append 0 1000 2000]
  { s with
    nextGeneration := generation
    openRecords := s.openRecords.map fun e =>
      { e with leasedFence := some ⟨generation⟩, leaseExpiresAtMs := 0 } }

theorem claim_leased (generation : Nat) :
    (leased generation).step platform provider (.claim (claimFor 0)) =
      leased (satAdd generation 1) := rfl

theorem claims_leased (n : Nat) {generation : Nat} (h : generation ≤ wordMax) :
    (leased generation).run platform provider (List.replicate n (.claim (claimFor 0))) =
      leased (min (generation + n) wordMax) := by
  induction n generalizing generation with
  | zero => rw [Nat.add_zero, Nat.min_eq_left h]; rfl
  | succ n ih =>
    rw [replicate_succ, run_cons, claim_leased, ih (satAdd_le _ _)]
    congr 1
    unfold satAdd
    omega

/-- An admission, and then claims until the fences have run out. -/
def exhaustion : List Operation :=
  [append 0 1000 2000, .claim (claimFor 0)] ++ List.replicate wordMax (.claim (claimFor 0))

theorem exhaustion_fixed : Fixed (capacity 2000) exhaustion := by
  have hfirst : Fixed (capacity 2000) [append 0 1000 2000, .claim (claimFor 0)] := by
    unfold Fixed; decide +kernel
  intro op hop
  rcases mem_append.mp hop with hop | hop
  · exact hfirst op hop
  · rw [eq_of_mem_replicate hop]; exact .inl rfl

theorem run_exhaustion : run platform provider {} exhaustion = leased wordMax := by
  have hfirst : run platform provider {} [append 0 1000 2000, .claim (claimFor 0)] = leased 1 := rfl
  rw [exhaustion, run_append, hfirst, claims_leased wordMax (by decide)]
  congr 1

/-- A worker installs and delivers the record; another record takes the place of its receipt and is
delivered; the record is admitted again with no reservation, and a third fills the store. -/
def readmission : List Operation :=
  [claim, install wordMax 0 2000, deliver wordMax,
    append 1 1600 2000, claim, install wordMax 1 2000, deliver wordMax,
    append 0 0 2000, append 2 1100 2000, claim]

end Sample

open Sample in
/-- After 2 ^ 64 - 1 fences every claim gets the same one. A worker that holds on to its candidate
finds the record of a later admission under its fence, with a smaller charge. -/
theorem capacity_fence_reused :
    Fixed (capacity 2000) exhaustion ∧ Fixed (capacity 2000) readmission ∧
      ∃ c t, (RetentionState.run platform provider {} exhaustion).claimWork platform (claimFor 0) =
          (.openCandidate c, t) ∧
        prepareCandidateSlice platform engine batchId (c.records.take 1)
          (satSum (c.reservedBytes.take 1)) = .ok (batch 0) ∧
        ((t.run platform provider readmission).sealCandidate platform provider
          (installing c.fencingToken 0) none).1 = .error .full := by
  refine ⟨exhaustion_fixed, by unfold Fixed; decide +kernel, ?_⟩
  rw [run_exhaustion]
  exact ⟨_, _, rfl, rfl, by decide +kernel⟩

end AuxCommon.BufferedWrites
