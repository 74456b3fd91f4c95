import AuxCommon.BufferedWrites.Retention

/-!
# What an operation does to the held writes

An operation on a retention state does one of a few things to the writes it holds: it changes
leases (`Releases`), evicts completed receipts (`Retains`), admits a write, installs a batch of
claimed records, quarantines a record or a batch, or completes the receipts of a batch. `Effect`
lists them, with the checks that the operation made, and `step_effect` says that there are no
others. Everything that holds over a run is read off the effects.

`weigh W s` adds a weight over all that a state holds. The number of places that hold an
operation and the bytes that the state is charged are both weights, so each effect has one
equation.
-/

namespace AuxCommon.BufferedWrites

open Std List OrdMap RetentionState

/-! ## Writes -/

/-- The content of a write, as every container keeps it. -/
structure Write where
  operationId : OperationId
  scope : TenantScope
  codecVersion : String
  admittedAtUtcMs : Int64
  payload : List UInt8
  deriving DecidableEq

/-- The write of an admitted record. -/
def AdmittedRecord.write (r : AdmittedRecord) : Write where
  operationId := r.operationId
  scope := r.scope
  codecVersion := r.codecVersion
  admittedAtUtcMs := r.admittedAtUtcMs
  payload := r.payload

variable (batch : SealedBatch)

/-- The write of a record of a batch. -/
def SealedBatch.write (r : PersistedRecord) : Write where
  operationId := r.operationId
  scope := batch.scope
  codecVersion := batch.codecVersion
  admittedAtUtcMs := r.admittedAtUtcMs
  payload := r.payload

/-- The writes of a batch. -/
def SealedBatch.writes : List Write := batch.records.map batch.write

theorem SealedBatch.map_writes :
    batch.writes.map (·.operationId) = batch.records.map (·.operationId) := by
  rw [writes, map_map]
  rfl

/-- An entry without its lease. -/
def OpenRecordEntry.unleased (e : OpenRecordEntry) : OpenRecordEntry :=
  { e with leasedFence := none, leaseExpiresAtMs := 0 }

/-! ## Weights -/

/-- A weight for each thing that a state holds. Leases and the status of a receipt do not
matter. -/
structure Weights where
  openRecord : OpenRecordEntry → Nat
  batch : SealedBatch → Nat
  item : OperationId → AdmittedRecord → Nat
  receipt : OperationId → StoredAdmissionReceipt → Nat
  openRecord_unleased : ∀ e, openRecord e.unleased = openRecord e
  receipt_status : ∀ id r status, receipt id { r with status } = receipt id r

namespace RetentionState

/-- The weight of all that a state holds. -/
def weigh (W : Weights) (s : RetentionState) : Nat :=
  (s.openRecords.map W.openRecord).sum + OrdMap.total (fun _ e => W.batch e.batch) s.sealedBatches +
    OrdMap.total W.item s.quarantinedItems +
    OrdMap.total (fun _ e => W.batch e.batch) s.quarantinedBatches +
    OrdMap.total W.receipt s.admissionReceipts

end RetentionState

variable {P : Platform} {W : Weights} {s s' s'' : RetentionState}

/-! ## Leases -/

/-- Nothing but leases and retry times changes. -/
structure Releases (s s' : RetentionState) : Prop where
  openRecords : s'.openRecords.map (·.unleased) = s.openRecords.map (·.unleased)
  sealedBatches : ∀ k : BatchId,
    s'.sealedBatches[k]?.map (·.batch) = s.sealedBatches[k]?.map (·.batch)
  receipts : s'.admissionReceipts = s.admissionReceipts
  order : s'.completedReceiptOrder = s.completedReceiptOrder
  items : s'.quarantinedItems = s.quarantinedItems
  batches : s'.quarantinedBatches = s.quarantinedBatches

namespace Releases

theorem refl (s : RetentionState) : Releases s s := ⟨rfl, fun _ => rfl, rfl, rfl, rfl, rfl⟩

theorem trans (h : Releases s s') (h' : Releases s' s'') : Releases s s'' where
  openRecords := h'.openRecords.trans h.openRecords
  sealedBatches k := (h'.sealedBatches k).trans (h.sealedBatches k)
  receipts := h'.receipts.trans h.receipts
  order := h'.order.trans h.order
  items := h'.items.trans h.items
  batches := h'.batches.trans h.batches

/-- A change of the open records that keeps all but their leases. -/
theorem ofMap {f : OpenRecordEntry → OpenRecordEntry} (hf : ∀ e, (f e).unleased = e.unleased) :
    Releases s { s with openRecords := s.openRecords.map f } :=
  { refl s with
    openRecords := by
      rw [map_map]
      exact map_congr_left fun e _ => hf e }

/-- A change of one sealed entry that keeps its batch. -/
theorem ofEntry {k : BatchId} {e e' : SealedBatchEntry} (hk : s.sealedBatches[k]? = some e)
    (he : e'.batch = e.batch) :
    Releases s { s with sealedBatches := s.sealedBatches.insert k e' } :=
  { refl s with
    sealedBatches := fun k' => by
      rw [get_insert]
      split
      · rename_i h
        rw [h, hk, Option.map_some, Option.map_some, he]
      · rfl }

theorem weigh (h : Releases s s') : s'.weigh W = s.weigh W := by
  have hopen : (s'.openRecords.map W.openRecord).sum = (s.openRecords.map W.openRecord).sum := by
    have hmap : ∀ l : List OpenRecordEntry,
        l.map W.openRecord = (l.map (·.unleased)).map W.openRecord := by
      intro l
      rw [map_map]
      exact map_congr_left fun e _ => (W.openRecord_unleased e).symm
    rw [hmap, h.openRecords, ← hmap]
  have hsealed : total (fun _ e => W.batch e.batch) s'.sealedBatches =
      total (fun _ e => W.batch e.batch) s.sealedBatches :=
    total_part (f := fun _ b => W.batch b) h.sealedBatches
  rw [RetentionState.weigh, RetentionState.weigh, hopen, hsealed, h.items, h.batches, h.receipts]

end Releases

namespace RetentionState

theorem expireOpenLeases_releases (now : Int64) : Releases s (s.expireOpenLeases now) :=
  .ofMap fun e => by split <;> rfl

theorem releaseCandidateFence_releases (fence : FencingToken) :
    Releases s (s.releaseCandidateFence fence) :=
  .ofMap fun e => by split <;> rfl

variable (request : BufferClaimRequest)

theorem leaseLoop_unleased (scope : TenantScope) (fence : FencingToken) (until_ : Int64)
    (count bytes : Nat) (es : List OpenRecordEntry) :
    (leaseLoop request scope fence until_ count bytes es).1.map (·.unleased) =
      es.map (·.unleased) := by
  induction es generalizing count bytes with
  | nil => rfl
  | cons e es ih =>
    unfold leaseLoop
    split
    · exact congrArg (e.unleased :: ·) (ih count bytes)
    · dsimp only
      split
      · rfl
      · exact congrArg (e.unleased :: ·) (ih _ _)

theorem claimOpenCandidate_releases (until_ : Int64) :
    Releases s (s.claimOpenCandidate P request until_).2 := by
  unfold claimOpenCandidate
  split
  · exact .refl s
  · dsimp only [allocateFence]
    split <;> exact { Releases.refl s with openRecords := leaseLoop_unleased .. }

theorem minByKey_mem {α : Type} {key : α → Int64} {as : List α} {a : α}
    (h : minByKey key as = some a) : a ∈ as := by
  cases as with
  | nil => cases h
  | cons b as =>
    -- the fold returns its start or an element
    have hmem : ∀ (l : List α) (m : α),
        l.foldl (fun m b => if key b < key m then b else m) m ∈ m :: l := by
      intro l
      induction l with
      | nil => intro m; exact mem_singleton.mpr rfl
      | cons c l ih =>
        intro m
        rw [foldl_cons]
        split
        · exact mem_cons_of_mem _ (ih c)
        · rcases mem_cons.mp (ih m) with h | h
          · rw [h]; exact mem_cons_self
          · exact mem_cons_of_mem _ (mem_cons_of_mem _ h)
    cases h
    exact hmem as b

theorem dueBatch_eq_some {request : BufferClaimRequest} {k : BatchId} {e : SealedBatchEntry}
    (h : s.dueBatch request = some (k, e)) : s.sealedBatches[k]? = some e :=
  mem_toList.mp (mem_of_mem_filter (minByKey_mem h))

theorem claimWork_releases : Releases s (s.claimWork P request).2 := by
  refine (expireOpenLeases_releases request.nowUtcMs).trans ?_
  unfold claimWork
  dsimp only
  split
  · rename_i k e he
    have hk := dueBatch_eq_some he
    have hfence : Releases (s.expireOpenLeases request.nowUtcMs)
        (s.expireOpenLeases request.nowUtcMs).allocateFence.2 := { Releases.refl _ with }
    exact hfence.trans (.ofEntry hk rfl)
  · split
    · exact .refl _
    · exact claimOpenCandidate_releases request _

theorem renewLease_releases (request : BufferRenewRequest) :
    Releases s (s.renewLease request).2 := by
  unfold renewLease
  split
  · exact .refl s
  · rename_i e he
    split
    · exact .refl s
    · exact .ofEntry he rfl

end RetentionState

/-! ## Eviction -/

/-- `completed_receipt_order` lists the completed receipts, each once. -/
structure Ordered (s : RetentionState) : Prop where
  nodup : s.completedReceiptOrder.Nodup
  mem_iff : ∀ id, id ∈ s.completedReceiptOrder ↔
    s.admissionReceipts[id]?.any (·.isCompleted) = true

theorem Ordered.congr (h : Ordered s) (horder : s'.completedReceiptOrder = s.completedReceiptOrder)
    (hreceipts : s'.admissionReceipts = s.admissionReceipts) : Ordered s' where
  nodup := by rw [horder]; exact h.nodup
  mem_iff id := by rw [horder, hreceipts]; exact h.mem_iff id

/-- Only completed receipts disappear. -/
structure Retains (s s' : RetentionState) : Prop where
  frame : s' = { s with
    completedReceiptOrder := s'.completedReceiptOrder
    admissionReceipts := s'.admissionReceipts }
  receipts : ∀ id : OperationId, s'.admissionReceipts[id]? = s.admissionReceipts[id]? ∨
    s.admissionReceipts[id]?.any (·.isCompleted) = true ∧ s'.admissionReceipts[id]? = none
  ordered : Ordered s'

namespace Retains

theorem refl (h : Ordered s) : Retains s s := ⟨rfl, fun _ => .inl rfl, h⟩

theorem trans (h : Retains s s') (h' : Retains s' s'') : Retains s s'' where
  frame := by rw [h'.frame, h.frame]
  receipts id := by
    rcases h'.receipts id with heq | ⟨hc, hn⟩
    · rw [heq]; exact h.receipts id
    · rcases h.receipts id with heq | ⟨-, hnone⟩
      · exact .inr ⟨heq ▸ hc, hn⟩
      · rw [hnone] at hc; cases hc
  ordered := h'.ordered

theorem openRecords (h : Retains s s') : s'.openRecords = s.openRecords := by rw [h.frame]

theorem sealedBatches (h : Retains s s') : s'.sealedBatches = s.sealedBatches := by rw [h.frame]

theorem items (h : Retains s s') : s'.quarantinedItems = s.quarantinedItems := by rw [h.frame]

theorem batches (h : Retains s s') : s'.quarantinedBatches = s.quarantinedBatches := by
  rw [h.frame]

/-- The receipt of a write that is not complete stays. -/
theorem buffered (h : Retains s s') (id : OperationId) :
    s'.admissionReceipts[id]?.any (!·.isCompleted) =
      s.admissionReceipts[id]?.any (!·.isCompleted) := by
  rcases h.receipts id with heq | ⟨hc, hn⟩
  · rw [heq]
  · rw [hn]
    cases hr : s.admissionReceipts[id]? with
    | none => rfl
    | some r => rw [hr] at hc; simp_all

theorem weigh_le (h : Retains s s') : s'.weigh W ≤ s.weigh W := by
  have hreceipts : total W.receipt s'.admissionReceipts ≤ total W.receipt s.admissionReceipts := by
    refine total_le_total fun id r hr => .inr ⟨r, ?_, le_rfl⟩
    rcases h.receipts id with heq | ⟨-, hn⟩
    · rw [← heq]; exact hr
    · rw [hn] at hr; cases hr
  rw [weigh, weigh, h.openRecords, h.sealedBatches, h.items, h.batches]
  omega

/-- A weight that does not count receipts stays. -/
theorem weigh_eq (h : Retains s s') (hW : ∀ id r, W.receipt id r = 0) : s'.weigh W = s.weigh W := by
  have hzero : ∀ m, total W.receipt m = 0 :=
    fun m => total_eq_zero.mpr fun id r _ => hW id r
  rw [weigh, weigh, h.openRecords, h.sealedBatches, h.items, h.batches, hzero, hzero]

end Retains

namespace RetentionState

theorem evictOldestCompleted_eq_some {bytes : Nat} (ho : Ordered s)
    (h : s.evictOldestCompleted P = some (bytes, s')) :
    ∃ id rest r, s.completedReceiptOrder = id :: rest ∧ s.admissionReceipts[id]? = some r ∧
      r.isCompleted = true ∧ bytes = r.accountedBytes P id ∧
      s' = { s with
        completedReceiptOrder := rest
        admissionReceipts := s.admissionReceipts.erase id } := by
  unfold evictOldestCompleted at h
  split at h
  · cases h
  · rename_i id rest horder
    have hmem := (ho.mem_iff id).mp (horder ▸ mem_cons_self)
    obtain ⟨r, hr, hc⟩ := (Option.any_eq_true _ _).mp hmem
    have hbytes : (s.admissionReceipts[id]?.filter (·.isCompleted)).elim 0
        (·.accountedBytes P id) = r.accountedBytes P id := by
      rw [hr, Option.filter_some_pos hc]; rfl
    dsimp only at h
    rw [hbytes, if_pos (r.accountedBytes_pos P id)] at h
    cases h
    exact ⟨id, rest, r, horder, hr, hc, rfl, rfl⟩

theorem evictOldestCompleted_retains {bytes : Nat} (ho : Ordered s)
    (h : s.evictOldestCompleted P = some (bytes, s')) : Retains s s' := by
  obtain ⟨id, rest, r, horder, hr, hc, -, rfl⟩ := evictOldestCompleted_eq_some ho h
  have hnodup := ho.nodup
  rw [horder, nodup_cons] at hnodup
  refine ⟨rfl, fun id' => ?_, hnodup.2, fun id' => ?_⟩
  · dsimp only
    rw [get_erase]
    split
    · rename_i heq
      exact .inr ⟨by rw [heq, hr]; exact hc, rfl⟩
    · exact .inl rfl
  · dsimp only
    rw [get_erase]
    by_cases heq : id' = id
    · rw [if_pos heq, heq]
      simp [hnodup.1]
    · have hmem := ho.mem_iff id'
      rw [horder, mem_cons] at hmem
      rw [if_neg heq, ← hmem]
      simp [heq]

theorem trimLoop_retains (fuel : Nat) (ho : Ordered s) : Retains s (trimLoop P fuel s) := by
  induction fuel generalizing s with
  | zero => exact .refl ho
  | succ fuel ih =>
    unfold trimLoop
    split
    · cases he : s.evictOldestCompleted P with
      | none => exact .refl ho
      | some evicted =>
        have hone := evictOldestCompleted_retains ho he
        exact hone.trans (ih hone.ordered)
    · exact .refl ho

theorem trimCompletedReceipts_retains (ho : Ordered s) :
    Retains s (s.trimCompletedReceipts P) := trimLoop_retains _ ho

theorem reclaimLoop_retains (target fuel bytes : Nat) (ho : Ordered s) :
    Retains s (reclaimLoop P target fuel bytes s).2 := by
  induction fuel generalizing s bytes with
  | zero => exact .refl ho
  | succ fuel ih =>
    unfold reclaimLoop
    split
    · split
      · exact .refl ho
      · rename_i he
        have hone := evictOldestCompleted_retains ho he
        exact hone.trans (ih _ hone.ordered)
    · exact .refl ho

end RetentionState

/-! ## Completion -/

/-- The receipts of the operations `ids` get a completed status. -/
structure Completes (status : AdmissionStatus) (ids : List OperationId) (s s' : RetentionState) :
    Prop where
  frame : s' = { s with
    completedReceiptOrder := s'.completedReceiptOrder
    admissionReceipts := s'.admissionReceipts }
  receipts : ∀ id : OperationId, s'.admissionReceipts[id]? =
    if id ∈ ids then s.admissionReceipts[id]?.map fun r => { r with status }
    else s.admissionReceipts[id]?
  ordered : Ordered s'

namespace RetentionState

theorem completeReceipt_completes {status : AdmissionStatus} (hstatus : status ≠ .buffered)
    (ho : Ordered s) (id : OperationId) : Completes status [id] s (completeReceipt status s id) := by
  unfold completeReceipt
  split
  · rename_i hnone
    refine ⟨rfl, fun id' => ?_, ho⟩
    split
    · rename_i hmem
      rw [mem_singleton.mp hmem, hnone]; rfl
    · rfl
  · rename_i r hr
    have hget : ∀ id' : OperationId, (s.admissionReceipts.insert id { r with status })[id']? =
          if id' = id then some { r with status } else s.admissionReceipts[id']? :=
      fun id' => get_insert
    refine ⟨rfl, fun id' => ?_, ?_⟩
    · dsimp only
      rw [hget]
      by_cases heq : id' = id
      · rw [if_pos heq, if_pos (mem_singleton.mpr heq), heq, hr]; rfl
      · rw [if_neg heq, if_neg (fun h => heq (mem_singleton.mp h))]
    · -- a receipt that was not complete joins the order at its end
      have hcompleted : ({ r with status } : StoredAdmissionReceipt).isCompleted = true := by
        simp [StoredAdmissionReceipt.isCompleted, hstatus]
      have hid := ho.mem_iff id
      rw [hr] at hid
      refine ⟨?_, fun id' => ?_⟩
      · dsimp only
        split
        · exact ho.nodup
        · rename_i hc
          refine nodup_append.mpr ⟨ho.nodup, nodup_singleton _, ?_⟩
          rintro a ha b hb rfl
          rw [mem_singleton.mp hb] at ha
          exact hc (hid.mp ha)
      · dsimp only
        rw [hget]
        by_cases heq : id' = id
        · rw [if_pos heq, heq]
          split
          · rename_i hc
            simpa [hcompleted] using hid.mpr hc
          · simp [hcompleted]
        · rw [if_neg heq, ← ho.mem_iff id']
          split
          · rfl
          · simp [heq]

theorem foldl_completes {status : AdmissionStatus} (hstatus : status ≠ .buffered)
    (ids : List OperationId) (ho : Ordered s) :
    Completes status ids s (ids.foldl (completeReceipt status) s) := by
  induction ids generalizing s with
  | nil => exact ⟨rfl, fun id => by simp, ho⟩
  | cons id ids ih =>
    have hone := completeReceipt_completes hstatus ho id
    have hrest := ih hone.ordered
    refine ⟨?_, fun id' => ?_, hrest.ordered⟩
    · rw [foldl_cons, hrest.frame, hone.frame]
    · rw [foldl_cons, hrest.receipts, hone.receipts]
      by_cases h₁ : id' ∈ ids <;> by_cases h₂ : id' = id <;> simp [h₁, h₂, Function.comp_def]

end RetentionState

namespace Completes

variable {status : AdmissionStatus} {ids : List OperationId}

theorem openRecords (h : Completes status ids s s') : s'.openRecords = s.openRecords := by
  rw [h.frame]

theorem sealedBatches (h : Completes status ids s s') : s'.sealedBatches = s.sealedBatches := by
  rw [h.frame]

theorem items (h : Completes status ids s s') : s'.quarantinedItems = s.quarantinedItems := by
  rw [h.frame]

theorem batches (h : Completes status ids s s') : s'.quarantinedBatches = s.quarantinedBatches := by
  rw [h.frame]

theorem weigh (h : Completes status ids s s') : s'.weigh W = s.weigh W := by
  have hmap : s'.admissionReceipts =
      s.admissionReceipts.map fun id r => if id ∈ ids then { r with status } else r :=
    ExtTreeMap.ext_getElem? fun id => by
      rw [h.receipts, ExtTreeMap.getElem?_map]
      split
      · rfl
      · exact Option.map_id'.symm
  have hreceipts : total W.receipt s'.admissionReceipts = total W.receipt s.admissionReceipts := by
    rw [hmap, total_map]
    refine total_congr fun id r _ => ?_
    split
    · exact W.receipt_status id r status
    · rfl
  rw [RetentionState.weigh, RetentionState.weigh, h.openRecords, h.sealedBatches, h.items,
    h.batches, hreceipts]

end Completes

/-! ## The charge -/

/-- The bytes that a state is charged for each thing it holds. -/
def charge (P : Platform) : Weights where
  openRecord := OpenRecordEntry.accountedBytes P
  batch := SealedBatchEntry.batchBytes P
  item id r := satAdd (satAdd (r.accountedBytes P) (id.accountedBytes P)) retentionEntryOverheadBytes
  receipt id r := r.accountedBytes P id
  openRecord_unleased _ := rfl
  receipt_status _ _ _ := rfl

namespace RetentionState

/-- `quarantined_accounted_bytes` is the charge of the quarantined items and batches. -/
theorem quarantinedAccountedBytes_eq : s.quarantinedAccountedBytes P =
    min (total (charge P).item s.quarantinedItems +
      total (fun _ e => (charge P).batch e.batch) s.quarantinedBatches) wordMax := by
  rw [quarantinedAccountedBytes, satSum_eq, sum_append]
  rfl

theorem receiptBytes_eq :
    s.receiptBytes P = min (total (charge P).receipt s.admissionReceipts) wordMax :=
  satSum_eq _

/-- A total that fits in a word is computed exactly. -/
theorem totalAccountedBytes_eq (h : s.weigh (charge P) ≤ wordMax) :
    s.totalAccountedBytes P = s.weigh (charge P) := by
  have hsealed : (s.sealedBatches.toList.map (·.2.accountedBytes P)).sum =
      total (fun _ e => (charge P).batch e.batch) s.sealedBatches := rfl
  unfold weigh at h
  rw [totalAccountedBytes, quarantinedAccountedBytes_eq, receiptBytes_eq, satSum_eq,
    wrapSum_eq (by omega), hsealed, weigh]
  simp only [satAdd]
  have hopen : (s.openRecords.map (·.accountedBytes P)).sum =
      (s.openRecords.map (charge P).openRecord).sum := rfl
  omega

end RetentionState

end AuxCommon.BufferedWrites
