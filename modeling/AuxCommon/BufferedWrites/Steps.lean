import AuxCommon.BufferedWrites.Effects

/-!
# The effect of each operation

`Sound` is the invariant of a retention state: a write is held by exactly one container while its
receipt is not complete, the batches and items are filed under their own identities, and the total
charge fits in a word, so that the accounting of the source is exact. `step_effect` takes every
operation on a sound state to one `Effect`, and `Effect.sound` shows that effects keep soundness.
-/

namespace AuxCommon.BufferedWrites

open Std List OrdMap RetentionState OpenRecordEntry Bool

variable {P : Platform} {W : Weights} {s s' : RetentionState}
  {entry : SealedBatchEntry} {id : OperationId} {k : BatchId} {e : OpenRecordEntry}

/-! ## Reclaiming receipts -/

/-- The charge of the completed receipts. -/
def reclaimable (P : Platform) (s : RetentionState) : Nat :=
  OrdMap.total (fun id r => if r.isCompleted then r.accountedBytes P id else 0) s.admissionReceipts

namespace RetentionState

theorem completedReceiptBytes_eq : s.completedReceiptBytes P = min (reclaimable P s) wordMax := by
  have hsum : ∀ l : List (OperationId × StoredAdmissionReceipt),
      ((l.filter (·.2.isCompleted)).map fun e => e.2.accountedBytes P e.1).sum =
        (l.map fun e => if e.2.isCompleted then e.2.accountedBytes P e.1 else 0).sum := by
    intro l
    induction l with
    | nil => rfl
    | cons e l ih =>
      cases h : e.2.isCompleted <;> simp [h, ih]
  rw [completedReceiptBytes, satSum_eq, hsum]
  rfl

theorem evictOldestCompleted_bytes {bytes : Nat} (ho : Ordered s)
    (h : s.evictOldestCompleted P = some (bytes, s')) :
    s'.weigh (charge P) + bytes = s.weigh (charge P) ∧ reclaimable P s' + bytes = reclaimable P s ∧
      s'.completedReceiptOrder.length + 1 = s.completedReceiptOrder.length := by
  obtain ⟨id, rest, r, horder, hr, hc, rfl, rfl⟩ := evictOldestCompleted_eq_some ho h
  have hcharge := total_erase (m := s.admissionReceipts) (k := id) (f := (charge P).receipt)
  have hdone := total_erase (m := s.admissionReceipts) (k := id)
    (f := fun id r => if r.isCompleted then r.accountedBytes P id else 0)
  rw [hr, Option.elim_some] at hcharge hdone
  rw [if_pos hc] at hdone
  refine ⟨?_, hdone, by rw [horder]; rfl⟩
  have hid : (charge P).receipt id r = r.accountedBytes P id := rfl
  unfold weigh
  dsimp only
  omega

theorem evictOldestCompleted_eq_none (h : s.evictOldestCompleted P = none) :
    s.completedReceiptOrder = [] := by
  unfold evictOldestCompleted at h
  split at h
  · assumption
  · cases h

theorem reclaimable_eq_zero (ho : Ordered s) (h : s.completedReceiptOrder = []) :
    reclaimable P s = 0 := by
  refine total_eq_zero.mpr fun id r hr => if_neg fun hc => ?_
  have hmem := (ho.mem_iff id).mpr (by rw [hr]; exact hc)
  rw [h] at hmem
  cases hmem

/-- Reclaiming succeeds exactly when the completed receipts are enough, and then it is below the
target. -/
theorem reclaimLoop_spec (target fuel : Nat) (ho : Ordered s)
    (hfuel : s.completedReceiptOrder.length ≤ fuel) :
    ((reclaimLoop P target fuel (s.weigh (charge P)) s).1 = .ok () ∧
      s.weigh (charge P) ≤ target + reclaimable P s ∧
      (reclaimLoop P target fuel (s.weigh (charge P)) s).2.weigh (charge P) ≤ target) ∨
    (reclaimLoop P target fuel (s.weigh (charge P)) s).1 = .error .full ∧
      target + reclaimable P s < s.weigh (charge P) := by
  induction fuel generalizing s with
  | zero =>
    have hnil := eq_nil_of_length_eq_zero (Nat.le_zero.mp hfuel)
    have hzero := reclaimable_eq_zero (P := P) ho hnil
    by_cases hlt : target < s.weigh (charge P)
    · exact .inr ⟨if_pos hlt, by omega⟩
    · exact .inl ⟨if_neg hlt, by omega, Nat.le_of_not_lt hlt⟩
  | succ fuel ih =>
    unfold reclaimLoop
    by_cases hlt : target < s.weigh (charge P)
    · rw [if_pos hlt]
      cases he : s.evictOldestCompleted P with
      | none =>
        have hzero := reclaimable_eq_zero (P := P) ho (evictOldestCompleted_eq_none he)
        exact .inr ⟨rfl, by omega⟩
      | some evicted =>
        obtain ⟨bytes, s'⟩ := evicted
        obtain ⟨hweigh, hdone, hlen⟩ := evictOldestCompleted_bytes ho he
        have hrest := ih (s := s') (evictOldestCompleted_retains ho he).ordered (by omega)
        dsimp only
        rw [show s.weigh (charge P) - bytes = s'.weigh (charge P) by omega]
        rcases hrest with ⟨hok, hle, hbelow⟩ | ⟨hfull, hgt⟩
        · exact .inl ⟨hok, by omega, hbelow⟩
        · exact .inr ⟨hfull, by omega⟩
    · rw [if_neg hlt]
      exact .inl ⟨rfl, by omega, Nat.le_of_not_lt hlt⟩

end RetentionState

/-! ## The invariant -/

/-- A weight of writes, added over the places that hold them. -/
def ofWrite (f : Write → Nat) : Weights where
  openRecord e := f e.record.write
  batch b := (b.writes.map f).sum
  item _ r := f r.write
  receipt _ _ := 0
  openRecord_unleased _ := rfl
  receipt_status _ _ _ := rfl

/-- One for a write of the operation `id`. -/
def hasId (id : OperationId) (w : Write) : Nat := if w.operationId = id then 1 else 0

/-- The number of places that hold the operation `id`. -/
abbrev countId (id : OperationId) : Weights := ofWrite (hasId id)

/-- The invariant of a retention state. -/
structure Sound (P : Platform) (s : RetentionState) : Prop where
  ordered : Ordered s
  held : ∀ id : OperationId,
    s.weigh (countId id) = (s.admissionReceipts[id]?.any (!·.isCompleted)).toNat
  sealedKey : ∀ (k : BatchId) e, s.sealedBatches[k]? = some e → e.batch.batchId = k
  batchKey : ∀ (k : BatchId) e, s.quarantinedBatches[k]? = some e → e.batch.batchId = k
  itemKey : ∀ (id : OperationId) r, s.quarantinedItems[id]? = some r → r.operationId = id
  disjoint : ∀ (k : BatchId) e, s.sealedBatches[k]? = some e → s.quarantinedBatches[k]? = none
  within : s.weigh (charge P) ≤ wordMax

theorem Sound.empty (P : Platform) : Sound P {} where
  ordered := ⟨nodup_nil, fun id => by simp⟩
  held id := by simp [weigh]
  sealedKey k e h := by simp at h
  batchKey k e h := by simp at h
  itemKey id r h := by simp at h
  disjoint k e h := by simp at h
  within := by simp [weigh]

/-- Every operation is held at most once. -/
theorem Sound.held_le_one (h : Sound P s) (id : OperationId) : s.weigh (countId id) ≤ 1 := by
  rw [h.held]
  exact toNat_le _

theorem Sound.releases (h : Sound P s) (hr : Releases s s') : Sound P s' where
  ordered := h.ordered.congr hr.order hr.receipts
  held id := by rw [hr.weigh, hr.receipts]; exact h.held id
  sealedKey k e hk := by
    have hbatch := hr.sealedBatches k
    rw [hk, Option.map_some, eq_comm, Option.map_eq_some_iff] at hbatch
    obtain ⟨e₀, hk₀, heq⟩ := hbatch
    rw [← heq]; exact h.sealedKey k e₀ hk₀
  batchKey k e hk := h.batchKey k e (hr.batches ▸ hk)
  itemKey id r hi := h.itemKey id r (hr.items ▸ hi)
  disjoint k e hk := by
    have hbatch := hr.sealedBatches k
    rw [hk, Option.map_some, eq_comm, Option.map_eq_some_iff] at hbatch
    obtain ⟨e₀, hk₀, -⟩ := hbatch
    rw [hr.batches]; exact h.disjoint k e₀ hk₀
  within := by rw [hr.weigh]; exact h.within

theorem Sound.retains (h : Sound P s) (hr : Retains s s') : Sound P s' where
  ordered := hr.ordered
  held id := by
    rw [hr.weigh_eq fun _ _ => rfl, hr.buffered]; exact h.held id
  sealedKey k e hk := h.sealedKey k e (hr.sealedBatches ▸ hk)
  batchKey k e hk := h.batchKey k e (hr.batches ▸ hk)
  itemKey id r hi := h.itemKey id r (hr.items ▸ hi)
  disjoint k e hk := by rw [hr.batches]; exact h.disjoint k e (hr.sealedBatches ▸ hk)
  within := hr.weigh_le.trans h.within

/-! ## Effects -/

/-- The call's capacity, where it has one. -/
def Operation.capacity : Operation → Option BufferCapacity
  | .append request _ => some request.capacity
  | .sealCandidate request _ => some request.capacity
  | .claim _ | .renew _ | .settle _ | .inspect _ _ => none

/-- What an operation does, under the capacity `c` of its request: the writes that it admits, the
writes that it completes and the state it leaves. -/
inductive Effect (P : Platform) (c : Option BufferCapacity) (s : RetentionState) :
    List Write → List Write → RetentionState → Prop
  | keep {t : RetentionState} : Releases s t → Effect P c s [] [] t
  | evict {t : RetentionState} : Retains s t → Effect P c s [] [] t
  | admitRecord {t : RetentionState} {record : AdmittedRecord} {reserved : Nat}
      {receipt : StoredAdmissionReceipt} {capacity : BufferCapacity} : Retains s t →
      s.admissionReceipts[record.operationId]? = none → receipt.status = .buffered →
      c = some capacity →
      t.weigh (charge P) + (max reserved (OpenRecordEntry.recordBytes P record) +
        receipt.accountedBytes P record.operationId) ≤ capacity.byteLimit →
      Effect P c s [record.write] []
        (t.admitRecord P record reserved receipt.watermark receipt)
  | install {batch : SealedBatch} {entry : SealedBatchEntry}
      {removed kept opened : List OpenRecordEntry} {capacity : BufferCapacity} :
      s.openRecords.Perm (removed ++ kept) →
      opened.map (·.unleased) = kept.map (·.unleased) →
      (removed.map (·.record.write)).Perm batch.writes →
      s.sealedBatches[batch.batchId]? = none → s.quarantinedBatches[batch.batchId]? = none →
      entry.batch = batch → c = some capacity →
      s.weigh (charge P) - (removed.map (OpenRecordEntry.accountedBytes P)).sum +
        SealedBatchEntry.batchBytes P batch ≤ capacity.byteLimit →
      Effect P c s [] [] { s with
        openRecords := opened
        sealedBatches := s.sealedBatches.insert batch.batchId entry }
  | quarantineItem {e : OpenRecordEntry} {kept opened : List OpenRecordEntry} :
      s.openRecords.Perm (e :: kept) → opened.map (·.unleased) = kept.map (·.unleased) →
      Effect P c s [] [] { s with
        openRecords := opened
        quarantinedItems := s.quarantinedItems.insert e.record.operationId e.record }
  | complete {t u : RetentionState} {k : BatchId} {entry : SealedBatchEntry}
      {status : AdmissionStatus} : s.sealedBatches[k]? = some entry → status ≠ .buffered →
      Completes status (entry.batch.records.map (·.operationId))
        { s with sealedBatches := s.sealedBatches.erase k } t →
      Retains t u → Effect P c s [] entry.batch.writes u
  | quarantineBatch {k : BatchId} {entry entry' : SealedBatchEntry} : s.sealedBatches[k]? = some entry →
      entry'.batch = entry.batch →
      Effect P c s [] [] { s with
        sealedBatches := s.sealedBatches.erase k
        quarantinedBatches := s.quarantinedBatches.insert k entry' }

/-! ## Weights after an effect -/

theorem weigh_openRecords {opened kept removed : List OpenRecordEntry}
    (hperm : s.openRecords.Perm (removed ++ kept))
    (hopened : opened.map (·.unleased) = kept.map (·.unleased)) :
    ({ s with openRecords := opened } : RetentionState).weigh W +
      (removed.map W.openRecord).sum = s.weigh W := by
  have hkept : Releases { s with openRecords := kept } { s with openRecords := opened } :=
    { Releases.refl _ with openRecords := hopened }
  have hsum := (hperm.map W.openRecord).sum_eq
  rw [map_append, sum_append] at hsum
  rw [hkept.weigh]
  unfold weigh
  dsimp only
  omega

theorem weigh_insertSealed (hk : s.sealedBatches[k]? = none) :
    ({ s with sealedBatches := s.sealedBatches.insert k entry } : RetentionState).weigh W =
      s.weigh W + W.batch entry.batch := by
  have hins := total_insert (m := s.sealedBatches) (k := k) (v := entry)
    (f := fun _ e => W.batch e.batch)
  rw [hk, Option.elim_none] at hins
  unfold weigh
  dsimp only
  omega

theorem weigh_eraseSealed (hk : s.sealedBatches[k]? = some entry) :
    ({ s with sealedBatches := s.sealedBatches.erase k } : RetentionState).weigh W +
      W.batch entry.batch = s.weigh W := by
  have herase := total_erase (m := s.sealedBatches) (k := k) (f := fun _ e => W.batch e.batch)
  rw [hk, Option.elim_some] at herase
  unfold weigh
  dsimp only
  omega

theorem weigh_insertBatch (hk : s.quarantinedBatches[k]? = none) :
    ({ s with quarantinedBatches := s.quarantinedBatches.insert k entry } : RetentionState).weigh W =
      s.weigh W + W.batch entry.batch := by
  have hins := total_insert (m := s.quarantinedBatches) (k := k) (v := entry)
    (f := fun _ e => W.batch e.batch)
  rw [hk, Option.elim_none] at hins
  unfold weigh
  dsimp only
  omega

theorem weigh_insertItem {r : AdmittedRecord} (hid : s.quarantinedItems[id]? = none) :
    ({ s with quarantinedItems := s.quarantinedItems.insert id r } : RetentionState).weigh W =
      s.weigh W + W.item id r := by
  have hins := total_insert (m := s.quarantinedItems) (k := id) (v := r) (f := W.item)
  rw [hid, Option.elim_none] at hins
  unfold weigh
  dsimp only
  omega

theorem weigh_insertReceipt {r : StoredAdmissionReceipt} (hid : s.admissionReceipts[id]? = none) :
    ({ s with admissionReceipts := s.admissionReceipts.insert id r } : RetentionState).weigh W =
      s.weigh W + W.receipt id r := by
  have hins := total_insert (m := s.admissionReceipts) (k := id) (v := r) (f := W.receipt)
  rw [hid, Option.elim_none] at hins
  unfold weigh
  dsimp only
  omega

theorem weigh_push : ({ s with openRecords := s.openRecords ++ [e] } : RetentionState).weigh W =
      s.weigh W + W.openRecord e := by
  unfold weigh
  rw [map_append, sum_append]
  simp only [map_cons, map_nil, sum_cons, sum_nil]
  omega

/-- The receipt that a new write gets, before the oldest completed ones are trimmed. -/
def RetentionState.withReceipt (s : RetentionState) (watermark : Nat) (id : OperationId)
    (receipt : StoredAdmissionReceipt) : RetentionState :=
  { s with nextWatermark := watermark, admissionReceipts := s.admissionReceipts.insert id receipt }

section Admit

variable {record : AdmittedRecord} {reserved watermark : Nat} {receipt : StoredAdmissionReceipt}

theorem withReceipt_ordered (watermark : Nat) (ho : Ordered s)
    (hnone : s.admissionReceipts[id]? = none) (hbuffered : receipt.status = .buffered) :
    Ordered (s.withReceipt watermark id receipt) := by
  refine ⟨ho.nodup, fun id' => ?_⟩
  have hmem := ho.mem_iff id'
  dsimp only [withReceipt]
  rw [get_insert]
  split
  · rename_i heq
    rw [hmem, heq, hnone]
    simp [StoredAdmissionReceipt.isCompleted, hbuffered]
  · exact hmem

/-- A new write's receipt and its open record, after the trim. -/
theorem admit_eq (hbuffered : receipt.status = .buffered) :
    s.admitRecord P record reserved watermark receipt =
      let t := (s.withReceipt watermark record.operationId receipt).trimCompletedReceipts P
      { t with openRecords := t.openRecords ++ [{
          record, reservedBytes := reserved, watermark, leasedFence := none,
          leaseExpiresAtMs := 0 }] } := by
  have hc : receipt.isCompleted = false := by simp [StoredAdmissionReceipt.isCompleted, hbuffered]
  unfold admitRecord insertReceipt withReceipt
  simp only [hc, Bool.false_and, Bool.false_eq_true, if_false]

theorem admit_weigh_le (ho : Ordered s) (hnone : s.admissionReceipts[record.operationId]? = none)
    (hbuffered : receipt.status = .buffered) :
    (s.admitRecord P record reserved watermark receipt).weigh W ≤
      s.weigh W + W.receipt record.operationId receipt + W.openRecord {
        record, reservedBytes := reserved, watermark, leasedFence := none,
        leaseExpiresAtMs := 0 } := by
  have htrim := trimCompletedReceipts_retains (P := P)
    (withReceipt_ordered watermark ho hnone hbuffered)
  rw [admit_eq hbuffered, weigh_push]
  refine Nat.add_le_add_right (htrim.weigh_le.trans_eq ?_) _
  exact weigh_insertReceipt (s := { s with nextWatermark := watermark }) hnone

theorem admit_weigh_eq (ho : Ordered s) (hnone : s.admissionReceipts[record.operationId]? = none)
    (hbuffered : receipt.status = .buffered) (f : Write → Nat) :
    (s.admitRecord P record reserved watermark receipt).weigh (ofWrite f) =
      s.weigh (ofWrite f) + f record.write := by
  have htrim := trimCompletedReceipts_retains (P := P)
    (withReceipt_ordered watermark ho hnone hbuffered)
  rw [admit_eq hbuffered, weigh_push, htrim.weigh_eq fun _ _ => rfl]
  exact congrArg (· + _)
    (weigh_insertReceipt (s := { s with nextWatermark := watermark }) (W := ofWrite f) hnone)

end Admit

/-! ## What every effect keeps -/

variable {c : Option BufferCapacity} {admitted settled : List Write}

theorem sum_map_of_perm {l : List OpenRecordEntry} {ws : List Write}
    (h : (l.map (·.record.write)).Perm ws) (f : Write → Nat) :
    (l.map (ofWrite f).openRecord).sum = (ws.map f).sum := by
  rw [← (h.map f).sum_eq, map_map]
  rfl

/-- A held operation is not among the quarantined items. -/
theorem Sound.item_none (hs : Sound P s) (he : e ∈ s.openRecords) :
    s.quarantinedItems[e.record.operationId]? = none := by
  by_contra hsome
  obtain ⟨r, hr⟩ := Option.ne_none_iff_exists'.mp hsome
  have hone := hs.held_le_one e.record.operationId
  have hopen : 1 ≤ (s.openRecords.map (countId e.record.operationId).openRecord).sum := by
    have hmem := mem_map_of_mem (f := (countId e.record.operationId).openRecord) he
    have hle := single_le_sum (fun x _ => Nat.zero_le x) _ hmem
    simpa [countId, ofWrite, hasId, AdmittedRecord.write] using hle
  have hitem : 1 ≤ total (countId e.record.operationId).item s.quarantinedItems := by
    have hle := le_total (f := (countId e.record.operationId).item) hr
    simpa [countId, ofWrite, hasId, AdmittedRecord.write, hs.itemKey _ _ hr] using hle
  unfold weigh at hone
  omega

/-- The conservation law: what is held afterwards and what was completed are together what was
held before and what was admitted. -/
theorem Effect.conserve (hs : Sound P s) (h : Effect P c s admitted settled s') (f : Write → Nat) :
    s'.weigh (ofWrite f) + (settled.map f).sum = s.weigh (ofWrite f) + (admitted.map f).sum := by
  cases h with
  | keep hr => rw [hr.weigh]
  | evict hr => rw [hr.weigh_eq fun _ _ => rfl]
  | admitRecord hr hnone hbuffered _ _ =>
    have hnone' := (hr.receipts _).elim (·.trans hnone) (·.2)
    rw [admit_weigh_eq hr.ordered hnone' hbuffered, hr.weigh_eq fun _ _ => rfl]
    simp
  | @install batch entry removed kept opened capacity hperm hopened hwrites hk _ he _ _ =>
    have hopen := weigh_openRecords (W := ofWrite f) hperm hopened
    rw [weigh_insertSealed (s := { s with openRecords := opened }) hk, he]
    rw [sum_map_of_perm hwrites] at hopen
    have hbatch : (ofWrite f).batch batch = (batch.writes.map f).sum := rfl
    simp only [map_nil, sum_nil]
    omega
  | @quarantineItem e kept opened hperm hopened =>
    have hone : s.openRecords.Perm ([e] ++ kept) := hperm
    have hopen := weigh_openRecords (W := ofWrite f) hone hopened
    have hmem : e ∈ s.openRecords := hperm.mem_iff.mpr mem_cons_self
    rw [weigh_insertItem (s := { s with openRecords := opened }) (hs.item_none hmem)]
    have hitem : (ofWrite f).item e.record.operationId e.record = (ofWrite f).openRecord e := rfl
    simp only [map_nil, map_cons, sum_cons, sum_nil] at hopen ⊢
    omega
  | complete hk _ hdone hr =>
    rw [hr.weigh_eq fun _ _ => rfl, hdone.weigh, map_nil, sum_nil, Nat.add_zero]
    exact weigh_eraseSealed hk
  | @quarantineBatch k entry entry' hk he =>
    have herase := weigh_eraseSealed (W := ofWrite f) hk
    rw [weigh_insertBatch (s := { s with sealedBatches := s.sealedBatches.erase k })
      (hs.disjoint k entry hk), he]
    exact congrArg (· + _) herase

/-- An effect raises the charge only under the capacity of its request. -/
theorem Effect.charge_le (hs : Sound P s) (h : Effect P c s admitted settled s') :
    s'.weigh (charge P) ≤ s.weigh (charge P) ∨
      ∃ capacity, c = some capacity ∧ s'.weigh (charge P) ≤ capacity.byteLimit := by
  cases h with
  | keep hr => exact .inl hr.weigh.le
  | evict hr => exact .inl hr.weigh_le
  | admitRecord hr hnone hbuffered hc hroom =>
    have hnone' := (hr.receipts _).elim (·.trans hnone) (·.2)
    refine .inr ⟨_, hc, (admit_weigh_le hr.ordered hnone' hbuffered).trans ?_⟩
    simp only [charge, accountedBytes]
    simp only [charge] at hroom
    omega
  | @install batch entry removed kept opened capacity hperm hopened _ hk _ he hc hroom =>
    have hopen := weigh_openRecords (W := charge P) hperm hopened
    refine .inr ⟨_, hc, ?_⟩
    rw [weigh_insertSealed (s := { s with openRecords := opened }) hk, he]
    have hcharge : (charge P).openRecord = accountedBytes P := rfl
    have hbatch : (charge P).batch batch = SealedBatchEntry.batchBytes P batch := rfl
    rw [hcharge] at hopen
    omega
  | @quarantineItem e kept opened hperm hopened =>
    have hone : s.openRecords.Perm ([e] ++ kept) := hperm
    have hopen := weigh_openRecords (W := charge P) hone hopened
    have hmem : e ∈ s.openRecords := hperm.mem_iff.mpr mem_cons_self
    left
    rw [weigh_insertItem (s := { s with openRecords := opened }) (hs.item_none hmem)]
    have hitem : (charge P).item e.record.operationId e.record ≤ (charge P).openRecord e :=
      (quarantineBytes_le P e.record).trans (Nat.le_max_right _ _)
    simp only [map_nil, map_cons, sum_cons, sum_nil] at hopen
    omega
  | complete hk _ hdone hr =>
    left
    have herase := weigh_eraseSealed (W := charge P) hk
    refine hr.weigh_le.trans (hdone.weigh.le.trans ?_)
    omega
  | @quarantineBatch k entry entry' hk he =>
    have herase := weigh_eraseSealed (W := charge P) hk
    left
    rw [weigh_insertBatch (s := { s with sealedBatches := s.sealedBatches.erase k })
      (hs.disjoint k entry hk), he, herase]

theorem Effect.ordered (hs : Sound P s) (h : Effect P c s admitted settled s') : Ordered s' := by
  cases h with
  | keep hr => exact (hs.releases hr).ordered
  | evict hr => exact hr.ordered
  | admitRecord hr hnone hbuffered _ _ =>
    have hnone' := (hr.receipts _).elim (·.trans hnone) (·.2)
    rw [admit_eq hbuffered]
    exact (trimCompletedReceipts_retains
      (withReceipt_ordered _ hr.ordered hnone' hbuffered)).ordered.congr rfl rfl
  | install => exact hs.ordered.congr rfl rfl
  | quarantineItem => exact hs.ordered.congr rfl rfl
  | complete _ _ _ hr => exact hr.ordered
  | quarantineBatch => exact hs.ordered.congr rfl rfl

/-- The receipts that are not complete: a new write gets one, and those of completed writes are
no longer among them. -/
theorem Effect.buffered (h : Effect P c s admitted settled s') (id : OperationId) :
    s'.admissionReceipts[id]?.any (!·.isCompleted) =
      if id ∈ settled.map (·.operationId) then false
      else if id ∈ admitted.map (·.operationId) then true
      else s.admissionReceipts[id]?.any (!·.isCompleted) := by
  cases h with
  | keep hr => rw [hr.receipts]; rfl
  | evict hr => rw [hr.buffered]; rfl
  | @admitRecord t record reserved receipt capacity hr hnone hbuffered _ _ =>
    have hnone' := (hr.receipts _).elim (·.trans hnone) (·.2)
    have htrim := trimCompletedReceipts_retains (P := P)
      (withReceipt_ordered receipt.watermark hr.ordered hnone' hbuffered)
    rw [admit_eq hbuffered]
    refine (htrim.buffered id).trans ?_
    dsimp only [withReceipt]
    rw [get_insert]
    by_cases heq : id = record.operationId
    · simp [heq, AdmittedRecord.write, StoredAdmissionReceipt.isCompleted, hbuffered]
    · rw [if_neg heq]
      simpa [AdmittedRecord.write, heq] using hr.buffered id
  | install => rfl
  | quarantineItem => rfl
  | @complete t u k entry status _ hstatus hdone hr =>
    rw [hr.buffered, hdone.receipts, SealedBatch.map_writes]
    split
    · cases s.admissionReceipts[id]? with
      | none => simp
      | some r => simp [StoredAdmissionReceipt.isCompleted, hstatus]
    · rfl
  | quarantineBatch => rfl

theorem sum_hasId (ws : List Write) (id : OperationId) :
    (ws.map (hasId id)).sum = (ws.map (·.operationId)).count id := by
  induction ws with
  | nil => rfl
  | cons w ws ih =>
    rw [map_cons, sum_cons, ih, map_cons, count_cons, hasId]
    by_cases h : w.operationId = id <;> simp [h, Nat.add_comm]

/-- The operations that an effect admits are new, and those that it completes are different. -/
theorem Effect.counts (h : Effect P c s admitted settled s') (id : OperationId) :
    (settled.map (hasId id)).sum = (decide (id ∈ settled.map (·.operationId))).toNat ∧
      (admitted.map (hasId id)).sum = (decide (id ∈ admitted.map (·.operationId))).toNat ∧
      (id ∈ admitted.map (·.operationId) → s.admissionReceipts[id]? = none ∧ settled = []) := by
  have hcount : ∀ l : List OperationId, l.Nodup → l.count id = (decide (id ∈ l)).toNat := by
    intro l hl
    by_cases hmem : id ∈ l
    · simp [hmem, count_eq_one_of_mem hl hmem]
    · simp [hmem, count_eq_zero_of_not_mem hmem]
  rw [sum_hasId, sum_hasId]
  cases h with
  | admitRecord hr hnone _ _ _ =>
    refine ⟨rfl, hcount _ (nodup_singleton _), fun hmem => ⟨?_, rfl⟩⟩
    rw [mem_singleton.mp hmem]
    exact hnone
  | @complete t u k entry status _ _ _ _ =>
    exact ⟨hcount _ (entry.batch.map_writes ▸ entry.batch.nodup_records), rfl, nofun⟩
  | _ => exact ⟨rfl, rfl, nofun⟩

theorem Effect.held (hs : Sound P s) (h : Effect P c s admitted settled s') (id : OperationId) :
    s'.weigh (countId id) = (s'.admissionReceipts[id]?.any (!·.isCompleted)).toNat := by
  have hlaw : s'.weigh (countId id) + _ = s.weigh (countId id) + _ := h.conserve hs (hasId id)
  obtain ⟨hsettled, hadmitted, hnew⟩ := h.counts id
  have hbefore := hs.held id
  rw [hsettled, hadmitted] at hlaw
  rw [h.buffered]
  by_cases hout : id ∈ settled.map (·.operationId)
  · have hin : id ∉ admitted.map (·.operationId) := by
      intro hin
      rw [(hnew hin).2] at hout
      cases hout
    have hle := toNat_le (s.admissionReceipts[id]?.any (!·.isCompleted))
    simp only [hout, hin, decide_true, decide_false, toNat_true, toNat_false, if_true] at hlaw ⊢
    omega
  · by_cases hin : id ∈ admitted.map (·.operationId)
    · rw [(hnew hin).1] at hbefore
      simp only [hout, hin, decide_true, decide_false, toNat_true, toNat_false, if_true,
        if_false, Option.any_none] at hlaw hbefore ⊢
      omega
    · simp only [hout, hin, decide_false, toNat_false, if_false] at hlaw ⊢
      omega

/-- Effects keep the invariant. -/
theorem Effect.sound (hs : Sound P s) (h : Effect P c s admitted settled s') : Sound P s' := by
  have hwithin : s'.weigh (charge P) ≤ wordMax := by
    rcases h.charge_le hs with hle | ⟨capacity, -, hle⟩
    · exact hle.trans hs.within
    · exact hle.trans capacity.byteLimit_le
  have hordered := h.ordered hs
  have hheld := h.held hs
  cases h with
  | keep hr => exact hs.releases hr
  | evict hr => exact hs.retains hr
  | @admitRecord t record reserved receipt capacity hr hnone hbuffered _ _ =>
    have hnone' := (hr.receipts _).elim (·.trans hnone) (·.2)
    have htrim := trimCompletedReceipts_retains (P := P)
      (withReceipt_ordered receipt.watermark hr.ordered hnone' hbuffered)
    rw [admit_eq hbuffered] at *
    have hsealed := htrim.sealedBatches.trans hr.sealedBatches
    have hbatches := htrim.batches.trans hr.batches
    have hitems := htrim.items.trans hr.items
    refine ⟨hordered, hheld, ?_, ?_, ?_, ?_, hwithin⟩
    · intro k e hk; exact hs.sealedKey k e (hsealed ▸ hk)
    · intro k e hk; exact hs.batchKey k e (hbatches ▸ hk)
    · intro id r hi; exact hs.itemKey id r (hitems ▸ hi)
    · intro k e hk
      exact (congrArg (·[k]?) hbatches).trans (hs.disjoint k e (hsealed ▸ hk))
  | @install batch entry removed kept opened capacity _ _ _ _ hq he _ _ =>
    refine ⟨hordered, hheld, fun k e hk => ?_, hs.batchKey, hs.itemKey, fun k e hk => ?_, hwithin⟩
    · dsimp only at hk
      rw [get_insert] at hk
      split at hk
      · rename_i heq; cases hk; rw [he, heq]
      · exact hs.sealedKey k e hk
    · dsimp only at hk
      rw [get_insert] at hk
      split at hk
      · rename_i heq; rw [heq]; exact hq
      · exact hs.disjoint k e hk
  | @quarantineItem e kept opened _ _ =>
    refine ⟨hordered, hheld, hs.sealedKey, hs.batchKey, fun id r hi => ?_, hs.disjoint, hwithin⟩
    rw [get_insert] at hi
    split at hi
    · rename_i heq; cases hi; exact heq.symm
    · exact hs.itemKey id r hi
  | @complete t u k entry status _ _ hdone hr =>
    have hsealed := hr.sealedBatches.trans hdone.sealedBatches
    have hbatches := hr.batches.trans hdone.batches
    have hitems := hr.items.trans hdone.items
    have hsub : ∀ (k' : BatchId) e, s'.sealedBatches[k']? = some e →
        s.sealedBatches[k']? = some e := by
      intro k' e hk
      rw [hsealed, get_erase] at hk
      split at hk
      · cases hk
      · exact hk
    refine ⟨hordered, hheld, fun k' e hk => hs.sealedKey k' e (hsub k' e hk), ?_, ?_, ?_, hwithin⟩
    · intro k' e hk; exact hs.batchKey k' e (hbatches ▸ hk)
    · intro id r hi; exact hs.itemKey id r (hitems ▸ hi)
    · intro k' e hk
      exact (congrArg (·[k']?) hbatches).trans (hs.disjoint k' e (hsub k' e hk))
  | @quarantineBatch k entry entry' hk he =>
    refine ⟨hordered, hheld, fun k' e hk' => ?_, fun k' e hk' => ?_, hs.itemKey, fun k' e hk' => ?_,
      hwithin⟩
    · dsimp only at hk'
      rw [get_erase] at hk'
      split at hk'
      · cases hk'
      · exact hs.sealedKey k' e hk'
    · dsimp only at hk'
      rw [get_insert] at hk'
      split at hk'
      · rename_i heq; cases hk'; rw [he, heq]; exact hs.sealedKey k entry hk
      · exact hs.batchKey k' e hk'
    · dsimp only at hk' ⊢
      rw [get_erase] at hk'
      split at hk'
      · cases hk'
      · rename_i hne
        rw [get_insert, if_neg hne]
        exact hs.disjoint k' e hk'

end AuxCommon.BufferedWrites
