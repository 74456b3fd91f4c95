import AuxCommon.BufferedWrites.Run

/-!
# Admission beside quarantined writes

`active_admission_bytes` leaves the quarantined writes out, so that they "must not prevent new
admissions from being accepted", and `check_append_capacity` tests that total. But
`reclaim_completed_receipts` then evicts receipts until the total with the quarantined writes is
below the limit, and fails if the receipts are not enough. An append that fits beside the active
writes is accepted exactly when it also fits beside the quarantined ones.
-/

namespace AuxCommon.BufferedWrites

open Std OrdMap RetentionState

variable {P : Platform} {s s' : RetentionState}
  {request : BufferAppendRequest}

/-- The charge of the quarantined items and batches. -/
def quarantinedBytes (P : Platform) (s : RetentionState) : Nat :=
  OrdMap.total (charge P).item s.quarantinedItems +
    OrdMap.total (fun _ e => (charge P).batch e.batch) s.quarantinedBatches

/-- The charge of the open and the sealed writes, and of the receipts that cannot be reclaimed. -/
def activeBytes (P : Platform) (s : RetentionState) : Nat :=
  (s.openRecords.map (charge P).openRecord).sum +
    OrdMap.total (fun _ e => (charge P).batch e.batch) s.sealedBatches +
    OrdMap.total (fun id r => if r.isCompleted then 0 else r.accountedBytes P id)
      s.admissionReceipts

/-- What an append is charged: its reservation and its receipt. -/
def appendBytes (P : Platform) (s : RetentionState) (request : BufferAppendRequest) : Nat :=
  RetentionState.admissionReservedBytes P request.record request.reservedBytes +
    (s.newReceipt P request.record).accountedBytes P request.record.operationId

/-- The append fits when quarantined writes are left out of the counts and completed receipts can be
reclaimed. -/
structure Fits (P : Platform) (s : RetentionState) (request : BufferAppendRequest) : Prop where
  items : s.openRecords.length + OrdMap.total (fun _ e => e.unsettledRecordCount) s.sealedBatches +
    1 ≤ request.capacity.itemLimit
  bytes : activeBytes P s + appendBytes P s request ≤ request.capacity.byteLimit

theorem weigh_charge_eq :
    s.weigh (charge P) = activeBytes P s + quarantinedBytes P s + reclaimable P s := by
  have hsplit : total (charge P).receipt s.admissionReceipts =
      total (fun id r => if r.isCompleted then 0 else r.accountedBytes P id)
        s.admissionReceipts + reclaimable P s := by
    rw [reclaimable, total, total, total, ← List.sum_map_add]
    refine congrArg List.sum (List.map_congr_left fun e _ => ?_)
    change e.2.accountedBytes P e.1 = _
    cases e.2.isCompleted <;> simp
  unfold weigh activeBytes quarantinedBytes
  rw [hsplit]
  omega

namespace RetentionState

/-- The counts of `check_append_capacity` saturate, which only makes them smaller. -/
theorem activeAdmissionItems_le : s.activeAdmissionItems ≤
    s.openRecords.length + OrdMap.total (fun _ e => e.unsettledRecordCount) s.sealedBatches := by
  have htotal : (s.sealedBatches.toList.map (·.2.unsettledRecordCount)).sum =
      total (fun _ e => e.unsettledRecordCount) s.sealedBatches := rfl
  unfold activeAdmissionItems totalAccountedItems
  rw [satSum_eq, htotal]
  simp only [satAdd]
  omega

theorem checkAppendCapacity_of_fits (hs : Sound P s)
    (h : Fits P s request) : s.checkAppendCapacity P request (appendBytes P s request) = .ok () := by
  have hitems := h.items
  have hbytes := h.bytes
  have hprotected : s.activeAdmissionBytes P - s.completedReceiptBytes P = activeBytes P s := by
    have hweigh := weigh_charge_eq (P := P) (s := s)
    have hwithin := hs.within
    have hquarantined : s.quarantinedAccountedBytes P = min (quarantinedBytes P s) wordMax :=
      quarantinedAccountedBytes_eq
    rw [activeAdmissionBytes, totalAccountedBytes_eq hs.within, hquarantined,
      completedReceiptBytes_eq]
    omega
  have hlimit := request.capacity.byteLimit_le
  have hactive := activeAdmissionItems_le (s := s)
  have hadd : checkedAdd (activeBytes P s) (appendBytes P s request) =
      some (activeBytes P s + appendBytes P s request) := if_pos (hbytes.trans hlimit)
  unfold checkAppendCapacity
  dsimp only
  rw [if_neg (by omega), hprotected, hadd, if_neg]
  simp only [Option.all_some, Bool.or_eq_true, decide_eq_true_eq, not_or, Nat.not_lt]
  refine ⟨?_, hbytes⟩
  unfold satAdd
  omega

/-- Accepted when the completed receipts make room below the limit, refused otherwise. -/
theorem appendRecord_of_fits (hs : Sound P s) (durability : DurabilityClass)
    (hnew : s.admissionReceipts[request.record.operationId]? = none) (h : Fits P s request) :
    (s.appendRecord P request durability).1 =
      if activeBytes P s + quarantinedBytes P s + appendBytes P s request ≤
          request.capacity.byteLimit then
        .ok { durability, duplicate := false, watermark := satAdd s.nextWatermark 1 }
      else .error .full := by
  have hbytes := h.bytes
  have hitem : checkedAdd (admissionReservedBytes P request.record request.reservedBytes)
      ((s.newReceipt P request.record).accountedBytes P request.record.operationId) =
      some (appendBytes P s request) :=
    if_pos ((Nat.le_add_left _ _).trans (hbytes.trans request.capacity.byteLimit_le))
  have hspec := reclaimLoop_spec (P := P) (request.capacity.byteLimit - appendBytes P s request)
    s.completedReceiptOrder.length hs.ordered le_rfl
  rw [← totalAccountedBytes_eq hs.within] at hspec
  have hweigh := weigh_charge_eq (P := P) (s := s)
  rw [← totalAccountedBytes_eq hs.within] at hweigh
  unfold appendRecord reclaimCompletedReceipts
  dsimp only
  rw [hnew]
  rw [hitem]
  dsimp only
  rw [checkAppendCapacity_of_fits hs h]
  generalize reclaimLoop P (request.capacity.byteLimit - appendBytes P s request)
    s.completedReceiptOrder.length (s.totalAccountedBytes P) s = reclaimed at hspec
  obtain ⟨result, t⟩ := reclaimed
  rcases hspec with ⟨hok, hle, -⟩ | ⟨hfull, hgt⟩
  · cases hok
    rw [if_pos (by omega)]
    rfl
  · cases hfull
    rw [if_neg (by omega)]

end RetentionState

/-- In every reachable state an append of a new operation that fits beside the active writes is
accepted exactly if it fits beside the quarantined ones as well, and otherwise refused as full. -/
theorem admission_beside_quarantine (P : Platform) (ns : Namespace) (ops : List Operation)
    (request : BufferAppendRequest) (durability : DurabilityClass) :
    let s := RetentionState.run P ns {} ops
    s.admissionReceipts[request.record.operationId]? = none → Fits P s request →
    ((∃ result, (s.appendRecord P request durability).1 = .ok result) ↔
      activeBytes P s + quarantinedBytes P s + appendBytes P s request ≤
        request.capacity.byteLimit) ∧
    ((s.appendRecord P request durability).1 = .error .full ↔
      ¬activeBytes P s + quarantinedBytes P s + appendBytes P s request ≤
        request.capacity.byteLimit) := by
  intro s hnew hfits
  have hs : Sound P s := run_sound ns (Sound.empty P) ops
  rw [appendRecord_of_fits hs durability hnew hfits]
  split <;> simp_all

namespace Sample

/-- The admission of a lower-case letter with no reservation. -/
def admission (b : Fin 26) (bytes : Fin 65536) : BufferAppendRequest :=
  { record := record b, reservedBytes := 0, capacity := capacity bytes }

end Sample

open Sample in
/-- Beside a quarantined write of 437 bytes a second one fits into 900. -/
theorem admission_beside_quarantine_room :
    let s := RetentionState.run platform provider {} [append 0 0 900, claim, quarantine 1 0 900]
    s.quarantinedItems.size = 1 ∧
      ∃ result, (s.appendRecord platform (admission 1 900) .volatile).1 = .ok result := by
  intro s
  refine ⟨by decide +kernel, ?_⟩
  have haccepted := (admission_beside_quarantine platform provider
    [append 0 0 900, claim, quarantine 1 0 900] (admission 1 900) .volatile
    (by decide +kernel) ⟨by decide +kernel, by decide +kernel⟩).1
  exact haccepted.mpr (by decide +kernel)

open Sample in
/-- A second write needs 437 of the 587 bytes that the receipt of the quarantined write leaves, but
the 224 bytes of the quarantined write are counted as well. -/
theorem admission_blocked_by_quarantine :
    let s := RetentionState.run platform provider {} [append 0 0 800, claim, quarantine 1 0 800]
    s.admissionReceipts[(record 1).operationId]? = none ∧ Fits platform s (admission 1 800) ∧
      (s.appendRecord platform (admission 1 800) .volatile).1 = .error .full :=
  ⟨by decide +kernel, ⟨by decide +kernel, by decide +kernel⟩, by decide +kernel⟩

/-! ## Failed appends -/

/-- The charge of the completed receipts that are named for eviction. -/
def evictableBytes (P : Platform) (s : RetentionState) : Nat :=
  OrdMap.total (fun id r => if r.isCompleted ∧ id ∈ s.completedReceiptOrder then
    r.accountedBytes P id else 0) s.admissionReceipts

/-- An append of a new operation that passes `check_append_capacity`, but for which even the eviction
of all completed receipts, of which there are some, does not make room beside the quarantined
writes. -/
structure EvictsInVain (P : Platform) (s : RetentionState) (request : BufferAppendRequest)
    (itemBytes : Nat) : Prop where
  new : s.admissionReceipts[request.record.operationId]? = none
  charged : checkedAdd (RetentionState.admissionReservedBytes P request.record request.reservedBytes)
    ((s.newReceipt P request.record).accountedBytes P request.record.operationId) = some itemBytes
  passes : s.checkAppendCapacity P request itemBytes = .ok ()
  listed : s.completedReceiptOrder ≠ []
  crowded : request.capacity.byteLimit - itemBytes + evictableBytes P s < s.totalAccountedBytes P

namespace RetentionState

theorem evictOldestCompleted_evictable {bytes : Nat}
    (h : s.evictOldestCompleted P = some (bytes, s')) :
    evictableBytes P s = bytes + evictableBytes P s' ∧
      s.completedReceiptOrder.length = s'.completedReceiptOrder.length + 1 := by
  unfold evictOldestCompleted at h
  cases horder : s.completedReceiptOrder with
  | nil => rw [horder] at h; cases h
  | cons id rest =>
    rw [horder] at h
    let f (ids : List OperationId) (k : OperationId) (r : StoredAdmissionReceipt) : Nat :=
      if r.isCompleted ∧ k ∈ ids then r.accountedBytes P k else 0
    have hsplit (ids : List OperationId) := total_erase (m := s.admissionReceipts) (k := id)
      (f := f ids)
    have hrest : total (f (id :: rest)) (s.admissionReceipts.erase id) =
        total (f rest) (s.admissionReceipts.erase id) := by
      refine total_congr fun k r hr => ?_
      rw [get_erase] at hr
      have hne : k ≠ id := by rintro rfl; simp at hr
      simp only [f, List.mem_cons, hne, false_or]
    have hbytes : (s.admissionReceipts[id]?.filter (·.isCompleted)).elim 0 (·.accountedBytes P id) =
        s.admissionReceipts[id]?.elim 0 (f (id :: rest) id) := by
      cases s.admissionReceipts[id]? with
      | none => rfl
      | some r => cases hr : r.isCompleted <;> simp [Option.filter, f, hr]
    have hle : s.admissionReceipts[id]?.elim 0 (f rest id) ≤
        s.admissionReceipts[id]?.elim 0 (f (id :: rest) id) := by
      cases s.admissionReceipts[id]? with
      | none => exact le_rfl
      | some r => simp only [Option.elim_some, f]; split_ifs <;> simp_all
    have hall := hsplit (id :: rest)
    have hothers := hsplit rest
    cases h
    refine ⟨?_, rfl⟩
    unfold evictableBytes
    rw [horder, hbytes]
    change total (f (id :: rest)) s.admissionReceipts = _ + total (f rest) _
    split <;> dsimp only <;> omega

/-- Reclaiming fails exactly when the evictable receipts are not enough, and then none is left. -/
theorem reclaimLoop_evictable (target bytes fuel : Nat)
    (hfuel : s.completedReceiptOrder.length ≤ fuel) :
    (target + evictableBytes P s < bytes → (reclaimLoop P target fuel bytes s).1 = .error .full ∧
      (reclaimLoop P target fuel bytes s).2.completedReceiptOrder = [] ∧
      (s.completedReceiptOrder = [] → (reclaimLoop P target fuel bytes s).2 = s)) ∧
    (bytes ≤ target + evictableBytes P s → (reclaimLoop P target fuel bytes s).1 = .ok ()) := by
  have hnone (h : s.completedReceiptOrder = []) : evictableBytes P s = 0 :=
    total_eq_zero.mpr fun id r _ => by simp [h]
  induction fuel generalizing s bytes with
  | zero =>
    have hnil := List.eq_nil_of_length_eq_zero (Nat.le_zero.mp hfuel)
    rw [hnone hnil]
    exact ⟨fun h => ⟨if_pos h, hnil, fun _ => rfl⟩, fun h => if_neg (Nat.not_lt.mpr h)⟩
  | succ fuel ih =>
    unfold reclaimLoop
    by_cases hlt : target < bytes
    · rw [if_pos hlt]
      cases he : s.evictOldestCompleted P with
      | none =>
        have hnil := evictOldestCompleted_eq_none he
        exact ⟨fun _ => ⟨rfl, hnil, fun _ => rfl⟩, fun h => absurd (hnone hnil ▸ h) (by omega)⟩
      | some evicted =>
        obtain ⟨reclaimed, s'⟩ := evicted
        obtain ⟨hbytes, hlen⟩ := evictOldestCompleted_evictable he
        have hrest := ih (s := s') (bytes - reclaimed) (by omega)
          fun h => total_eq_zero.mpr fun id r _ => by simp [h]
        refine ⟨fun h => ?_, fun h => hrest.2 (by omega)⟩
        obtain ⟨hfull, hempty, -⟩ := hrest.1 (by omega)
        exact ⟨hfull, hempty, fun hnil => by simp [hnil] at hlen⟩
    · rw [if_neg hlt]
      exact ⟨fun h => absurd h (by omega), fun _ => rfl⟩

end RetentionState

/-- A failed append leaves the state as it was, exactly unless it evicts in vain. -/
theorem failed_append_unchanged_iff (P : Platform) (s : RetentionState)
    (request : BufferAppendRequest) (durability : DurabilityClass) :
    (∀ error, (s.appendRecord P request durability).1 = .error error →
      (s.appendRecord P request durability).2 = s) ↔
    ∀ itemBytes, ¬ EvictsInVain P s request itemBytes := by
  unfold appendRecord
  dsimp only
  cases hnew : s.admissionReceipts[request.record.operationId]? with
  | some existing =>
    refine ⟨fun _ _ h => ?_, fun _ error _ => ?_⟩
    · rw [h.new] at hnew
      cases hnew
    · dsimp only
      split <;> rfl
  | none =>
    cases hcharged : checkedAdd (admissionReservedBytes P request.record request.reservedBytes)
        ((s.newReceipt P request.record).accountedBytes P request.record.operationId) with
    | none => exact ⟨fun _ _ h => (by have := h.charged; simp_all), fun _ _ _ => rfl⟩
    | some itemBytes =>
      dsimp only
      cases hpasses : s.checkAppendCapacity P request itemBytes with
      | error e =>
        refine ⟨fun _ itemBytes' h => ?_, fun _ _ _ => rfl⟩
        obtain rfl := Option.some.inj (hcharged.symm.trans h.charged)
        exact absurd (hpasses.symm.trans h.passes) (by simp)
      | ok _ =>
        have hloop := reclaimLoop_evictable (P := P) (s := s)
          (request.capacity.byteLimit - itemBytes) (s.totalAccountedBytes P)
          s.completedReceiptOrder.length le_rfl
        unfold reclaimCompletedReceipts
        generalize reclaimLoop P (request.capacity.byteLimit - itemBytes)
          s.completedReceiptOrder.length (s.totalAccountedBytes P) s = reclaimed at hloop
        obtain ⟨result, t⟩ := reclaimed
        constructor
        · intro hunchanged itemBytes' h
          obtain rfl := Option.some.inj (hcharged.symm.trans h.charged)
          obtain ⟨hfull, hempty, -⟩ := hloop.1 h.crowded
          cases hfull
          have hsame : t = s := hunchanged .full rfl
          exact h.listed (hsame ▸ hempty)
        · intro hvain error herror
          by_cases hcrowded : request.capacity.byteLimit - itemBytes + evictableBytes P s <
              s.totalAccountedBytes P
          · obtain ⟨hfull, -, hsame⟩ := hloop.1 hcrowded
            cases hfull
            exact hsame (not_not.mp fun hlisted =>
              hvain itemBytes ⟨hnew, hcharged, hpasses, hlisted, hcrowded⟩)
          · cases hloop.2 (Nat.le_of_not_lt hcrowded)
            cases herror

open Sample in
/-- A write is delivered and another quarantined. The append of a third is refused as full, but the
receipt of the delivered write is gone, and a retry of it is no longer answered as a duplicate. -/
theorem failed_append_evicts :
    let s := RetentionState.run platform provider {} [append 0 0 860, claim, install 1 0 860,
      deliver 1, append 1 0 860, claim, quarantine 2 1 860]
    let failed := s.appendRecord platform (admission 2 860) .volatile
    failed.1 = .error .full ∧ failed.2 ≠ s ∧
      (s.appendRecord platform (admission 0 860) .volatile).1.toOption.map (·.duplicate) =
        some true ∧
      failed.2.admissionReceipts[(record 0).operationId]? = none := by
  intro s failed
  have hlisted : s.completedReceiptOrder ≠ [] := by decide +kernel
  have hempty : failed.2.completedReceiptOrder = [] := by decide +kernel
  refine ⟨by decide +kernel, fun h => hlisted (h ▸ hempty), by decide +kernel, by decide +kernel⟩

end AuxCommon.BufferedWrites
