import AuxCommon.BufferedWrites.Run

/-!
# Buffered writes are conserved

A write that an append has accepted is, after any further operations, at exactly one place
(`HeldOnceAt`), or an accepted settlement has completed it since then. After its completion the
receipt is `Written` or `Queued` until it is evicted. No operation is ever at two places.
-/

namespace AuxCommon.BufferedWrites

open Std List OrdMap RetentionState AdmittedRecord

variable {P : Platform} {ns : Namespace} {s s' : RetentionState} {w : Write}

/-! ## Places -/

/-- Where a retention state can hold a write. -/
inductive Place
  | openRecords
  | sealedBatch (id : BatchId)
  | quarantinedItem (id : OperationId)
  | quarantinedBatch (id : BatchId)

/-- The writes at a place. -/
def RetentionState.writesAt (s : RetentionState) : Place → List Write
  | .openRecords => s.openRecords.map (·.record.write)
  | .sealedBatch k => s.sealedBatches[k]?.elim [] (·.batch.writes)
  | .quarantinedItem id => s.quarantinedItems[id]?.elim [] fun r => [r.write]
  | .quarantinedBatch k => s.quarantinedBatches[k]?.elim [] (·.batch.writes)

/-- The operations at a place. -/
def RetentionState.idsAt (s : RetentionState) (p : Place) : List OperationId :=
  (s.writesAt p).map (·.operationId)

/-- The write `w` is at `p`, and its operation is there once and at no other place. -/
structure HeldOnceAt (s : RetentionState) (w : Write) (p : Place) : Prop where
  mem : w ∈ s.writesAt p
  once : (s.idsAt p).count w.operationId = 1
  nowhere : ∀ q, q ≠ p → w.operationId ∉ s.idsAt q

variable (f : Write → Nat)

/-- The weight of one place. -/
def weighAt (s : RetentionState) (p : Place) : Nat := ((s.writesAt p).map f).sum

theorem count_idsAt (id : OperationId) (p : Place) :
    (s.idsAt p).count id = weighAt (hasId id) s p := (sum_hasId _ id).symm

/-- The four containers of a retention state. -/
inductive Container
  | openRecords | sealedBatches | quarantinedItems | quarantinedBatches

/-- The container of a place. -/
def Place.container : Place → Container
  | .openRecords => .openRecords
  | .sealedBatch _ => .sealedBatches
  | .quarantinedItem _ => .quarantinedItems
  | .quarantinedBatch _ => .quarantinedBatches

/-- The weight of a container. -/
def weighIn (s : RetentionState) : Container → Nat
  | .openRecords => (s.openRecords.map (ofWrite f).openRecord).sum
  | .sealedBatches => OrdMap.total (fun _ e => (ofWrite f).batch e.batch) s.sealedBatches
  | .quarantinedItems => OrdMap.total (ofWrite f).item s.quarantinedItems
  | .quarantinedBatches => OrdMap.total (fun _ e => (ofWrite f).batch e.batch) s.quarantinedBatches

theorem weigh_eq_weighIn : s.weigh (ofWrite f) =
    weighIn f s .openRecords + weighIn f s .sealedBatches + weighIn f s .quarantinedItems +
      weighIn f s .quarantinedBatches := by
  have hzero : total (ofWrite f).receipt s.admissionReceipts = 0 :=
    total_eq_zero.mpr fun _ _ _ => rfl
  rw [weigh, hzero]
  rfl

section Entries

variable {K V : Type} [Ord K] [TransOrd K] [LawfulEqOrd K] [DecidableEq K]
variable {m : OrdMap K V} (writes : V → List Write) (f : Write → Nat)

theorem sum_elim (o : Option V) : ((o.elim [] writes).map f).sum =
    o.elim 0 fun v => ((writes v).map f).sum := by
  cases o <;> rfl

theorem sum_entry_le (k : K) :
    ((m[k]?.elim [] writes).map f).sum ≤ total (fun _ v => ((writes v).map f).sum) m := by
  have := total_erase (m := m) (k := k) (f := fun _ v => ((writes v).map f).sum)
  rw [sum_elim]
  omega

theorem sum_entries_le {k k' : K} (hne : k ≠ k') :
    ((m[k]?.elim [] writes).map f).sum + ((m[k']?.elim [] writes).map f).sum ≤
      total (fun _ v => ((writes v).map f).sum) m := by
  have hfirst := total_erase (m := m) (k := k) (f := fun _ v => ((writes v).map f).sum)
  have hsecond := sum_entry_le (m := m.erase k) writes f k'
  rw [get_erase, if_neg (Ne.symm hne)] at hsecond
  rw [sum_elim]
  omega

end Entries

theorem weighIn_items : weighIn f s .quarantinedItems =
    total (fun _ r => (([write r] : List Write).map f).sum) s.quarantinedItems :=
  total_congr fun _ _ _ => rfl

theorem weighAt_le_weighIn (p : Place) : weighAt f s p ≤ weighIn f s p.container := by
  cases p with
  | openRecords =>
    refine Nat.le_of_eq ?_
    rw [weighAt, writesAt, map_map]
    rfl
  | sealedBatch k => exact sum_entry_le _ f k
  | quarantinedItem id =>
    exact sum_entry_le (fun r => [write r]) f id
  | quarantinedBatch k => exact sum_entry_le _ f k

/-- Two places are together at most all places. -/
theorem weighAt_add_le {p q : Place} (hne : p ≠ q) :
    weighAt f s p + weighAt f s q ≤ s.weigh (ofWrite f) := by
  have hp := weighAt_le_weighIn (s := s) f p
  have hq := weighAt_le_weighIn (s := s) f q
  rw [weigh_eq_weighIn]
  by_cases hcontainer : p.container = q.container
  · -- different keys of one container
    have hsame : weighAt f s p + weighAt f s q ≤ weighIn f s p.container := by
      cases p <;> cases q <;> cases hcontainer
      · exact absurd rfl hne
      · exact sum_entries_le _ f fun h => hne (h ▸ rfl)
      · rw [Place.container, weighIn_items]
        exact sum_entries_le (fun r => [write r]) f fun h => hne (h ▸ rfl)
      · exact sum_entries_le _ f fun h => hne (h ▸ rfl)
    cases hc : p.container <;> rw [hc] at hsame <;> omega
  · cases hcp : p.container <;> cases hcq : q.container <;> rw [hcp] at hp hcontainer <;>
      rw [hcq] at hq hcontainer <;> first | exact absurd rfl hcontainer | omega

theorem weighAt_le (p : Place) : weighAt f s p ≤ s.weigh (ofWrite f) := by
  have hp := weighAt_le_weighIn (s := s) f p
  rw [weigh_eq_weighIn]
  cases hc : p.container <;> rw [hc] at hp <;> omega

/-- A write with a positive weight in total is at some place. -/
theorem exists_writesAt {f : Write → Nat} (h : 0 < s.weigh (ofWrite f)) :
    ∃ p w, w ∈ s.writesAt p ∧ 0 < f w := by
  by_contra hnone
  push Not at hnone
  have hzero : ∀ p w, w ∈ s.writesAt p → f w = 0 := fun p w hw => Nat.le_zero.mp (hnone p w hw)
  have hsum : ∀ ws : List Write, (∀ w ∈ ws, f w = 0) → (ws.map f).sum = 0 := by
    intro ws hws
    refine List.sum_eq_zero_iff_forall_eq_nat.mpr fun n hn => ?_
    obtain ⟨w, hw, rfl⟩ := List.mem_map.mp hn
    exact hws w hw
  have hopen : weighIn f s .openRecords = 0 := by
    have := hsum _ (hzero .openRecords)
    rw [writesAt, List.map_map] at this
    exact this
  have hsealed : weighIn f s .sealedBatches = 0 := by
    unfold weighIn
    refine total_eq_zero.mpr fun k e hk => hsum e.batch.writes fun w hw => ?_
    exact hzero (.sealedBatch k) w (by rw [writesAt, hk]; exact hw)
  have hitems : weighIn f s .quarantinedItems = 0 := total_eq_zero.mpr fun id r hr =>
    hzero (.quarantinedItem id) r.write (by rw [writesAt, hr]; exact .head _)
  have hbatches : weighIn f s .quarantinedBatches = 0 := by
    unfold weighIn
    refine total_eq_zero.mpr fun k e hk => hsum e.batch.writes fun w hw => ?_
    exact hzero (.quarantinedBatch k) w (by rw [writesAt, hk]; exact hw)
  rw [weigh_eq_weighIn] at h
  omega

/-! ## One place for each operation -/

/-- One for the write `w`. -/
def isWrite (w w' : Write) : Nat := if w' = w then 1 else 0

/-- No operation is twice at a place, or at two places. -/
theorem Sound.count_le_one (hs : Sound P s) (id : OperationId) :
    (∀ p, (s.idsAt p).count id ≤ 1) ∧ ∀ p q, id ∈ s.idsAt p → id ∈ s.idsAt q → p = q := by
  have hone : s.weigh (ofWrite (hasId id)) ≤ 1 := hs.held_le_one id
  refine ⟨fun p => ?_, fun p q hp hq => ?_⟩
  · rw [count_idsAt]; exact (weighAt_le _ p).trans hone
  · by_contra hne
    have hsum := weighAt_add_le (s := s) (hasId id) hne
    have hp' := count_pos_iff.mpr hp
    have hq' := count_pos_iff.mpr hq
    rw [count_idsAt] at hp' hq'
    omega

theorem Sound.heldOnceAt (hs : Sound P s) (h : 0 < s.weigh (ofWrite (isWrite w))) :
    ∃ p, HeldOnceAt s w p := by
  obtain ⟨p, w', hmem, hw'⟩ := exists_writesAt h
  have heq : w' = w := by
    by_contra hne
    simp [isWrite, hne] at hw'
  subst heq
  have hid : w'.operationId ∈ s.idsAt p := mem_map_of_mem hmem
  obtain ⟨hcount, hplace⟩ := hs.count_le_one w'.operationId
  refine ⟨p, hmem, Nat.le_antisymm (hcount p) (count_pos_iff.mpr hid), fun q hne hq => ?_⟩
  exact hne (hplace q p hq hid)

/-! ## The law over a run -/

section Run

variable (ns) {id : OperationId}

/-- What an operation keeps, completes and admits. -/
theorem step_conserve (hs : Sound P s) (op : Operation) (f : Write → Nat) :
    (s.step P ns op).weigh (ofWrite f) + ((s.settledBy op).map f).sum =
      s.weigh (ofWrite f) + ((s.admittedBy P op).map f).sum := by
  obtain ⟨t, hreleases, heffect⟩ := step_effect ns hs op
  rw [heffect.conserve (hs.releases hreleases), hreleases.weigh]

/-- A write that is held stays held until an operation completes it. -/
theorem run_held (hs : Sound P s) (hw : 0 < s.weigh (ofWrite (isWrite w))) (ops : List Operation) :
    0 < (s.run P ns ops).weigh (ofWrite (isWrite w)) ∨
      ∃ a op b, ops = a ++ op :: b ∧ w ∈ (s.run P ns a).settledBy op := by
  induction ops generalizing s with
  | nil => exact .inl hw
  | cons op ops ih =>
    by_cases hsettled : w ∈ s.settledBy op
    · exact .inr ⟨[], op, ops, rfl, hsettled⟩
    · have hlaw := step_conserve ns hs op (isWrite w)
      have hzero : ((s.settledBy op).map (isWrite w)).sum = 0 := by
        refine List.sum_eq_zero_iff_forall_eq_nat.mpr fun n hn => ?_
        obtain ⟨w', hw', rfl⟩ := List.mem_map.mp hn
        exact if_neg fun heq : w' = w => hsettled (heq ▸ hw')
      have hstep : 0 < (s.step P ns op).weigh (ofWrite (isWrite w)) := by omega
      rcases ih (step_sound ns hs op) hstep with hheld | ⟨a, op', b, rfl, hmem⟩
      · exact .inl hheld
      · exact .inr ⟨op :: a, op', b, rfl, hmem⟩

/-- The receipt of `id` says that its write is complete. -/
def Completed (s : RetentionState) (id : OperationId) : Prop :=
  ∃ r, s.admissionReceipts[id]? = some r ∧ (r.status = .written ∨ r.status = .queued)

theorem completed_iff : Completed s id ↔ s.admissionReceipts[id]?.any (·.isCompleted) = true := by
  have hstatus : ∀ r : StoredAdmissionReceipt,
      (r.status = .written ∨ r.status = .queued) ↔ r.isCompleted = true := by
    intro r
    cases h : r.status <;> simp [StoredAdmissionReceipt.isCompleted, h]
  rw [Option.any_eq_true]
  exact exists_congr fun r => and_congr_right fun _ => hstatus r

theorem completed_or_none (h : s.admissionReceipts[id]?.any (!·.isCompleted) = false) :
    Completed s id ∨ s.admissionReceipts[id]? = none := by
  rw [completed_iff]
  cases hr : s.admissionReceipts[id]? with
  | none => exact .inr rfl
  | some r => rw [hr] at h; left; simpa using h

/-- A completed receipt stays complete or is evicted. -/
theorem Effect.completed {c : Option BufferCapacity} {admitted settled : List Write}
    (h : Effect P c s admitted settled s') (hid : Completed s id) :
    Completed s' id ∨ s'.admissionReceipts[id]? = none := by
  refine completed_or_none ?_
  have hc := completed_iff.mp hid
  obtain ⟨r, hr, -⟩ := hid
  rw [h.buffered]
  split
  · rfl
  · split
    · rename_i hmem
      rw [((h.counts id).2.2 hmem).1] at hr
      cases hr
    · rw [hr] at hc ⊢
      simpa using hc

theorem run_completed (hs : Sound P s) (hid : Completed s id) (ops : List Operation) :
    Completed (s.run P ns ops) id ∨
      ∃ a, a <+: ops ∧ (s.run P ns a).admissionReceipts[id]? = none := by
  induction ops generalizing s with
  | nil => exact .inl hid
  | cons op ops ih =>
    obtain ⟨t, hreleases, heffect⟩ := step_effect ns hs op
    have ht : Completed t id := by
      obtain ⟨r, hr, hstatus⟩ := hid
      exact ⟨r, hreleases.receipts ▸ hr, hstatus⟩
    rcases heffect.completed ht with hdone | hnone
    · rcases ih (step_sound ns hs op) hdone with hdone | ⟨a, ha, hnone⟩
      · exact .inl hdone
      · exact .inr ⟨op :: a, cons_prefix_cons.mpr ⟨rfl, ha⟩, hnone⟩
    · exact .inr ⟨[op], cons_prefix_cons.mpr ⟨rfl, nil_prefix⟩, hnone⟩

/-! ## Conservation -/

/-- A new write is held as soon as it is admitted. -/
theorem admitted_held (hs : Sound P s) {op : Operation} (hw : s.admittedBy P op = [w]) :
    0 < (s.step P ns op).weigh (ofWrite (isWrite w)) := by
  obtain ⟨t, hreleases, heffect⟩ := step_effect ns hs op
  have hlaw := heffect.conserve (hs.releases hreleases) (isWrite w)
  have hnone := (heffect.counts w.operationId).2.2 (by rw [hw]; exact mem_singleton.mpr rfl)
  rw [hw, hnone.2] at hlaw
  simp only [map_nil, sum_nil, map_cons, sum_cons, isWrite, if_true] at hlaw
  exact Nat.lt_of_lt_of_eq (by omega) hlaw.symm

theorem settled_receipt (hs : Sound P s) {op : Operation} (hw : w ∈ s.settledBy op) :
    Completed (s.step P ns op) w.operationId ∨
      (s.step P ns op).admissionReceipts[w.operationId]? = none := by
  obtain ⟨t, -, heffect⟩ := step_effect ns hs op
  refine completed_or_none ?_
  rw [heffect.buffered, if_pos (mem_map_of_mem hw)]

theorem Sound.nowhere_of_completed (hs : Sound P s) (hid : Completed s id)
    (p : Place) : id ∉ s.idsAt p := by
  intro hmem
  have hpos := count_pos_iff.mpr hmem
  have hle := weighAt_le (s := s) (hasId id) p
  have hheld : s.weigh (ofWrite (hasId id)) = _ := hs.held id
  obtain ⟨r, hr, hc⟩ := Option.any_eq_true _ _ |>.mp (completed_iff.mp hid)
  rw [hr] at hheld
  rw [count_idsAt] at hpos
  simp only [Option.any_some, hc, Bool.not_true, Bool.toNat_false] at hheld
  omega

end Run

/-- Where the write `w` is, after the operations `later` on the state `s` that has just accepted it:
at one place, or completed by one of the operations, with a receipt that says so until it is
evicted. -/
def Accounted (P : Platform) (ns : Namespace) (s : RetentionState) (w : Write)
    (later : List Operation) : Prop :=
  (∃ p, HeldOnceAt (s.run P ns later) w p) ∨
    ∃ a op b, later = a ++ op :: b ∧ w ∈ (s.run P ns a).settledBy op ∧
      (Completed (s.run P ns later) w.operationId ∧
          (∀ p, w.operationId ∉ (s.run P ns later).idsAt p) ∨
        ∃ c, c <+: b ∧ (s.run P ns (a ++ op :: c)).admissionReceipts[w.operationId]? = none)

theorem run_accounted (hs : Sound P s) (hw : 0 < s.weigh (ofWrite (isWrite w)))
    (later : List Operation) : Accounted P ns s w later := by
  have hend := run_sound ns hs later
  rcases run_held ns hs hw later with hheld | ⟨a, op, b, rfl, hmem⟩
  · exact .inl (hend.heldOnceAt hheld)
  · right
    refine ⟨a, op, b, rfl, hmem, ?_⟩
    have hmid := run_sound ns hs a
    have hrun : ∀ c, s.run P ns (a ++ op :: c) =
        ((s.run P ns a).step P ns op).run P ns c := fun c => by
      rw [run_append, run_cons]
    rcases settled_receipt ns hmid hmem with hdone | hnone
    · rcases run_completed ns (step_sound ns hmid op) hdone b with hdone | ⟨c, hc, hnone⟩
      · rw [← hrun] at hdone
        exact .inl ⟨hdone, hend.nowhere_of_completed hdone⟩
      · exact .inr ⟨c, hc, by rw [hrun]; exact hnone⟩
    · exact .inr ⟨[], nil_prefix, by rw [hrun]; exact hnone⟩

/-- Over every run, every accepted write is accounted for, no operation is held twice or held with a
completed receipt, and `completed_receipt_order` lists the completed receipts without repetition. -/
theorem buffered_writes_conserved (P : Platform) (ns : Namespace) (ops : List Operation) :
    (∀ before request durability result later,
      ops = before ++ .append request durability :: later →
      ((RetentionState.run P ns {} before).appendRecord P request durability).1 =
        .ok result →
      result.duplicate = false →
      Accounted P ns
        (RetentionState.run P ns {} (before ++ [.append request durability]))
        request.record.write later) ∧
    (∀ id, (∀ p, ((RetentionState.run P ns {} ops).idsAt p).count id ≤ 1) ∧
      (∀ p q, id ∈ (RetentionState.run P ns {} ops).idsAt p →
        id ∈ (RetentionState.run P ns {} ops).idsAt q → p = q) ∧
      ∀ p, id ∈ (RetentionState.run P ns {} ops).idsAt p →
        ¬Completed (RetentionState.run P ns {} ops) id) ∧
    (RetentionState.run P ns {} ops).completedReceiptOrder.Nodup ∧
    ∀ id, id ∈ (RetentionState.run P ns {} ops).completedReceiptOrder ↔
      Completed (RetentionState.run P ns {} ops) id := by
  have hsound := fun ops =>
    run_sound ns (Sound.empty P) ops
  refine ⟨?_, fun id => ?_, (hsound ops).ordered.nodup, fun id => ?_⟩
  · intro before request durability result later _ haccept hnew
    have hadmitted : (run P ns {} before).admittedBy P
        (.append request durability) = [request.record.write] := by
      simp [admittedBy, haccept, hnew]
    have hheld := admitted_held ns (hsound before) hadmitted
    rw [run_append]
    exact run_accounted (step_sound ns (hsound before) _) hheld later
  · obtain ⟨honce, hplace⟩ := (hsound ops).count_le_one id
    exact ⟨honce, hplace, fun p hp hdone => (hsound ops).nowhere_of_completed hdone p hp⟩
  · rw [completed_iff]
    exact (hsound ops).ordered.mem_iff id

/-- A write that is claimed, sealed and delivered after it was accepted. -/
theorem buffered_writes_conserved_delivered :
    Accounted Sample.platform Sample.provider
      (RetentionState.run Sample.platform Sample.provider {} [Sample.append 0 1000 65535])
      (Sample.record 0).write [Sample.claim, Sample.install 1 0 65535, Sample.deliver 1] :=
  (buffered_writes_conserved Sample.platform Sample.provider
    [Sample.append 0 1000 65535, Sample.claim, Sample.install 1 0 65535, Sample.deliver 1]).1
    [] _ _ ⟨.volatile, false, 1⟩ _ rfl (by decide +kernel) rfl

/-- Over every run, exactly the operations with a receipt that is not complete are held. -/
theorem held_iff_receipt_pending (P : Platform) (ns : Namespace) (ops : List Operation)
    (id : OperationId) : (∃ p, id ∈ (RetentionState.run P ns {} ops).idsAt p) ↔
      (RetentionState.run P ns {} ops).admissionReceipts[id]?.any (!·.isCompleted) = true := by
  have hs := run_sound ns (Sound.empty P) ops
  generalize run P ns {} ops = s at hs
  have hheld := hs.held id
  refine ⟨fun ⟨p, hp⟩ => ?_, fun h => ?_⟩
  · have hpos := count_pos_iff.mpr hp
    have hle := weighAt_le (s := s) (hasId id) p
    rw [← count_idsAt, hheld] at hle
    cases h : s.admissionReceipts[id]?.any (!·.isCompleted) with
    | false => rw [h] at hle; exact absurd hle (Nat.not_le.mpr hpos)
    | true => rfl
  · rw [h] at hheld
    obtain ⟨p, w, hw, hid⟩ := exists_writesAt (Nat.lt_of_lt_of_eq Nat.one_pos hheld.symm)
    exact ⟨p, mem_map.mpr ⟨w, hw, by by_contra hne; simp [hasId, hne] at hid⟩⟩

end AuxCommon.BufferedWrites
