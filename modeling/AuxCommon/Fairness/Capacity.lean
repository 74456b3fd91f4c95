import AuxCommon.Fairness.Run

/-!
# Exact capacity accounting

A scope's `in_flight` counter is the number of leased candidates that are charged to it, its
free permits are the rest of its concurrency, and an ordering group is marked in flight exactly
while one leased candidate carries its key. `CapacityInv` states this, and there is one lemma
for each effect that an operation can have.
-/

namespace AuxCommon

open Option Function OrdMap CandidateSelection FairScope FairPermit FairCandidate CandidateRecord

/-! ## The scopes that one candidate is charged to -/

theorem FairScope.parent_eq_some {s p : FairScope} :
    s.parent = some p ↔ s.isSecondary = true ∧ s.primaryScope = p := by
  unfold parent
  split
  · rename_i h; simp [h]
  · rename_i h; simp [h]

theorem FairScope.parent_ne_self (s : FairScope) : s.parent ≠ some s := fun h =>
  ne_primaryScope_of_secondary (parent_eq_some.mp h).1 (parent_eq_some.mp h).2.symm

theorem FairCandidate.chargedTo_iff {c : FairCandidate} {s : FairScope} :
    c.chargedTo s = true ↔ s = c.scope ∨ c.scope.parent = some s := by
  simp only [chargedTo, decide_eq_true_eq, parent_eq_some]
  cases h : c.scope.isSecondary with
  | true => simp [eq_comm]
  | false => simp [primaryScope_of_not_secondary h, eq_comm]

/-- A permit charges its scope and its scope's parent, as every permit of a selection does. -/
def FairPermit.Coherent (p : FairPermit) : Prop := p.primary = p.scope.parent

section GiveBack

variable {p : FairPermit} {b : FairnessBudget} {c : CapacityRelease} {s : FairScope}
  {st : ScopeState}

/-- A coherent permit gives back one slot of each scope that it charges. -/
theorem FairPermit.giveBack_slots (hp : p.Coherent) : (p.giveBack b c s st).inFlight =
        (if s = p.scope ∨ p.scope.parent = some s then st.inFlight.satSub 1 else st.inFlight) ∧
      (p.giveBack b c s st).permits = (if s = p.scope ∨ p.scope.parent = some s then
          (st.permits.satAdd 1).umin b.maxConcurrencyPerScope.get else st.permits) := by
  unfold giveBack
  rw [hp]
  by_cases hs : s = p.scope
  · subst hs
    simp [parent_ne_self, ScopeState.release]
  · by_cases hpar : p.scope.parent = some s
    · simp [hs, hpar, ScopeState.release]
    · simp [hs, hpar]

end GiveBack

variable {record : CandidateRecord} {prep : CandidatePreparation} {pass : SelectionPass}

/-- A selection takes one slot of each scope that its candidate is charged to. -/
theorem CandidateRecord.selectScope_slots {g : FairPermitGeneration}
    {l : FairnessLedger} {s : FairScope}
    {st : ScopeState} :
    (l.selectScope (record.selection g) prep pass s st).inFlight =
        (if record.candidate.chargedTo s then st.inFlight.satAdd 1 else st.inFlight) ∧
      (l.selectScope (record.selection g) prep pass s st).permits =
        (if record.candidate.chargedTo s then st.permits.satSub 1 else st.permits) := by
  have halign : ∀ clock floor st,
      ((record.selection g).alignService clock floor s st).inFlight = st.inFlight ∧
        ((record.selection g).alignService clock floor s st).permits = st.permits := by
    intro clock floor st
    unfold alignService
    split
    · exact ⟨rfl, rfl⟩
    · cases (record.selection g).primary <;> dsimp only <;> split_ifs <;> exact ⟨rfl, rfl⟩
  have hclock : ∀ m st, ((record.selection g).advanceClock m s st).inFlight = st.inFlight ∧
        ((record.selection g).advanceClock m s st).permits = st.permits := by
    intro m st
    unfold advanceClock ScopeState.advanceChildClock
    split <;> exact ⟨rfl, rfl⟩
  have htake : ∀ st, ((record.selection g).take s st).inFlight =
          (if record.candidate.chargedTo s then st.inFlight.satAdd 1 else st.inFlight) ∧
        ((record.selection g).take s st).permits =
          (if record.candidate.chargedTo s then st.permits.satSub 1 else st.permits) := by
    intro st
    simp only [take, selection, chargedTo_iff]
    by_cases hs : s = record.candidate.scope
    · subst hs
      simp [parent_ne_self, ScopeState.acquire]
    · by_cases hpar : record.candidate.scope.parent = some s
      · simp [hs, hpar, ScopeState.acquire]
      · simp [hs, hpar]
  simp only [FairnessLedger.selectScope, comp, htake, halign, hclock, and_self]

/-! ## Leased candidates -/

/-- The number of leased records whose candidate satisfies `q`. -/
def leasedCount (q : FairCandidate → Bool) (m : OrdMap JobId CandidateRecord) : Nat :=
  OrdMap.count (fun _ r => r.state = .leased && q r.candidate) m

/-- The total of `w` over the candidates of the leased records. -/
def leasedTotal (w : FairCandidate → Nat) (m : OrdMap JobId CandidateRecord) : Nat :=
  OrdMap.total (fun _ r => if r.state = .leased then w r.candidate else 0) m

variable {g : JobId → CandidateRecord → CandidateRecord} {old : Option CandidateRoute}

section Leased

variable {q : FairCandidate → Bool} {w : FairCandidate → Nat} {m : OrdMap JobId CandidateRecord}
  {j : JobId} {r r' : CandidateRecord} {f : CandidateRecord → CandidateRecord}

theorem leasedCount_eq_total : leasedCount q m = leasedTotal (fun c => (q c).toNat) m := by
  unfold leasedCount count leasedTotal
  refine total_congr fun _ r _ => ?_
  by_cases hl : r.state = .leased <;> simp [hl]

theorem leasedTotal_eq_zero : leasedTotal w m = 0 ↔
      ∀ (j : JobId) r, m[j]? = some r → r.state = .leased → w r.candidate = 0 := by
  unfold leasedTotal
  rw [total_eq_zero]
  refine forall_congr' fun j => forall_congr' fun r => forall_congr' fun _ => ?_
  by_cases hl : r.state = .leased <;> simp [hl]

theorem leasedTotal_insert (hr : r.state ≠ .leased)
    (hm : ∀ r', m[j]? = some r' → r'.state ≠ .leased) :
    leasedTotal w (m.insert j r) = leasedTotal w m := by
  have h := total_insert (m := m) (k := j) (v := r)
    (f := fun _ (r : CandidateRecord) => if r.state = .leased then w r.candidate else 0)
  unfold leasedTotal
  cases hj : m[j]? with
  | none => simpa [hj, hr] using h
  | some r' => simpa [hj, hr, hm r' hj] using h

theorem leasedTotal_erase (hr : m[j]? = some r) (hl : r.state ≠ .leased) :
    leasedTotal w (m.erase j) = leasedTotal w m := by
  have h := total_erase (m := m) (k := j)
    (f := fun _ (r : CandidateRecord) => if r.state = .leased then w r.candidate else 0)
  unfold leasedTotal
  simpa [hr, hl] using h

theorem leasedCount_eq_zero : leasedCount q m = 0 ↔
      ∀ (j : JobId) r, m[j]? = some r → r.state = .leased → q r.candidate = false := by
  rw [leasedCount_eq_total, leasedTotal_eq_zero]
  simp only [Bool.toNat_eq_zero]

theorem leasedCount_insert (hr : r.state ≠ .leased)
    (hm : ∀ r', m[j]? = some r' → r'.state ≠ .leased) :
    leasedCount q (m.insert j r) = leasedCount q m := by
  rw [leasedCount_eq_total, leasedTotal_insert hr hm, leasedCount_eq_total]

theorem leasedCount_erase (hr : m[j]? = some r) (hl : r.state ≠ .leased) :
    leasedCount q (m.erase j) = leasedCount q m := by
  rw [leasedCount_eq_total, leasedTotal_erase hr hl, leasedCount_eq_total]

theorem leasedCount_modify (hr : m[j]? = some r) :
    leasedCount q (m.modify j f) + (r.state = .leased && q r.candidate).toNat =
      leasedCount q m + ((f r).state = .leased && q (f r).candidate).toNat := by
  exact total_modify (f := fun _ r => (r.state = .leased && q r.candidate).toNat) hr

/-- A change of a record that leaves its lease and what the lease is charged to alone. -/
structure CandidateRecord.SameLease (r r' : CandidateRecord) : Prop where
  scope : r'.candidate.scope = r.candidate.scope
  orderingKey : r'.candidate.orderingKey = r.candidate.orderingKey
  leased : r'.state = .leased ↔ r.state = .leased

theorem CandidateRecord.SameLease.chargedTo (h : r.SameLease r') (s : FairScope) :
    r'.candidate.chargedTo s = r.candidate.chargedTo s := by
  simp only [FairCandidate.chargedTo, h.scope]

theorem leasedCount_congr {m' : OrdMap JobId CandidateRecord}
    (hm : ∀ j : JobId, m'[j]? = m[j]?.map (g j))
    (hg : ∀ (j : JobId) r, m[j]? = some r →
      ((g j r).state = .leased && q (g j r).candidate) = (r.state = .leased && q r.candidate)) :
    leasedCount q m' = leasedCount q m := by
  have hmap : m' = m.map g :=
    Std.ExtTreeMap.ext_getElem? fun j => by rw [hm, Std.ExtTreeMap.getElem?_map]
  unfold leasedCount count
  rw [hmap, total_map]
  exact total_congr fun j r hr => congrArg Bool.toNat (hg j r hr)

end Leased

/-! ## The invariant -/

namespace FairnessLedger

variable {l l' : FairnessLedger} {s : FairScope} {j : JobId} {k : OrderingKey}

/-- The leases and the free permits of a scope. -/
def slotsAt (l : FairnessLedger) (s : FairScope) : Option (U32 × U32) :=
  l.scopes[s]?.map fun st => (st.inFlight, st.permits)

/-- The in-flight flag of an ordering group. -/
def flagAt (l : FairnessLedger) (k : OrderingKey) : Option Bool := l.orders[k]?.map (·.inFlight)

theorem slotsAt_eq_core : l.slotsAt s = (l.coreAt s).map fun st => (st.inFlight, st.permits) := by
  rw [slotsAt, coreAt, map_map]; rfl

/-- Capacity is accounted exactly. -/
structure CapacityInv (l : FairnessLedger) : Prop where
  slots : ∀ s n free, l.slotsAt s = some (n, free) →
    n.toNat = leasedCount (·.chargedTo s) l.candidates ∧
      n.toNat + free.toNat = l.budget.maxConcurrencyPerScope.get.toNat
  groups : ∀ k, leasedCount (·.orderingKey = some k) l.candidates =
    ((l.flagAt k).getD false).toNat

namespace CapacityInv

theorem new (b : FairnessBudget) : (FairnessLedger.new b).CapacityInv where
  slots s n free h := by simp [FairnessLedger.new, slotsAt] at h
  groups k := by simp [FairnessLedger.new, leasedCount, count, flagAt]

/-- A scope that does not exist has no leased candidate. -/
theorem leasedCount_of_none (hc : l.Covered) (hs : l.slotsAt s = none) :
    leasedCount (·.chargedTo s) l.candidates = 0 := by
  refine leasedCount_eq_zero.mpr fun j r hr _ => ?_
  by_contra hch
  have := hc j r s hr (by simpa using hch)
  rw [slotsAt_eq_core, map_eq_none_iff] at hs
  rw [hs] at this
  cases this

/-- Registering a candidate that is not leased. -/
theorem put (h : l.CapacityInv) (hcov : l.Covered) {refresh : IndexRefresh} (hp : l.Puts record) :
    (l.putCandidate record old refresh).CapacityInv := by
  have hnot : record.state ≠ .leased := by
    intro hl; have := hp.ready; rw [hl] at this; cases this
  have hcount : ∀ q, leasedCount q (l.candidates.insert record.candidate.jobId record) =
      leasedCount q l.candidates :=
    fun q => leasedCount_insert hnot fun r hr => hp.not_leased hr
  have hslots : ∀ s, (l.putCandidate record old refresh).slotsAt s =
      if record.candidate.chargedTo s then
        some ((l.slotsAt s).getD (0, l.budget.maxConcurrencyPerScope.get))
      else l.slotsAt s := by
    intro s
    rw [slotsAt_eq_core, putCandidate_coreAt, slotsAt_eq_core]
    split
    · cases l.coreAt s <;> rfl
    · rfl
  refine ⟨fun s n free hsome => ?_, fun k => ?_⟩
  · rw [putCandidate_candidates, putCandidate_frame.1, hcount]
    rw [hslots] at hsome
    split at hsome
    · cases hold : l.slotsAt s with
      | none =>
        rw [hold] at hsome
        cases hsome
        exact ⟨(leasedCount_of_none hcov hold).symm, by simp⟩
      | some v =>
        rw [hold] at hsome
        cases hsome
        exact h.slots s _ _ hold
    · exact h.slots s n free hsome
  · rw [putCandidate_candidates, hcount, h.groups, flagAt, flagAt, putCandidate_orders]
    split
    · cases l.orders[k]? <;> rfl
    · rfl

/-- Changes of records that leave every lease alone. -/
theorem neutral (h : l.CapacityInv)
    (hb : l'.budget = l.budget) (hs : ∀ s, l'.slotsAt s = l.slotsAt s)
    (hk : ∀ k, l'.flagAt k = l.flagAt k)
    (hc : ∀ j : JobId, l'.candidates[j]? = l.candidates[j]?.map (g j))
    (hg : ∀ (j : JobId) r, l.candidates[j]? = some r → r.SameLease (g j r)) :
    l'.CapacityInv := by
  refine ⟨fun s n free hsome => ?_, fun k => ?_⟩
  · rw [hs] at hsome
    rw [hb, leasedCount_congr hc fun j r hr => ?_]
    · exact h.slots s n free hsome
    · simp only [(hg j r hr).chargedTo, (hg j r hr).leased]
  · rw [hk, ← h.groups]
    refine leasedCount_congr hc fun j r hr => ?_
    simp only [(hg j r hr).orderingKey, (hg j r hr).leased]

variable {r : CandidateRecord}

/-- The end of a lease: each scope it is charged to gets its slot back. -/
theorem giveBack (h : l.CapacityInv) {f : CandidateRecord → CandidateRecord}
    (hr : l.candidates[j]? = some r) (hl : r.state = .leased)
    (hb : l'.budget = l.budget) (hc : l'.candidates = l.candidates.modify j f)
    (hf : (f r).state ≠ .leased)
    (hs : ∀ s, l'.slotsAt s = (l.slotsAt s).map fun v =>
      if r.candidate.chargedTo s then
        (v.1.satSub 1, (v.2.satAdd 1).umin l.budget.maxConcurrencyPerScope.get) else v)
    (hk : ∀ k, l'.flagAt k = (l.flagAt k).map fun b =>
      if r.candidate.orderingKey = some k then false else b) :
    l'.CapacityInv := by
  have hcount : ∀ q : FairCandidate → Bool,
      leasedCount q l'.candidates + (q r.candidate).toNat = leasedCount q l.candidates := by
    intro q
    have := leasedCount_modify (q := q) (f := f) hr
    rw [← hc] at this
    simpa [hl, hf] using this
  refine ⟨fun s n free hsome => ?_, fun k => ?_⟩
  · rw [hs] at hsome
    obtain ⟨⟨n₀, free₀⟩, hold, heq⟩ := map_eq_some_iff.mp hsome
    obtain ⟨hn, hsum⟩ := h.slots s n₀ free₀ hold
    have := hcount (·.chargedTo s)
    rw [hb]
    split at heq
    · rename_i hch
      cases heq
      simp only [hch, Bool.toNat_true] at this
      simp only [BitVec.toNat_satSub, BitVec.toNat_umin, BitVec.toNat_satAdd]
      have h1 : (1 : U32).toNat = 1 := rfl
      omega
    · rename_i hch
      cases heq
      simp only [Bool.not_eq_true] at hch
      simp only [hch, Bool.toNat_false] at this
      omega
  · have hcnt := hcount (·.orderingKey = some k)
    have hold := h.groups k
    rw [hk]
    by_cases hkk : r.candidate.orderingKey = some k
    · simp only [hkk, decide_true, Bool.toNat_true] at hcnt
      cases hflag : l.flagAt k with
      | none => rw [hflag] at hold; simp at hold; omega
      | some b => rw [hflag] at hold; cases b <;> simp [hkk] at hold ⊢ <;> omega
    · simp only [hkk, decide_false, Bool.toNat_false, Nat.add_zero] at hcnt
      rw [hcnt, hold]
      cases l.flagAt k <;> simp [hkk]

/-- A new lease: each scope it is charged to gives one slot. -/
theorem take (h : l.CapacityInv) (hkeyed : l.Keyed) {g : FairPermitGeneration}
    (hv : l.Validated j r g) (hb : l'.budget = l.budget)
    (hc : l'.candidates = l.candidates.modify r.candidate.jobId (·.leased g))
    (hs : ∀ s, l'.slotsAt s = (l.slotsAt s).map fun v =>
      if r.candidate.chargedTo s then (v.1.satAdd 1, v.2.satSub 1) else v)
    (hk : ∀ k, l'.flagAt k = (l.flagAt k).map fun b =>
      if r.candidate.orderingKey = some k then true else b) :
    l'.CapacityInv := by
  have hjob := hkeyed j r hv.get
  rw [hjob] at hc
  have hnot : r.state ≠ .leased := by
    intro hl; have := hv.ready; rw [hl] at this; cases this
  have hcount : ∀ q : FairCandidate → Bool,
      leasedCount q l'.candidates = leasedCount q l.candidates + (q r.candidate).toNat := by
    intro q
    have := leasedCount_modify (q := q) (f := (·.leased g)) hv.get
    rw [← hc] at this
    simpa [hnot, leased] using this
  have hroom : ∀ s n free, r.candidate.chargedTo s = true → l.slotsAt s = some (n, free) →
      n.toNat < l.budget.maxConcurrencyPerScope.get.toNat ∧ 0 < free.toNat := by
    intro s n free hch hslot
    have hcheck : l.checkScope s r.candidate.costUnits.get = .ok () := by
      rcases chargedTo_iff.mp hch with rfl | hpar
      · exact hv.scope
      · exact hv.parent s hpar
    obtain ⟨st, hst, -, hlt, hpos⟩ := checkScope_ok hcheck
    rw [slotsAt, hst] at hslot
    cases hslot
    exact ⟨hlt, hpos⟩
  refine ⟨fun s n free hsome => ?_, fun k => ?_⟩
  · rw [hs] at hsome
    obtain ⟨⟨n₀, free₀⟩, hold, heq⟩ := map_eq_some_iff.mp hsome
    obtain ⟨hn, hsum⟩ := h.slots s n₀ free₀ hold
    rw [hb, hcount]
    split at heq
    · rename_i hch
      obtain ⟨hlt, hpos⟩ := hroom s n₀ free₀ hch hold
      cases heq
      simp only [BitVec.toNat_satSub, BitVec.toNat_satAdd, hch, Bool.toNat_true]
      have h1 : (1 : U32).toNat = 1 := rfl
      omega
    · rename_i hch
      cases heq
      simp only [Bool.not_eq_true] at hch
      simp only [hch, Bool.toNat_false]
      omega
  · rw [hk, hcount, h.groups]
    by_cases hkk : r.candidate.orderingKey = some k
    · obtain ⟨o, ho, hfree, -⟩ := checkOrder_ok hv.order hkk
      simp [flagAt, ho, hfree, hkk]
    · cases l.flagAt k <;> simp [hkk]

/-- Dropping a record that is not leased, and with it perhaps its ordering group. -/
theorem drop (h : l.CapacityInv) (hr : l.candidates[j]? = some r)
    (hstate : r.state.isCompactable = true) : (l.dropCandidate j r).CapacityInv := by
  have hnot : r.state ≠ .leased := by
    intro hl; rw [hl] at hstate; cases hstate
  have hslots : ∀ s, (l.dropCandidate j r).slotsAt s = l.slotsAt s := by
    intro s; rw [slotsAt_eq_core, dropCandidate_coreAt, slotsAt_eq_core]
  have hcount : ∀ q, leasedCount q (l.dropCandidate j r).candidates = leasedCount q l.candidates := by
    intro q; rw [dropCandidate_frame.2.1, leasedCount_erase hr hnot]
  refine ⟨fun s n free hsome => ?_, fun k => ?_⟩
  · rw [hslots] at hsome
    rw [hcount, dropCandidate_frame.1]
    exact h.slots s n free hsome
  · rw [flagAt, dropCandidate_orders]
    split
    · rename_i hgone
      refine leasedCount_eq_zero.mpr fun j' r' hr' _ => ?_
      by_contra hc
      have : (l.dropCandidate j r).carriesKey k = true :=
        carriesKey_iff.mpr ⟨j', r', hr', by simpa using hc⟩
      rw [hgone.2] at this
      cases this
    · rw [hcount, h.groups]; rfl

theorem dropScopes (h : l.CapacityInv) : l.compactEmptyScopes.CapacityInv := by
  have hsub : ∀ s v, l.compactEmptyScopes.slotsAt s = some v → l.slotsAt s = some v := by
    intro s v hv
    obtain ⟨st, hst, rfl⟩ := map_eq_some_iff.mp hv
    rw [slotsAt, (compactEmptyScopes_get.mp hst).1]
    rfl
  exact ⟨fun s n free hsome => h.slots s n free (hsub _ _ hsome), h.groups⟩

theorem upToReset (h : l.CapacityInv) (hl : l.UpToReset l') : l'.CapacityInv := by
  rcases hl with rfl | rfl
  · exact h
  · exact h.neutral rfl (fun _ => rfl) (fun _ => rfl) (fun _ => resetPriorityWindow_get)
      fun _ _ _ => ⟨rfl, rfl, Iff.rfl⟩

theorem select (h : l.CapacityInv) (hkeyed : l.Keyed) {g : FairPermitGeneration}
    (hv : l.Validated j r g) :
    (l.settleSelection (r.selection g) prep pass).2.CapacityInv := by
  refine h.take hkeyed hv settleSelection_frame.2.1 settleSelection_candidates (fun s => ?_) (fun k => ?_)
  · simp only [slotsAt_eq_core, settleSelection_coreAt, map_map]
    congr 1
    funext st
    simp only [comp, selectScope_slots]
    split <;> rfl
  · simp only [flagAt, settleSelection_orders, map_map]
    congr 1
    funext o
    by_cases hk : r.candidate.orderingKey = some k <;> simp [selection, OrderRecord.taken, hk]

/-- The permit of a leased record gives back what the lease took. -/
theorem slots_giveBack {c : CapacityRelease} {st : ScopeState} :
    ((permitForLeasedRecord j r).giveBack l.budget c s st).inFlight =
        (if r.candidate.chargedTo s then st.inFlight.satSub 1 else st.inFlight) ∧
      ((permitForLeasedRecord j r).giveBack l.budget c s st).permits =
        (if r.candidate.chargedTo s then
          (st.permits.satAdd 1).umin l.budget.maxConcurrencyPerScope.get else st.permits) := by
  simp only [chargedTo_iff]
  exact giveBack_slots rfl

theorem settle (h : l.CapacityInv) (hr : l.candidates[j]? = some r)
    (hl : r.state = .leased) (outcome : FairRelease) :
    (l.applySettlement (permitForLeasedRecord j r) outcome).CapacityInv := by
  refine h.giveBack hr hl applySettlement_frame.1 applySettlement_candidates
    ?_ (fun s => ?_) (fun k => ?_)
  · cases outcome <;> simp [FairRelease.state]
  · simp only [slotsAt_eq_core, applySettlement_coreAt, map_map]
    congr 1
    funext st
    simp only [comp, slots_giveBack]
    split <;> rfl
  · simp only [flagAt, applySettlement_orders, map_map]
    congr 1
    funext o
    have hset : (o.settled (permitForLeasedRecord j r) outcome).inFlight = false := by
      unfold OrderRecord.settled; split <;> rfl
    by_cases hk : r.candidate.orderingKey = some k
    · simp [show (permitForLeasedRecord j r).orderingKey = some k from hk, hk, hset]
    · simp [show (permitForLeasedRecord j r).orderingKey ≠ some k from hk, hk]

/-- The capacity of a low-volume scope does not depend on its service. -/
theorem restore (h : l.CapacityInv) (p : FairPermit) :
    (l.restoreReconciledLowVolumeService p).CapacityInv := by
  obtain ⟨hb, hc, ho, -, -⟩ := restoreReconciledLowVolumeService_frame (l := l) (p := p)
  refine h.neutral (g := fun _ r => r) hb (fun s => ?_) (fun k => by rw [flagAt, ho, flagAt])
    (fun j => by rw [hc]; simp) fun _ _ _ => ⟨rfl, rfl, Iff.rfl⟩
  simp only [slotsAt_eq_core, restoreReconciledLowVolumeService_coreAt, map_map]
  congr 1
  funext st
  simp only [comp, restoreLowVolume]
  split <;> rfl

theorem reconcile (h : l.CapacityInv) (hr : l.candidates[j]? = some r)
    (hl : r.state = .leased) (t : Timestamp) :
    (((l.releaseCapacity (permitForLeasedRecord j r) .restoreRate).restoreReconciledLowVolumeService
      (permitForLeasedRecord j r)).updateRecord j (some (.fromRecord r))
        (·.reconciled t)).CapacityInv := by
  have hp := releaseCapacity_frame (l := l) (p := permitForLeasedRecord j r) (c := .restoreRate)
  have hq := restoreReconciledLowVolumeService_frame
    (l := l.releaseCapacity (permitForLeasedRecord j r) .restoreRate)
    (p := permitForLeasedRecord j r)
  refine h.giveBack (f := (·.reconciled t)) hr hl ?_ ?_ ?_ (fun s => ?_) (fun k => ?_)
  · rw [updateRecord_budget, hq.1, hp.1]
  · rw [updateRecord_candidates, hq.2.1, hp.2.1]
  · simp [reconciled, deferred]
  · simp only [slotsAt_eq_core, updateRecord_coreAt, restoreReconciledLowVolumeService_coreAt,
      releaseCapacity_coreAt, map_map]
    congr 1
    funext st
    simp only [comp, restoreLowVolume, ScopeState.restoreLowVolume]
    split <;> simp only [slots_giveBack] <;> split <;> rfl
  · simp only [flagAt, updateRecord_orders, hq.2.2.1, releaseCapacity_orders, map_map]
    congr 1
    funext o
    by_cases hk : r.candidate.orderingKey = some k <;>
      simp [permitForLeasedRecord, OrderRecord.freed, hk]

/-- A record that is not leased may change its state and time. -/
theorem retag (h : l.CapacityInv) {f : CandidateRecord → CandidateRecord}
    (hr : l.candidates[j]? = some r) (hf : r.SameLease (f r)) :
    (l.updateRecord j old f).CapacityInv := by
  refine h.neutral (g := fun j' r => if j' = j then f r else r) updateRecord_budget (fun s => ?_)
    (fun k => by rw [flagAt, updateRecord_orders, flagAt])
    (fun j' => by rw [updateRecord_candidates, get_modify]) fun j' r' hr' => ?_
  · rw [slotsAt_eq_core, updateRecord_coreAt, slotsAt_eq_core]
  · split
    · rename_i hj
      subst hj
      cases hr.symm.trans hr'
      exact hf
    · exact ⟨rfl, rfl, Iff.rfl⟩

end CapacityInv

/-- The discipline of the ledger's callers: a permit is released only while it is the permit of
its job's current lease (so at most once), and a job is deferred only when it is not leased, as
right after its release with `Retry`. -/
def Disciplined (l : FairnessLedger) : LedgerOp → Prop
  | .release p _ => l.currentPermit p.jobId = some p
  | .defer j _ => l.candidateState j ≠ some .leased
  | _ => True

/-- Every call of a disciplined caller keeps capacity exact. -/
theorem CapacityInv.effect (h : l.CapacityInv) (hw : l.WellFormed) {op : LedgerOp} (hop : l.Disciplined op)
    (heff : l.Effect op l') : l'.CapacityInv := by
  cases heff with
  | unchanged => exact h
  | added _ puts => exact h.put hw.covered puts
  | upserted _ puts => exact h.put hw.covered puts
  | refused reset => exact h.upToReset reset
  | selected reset chosen => exact (h.upToReset reset).select (hw.keyed.upToReset reset) chosen.validated
  | released get leased =>
    obtain ⟨r, hr, hl, hp⟩ := currentPermit_eq_some.mp hop
    rw [hp]
    exact h.settle hr hl _
  | @deferred j _ record get =>
    have hnot : record.state ≠ .leased := by
      intro hl; exact hop (by rw [candidateState, get, map_some, hl])
    exact h.retag get ⟨rfl, rfl, by simp [deferred, hnot]⟩
  | settled get leased => exact (h.settle get leased .complete).restore _
  | removed get idle => exact h.retag get ⟨rfl, rfl, by simp [idle]⟩
  | reconciled get leased => exact h.reconcile get leased _
  | @weighted s w =>
    obtain ⟨hb, hc, ho, -, -⟩ := setScopeWeight_frame (l := l) (s := s) (w := w)
    refine h.neutral (g := fun _ r => r) hb (fun s' => ?_) (fun k => by rw [flagAt, ho, flagAt])
      (fun j => by rw [hc]; simp) fun _ _ _ => ⟨rfl, rfl, Iff.rfl⟩
    simp only [slotsAt_eq_core, setScopeWeight_coreAt, map_map]
    congr 1
    funext st
    simp only [comp, ScopeState.setWeight]
    split_ifs <;> rfl
  | @served j u =>
    refine h.neutral (g := fun j' r => if j' = j then { r with serviceTransitions := _ } else r) rfl
      (fun _ => rfl) (fun _ => rfl) (fun _ => get_modify) fun _ _ _ => ?_
    split <;> exact ⟨rfl, rfl, Iff.rfl⟩
  | compacted get compactable => exact h.drop get compactable
  | compactedScopes => exact h.dropScopes

instance (l : FairnessLedger) (op : LedgerOp) : Decidable (l.Disciplined op) := by
  cases op <;> unfold Disciplined <;> infer_instance

theorem CapacityInv.run {b : FairnessBudget} (h : RunFrom Disciplined (FairnessLedger.new b) l) :
    l.WellFormed ∧ l.CapacityInv ∧ l.budget = b := by
  refine h.invariant (I := fun l => l.WellFormed ∧ l.CapacityInv ∧ l.budget = b)
    (fun l op l' hi hop hst => ?_) ⟨.new b, .new b, rfl⟩
  exact ⟨hi.1.effect hst.effect, hi.2.1.effect hi.1 hop hst.effect, hst.effect.budget.trans hi.2.2⟩

/-- Over every run of disciplined callers, a scope's `in_flight` is the number of leased
candidates charged to it, its permits are the rest of the concurrency, and an ordering group is
in flight exactly while one leased candidate carries its key. -/
theorem capacity_exact {b : FairnessBudget} (h : RunFrom Disciplined (.new b) l) :
    (∀ (s : FairScope) st, l.scopes[s]? = some st →
      st.inFlight.toNat = leasedCount (fun c => c.scope = s ∨ c.scope.primaryScope = s)
          l.candidates ∧
        st.inFlight.toNat + st.permits.toNat = b.maxConcurrencyPerScope.get.toNat) ∧
    (∀ k : OrderingKey, (∃ o, l.orders[k]? = some o ∧ o.inFlight = true) ↔
      ∃ (j : JobId) (r : _), l.candidates[j]? = some r ∧ r.state = .leased ∧
        r.candidate.orderingKey = some k) ∧
    ∀ (k : OrderingKey) (j j' : JobId) r r', l.candidates[j]? = some r → r.state = .leased →
      r.candidate.orderingKey = some k → l.candidates[j']? = some r' → r'.state = .leased →
        r'.candidate.orderingKey = some k → j = j' := by
  obtain ⟨-, hinv, hb⟩ := CapacityInv.run h
  refine ⟨fun s st hst => ?_, fun k => ?_, fun k j j' r r' hr hl hk hr' hl' hk' => ?_⟩
  · rw [← hb]
    exact hinv.slots s _ _ (by rw [slotsAt, hst]; rfl)
  · have hcount := hinv.groups k
    constructor
    · rintro ⟨o, ho, hf⟩
      by_contra hno
      have hzero : leasedCount (·.orderingKey = some k) l.candidates = 0 := by
        refine leasedCount_eq_zero.mpr fun j r hr hl => ?_
        by_contra hk
        exact hno ⟨j, r, hr, hl, by simpa using hk⟩
      simp [hzero, flagAt, ho, hf] at hcount
    · rintro ⟨j, r, hr, hl, hk⟩
      have hpos : leasedCount (·.orderingKey = some k) l.candidates ≠ 0 := fun hzero => by
        have := leasedCount_eq_zero.mp hzero j r hr hl
        simp [hk] at this
      cases ho : l.orders[k]? with
      | none => simp [flagAt, ho] at hcount; exact absurd hcount hpos
      | some o =>
        refine ⟨o, rfl, ?_⟩
        cases hf : o.inFlight with
        | true => rfl
        | false => simp [flagAt, ho, hf] at hcount; exact absurd hcount hpos
  · by_contra hne
    have htwo := add_le_total (f := fun _ r =>
      (r.state = .leased && decide (r.candidate.orderingKey = some k)).toNat) hne hr hr'
    have hcount := hinv.groups k
    unfold leasedCount count at hcount
    rw [hcount] at htwo
    have := Bool.toNat_le ((l.flagAt k).getD false)
    simp [hl, hk, hl', hk'] at htwo
    omega

/-- Two candidates of one ordering group: the first is selected, released and selected again. -/
def capacitySample : List LedgerOp :=
  let first := { FairCandidateInput.plain 1 7 with orderingKey := some (.single 9) }
  let second := { FairCandidateInput.plain 2 7 with
    orderingKey := some (.single 9), orderingPosition := 1 }
  let permit := { FairPermit.plain 1 7 with orderingKey := some (.single 9) }
  let jobs := {.repeated 1, .repeated 2}
  [.add first, .add second, .select ⟨5⟩ jobs, .release permit .retry, .defer (.repeated 1) ⟨3⟩,
    .select ⟨5⟩ jobs]

theorem capacity_exact_sample :
    let l := capacitySample.foldl apply (.new .tiny)
    RunFrom Disciplined (.new .tiny) l ∧
      (∃ st, l.scopes[FairScope.scoped (.single 7) none]? = some st ∧ st.inFlight.toNat = 1 ∧
        st.inFlight.toNat + st.permits.toNat = 1) ∧
      ∃ o, l.orders[(.single 9 : OrderingKey)]? = some o ∧ o.inFlight = true := by
  intro l
  have hrun : RunFrom Disciplined (.new .tiny) l := .ofList (by decide +kernel)
  obtain ⟨st, hst⟩ : ∃ st, l.scopes[FairScope.scoped (.single 7) none]? = some st :=
    isSome_iff_exists.mp (by decide +kernel)
  obtain ⟨hslots, hgroups, -⟩ := capacity_exact hrun
  obtain ⟨hn, hsum⟩ := hslots _ st hst
  refine ⟨hrun, ⟨st, hst, hn.trans (by decide +kernel), hsum⟩, (hgroups _).mpr ?_⟩
  exact ⟨.repeated 1, l.candidates[(.repeated 1 : JobId)]?.get (by decide +kernel), by simp,
    by decide +kernel, by decide +kernel⟩

end FairnessLedger

end AuxCommon
