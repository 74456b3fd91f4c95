import AuxCommon.Fairness.Selection

/-!
# What each operation does to each part of the ledger

One lemma per operation and part of the state (scopes, candidates, orders, priority windows,
service clock), so that a proof about a run cites what an operation does and never unfolds it.

The ready index (`ready_count`, `head` and `order` of a scope) is advisory and changes with
almost every operation, and the largest `cost` seen is only reported. `ScopeState.core` forgets
them and `FairnessLedger.coreAt` looks a scope up without them; the index has lemmas of its own.
-/

namespace AuxCommon

open Function OrdMap FairCandidate

/-- A scope without its place in the ready index and its largest cost. -/
def ScopeState.core (st : ScopeState) : ScopeState :=
  { st with readyCount := 0, head := 0, order := 0, cost := ⟨1, NonZero.one_ne_zero16⟩ }

/-- A new scope. -/
def ScopeState.fresh (b : FairnessBudget) (s : FairScope) : ScopeState :=
  (ScopeState.new s ⟨1, NonZero.one_ne_zero16⟩ s.volumeMode b).core

/-- The scopes that a candidate's service is charged to: its own and its primary. -/
def FairCandidate.chargedTo (c : FairCandidate) (s : FairScope) : Bool :=
  c.scope = s ∨ c.scope.primaryScope = s

/-- What a release of `p` does to the scope `s`: the scope of the permit and its parent each get
one slot back. -/
def FairPermit.giveBack (p : FairPermit) (b : FairnessBudget) (release : CapacityRelease)
    (s : FairScope) (st : ScopeState) : ScopeState :=
  let st := if s = p.scope then st.release b p.scope release p.costUnits.get .service else st
  if p.primary = some s then st.release b s release p.costUnits.get .parentCapacity else st

/-- What a reconciled or removed low-volume lease does to the scope `s`. -/
def FairPermit.restoreLowVolume (p : FairPermit) (s : FairScope) (st : ScopeState) : ScopeState :=
  if p.scope.isLowVolume ∧ s = p.scope then st.restoreLowVolume p.costUnits.get else st

/-- An ordering group after its lease was given back. -/
def OrderRecord.freed (o : OrderRecord) : OrderRecord :=
  { o with inFlight := false, releases := o.releases.satAdd 1 }

/-- An ordering group after its lease was settled: a terminal outcome moves the head. -/
def OrderRecord.settled (o : OrderRecord) (p : FairPermit) (r : FairRelease) : OrderRecord :=
  if r.isTerminal then { o.freed with head := p.orderingPosition.satAdd 1 } else o.freed

namespace CandidateSelection

/-- What the clocks of a selection do to the scope `s`. -/
def advanceClock (sel : CandidateSelection) (childMinimum : U128) (s : FairScope)
    (st : ScopeState) : ScopeState :=
  if sel.scope.isLowVolume = false ∧ s = sel.primary.getD sel.scope then
    st.advanceChildClock childMinimum
  else st

/-- What the alignment of a selection does to the scope `s`. -/
def alignService (sel : CandidateSelection) (clock childFloor : U128) (s : FairScope)
    (st : ScopeState) : ScopeState :=
  if sel.scope.isLowVolume then st
  else match sel.primary with
    | none =>
      if s = sel.scope then (st.alignService clock).alignOwnService childFloor else st
    | some primary =>
      let st := if s = sel.scope then st.alignService childFloor else st
      if s = primary then st.alignService clock else st

/-- What the charge of a selection does to the scope `s`: its scope and its parent each give
one slot. -/
def take (sel : CandidateSelection) (s : FairScope) (st : ScopeState) : ScopeState :=
  let st := if s = sel.scope then st.acquire sel.scope sel.costUnits.get .service else st
  if sel.primary = some s then st.acquire s sel.costUnits.get .parentCapacity else st

end CandidateSelection

namespace FairnessLedger

variable {l : FairnessLedger} {s s' : FairScope} {j j' : JobId} {k k' : OrderingKey}
  {st : ScopeState}

/-- The state of a scope without its place in the ready index. -/
def coreAt (l : FairnessLedger) (s : FairScope) : Option ScopeState :=
  l.scopes[s]?.map ScopeState.core

theorem coreAt_of_get (h : l.scopes[s]? = some st) : l.coreAt s = some st.core := by
  rw [coreAt, h]; rfl

theorem coreAt_eq_some (h : l.coreAt s = some st) :
    ∃ st', l.scopes[s]? = some st' ∧ st'.core = st :=
  Option.map_eq_some_iff.mp h

theorem coreAt_eq_none : l.coreAt s = none ↔ l.scopes[s]? = none := Option.map_eq_none_iff

/-! ## Updates of one entry -/

section Modify

variable {f : ScopeState → ScopeState} {g : CandidateRecord → CandidateRecord}
  {h : OrderRecord → OrderRecord} {key : Option OrderingKey}

@[simp] theorem modifyScope_budget : (l.modifyScope s f).budget = l.budget := rfl
@[simp] theorem modifyScope_candidates : (l.modifyScope s f).candidates = l.candidates := rfl
@[simp] theorem modifyScope_orders : (l.modifyScope s f).orders = l.orders := rfl
@[simp] theorem modifyScope_priority : (l.modifyScope s f).priority = l.priority := rfl
@[simp] theorem modifyScope_serviceClock : (l.modifyScope s f).serviceClock = l.serviceClock := rfl

theorem modifyScope_scopes :
    (l.modifyScope s f).scopes[s']? = l.scopes[s']?.map fun st => if s' = s then f st else st :=
  get_modify

@[simp] theorem modifyCandidate_budget : (l.modifyCandidate j g).budget = l.budget := rfl
@[simp] theorem modifyCandidate_scopes : (l.modifyCandidate j g).scopes = l.scopes := rfl
@[simp] theorem modifyCandidate_orders : (l.modifyCandidate j g).orders = l.orders := rfl
@[simp] theorem modifyCandidate_priority : (l.modifyCandidate j g).priority = l.priority := rfl
@[simp] theorem modifyCandidate_serviceClock :
    (l.modifyCandidate j g).serviceClock = l.serviceClock := rfl
@[simp] theorem modifyCandidate_candidates :
    (l.modifyCandidate j g).candidates = l.candidates.modify j g := rfl

@[simp] theorem modifyOrder_budget : (l.modifyOrder key h).budget = l.budget := by
  cases key <;> rfl
@[simp] theorem modifyOrder_scopes : (l.modifyOrder key h).scopes = l.scopes := by
  cases key <;> rfl
@[simp] theorem modifyOrder_candidates : (l.modifyOrder key h).candidates = l.candidates := by
  cases key <;> rfl
@[simp] theorem modifyOrder_priority : (l.modifyOrder key h).priority = l.priority := by
  cases key <;> rfl
@[simp] theorem modifyOrder_serviceClock : (l.modifyOrder key h).serviceClock = l.serviceClock := by
  cases key <;> rfl

theorem modifyOrder_orders :
    (l.modifyOrder key h).orders[k]? = l.orders[k]?.map fun o => if key = some k then h o else o := by
  cases key with
  | none => simp [modifyOrder]
  | some k₀ =>
    rw [modifyOrder, get_modify]
    simp only [Option.some.injEq, eq_comm]

theorem modifyOrder_coreAt : (l.modifyOrder key h).coreAt s = l.coreAt s := by
  rw [coreAt, modifyOrder_scopes, coreAt]

theorem modifyScope_coreAt (hf : ∀ st, (f st).core = f st.core) : (l.modifyScope s f).coreAt s' =
      (l.coreAt s').map fun st => if s' = s then f st else st := by
  rw [coreAt, modifyScope_scopes, coreAt, Option.map_map, Option.map_map]
  congr 1
  funext st
  simp only [comp]
  split
  · exact hf st
  · rfl

end Modify

/-! ## The ready index -/

section Index

variable {ready add : Bool} {old new : Option CandidateRoute} {refresh : IndexRefresh}

theorem adjustReadyCount_coreAt : (l.adjustReadyCount s ready add).coreAt s' = l.coreAt s' := by
  unfold adjustReadyCount
  split
  · rw [coreAt, modifyScope_scopes, coreAt, Option.map_map]
    congr 1
    funext st
    simp only [comp]
    split <;> rfl
  · rfl

/-- Moving a route changes nothing but the index of ready candidates. -/
theorem replaceCandidateRoute_coreAt :
    (l.replaceCandidateRoute old new refresh).coreAt s = l.coreAt s := by
  have hadv : ∀ (l : FairnessLedger) (s' : FairScope) (p : U64),
      (l.modifyScope s' (·.advanceOrder p)).coreAt s = l.coreAt s := by
    intro l s' p
    rw [coreAt, modifyScope_scopes, coreAt, Option.map_map]
    congr 1
    funext st
    simp only [comp]
    split <;> rfl
  unfold replaceCandidateRoute
  cases old <;> cases new <;> dsimp only <;> (try split) <;>
    simp only [hadv, adjustReadyCount_coreAt]

/-- The parts of the ledger that the ready index is no part of. -/
theorem adjustReadyCount_frame : (l.adjustReadyCount s ready add).budget = l.budget ∧
      (l.adjustReadyCount s ready add).candidates = l.candidates ∧
      (l.adjustReadyCount s ready add).orders = l.orders ∧
      (l.adjustReadyCount s ready add).priority = l.priority ∧
      (l.adjustReadyCount s ready add).serviceClock = l.serviceClock := by
  unfold adjustReadyCount
  split <;> exact ⟨rfl, rfl, rfl, rfl, rfl⟩

theorem replaceCandidateRoute_frame : (l.replaceCandidateRoute old new refresh).budget = l.budget ∧
      (l.replaceCandidateRoute old new refresh).candidates = l.candidates ∧
      (l.replaceCandidateRoute old new refresh).orders = l.orders ∧
      (l.replaceCandidateRoute old new refresh).priority = l.priority ∧
      (l.replaceCandidateRoute old new refresh).serviceClock = l.serviceClock := by
  unfold replaceCandidateRoute
  cases old <;> cases new <;> dsimp only <;> (try split) <;> simp [adjustReadyCount_frame]

@[simp] theorem replaceCandidateRoute_budget :
    (l.replaceCandidateRoute old new refresh).budget = l.budget := replaceCandidateRoute_frame.1
@[simp] theorem replaceCandidateRoute_candidates :
    (l.replaceCandidateRoute old new refresh).candidates = l.candidates :=
  replaceCandidateRoute_frame.2.1
@[simp] theorem replaceCandidateRoute_orders :
    (l.replaceCandidateRoute old new refresh).orders = l.orders :=
  replaceCandidateRoute_frame.2.2.1
@[simp] theorem replaceCandidateRoute_priority :
    (l.replaceCandidateRoute old new refresh).priority = l.priority :=
  replaceCandidateRoute_frame.2.2.2.1
@[simp] theorem replaceCandidateRoute_serviceClock :
    (l.replaceCandidateRoute old new refresh).serviceClock = l.serviceClock :=
  replaceCandidateRoute_frame.2.2.2.2

end Index

section Update

variable {g : CandidateRecord → CandidateRecord} {old : Option CandidateRoute}

@[simp] theorem updateRecord_budget : (l.updateRecord j old g).budget = l.budget := by
  simp [updateRecord]
@[simp] theorem updateRecord_candidates :
    (l.updateRecord j old g).candidates = l.candidates.modify j g := by
  simp [updateRecord]
@[simp] theorem updateRecord_orders : (l.updateRecord j old g).orders = l.orders := by
  simp [updateRecord]
@[simp] theorem updateRecord_priority : (l.updateRecord j old g).priority = l.priority := by
  simp [updateRecord]
@[simp] theorem updateRecord_serviceClock :
    (l.updateRecord j old g).serviceClock = l.serviceClock := by
  simp [updateRecord]
@[simp] theorem updateRecord_coreAt : (l.updateRecord j old g).coreAt s = l.coreAt s := by
  rw [updateRecord, replaceCandidateRoute_coreAt]; rfl

end Update

/-! ## Registration -/

section Register

variable {cost : NonZero 16} {c : FairCandidate}

@[simp] theorem ensureScope_budget : (l.ensureScope s cost).budget = l.budget := by
  unfold ensureScope; split <;> rfl
@[simp] theorem ensureScope_candidates : (l.ensureScope s cost).candidates = l.candidates := by
  unfold ensureScope; split <;> rfl
@[simp] theorem ensureScope_orders : (l.ensureScope s cost).orders = l.orders := by
  unfold ensureScope; split <;> rfl
@[simp] theorem ensureScope_priority : (l.ensureScope s cost).priority = l.priority := by
  unfold ensureScope; split <;> rfl
@[simp] theorem ensureScope_serviceClock :
    (l.ensureScope s cost).serviceClock = l.serviceClock := by
  unfold ensureScope; split <;> rfl

/-- `ensure_scope` creates a scope that is missing. -/
theorem ensureScope_coreAt : (l.ensureScope s cost).coreAt s' =
      if s' = s then some ((l.coreAt s).getD (.fresh l.budget s)) else l.coreAt s' := by
  unfold ensureScope
  split
  · rename_i h
    rw [coreAt, get_insert, coreAt_eq_none.mpr h]
    split <;> rfl
  · rename_i st h
    rw [coreAt, modifyScope_scopes, coreAt, h]
    by_cases hs : s' = s
    · subst hs; simp only [h, if_true]; rfl
    · simp only [hs, if_false]; simp [coreAt]

theorem ensureCandidateScopes_coreAt : (l.ensureCandidateScopes c).coreAt s =
      if c.chargedTo s then some ((l.coreAt s).getD (.fresh l.budget s)) else l.coreAt s := by
  unfold ensureCandidateScopes FairScope.parent chargedTo
  cases hsec : c.scope.isSecondary with
  | false =>
    rw [FairScope.primaryScope_of_not_secondary hsec]
    simp only [Bool.false_eq_true, if_false, ensureScope_coreAt, or_self, decide_eq_true_eq]
    by_cases hs : s = c.scope
    · simp [hs]
    · simp [hs, Ne.symm hs]
  | true =>
    have hne := FairScope.ne_primaryScope_of_secondary hsec
    simp only [if_true, ensureScope_coreAt, decide_eq_true_eq, ensureScope_budget]
    by_cases hs : s = c.scope
    · simp [hs, hne]
    · by_cases hp : s = c.scope.primaryScope
      · simp [hp, hne.symm]
      · simp [hs, hp, Ne.symm hs, Ne.symm hp]

theorem ensureCandidateScopes_frame : (l.ensureCandidateScopes c).budget = l.budget ∧
      (l.ensureCandidateScopes c).candidates = l.candidates ∧
      (l.ensureCandidateScopes c).orders = l.orders ∧
      (l.ensureCandidateScopes c).priority = l.priority ∧
      (l.ensureCandidateScopes c).serviceClock = l.serviceClock := by
  unfold ensureCandidateScopes
  cases c.scope.parent <;> simp

/-- Registration creates the scopes of the candidate that are missing, and only those. -/
theorem registerCandidate_coreAt : (l.registerCandidate c).coreAt s =
      if c.chargedTo s then some ((l.coreAt s).getD (.fresh l.budget s)) else l.coreAt s := by
  unfold registerCandidate
  cases c.orderingKey <;> exact ensureCandidateScopes_coreAt

theorem registerCandidate_frame : (l.registerCandidate c).budget = l.budget ∧
      (l.registerCandidate c).candidates = l.candidates ∧
      (l.registerCandidate c).priority = l.priority ∧
      (l.registerCandidate c).serviceClock = l.serviceClock := by
  obtain ⟨hb, hc, -, hp, hs⟩ := ensureCandidateScopes_frame (l := l) (c := c)
  unfold registerCandidate
  cases c.orderingKey <;> exact ⟨hb, hc, hp, hs⟩

@[simp] theorem registerCandidate_budget : (l.registerCandidate c).budget = l.budget :=
  registerCandidate_frame.1
@[simp] theorem registerCandidate_candidates :
    (l.registerCandidate c).candidates = l.candidates := registerCandidate_frame.2.1
@[simp] theorem registerCandidate_priority : (l.registerCandidate c).priority = l.priority :=
  registerCandidate_frame.2.2.1
@[simp] theorem registerCandidate_serviceClock :
    (l.registerCandidate c).serviceClock = l.serviceClock := registerCandidate_frame.2.2.2

/-- Registration opens the ordering group of the candidate when it is missing. -/
theorem registerCandidate_orders : (l.registerCandidate c).orders[k]? =
      if c.orderingKey = some k then some (l.orders[k]?.getD (.opened c)) else l.orders[k]? := by
  unfold registerCandidate
  cases hk : c.orderingKey with
  | none => simp only [ensureCandidateScopes_frame, reduceCtorEq, if_false]
  | some k₀ =>
    simp only [ensureCandidateScopes_frame, get_insertIfNew, Option.some.injEq]
    by_cases h : k = k₀
    · subst h; simp
    · simp [h, Ne.symm h]

end Register

/-! ## Release of capacity -/

section Release

variable {p : FairPermit} {c : CapacityRelease} {r : FairRelease}

theorem releaseScope_coreAt {cost : U16} {charge : ScopeCharge} :
    (l.releaseScope s c cost charge).coreAt s' =
      (l.coreAt s').map fun st => if s' = s then st.release l.budget s c cost charge else st :=
  modifyScope_coreAt fun _ => rfl

theorem releaseCapacity_coreAt :
    (l.releaseCapacity p c).coreAt s = (l.coreAt s).map (p.giveBack l.budget c s) := by
  unfold releaseCapacity FairPermit.giveBack
  cases hp : p.primary with
  | none =>
    simp only [modifyOrder_coreAt, releaseScope_coreAt, reduceCtorEq, if_false]
  | some primary =>
    simp only [modifyOrder_coreAt, releaseScope_coreAt, Option.map_map, Option.some.injEq]
    congr 1
    funext st
    simp only [comp, eq_comm (a := primary)]
    by_cases hs : s = primary
    · subst hs; simp [releaseScope]
    · simp [hs]

theorem releaseCapacity_orders : (l.releaseCapacity p c).orders[k]? =
      l.orders[k]?.map fun o => if p.orderingKey = some k then o.freed else o := by
  unfold releaseCapacity
  cases p.primary <;> simp only [modifyOrder_orders] <;> rfl

theorem releaseCapacity_frame : (l.releaseCapacity p c).budget = l.budget ∧
      (l.releaseCapacity p c).candidates = l.candidates ∧
      (l.releaseCapacity p c).priority = l.priority ∧
      (l.releaseCapacity p c).serviceClock = l.serviceClock := by
  unfold releaseCapacity
  cases p.primary <;> simp [releaseScope]

theorem restoreReconciledLowVolumeService_coreAt :
    (l.restoreReconciledLowVolumeService p).coreAt s = (l.coreAt s).map (p.restoreLowVolume s) := by
  unfold restoreReconciledLowVolumeService FairPermit.restoreLowVolume
  split
  · rename_i h
    refine (modifyScope_coreAt (f := (·.restoreLowVolume _)) fun _ => rfl).trans ?_
    simp [h]
  · rename_i h
    simp [h]

theorem restoreReconciledLowVolumeService_frame :
    (l.restoreReconciledLowVolumeService p).budget = l.budget ∧
      (l.restoreReconciledLowVolumeService p).candidates = l.candidates ∧
      (l.restoreReconciledLowVolumeService p).orders = l.orders ∧
      (l.restoreReconciledLowVolumeService p).priority = l.priority ∧
      (l.restoreReconciledLowVolumeService p).serviceClock = l.serviceClock := by
  unfold restoreReconciledLowVolumeService
  split <;> simp

theorem applySettlement_coreAt : (l.applySettlement p r).coreAt s =
      (l.coreAt s).map (p.giveBack l.budget r.capacityRelease s) := by
  unfold applySettlement
  rw [updateRecord_coreAt]
  split
  · rw [modifyOrder_coreAt, releaseCapacity_coreAt]
  · rw [releaseCapacity_coreAt]

theorem applySettlement_candidates : (l.applySettlement p r).candidates =
      l.candidates.modify p.jobId fun record => { record with state := r.state } := by
  unfold applySettlement
  rw [updateRecord_candidates]
  split <;> simp [releaseCapacity_frame]

theorem applySettlement_orders : (l.applySettlement p r).orders[k]? =
      l.orders[k]?.map fun o => if p.orderingKey = some k then o.settled p r else o := by
  unfold applySettlement
  rw [updateRecord_orders]
  split
  · rename_i hr
    rw [modifyOrder_orders, releaseCapacity_orders, Option.map_map]
    congr 1
    funext o
    simp only [comp, OrderRecord.settled, hr, if_true]
    split <;> rfl
  · rename_i hr
    rw [releaseCapacity_orders]
    simp only [OrderRecord.settled, hr]
    rfl

theorem applySettlement_frame : (l.applySettlement p r).budget = l.budget ∧
      (l.applySettlement p r).priority = l.priority ∧
      (l.applySettlement p r).serviceClock = l.serviceClock := by
  unfold applySettlement
  split <;> simp [releaseCapacity_frame]

end Release

/-! ## Lifecycle operations -/

section Lifecycle

variable {input : FairCandidateInput} {c : FairCandidate} {t : Timestamp} {w : NonZero 16}

/-- Registers the candidate of a record, writes the record and moves its route. -/
def putCandidate (l : FairnessLedger) (record : CandidateRecord) (old : Option CandidateRoute)
    (refresh : IndexRefresh) : FairnessLedger :=
  let j := record.candidate.jobId
  let l' := { l.registerCandidate record.candidate with
    candidates := l.candidates.insert j record }
  l'.replaceCandidateRoute old (l'.route j) refresh

/-- The records that `add_candidate` and `upsert_candidate` write: ready, in the place of none
or of one that is neither leased nor terminal, and with its permit generation. -/
structure Puts (l : FairnessLedger) (record : CandidateRecord) : Prop where
  ready : record.state.hasReadyRoute = true
  state : l.candidates[record.candidate.jobId]? = none ∨
    ∃ r, l.candidates[record.candidate.jobId]? = some r ∧
      (r.state = .absent ∨ r.state = record.state)
  generation : record.acquisitionGeneration =
    l.candidates[record.candidate.jobId]?.bind (·.acquisitionGeneration)
  cost_le : record.candidate.costUnits.get.toNat ≤ maxCostUnits

theorem Puts.not_leased {record r : CandidateRecord} (h : l.Puts record)
    (hr : l.candidates[record.candidate.jobId]? = some r) : r.state ≠ .leased := by
  obtain hn | ⟨r', hr', hs⟩ := h.state
  · rw [hn] at hr; cases hr
  · obtain rfl : r' = r := Option.some.inj (hr'.symm.trans hr)
    rintro hl
    rcases hs with hs | hs
    · rw [hl] at hs; cases hs
    · have := h.ready; rw [← hs, hl] at this; cases this

theorem tryFrom_ok {c : FairCandidate} (h : tryFrom input = .ok c) :
    c.costUnits.get.toNat ≤ maxCostUnits ∧ c.jobId = input.jobId ∧
      c.orderingKey = input.orderingKey ∧ c.orderingPosition = input.orderingPosition := by
  unfold tryFrom at h
  split at h
  · cases h
  · rename_i hle
    cases h
    exact ⟨Nat.le_of_not_lt hle, rfl, rfl, rfl⟩

/-- `add_candidate` either changes nothing or schedules a candidate that the ledger lacks. -/
theorem addCandidate_cases (l : FairnessLedger) (input : FairCandidateInput) :
    (∃ e, l.addCandidate input = (.error e, l)) ∨
      ∃ c, tryFrom input = .ok c ∧ l.Puts (.scheduled c) ∧ l.candidates[c.jobId]? = none ∧
        l.addCandidate input = (.ok (), l.putCandidate (.scheduled c) none .advanceOrder) := by
  unfold addCandidate
  split
  · exact .inl ⟨_, rfl⟩
  · rename_i c hc
    split
    · exact .inl ⟨_, rfl⟩
    · rename_i hnew
      have hnone : l.candidates[c.jobId]? = none := by
        simpa [← Std.ExtTreeMap.isSome_getElem?_eq_contains] using hnew
      refine .inr ⟨c, hc, ⟨rfl, .inl hnone, ?_, (tryFrom_ok hc).1⟩, hnone, ?_⟩
      · exact (congrArg (Option.bind · CandidateRecord.acquisitionGeneration) hnone).symm
      · simp [putCandidate, CandidateRecord.scheduled]

/-- The record that `upsert_candidate` writes. -/
def upserted (l : FairnessLedger) (c : FairCandidate) (state : FairCandidateState) :
    CandidateRecord where
  candidate := c
  state
  serviceTransitions := (l.candidates[c.jobId]?.map (·.serviceTransitions)).getD 0
  acquisitionGeneration := l.candidates[c.jobId]?.bind (·.acquisitionGeneration)

theorem replaceCandidateRecord_eq {state : FairCandidateState} :
    (l.replaceCandidateRecord c.jobId c state) =
      { l with candidates := l.candidates.insert c.jobId (l.upserted c state) } := by
  unfold replaceCandidateRecord upserted
  split
  · rename_i record h
    unfold modifyCandidate
    congr 1
    refine Std.ExtTreeMap.ext_getElem? fun j => ?_
    rw [get_modify, get_insert]
    by_cases hj : j = c.jobId
    · subst hj; simp [h]
    · simp [hj]
  · rename_i h
    rw [h]
    rfl

/-- `upsert_candidate` either changes nothing or rewrites a candidate that is not leased. -/
theorem upsertCandidate_cases (l : FairnessLedger) (input : FairCandidateInput) :
    (∃ e, l.upsertCandidate input = (.error e, l)) ∨
      ∃ c state, tryFrom input = .ok c ∧ l.Puts (l.upserted c state) ∧
        upsertState (l.candidateState c.jobId) = .ok state ∧
        l.upsertCandidate input =
          (.ok (), l.putCandidate (l.upserted c state) (l.route c.jobId) .preserveOrder) := by
  unfold upsertCandidate
  split
  · exact .inl ⟨_, rfl⟩
  · rename_i c hc
    split
    · exact .inl ⟨_, rfl⟩
    · rename_i state hstate
      refine .inr ⟨c, state, hc, ⟨?_, ?_, rfl, (tryFrom_ok hc).1⟩, hstate, ?_⟩
      · unfold upsertState at hstate
        split at hstate <;> cases hstate <;> rfl
      · change l.candidates[c.jobId]? = none ∨ ∃ r, l.candidates[c.jobId]? = some r ∧
          (r.state = .absent ∨ r.state = state)
        unfold candidateState at hstate
        cases hr : l.candidates[c.jobId]? with
        | none => exact .inl rfl
        | some r =>
          refine .inr ⟨r, rfl, ?_⟩
          rw [hr, Option.map_some] at hstate
          cases hs : r.state <;> rw [hs] at hstate <;> cases hstate <;> simp
      · have hup : (l.registerCandidate c).upserted c state = l.upserted c state := by
          simp [upserted]
        simp only [replaceCandidateRecord_eq, hup, registerCandidate_candidates, putCandidate]
        rfl

section Put

variable {record : CandidateRecord} {old : Option CandidateRoute} {refresh : IndexRefresh}

theorem putCandidate_coreAt : (l.putCandidate record old refresh).coreAt s =
      if record.candidate.chargedTo s then some ((l.coreAt s).getD (.fresh l.budget s))
      else l.coreAt s := by
  rw [putCandidate, replaceCandidateRoute_coreAt]
  exact registerCandidate_coreAt

theorem putCandidate_candidates : (l.putCandidate record old refresh).candidates =
      l.candidates.insert record.candidate.jobId record := by
  simp [putCandidate]

theorem putCandidate_orders : (l.putCandidate record old refresh).orders[k]? =
      if record.candidate.orderingKey = some k then
        some (l.orders[k]?.getD (.opened record.candidate))
      else l.orders[k]? := by
  simp only [putCandidate, replaceCandidateRoute_orders]
  exact registerCandidate_orders

theorem putCandidate_frame : (l.putCandidate record old refresh).budget = l.budget ∧
      (l.putCandidate record old refresh).priority = l.priority ∧
      (l.putCandidate record old refresh).serviceClock = l.serviceClock := by
  simp [putCandidate]

end Put

/-- A release either is refused and changes nothing, or settles the leased record whose
generation the permit carries. -/
theorem release_cases {p : FairPermit} {r : FairRelease} :
    ((∃ e, (l.release p r).1 = .error e) ∧ (l.release p r).2 = l) ∨
      ∃ record, l.candidates[p.jobId]? = some record ∧ record.state = .leased ∧
        record.acquisitionGeneration = some p.acquisitionGeneration ∧
        l.release p r = (.ok (), l.applySettlement p r) := by
  unfold release settlePermit
  split
  · exact .inl ⟨⟨_, rfl⟩, rfl⟩
  · rename_i record hrec
    split
    · rename_i h
      exact .inr ⟨record, hrec, h.1, h.2, rfl⟩
    · exact .inl ⟨⟨_, rfl⟩, rfl⟩

/-- A removal settles a leased record as complete and marks any other one absent. -/
theorem removeCandidate_cases : (l.candidates[j]? = none ∧ l.removeCandidate j = l) ∨
      (∃ record, l.candidates[j]? = some record ∧ record.state = .leased ∧ l.removeCandidate j =
          (l.applySettlement (permitForLeasedRecord j record) .complete).restoreReconciledLowVolumeService
            (permitForLeasedRecord j record)) ∨
      ∃ record, l.candidates[j]? = some record ∧ record.state ≠ .leased ∧ l.removeCandidate j =
          l.updateRecord j (l.route j) fun record => { record with state := .absent } := by
  unfold removeCandidate
  split
  · rename_i h; exact .inl ⟨h, rfl⟩
  · rename_i record h
    split
    · rename_i hl; exact .inr (.inl ⟨record, h, hl, rfl⟩)
    · rename_i hl; exact .inr (.inr ⟨record, h, hl, rfl⟩)

/-- A reconciliation gives back the lease of a leased record, and does nothing to another. -/
theorem reconcileLeased_cases : (l.reconcileLeased j t).2 = l ∨
      ∃ record, l.candidates[j]? = some record ∧ record.state = .leased ∧
        (l.reconcileLeased j t).2 = ((l.releaseCapacity (permitForLeasedRecord j record)
            .restoreRate).restoreReconciledLowVolumeService
              (permitForLeasedRecord j record)).updateRecord j
                (some (.fromRecord record)) (·.reconciled t) := by
  unfold reconcileLeased
  split
  · exact .inl rfl
  · rename_i record h
    split
    · rename_i hl; exact .inr ⟨record, h, hl, rfl⟩
    · exact .inl rfl

theorem deferCandidate_cases : l.deferCandidate j t = l ∨ ∃ record, l.candidates[j]? = some record ∧
        l.deferCandidate j t = l.updateRecord j (l.route j) (·.deferred t) := by
  unfold deferCandidate
  split
  · exact .inl rfl
  · rename_i record h; exact .inr ⟨record, h, rfl⟩

theorem setScopeWeight_coreAt : (l.setScopeWeight s w).2.coreAt s' =
      (l.coreAt s').map fun st => if s' = s then st.setWeight w else st := by
  unfold setScopeWeight
  split
  · rename_i h
    by_cases hs : s' = s
    · subst hs; rw [coreAt, h]; rfl
    · simp [hs]
  · refine modifyScope_coreAt (f := (·.setWeight w)) fun st => ?_
    unfold ScopeState.setWeight ScopeState.core
    split <;> rfl

theorem setScopeWeight_frame : (l.setScopeWeight s w).2.budget = l.budget ∧
      (l.setScopeWeight s w).2.candidates = l.candidates ∧
      (l.setScopeWeight s w).2.orders = l.orders ∧
      (l.setScopeWeight s w).2.priority = l.priority ∧
      (l.setScopeWeight s w).2.serviceClock = l.serviceClock := by
  unfold setScopeWeight
  split <;> simp

/-- Recording service only counts transitions of one candidate. -/
theorem recordServiceUnits_eq {u : U64} :
    (l.recordServiceUnits j u).2 = l.modifyCandidate j fun record =>
      { record with serviceTransitions := record.serviceTransitions.satAdd u } := by
  unfold recordServiceUnits
  split
  · rename_i h
    simp only [modifyCandidate, modify_of_none h]
  · rfl

/-- Compaction drops a record that is absent or terminal. -/
theorem compactCandidate_cases : (l.compactCandidate j).2 = l ∨
      ∃ record, l.candidates[j]? = some record ∧ record.state.isCompactable = true ∧
        (l.compactCandidate j).2 = l.dropCandidate j record := by
  unfold compactCandidate
  split
  · exact .inl rfl
  · rename_i record h
    split
    · rename_i hc; exact .inr ⟨record, h, hc, rfl⟩
    · exact .inl rfl

section Drop

variable {record : CandidateRecord}

theorem dropCandidate_coreAt : (l.dropCandidate j record).coreAt s = l.coreAt s := by
  unfold dropCandidate
  cases record.candidate.orderingKey with
  | none => exact replaceCandidateRoute_coreAt
  | some key =>
    dsimp only
    split <;> exact replaceCandidateRoute_coreAt

theorem dropCandidate_frame : (l.dropCandidate j record).budget = l.budget ∧
      (l.dropCandidate j record).candidates = l.candidates.erase j ∧
      (l.dropCandidate j record).priority = l.priority ∧
      (l.dropCandidate j record).serviceClock = l.serviceClock := by
  unfold dropCandidate
  cases record.candidate.orderingKey with
  | none => simp
  | some key =>
    dsimp only
    split <;> simp

theorem carriesKey_iff : l.carriesKey k = true ↔
      ∃ (j : JobId) (r : _), l.candidates[j]? = some r ∧ r.candidate.orderingKey = some k := by
  simp only [carriesKey, List.any_eq_true, decide_eq_true_eq]
  constructor
  · rintro ⟨e, he, hk⟩
    exact ⟨e.1, e.2, mem_toList.mp he, hk⟩
  · rintro ⟨j, r, hr, hk⟩
    exact ⟨(j, r), mem_toList.mpr hr, hk⟩

/-- An ordering group goes with the last record that carries its key. -/
theorem dropCandidate_orders : (l.dropCandidate j record).orders[k]? =
      if record.candidate.orderingKey = some k ∧ (l.dropCandidate j record).carriesKey k = false
      then none else l.orders[k]? := by
  have hcarry : (l.dropCandidate j record).carriesKey k =
      (({ l with candidates := l.candidates.erase j } : FairnessLedger).replaceCandidateRoute
        (some (.fromRecord record)) none .preserveOrder).carriesKey k := by
    simp [carriesKey, dropCandidate_frame]
  rw [hcarry]
  unfold dropCandidate
  cases record.candidate.orderingKey with
  | none => simp
  | some key =>
    dsimp only
    by_cases hk : key = k
    · subst hk
      split <;> simp_all
    · split
      · simp [hk]
      · simp [hk, get_erase, Ne.symm hk]

end Drop

theorem hasCandidateIn_iff : l.hasCandidateIn s = true ↔
      ∃ (j : JobId) (r : _), l.candidates[j]? = some r ∧ r.candidate.chargedTo s = true := by
  simp only [hasCandidateIn, List.any_eq_true, chargedTo]
  constructor
  · rintro ⟨e, he, hs⟩
    exact ⟨e.1, e.2, mem_toList.mp he, hs⟩
  · rintro ⟨j, r, hr, hs⟩
    exact ⟨(j, r), mem_toList.mpr hr, hs⟩

/-- Scope compaction keeps the state of the scopes it keeps. -/
theorem compactEmptyScopes_get : l.compactEmptyScopes.scopes[s]? = some st ↔
      l.scopes[s]? = some st ∧
        (st.inFlight ≠ 0 ∨ st.isReady = true ∨ l.hasCandidateIn s = true) := by
  simp only [compactEmptyScopes, get_filter, Option.filter_eq_some_iff, Bool.or_eq_true,
    bne_iff_ne, or_assoc]

end Lifecycle

end FairnessLedger

end AuxCommon
