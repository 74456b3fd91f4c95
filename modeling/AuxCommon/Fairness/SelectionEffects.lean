import AuxCommon.Lib.Result
import AuxCommon.Fairness.Effects

/-!
# What a selection does

`selectNextDueIn_cases` is the inversion of one call of `select_next_due_in`: it either leaves
the ledger alone up to a reset of the priority windows, or settles one candidate that passed
every check (`Chosen`). The `settleSelection_*` lemmas say what the settlement does to each part
of the ledger.
-/

namespace AuxCommon

open Option Except CandidateSelection

namespace FairnessLedger

variable {l : FairnessLedger} {s : FairScope} {j : JobId} {k : OrderingKey} {c : FairCandidate}

/-! ## The checks that a candidate passed -/

theorem checkScope_ok {cost : U16} (h : l.checkScope s cost = .ok ()) :
    ∃ st, l.scopes[s]? = some st ∧ st.service.cost.toNat + cost.toNat < 2 ^ 64 ∧
      st.inFlight.toNat < l.budget.maxConcurrencyPerScope.get.toNat ∧ 0 < st.permits.toNat := by
  unfold checkScope at h
  split at h
  · cases h
  · rename_i st hst
    refine ⟨st, hst, ?_⟩
    split at h
    · cases h
    · split at h
      · cases h
      · rename_i hcap
        rw [not_or, not_or, BitVec.checkedAdd_eq_none, BitVec.le_def, Nat.not_le, Nat.not_le,
          BitVec.toNat_widen (by decide)] at hcap
        refine ⟨hcap.1, hcap.2.1, Nat.pos_of_ne_zero fun h0 => hcap.2.2 ?_⟩
        exact BitVec.eq_of_toNat_eq (by simpa using h0)

theorem checkOrder_ok (h : l.checkOrder c = .ok ()) (hk : c.orderingKey = some k) :
    ∃ o, l.orders[k]? = some o ∧ o.inFlight = false ∧ c.orderingPosition = o.head := by
  unfold checkOrder at h
  rw [hk] at h
  dsimp only at h
  split at h
  · cases h
  · rename_i o ho
    split at h
    · cases h
    · rename_i hcond
      rw [not_or, not_not, Bool.not_eq_true] at hcond
      exact ⟨o, ho, hcond⟩

/-- What `validate_candidate` checked of the record that it returns the candidate of. -/
structure Validated (l : FairnessLedger) (j : JobId) (record : CandidateRecord)
    (g : FairPermitGeneration) : Prop where
  get : l.candidates[j]? = some record
  ready : record.state.hasReadyRoute = true
  unblocked : record.candidate.block = none
  payload : record.candidate.payloadBytes ≤ l.budget.maxPayloadBytes.get
  generation : nextPermitGeneration record.acquisitionGeneration = .ok g
  scope : l.checkScope record.candidate.scope record.candidate.costUnits.get = .ok ()
  parent : ∀ primary, record.candidate.scope.parent = some primary →
    l.checkScope primary record.candidate.costUnits.get = .ok ()
  order : l.checkOrder record.candidate = .ok ()

theorem validateCandidate_ok {g : FairPermitGeneration} (h : l.validateCandidate j = .ok (c, g)) :
    ∃ record, l.Validated j record g ∧ record.candidate = c := by
  unfold validateCandidate at h
  split at h
  · cases h
  · rename_i record hrec
    dsimp only at h
    split at h
    · cases h
    rename_i hready
    split at h
    · cases h
    rename_i hblock
    split at h
    · cases h
    rename_i hpay
    obtain ⟨g', hg, h⟩ := bind_eq_ok.mp h
    obtain ⟨⟨⟩, hscope, h⟩ := bind_eq_ok.mp h
    obtain ⟨⟨⟩, hparent, h⟩ := bind_eq_ok.mp h
    obtain ⟨⟨⟩, horder, h⟩ := bind_eq_ok.mp h
    cases h
    refine ⟨record, ⟨hrec, by simpa using hready, hblock, ?_, hg, hscope, ?_, horder⟩, rfl⟩
    · exact BitVec.le_def.mpr (Nat.le_of_not_lt hpay)
    · intro primary hp
      rw [checkParentScope, hp] at hparent
      exact hparent

end FairnessLedger

/-- The selection that a validated record leads to. -/
def CandidateRecord.selection (record : CandidateRecord) (g : FairPermitGeneration) :
    CandidateSelection where
  jobId := record.candidate.jobId
  scope := record.candidate.scope
  primary := record.candidate.scope.parent
  priority := record.candidate.priority
  costUnits := record.candidate.costUnits
  orderingKey := record.candidate.orderingKey
  orderingPosition := record.candidate.orderingPosition
  acquisitionGeneration := g

/-- A record whose candidate was selected. -/
def CandidateRecord.leased (record : CandidateRecord) (g : FairPermitGeneration) :
    CandidateRecord :=
  { record with state := .leased, acquisitionGeneration := some g }

/-- An ordering group whose head was selected. -/
def OrderRecord.taken (o : OrderRecord) (j : JobId) : OrderRecord :=
  { o with owner := j, inFlight := true, acquisitions := o.acquisitions.satAdd 1 }

namespace FairnessLedger

variable {l : FairnessLedger} {s s' : FairScope} {j : JobId} {k : OrderingKey}
  {b : JobId × CandidatePreparation × SelectionScore}

theorem prepareCandidate_ok {sel : CandidateSelection} (h : l.prepareCandidate j = .ok sel) :
    ∃ record g, l.Validated j record g ∧ sel = record.selection g := by
  obtain ⟨⟨c, g⟩, hv, h⟩ := bind_eq_ok.mp h
  obtain ⟨record, hval, rfl⟩ := validateCandidate_ok hv
  cases h
  exact ⟨record, g, hval, rfl⟩

/-! ## Settlement -/

section Settle

variable {sel : CandidateSelection} {prep : CandidatePreparation} {pass : SelectionPass}

/-- The service clock after a selection. -/
def advancedClock (l : FairnessLedger) (sel : CandidateSelection) (pass : SelectionPass) : U128 :=
  if sel.scope.isLowVolume then l.serviceClock
  else match pass.serviceExtrema.min with
    | none => l.serviceClock
    | some (_, minimum) => l.serviceClock.umax minimum

theorem advanceServiceClocks_frame : (l.advanceServiceClocks sel prep pass).budget = l.budget ∧
      (l.advanceServiceClocks sel prep pass).candidates = l.candidates ∧
      (l.advanceServiceClocks sel prep pass).orders = l.orders ∧
      (l.advanceServiceClocks sel prep pass).priority = l.priority ∧
      (l.advanceServiceClocks sel prep pass).serviceClock = l.advancedClock sel pass := by
  unfold advanceServiceClocks advancedClock
  split
  · simp
  · rcases pass.serviceExtrema.min with _ | ⟨i, m⟩ <;> simp

theorem advanceServiceClocks_scopes : (l.advanceServiceClocks sel prep pass).scopes[s]? =
      l.scopes[s]?.map (sel.advanceClock prep.childMinimum s) := by
  unfold advanceServiceClocks advanceClock
  split
  · rename_i h; simp [h]
  · rename_i h
    rw [Bool.not_eq_true] at h
    split <;> simp only [modifyScope_scopes, h, true_and, CandidatePreparation.childMinimum]

theorem advanceServiceClocks_coreAt : (l.advanceServiceClocks sel prep pass).coreAt s =
      (l.coreAt s).map (sel.advanceClock prep.childMinimum s) := by
  rw [coreAt, advanceServiceClocks_scopes, coreAt, map_map, map_map]
  congr 1
  funext st
  simp only [Function.comp, advanceClock]
  split <;> rfl

theorem alignSelectionService_frame : (l.alignSelectionService sel).budget = l.budget ∧
      (l.alignSelectionService sel).candidates = l.candidates ∧
      (l.alignSelectionService sel).orders = l.orders ∧
      (l.alignSelectionService sel).priority = l.priority ∧
      (l.alignSelectionService sel).serviceClock = l.serviceClock := by
  unfold alignSelectionService
  split
  · simp
  · cases sel.primary <;> simp

theorem alignSelectionService_coreAt : (l.alignSelectionService sel).coreAt s =
      (l.coreAt s).map (sel.alignService l.serviceClock
        (l.childClockAt (sel.primary.getD sel.scope)) s) := by
  have hcore : ∀ floor st, (ScopeState.alignService st floor).core = st.core.alignService floor :=
    fun _ _ => rfl
  unfold alignSelectionService alignService
  split
  · simp
  · cases hp : sel.primary with
    | none => exact modifyScope_coreAt fun _ => rfl
    | some primary =>
      rw [modifyScope_coreAt (hcore _), modifyScope_coreAt (hcore _), map_map]
      rfl

theorem chargeSelection_frame : (l.chargeSelection sel).budget = l.budget ∧
      (l.chargeSelection sel).candidates = l.candidates ∧
      (l.chargeSelection sel).priority = l.priority ∧
      (l.chargeSelection sel).serviceClock = l.serviceClock := by
  unfold chargeSelection
  cases sel.primary <;> simp [acquireScope, alignSelectionService_frame]

theorem chargeSelection_orders : (l.chargeSelection sel).orders[k]? =
      l.orders[k]?.map fun o => if sel.orderingKey = some k then o.taken sel.jobId else o := by
  unfold chargeSelection
  cases sel.primary <;>
    simp [modifyOrder_orders, acquireScope, alignSelectionService_frame, OrderRecord.taken]

theorem acquireScope_coreAt {cost : U16} {charge : ScopeCharge} :
    (l.acquireScope s cost charge).coreAt s' =
      (l.coreAt s').map fun st => if s' = s then st.acquire s cost charge else st :=
  modifyScope_coreAt fun _ => rfl

theorem chargeSelection_coreAt : (l.chargeSelection sel).coreAt s =
      (l.coreAt s).map (sel.take s ∘ sel.alignService l.serviceClock
        (l.childClockAt (sel.primary.getD sel.scope)) s) := by
  unfold chargeSelection take
  cases hp : sel.primary with
  | none =>
    simp only [modifyOrder_coreAt, acquireScope_coreAt, alignSelectionService_coreAt, hp,
      map_map, reduceCtorEq, if_false]
  | some primary =>
    simp only [modifyOrder_coreAt, acquireScope_coreAt, alignSelectionService_coreAt, hp,
      map_map, some.injEq, eq_comm (a := primary)]
    congr 1

/-- What a whole selection does to the scope `s`. -/
def selectScope (l : FairnessLedger) (sel : CandidateSelection) (prep : CandidatePreparation)
    (pass : SelectionPass) (s : FairScope) : ScopeState → ScopeState :=
  sel.take s ∘
    sel.alignService (l.advancedClock sel pass)
      ((l.advanceServiceClocks sel prep pass).childClockAt (sel.primary.getD sel.scope)) s ∘
    sel.advanceClock prep.childMinimum s

theorem settleSelection_coreAt : (l.settleSelection sel prep pass).2.coreAt s =
      (l.coreAt s).map (l.selectScope sel prep pass s) := by
  have hpriority : ∀ (l : FairnessLedger) d, ({ l with priority := d } : FairnessLedger).coreAt s =
      l.coreAt s := fun _ _ => rfl
  simp only [settleSelection, updateRecord_coreAt, hpriority, chargeSelection_coreAt,
    advanceServiceClocks_coreAt, map_map, advanceServiceClocks_frame, selectScope,
    Function.comp_assoc]

theorem settleSelection_candidates : (l.settleSelection sel prep pass).2.candidates =
      l.candidates.modify sel.jobId (·.leased sel.acquisitionGeneration) := by
  simp only [settleSelection, updateRecord_candidates, chargeSelection_frame,
    advanceServiceClocks_frame]
  rfl

theorem settleSelection_orders : (l.settleSelection sel prep pass).2.orders[k]? =
      l.orders[k]?.map fun o => if sel.orderingKey = some k then o.taken sel.jobId else o := by
  simp only [settleSelection, updateRecord_orders, chargeSelection_orders,
    advanceServiceClocks_frame]

theorem settleSelection_frame : (l.settleSelection sel prep pass).1 = sel.permit ∧
      (l.settleSelection sel prep pass).2.budget = l.budget ∧
      (l.settleSelection sel prep pass).2.priority =
        l.priority.charge sel.priority (sel.costUnits.get.setWidth 32) ∧
      (l.settleSelection sel prep pass).2.serviceClock = l.advancedClock sel pass := by
  simp only [settleSelection, updateRecord_budget, updateRecord_priority,
    updateRecord_serviceClock, chargeSelection_frame, advanceServiceClocks_frame, and_self]

end Settle

/-! ## The search -/

section Search

variable {pass : SelectionPass} {bulkReady : Bool} {prepared : PreparedCandidate}
  {prep : CandidatePreparation}

/-- A prepared candidate that passes every check of the search. -/
structure Admissible (l : FairnessLedger) (pass : SelectionPass) (bulkReady : Bool)
    (prepared : PreparedCandidate) (prep : CandidatePreparation) : Prop where
  ready : prepared.ready = true
  due : prepared.due = true
  prepared : prepared.preparation = .ok prep
  cost : prep.facts.costUnits.get ≤ l.budget.maxCostUnits.get
  priority : l.checkPriority prep.facts.priority prep.facts.costUnits.get bulkReady = .ok ()
  normalized : l.checkNormalizedAdmission prep pass = .ok ()

theorem checkSelection_ok : l.checkSelection prepared bulkReady = .ok prep ↔
      prepared.preparation = .ok prep ∧ prep.facts.costUnits.get ≤ l.budget.maxCostUnits.get ∧
        l.checkPriority prep.facts.priority prep.facts.costUnits.get bulkReady = .ok () := by
  unfold checkSelection
  rw [bind_eq_ok]
  constructor
  · rintro ⟨prep', hp, h⟩
    split at h
    · cases h
    · rename_i hc
      obtain ⟨⟨⟩, hpri, h⟩ := bind_eq_ok.mp h
      cases h
      exact ⟨hp, BitVec.not_lt.mp hc, hpri⟩
  · rintro ⟨hp, hc, hpri⟩
    refine ⟨prep, hp, ?_⟩
    rw [if_neg (BitVec.not_lt.mpr hc), hpri]
    rfl

/-- One turn of the search, by what the checks say of the candidate. -/
theorem searchStep_cases (l : FairnessLedger) (pass : SelectionPass) (bulkReady : Bool)
    (prepared : PreparedCandidate) (search : DueCandidateSearch) :
    (∃ prep score, l.Admissible pass bulkReady prepared prep ∧
        l.searchStep pass bulkReady search prepared =
          { search with best := some (prepared.jobId, prep, score) }) ∨
      ((search.best.isSome ∨ ∀ prep, ¬ l.Admissible pass bulkReady prepared prep) ∧
        (l.searchStep pass bulkReady search prepared).best = search.best) := by
  unfold searchStep
  split
  · rename_i h
    refine .inr ⟨.inr fun prep ha => ?_, rfl⟩
    simp [ha.ready, ha.due] at h
  · rename_i hrd
    simp only [Bool.or_eq_true, Bool.not_eq_true', not_or, Bool.not_eq_false] at hrd
    split
    · rename_i e he
      refine .inr ⟨.inr fun prep ha => ?_, rfl⟩
      rw [checkSelection_ok.mpr ⟨ha.prepared, ha.cost, ha.priority⟩] at he
      cases he
    · rename_i prep hprep
      obtain ⟨hp, hc, hpri⟩ := checkSelection_ok.mp hprep
      split
      · rename_i hn
        have ha : l.Admissible pass bulkReady prepared prep :=
          ⟨hrd.1, hrd.2, hp, hc, hpri, isOk_unit.mp hn⟩
        dsimp only
        split
        · exact .inl ⟨prep, _, ha, rfl⟩
        · rename_i hb
          refine .inr ⟨.inl ?_, rfl⟩
          cases hbest : search.best with
          | none => simp [hbest] at hb
          | some b => rfl
      · rename_i hn
        refine .inr ⟨.inr fun prep' ha => hn ?_, rfl⟩
        cases ha.prepared.symm.trans hp
        exact isOk_unit.mpr ha.normalized

/-- The search finds an admissible candidate exactly when there is one. -/
theorem foldl_searchStep_best (cands : List PreparedCandidate) (search : DueCandidateSearch) :
    (∀ b, (cands.foldl (l.searchStep pass bulkReady) search).best = some b → search.best = some b ∨
        ∃ prepared ∈ cands, l.Admissible pass bulkReady prepared b.2.1 ∧ prepared.jobId = b.1) ∧
      ((cands.foldl (l.searchStep pass bulkReady) search).best = none → search.best = none ∧
          ∀ prepared ∈ cands, ∀ prep, ¬ l.Admissible pass bulkReady prepared prep) := by
  induction cands generalizing search with
  | nil => exact ⟨fun b h => .inl h, fun h => ⟨h, by simp⟩⟩
  | cons prepared cands ih =>
    obtain ⟨hsome, hnone⟩ := ih (l.searchStep pass bulkReady search prepared)
    rw [List.foldl_cons]
    rcases searchStep_cases l pass bulkReady prepared search with ⟨prep, score, ha, heq⟩ | ⟨hno, heq⟩
    · constructor
      · intro b hb
        rcases hsome b hb with h | ⟨q, hq, hqa⟩
        · rw [heq] at h
          cases h
          exact .inr ⟨prepared, List.mem_cons_self, ha, rfl⟩
        · exact .inr ⟨q, List.mem_cons_of_mem _ hq, hqa⟩
      · intro hb
        have := (hnone hb).1
        rw [heq] at this
        cases this
    · constructor
      · intro b hb
        rcases hsome b hb with h | ⟨q, hq, hqa⟩
        · exact .inl (heq ▸ h)
        · exact .inr ⟨q, List.mem_cons_of_mem _ hq, hqa⟩
      · intro hb
        obtain ⟨hbest, hall⟩ := hnone hb
        rw [heq] at hbest
        refine ⟨hbest, List.forall_mem_cons.mpr ⟨?_, hall⟩⟩
        rcases hno with h | h
        · rw [hbest] at h; cases h
        · exact h

theorem findDueCandidate_some (h : (l.findDueCandidate pass bulkReady).best = some b) :
    ∃ prepared ∈ pass.candidates, l.Admissible pass bulkReady prepared b.2.1 ∧
      prepared.jobId = b.1 := by
  rcases (foldl_searchStep_best pass.candidates {}).1 b h with h | h
  · cases h
  · exact h

theorem findDueCandidate_none (h : (l.findDueCandidate pass bulkReady).best = none) :
    ∀ prepared ∈ pass.candidates, ∀ prep, ¬ l.Admissible pass bulkReady prepared prep :=
  ((foldl_searchStep_best pass.candidates {}).2 h).2

end Search

/-! ## One call of `select_next_due_in` -/

section Select

variable {pass : SelectionPass}

theorem resetPriorityWindow_get : l.resetPriorityWindow.candidates[j]? =
      l.candidates[j]?.map fun record => { record with serviceTransitions := 0 } :=
  Std.ExtTreeMap.getElem?_map

/-- A ledger before or after a reset of its priority windows. -/
def UpToReset (l l' : FairnessLedger) : Prop := l' = l ∨ l' = l.resetPriorityWindow

theorem resetPriorityWindow_idem :
    l.resetPriorityWindow.resetPriorityWindow = l.resetPriorityWindow := by
  unfold resetPriorityWindow
  congr 1
  refine Std.ExtTreeMap.ext_getElem? fun j => ?_
  simp only [Std.ExtTreeMap.getElem?_map, map_map]
  rfl

theorem resetExhaustedPriorityWindow_cases (l : FairnessLedger) (pass : SelectionPass) :
    l.resetExhaustedPriorityWindow pass = (false, l) ∨
      l.resetExhaustedPriorityWindow pass = (true, l.resetPriorityWindow) := by
  unfold resetExhaustedPriorityWindow
  dsimp only
  split
  · split <;> simp
  · simp

/-- A successful call chose an admissible candidate of the pass and validated its record, in
the ledger `l₀` that the priority windows may have been reset in. -/
structure Chosen (l₀ : FairnessLedger) (pass : SelectionPass) (record : CandidateRecord)
    (g : FairPermitGeneration) (prepared : PreparedCandidate) (prep : CandidatePreparation) :
    Prop where
  mem : prepared ∈ pass.candidates
  admissible : l₀.Admissible pass (l₀.hasAdmissibleBulk pass) prepared prep
  validated : l₀.Validated prepared.jobId record g

/-- A turn that finds a candidate ends the loop: its lease is refused, or it is the selection. -/
theorem selectLoop_best
    (hbest : (l.findDueCandidate pass (l.hasAdmissibleBulk pass)).best = some b) (fuel : Nat) :
    (∃ reason, selectLoop pass (fuel + 1) l = some (.error reason, l)) ∨
      ∃ record g prepared prep, l.Chosen pass record g prepared prep ∧
        selectLoop pass (fuel + 1) l = some (.ok (some (record.selection g).permit),
          (l.settleSelection (record.selection g) prep pass).2) := by
  rw [selectLoop]
  rw [hbest]
  obtain ⟨prepared, hmem, hadm, hjob⟩ := findDueCandidate_some hbest
  obtain ⟨jobId, prep, score⟩ := b
  dsimp only at hadm hjob ⊢
  subst hjob
  cases hsel : l.prepareCandidate prepared.jobId with
  | error reason => exact .inl ⟨reason, rfl⟩
  | ok sel =>
    obtain ⟨record, g, hval, rfl⟩ := prepareCandidate_ok hsel
    refine .inr ⟨record, g, prepared, prep, ⟨hmem, hadm, hval⟩, ?_⟩
    simp only [settleSelection_frame.1]

theorem selectLoop_cases {fuel : Nat}
    {out : Except FairnessRejection (Option FairPermit) × FairnessLedger}
    (h : selectLoop pass fuel l = some out) :
    ∃ l₀, l.UpToReset l₀ ∧ (((∀ p, out.1 ≠ .ok (some p)) ∧ out.2 = l₀) ∨
        ∃ record g prepared prep, l₀.Chosen pass record g prepared prep ∧
          out = (.ok (some (record.selection g).permit),
            (l₀.settleSelection (record.selection g) prep pass).2)) := by
  induction fuel generalizing l with
  | zero => cases h
  | succ fuel ih =>
    cases hbest : (l.findDueCandidate pass (l.hasAdmissibleBulk pass)).best with
    | some b =>
      refine ⟨l, .inl rfl, ?_⟩
      rcases selectLoop_best hbest fuel with ⟨reason, heq⟩ | ⟨record, g, prepared, prep, hc, heq⟩
      · cases heq.symm.trans h
        exact .inl ⟨by simp, rfl⟩
      · exact .inr ⟨record, g, prepared, prep, hc, some.inj (h.symm.trans heq)⟩
    | none =>
      rw [selectLoop] at h
      rw [hbest] at h
      dsimp only at h
      split at h
      · rename_i hreset
        rw [Bool.and_eq_true] at hreset
        rcases resetExhaustedPriorityWindow_cases l pass with hr | hr
        · rw [hr] at hreset; simp at hreset
        · rw [hr] at h
          obtain ⟨l₀, hl₀, hres⟩ := ih h
          refine ⟨l₀, .inr ?_, hres⟩
          rcases hl₀ with rfl | rfl
          · rfl
          · exact resetPriorityWindow_idem
      · cases h
        refine ⟨l, .inl rfl, .inl ⟨fun p => ?_, rfl⟩⟩
        cases DueCandidateSearch.firstRejection _ <;> simp

/-- What one call of `select_next_due_in` can do. -/
theorem selectNextDueIn_cases (l : FairnessLedger) (now : Timestamp) (eligible : Finset JobId) :
    ∃ l₀, l.UpToReset l₀ ∧ (((∀ p, (l.selectNextDueIn now eligible).1 ≠ .ok (some p)) ∧
          (l.selectNextDueIn now eligible).2 = l₀) ∨
        ∃ record g prepared prep,
          l₀.Chosen (l.prepareSelectionPass (some now) (some eligible)) record g prepared prep ∧
          l.selectNextDueIn now eligible = (.ok (some (record.selection g).permit),
            (l₀.settleSelection (record.selection g) prep
              (l.prepareSelectionPass (some now) (some eligible))).2)) := by
  unfold selectNextDueIn
  cases h : selectLoop (l.prepareSelectionPass (some now) (some eligible)) 2 l with
  | none => exact ⟨l, .inl rfl, .inl ⟨by simp, rfl⟩⟩
  | some out => exact selectLoop_cases h

end Select

end FairnessLedger

end AuxCommon
