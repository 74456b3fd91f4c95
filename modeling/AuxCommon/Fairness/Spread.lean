import AuxCommon.Fairness.Extrema

/-!
# The spread of normalized service

No primary ever stands further ahead of the service clock than the normalized error bound
(`SpreadInv`): a selection is admitted only within that bound of the least eligible service, which
becomes the clock, while releases, undone charges, new weights and new scopes never move a primary
forward. So the primary that is least served among the eligible ones is never rejected for its
service: every other one is at most the bound ahead of it (`least_served_admitted`).
-/

namespace AuxCommon

open Option ServiceAccounting CandidateSelection FairScope Function ServiceExtrema

/-! ## Where a scope stands -/

namespace ScopeState

/-- The position of a scope, without a floor. -/
def standing (st : ScopeState) : Nat := st.service.pos st.weight

theorem standing_release_le (st : ScopeState) (b : FairnessBudget) (s : FairScope)
    (r : CapacityRelease) (cost : U16) (charge : ScopeCharge) :
    (st.release b s r cost charge).standing ≤ st.standing := by
  unfold standing release
  dsimp only
  split
  · exact pos_undo_le
  · exact le_rfl

theorem standing_setWeight (st : ScopeState) (w : NonZero 16) :
    (st.setWeight w).standing = st.standing := by
  unfold standing setWeight
  split
  · exact pos_reweight
  · rfl

theorem standing_fresh (b : FairnessBudget) (s : FairScope) : (fresh b s).standing = 0 :=
  pos_restart {} 0

end ScopeState

theorem FairPermit.standing_giveBack_le (p : FairPermit) (b : FairnessBudget)
    (r : CapacityRelease) (s : FairScope) (st : ScopeState) :
    (p.giveBack b r s st).standing ≤ st.standing := by
  unfold giveBack
  dsimp only
  split
  · refine (ScopeState.standing_release_le _ _ _ _ _ _).trans ?_
    split
    · exact ScopeState.standing_release_le _ _ _ _ _ _
    · exact le_rfl
  · split
    · exact ScopeState.standing_release_le _ _ _ _ _ _
    · exact le_rfl

theorem FairPermit.standing_restoreLowVolume_le (p : FairPermit) (s : FairScope)
    (st : ScopeState) : (p.restoreLowVolume s st).standing ≤ st.standing := by
  unfold restoreLowVolume
  split
  · exact pos_undo_le
  · exact le_rfl

/-- What a call other than a selection does to a scope that stays in the ledger. -/
inductive ScopeMove (b : FairnessBudget) (s : FairScope) (st : ScopeState) : ScopeState → Prop
  | kept : ScopeMove b s st st
  | givenBack (p : FairPermit) (r : CapacityRelease) : ScopeMove b s st (p.giveBack b r s st)
  | restored (p : FairPermit) (r : CapacityRelease) :
      ScopeMove b s st (p.restoreLowVolume s (p.giveBack b r s st))
  | weighted (w : NonZero 16) : ScopeMove b s st (st.setWeight w)

theorem ScopeMove.standing_le {b : FairnessBudget} {s : FairScope} {st st' : ScopeState}
    (h : ScopeMove b s st st') : st'.standing ≤ st.standing := by
  cases h with
  | kept => exact le_rfl
  | givenBack p r => exact p.standing_giveBack_le b r s st
  | restored p r =>
    exact (p.standing_restoreLowVolume_le s _).trans (p.standing_giveBack_le b r s st)
  | weighted w => exact (st.standing_setWeight w).le

namespace FairnessLedger

variable {l l' : FairnessLedger} {s : FairScope}

/-- Calls other than selections create scopes and move the ones that are there. -/
theorem Effect.scopeMove {op : LedgerOp} (heff : l.Effect op l')
    (hop : ∀ now eligible, op ≠ .select now eligible) {st' : ScopeState}
    (h : l'.coreAt s = some st') :
    (l.coreAt s = none ∧ st' = .fresh l.budget s) ∨
      ∃ st, l.coreAt s = some st ∧ ScopeMove l.budget s st st' := by
  have hmap : ∀ {f : ScopeState → ScopeState}, (∀ st, ScopeMove l.budget s st (f st)) →
      (l.coreAt s).map f = some st' → ∃ st, l.coreAt s = some st ∧ ScopeMove l.budget s st st' := by
    intro f hf hst'
    obtain ⟨st, hst, rfl⟩ := map_eq_some_iff.mp hst'
    exact ⟨st, hst, hf st⟩
  have hput : ∀ {record old refresh}, (l.putCandidate record old refresh).coreAt s = some st' →
      (l.coreAt s = none ∧ st' = .fresh l.budget s) ∨
        ∃ st, l.coreAt s = some st ∧ ScopeMove l.budget s st st' := by
    intro record old refresh hst'
    rw [putCandidate_coreAt] at hst'
    split at hst'
    · cases hst : l.coreAt s with
      | none =>
        rw [hst] at hst'
        cases hst'
        exact .inl ⟨rfl, rfl⟩
      | some st =>
        rw [hst] at hst'
        cases hst'
        exact .inr ⟨st, rfl, .kept⟩
    · exact .inr ⟨st', hst', .kept⟩
  cases heff with
  | unchanged => exact .inr ⟨st', h, .kept⟩
  | added => exact hput h
  | upserted => exact hput h
  | refused => exact absurd rfl (hop _ _)
  | selected => exact absurd rfl (hop _ _)
  | released =>
    rw [applySettlement_coreAt] at h
    exact .inr (hmap (fun _ => .givenBack _ _) h)
  | deferred =>
    rw [updateRecord_coreAt] at h
    exact .inr ⟨st', h, .kept⟩
  | settled =>
    rw [restoreReconciledLowVolumeService_coreAt, applySettlement_coreAt, map_map] at h
    exact .inr (hmap (fun _ => .restored _ _) h)
  | removed =>
    rw [updateRecord_coreAt] at h
    exact .inr ⟨st', h, .kept⟩
  | reconciled =>
    rw [updateRecord_coreAt, restoreReconciledLowVolumeService_coreAt, releaseCapacity_coreAt,
      map_map] at h
    exact .inr (hmap (fun _ => .restored _ _) h)
  | weighted =>
    rw [setScopeWeight_coreAt] at h
    refine .inr (hmap (fun st => ?_) h)
    split
    · exact .weighted _
    · exact .kept
  | served => exact .inr ⟨st', h, .kept⟩
  | compacted =>
    rw [dropCandidate_coreAt] at h
    exact .inr ⟨st', h, .kept⟩
  | compactedScopes =>
    obtain ⟨st, hst, rfl⟩ := coreAt_eq_some h
    exact .inr ⟨st.core, coreAt_of_get (compactEmptyScopes_get.mp hst).1, .kept⟩

/-! ## Selections -/

section Select

variable {record : CandidateRecord} {g : FairPermitGeneration} {prep : CandidatePreparation}
  {pass : SelectionPass}

theorem selection_primary (record : CandidateRecord) (g : FairPermitGeneration) :
    (record.selection g).primary.getD (record.selection g).scope =
      record.candidate.scope.primaryScope :=
  parent_getD _

/-- The clock that a selection aligns the children of its primary to. -/
def childFloor (l : FairnessLedger) (sel : CandidateSelection) (prep : CandidatePreparation)
    (pass : SelectionPass) : U128 :=
  (l.advanceServiceClocks sel prep pass).childClockAt (sel.primary.getD sel.scope)

theorem selection_scope (record : CandidateRecord) (g : FairPermitGeneration) :
    (record.selection g).scope = record.candidate.scope := rfl

theorem selection_primary_secondary (g : FairPermitGeneration)
    (h : record.candidate.scope.isSecondary = true) :
    (record.selection g).primary = some record.candidate.scope.primaryScope := if_pos h

theorem selection_primary_not_secondary (g : FairPermitGeneration)
    (h : record.candidate.scope.isSecondary = false) : (record.selection g).primary = none :=
  if_neg (by rw [h]; exact Bool.false_ne_true)

/-- The scope of a child candidate. -/
theorem selectScope_child (hsec : record.candidate.scope.isSecondary = true) (st : ScopeState) :
    l.selectScope (record.selection g) prep pass record.candidate.scope st =
      (st.alignService (l.childFloor (record.selection g) prep pass)).acquire
        record.candidate.scope record.candidate.costUnits.get .service := by
  have hne : record.candidate.scope ≠ record.candidate.scope.primaryScope :=
    ne_primaryScope_of_secondary hsec
  simp only [selectScope, childFloor, comp, advanceClock, alignService, take,
    selection_scope, isLowVolume_of_isSecondary hsec, selection_primary_secondary g hsec,
    getD_some, some.injEq, hne, hne.symm, and_false, if_false, if_true, Bool.false_eq_true]
  rfl

/-- The primary of a child candidate. -/
theorem selectScope_parent (hsec : record.candidate.scope.isSecondary = true) (st : ScopeState) :
    l.selectScope (record.selection g) prep pass record.candidate.scope.primaryScope st =
      ((st.advanceChildClock prep.childMinimum).alignService
        (l.advancedClock (record.selection g) pass)).acquire record.candidate.scope.primaryScope
          record.candidate.costUnits.get .parentCapacity := by
  have hne : record.candidate.scope.primaryScope ≠ record.candidate.scope :=
    (ne_primaryScope_of_secondary hsec).symm
  simp only [selectScope, comp, advanceClock, alignService, take, selection_scope,
    isLowVolume_of_isSecondary hsec, selection_primary_secondary g hsec, getD_some, hne,
    and_self, if_true, if_false, Bool.false_eq_true]
  rfl

/-- The primary of a candidate of its own. -/
theorem selectScope_own (hsec : record.candidate.scope.isSecondary = false)
    (hlow : record.candidate.scope.isLowVolume = false) (st : ScopeState) :
    l.selectScope (record.selection g) prep pass record.candidate.scope st =
      (((st.advanceChildClock prep.childMinimum).alignService
        (l.advancedClock (record.selection g) pass)).alignOwnService
          (l.childFloor (record.selection g) prep pass)).acquire record.candidate.scope
            record.candidate.costUnits.get .service := by
  simp only [selectScope, childFloor, comp, advanceClock, alignService, take,
    selection_scope, hlow, selection_primary_not_secondary g hsec, getD_none, and_self, if_true,
    if_false, reduceCtorEq, Bool.false_eq_true]
  rfl

/-- The low-volume scope has no place on the time line. -/
theorem selectScope_lowVolume (hlow : record.candidate.scope.isLowVolume = true) (st : ScopeState) :
    l.selectScope (record.selection g) prep pass record.candidate.scope st =
      st.acquire record.candidate.scope record.candidate.costUnits.get .service := by
  simp only [selectScope, comp, advanceClock, alignService, take, selection_scope, hlow,
    selection_primary_not_secondary g (isSecondary_of_isLowVolume hlow), false_and,
    if_true, if_false, reduceCtorEq, Bool.true_eq_false]
  rfl

/-- Every other scope stays as it is. -/
theorem selectScope_none (hs : s ≠ record.candidate.scope)
    (hne : s ≠ record.candidate.scope.primaryScope) (st : ScopeState) :
    l.selectScope (record.selection g) prep pass s st = st := by
  have hself : s ≠ (record.selection g).scope := hs
  have hparent : (record.selection g).primary ≠ some s := by
    intro h
    have := selection_primary record g
    rw [h] at this
    exact hne this
  have hclock : s ≠ (record.selection g).primary.getD (record.selection g).scope := by
    rw [selection_primary]
    exact hne
  simp only [selectScope, comp, advanceClock, alignService, take, hself, hparent, hclock,
    and_false, if_false]
  split
  · rfl
  · split
    · rfl
    · rename_i primary hp
      rw [if_neg]
      rintro rfl
      exact hparent hp

/-- The primary that a selection charges is aligned to the clock and charged once. -/
theorem selectScope_primary (hlow : record.candidate.scope.isLowVolume = false) (st : ScopeState) :
    (l.selectScope (record.selection g) prep pass record.candidate.scope.primaryScope st).service =
        (st.service.align st.weight (l.advancedClock (record.selection g) pass)).charge
          record.candidate.costUnits.get ∧
      (l.selectScope (record.selection g) prep pass record.candidate.scope.primaryScope st).weight =
        st.weight := by
  cases hsec : record.candidate.scope.isSecondary with
  | true =>
    rw [selectScope_parent hsec]
    exact ⟨rfl, rfl⟩
  | false =>
    rw [primaryScope_of_not_secondary hsec, selectScope_own hsec hlow]
    exact ⟨rfl, rfl⟩

theorem standing_selectScope_primary (hlow : record.candidate.scope.isLowVolume = false)
    (st : ScopeState) :
    (l.selectScope (record.selection g) prep pass record.candidate.scope.primaryScope st).standing =
      ((st.service.align st.weight (l.advancedClock (record.selection g) pass)).charge
        record.candidate.costUnits.get).pos st.weight := by
  rw [ScopeState.standing, (selectScope_primary hlow st).1, (selectScope_primary hlow st).2]

/-- Every other primary stays where it is. -/
theorem selectScope_other (hs : s.isScopedPrimary = true)
    (hne : s ≠ record.candidate.scope.primaryScope) (st : ScopeState) :
    l.selectScope (record.selection g) prep pass s st = st := by
  refine selectScope_none ?_ hne st
  rintro rfl
  exact hne (primaryScope_of_not_secondary (isSecondary_of_isScopedPrimary hs)).symm

end Select

/-! ## The spread -/

/-- No primary is further ahead of the service clock than the admission bound. -/
def SpreadInv (l : FairnessLedger) : Prop :=
  ∀ s st, s.isScopedPrimary = true → l.coreAt s = some st →
    st.standing ≤ l.serviceClock.toNat + l.admissionBound.toNat

theorem toNat_admissionBound (l : FairnessLedger) :
    l.admissionBound.toNat = 2 * l.budget.normalizedErrorBound.toNat := by
  have hlt := l.budget.normalizedErrorBound.isLt
  have hscale : (normalizationScale.setWidth 128).toNat = 2 := rfl
  rw [admissionBound, BitVec.toNat_satMul, BitVec.toNat_widen (by decide), hscale]
  omega

/-- One charge within the cost limit is within the bound. -/
theorem charge_le_admissionBound {cost : U16} (h : cost ≤ l.budget.maxCostUnits.get) :
    2 * cost.toNat ≤ l.admissionBound.toNat := by
  have hw := l.budget.candidateWindow.pos
  have hcost : cost.toNat ≤ l.budget.maxCostUnits.get.toNat := h
  rw [toNat_admissionBound, FairnessBudget.toNat_normalizedErrorBound]
  refine Nat.mul_le_mul_left 2 (hcost.trans ?_)
  exact Nat.le_mul_of_pos_right _ (by omega)

theorem checkNormalizedAdmission_ok {pass : SelectionPass} (h : prep.facts.lowVolume = false) :
    l.checkNormalizedAdmission prep pass = .ok () ↔
      pass.serviceExtrema.allows prep.metrics.primaryIndex prep.metrics.admissionService
        l.admissionBound = true := by
  unfold checkNormalizedAdmission
  rw [h, if_neg (by decide)]
  split
  · rename_i ha; exact iff_of_true rfl ha
  · rename_i ha; exact iff_of_false nofun ha

/-- The clock after a selection is at least the least eligible service, and a candidate that is
admitted stays within the bound of it. -/
theorem admitted_le {now : Option Timestamp} {eligible : Option (Finset JobId)}
    {prepared : PreparedCandidate}
    (he : l.Eligible (l.prepareSelectionPass now eligible) prepared prep)
    (ha : l.checkNormalizedAdmission prep (l.prepareSelectionPass now eligible) = .ok ()) :
    ∃ k m, (l.prepareSelectionPass now eligible).serviceExtrema.min = some (k, m) ∧
      (m = prep.metrics.primaryService ∨
        prep.metrics.admissionService.toNat ≤ m.toNat + l.admissionBound.toNat) := by
  obtain ⟨xs, hsum, hmem⟩ := serviceExtrema_summarises l now eligible
  have hself := (hmem _ _).mpr ⟨prepared, prep, he, rfl, rfl⟩
  rw [checkNormalizedAdmission_ok he.scope] at ha
  generalize (l.prepareSelectionPass now eligible).serviceExtrema = e at hsum ha ⊢
  cases hmin : e.min with
  | none =>
    rw [(hsum.lows.empty hmin).1] at hself
    cases hself
  | some x =>
    obtain ⟨k, m⟩ := x
    have hkm := hsum.lows.mem k m hmin
    refine ⟨k, m, rfl, ?_⟩
    by_cases hk : k = prep.metrics.primaryIndex
    · -- the least served primary is that of the candidate
      obtain ⟨prepared', prep', he', hindex, rfl⟩ := (hmem _ _).mp hkm
      have h' := he'.service
      rw [hindex, hk, he.service] at h'
      exact .inl (some.inj h').symm
    · exact .inr (hsum.le_of_allows hself hkm hk ha)

/-- A primary that was aligned to `clock'` and charged stands within the bound of every service
that the admission was compared with, once that service is not behind `clock'` either. -/
theorem standing_charge_le_other {a : ServiceAccounting} {w : NonZero 16} {cost : U16}
    {clock clock' admission : U128} {other bound : Nat}
    (hadmission : admission = (a.position w clock).satAdd (a.costDelta w cost))
    (hcost : 2 * cost.toNat ≤ bound) (h : admission.toNat ≤ other + bound) :
    max (((a.align w clock').charge cost).pos w) clock'.toNat ≤ max other clock'.toNat + bound := by
  have hcharge := pos_charge_le (a := a.align w clock') (w := w) (c := cost)
  rcases Nat.lt_or_ge (a.pos w) clock'.toNat with hlt | hge
  · -- restarted at the clock, and charged at most its cost
    have hdelta := toNat_costDelta_le (a := a.align w clock') (w := w) (c := cost)
    have hpos := pos_align a w clock'
    omega
  · -- charged from where admission measured it
    rw [align_of_le hge] at hcharge ⊢
    have hmax : (a.charge cost).pos w ≤ 2 ^ 128 - 1 := Nat.min_le_right _ _
    rw [hadmission, BitVec.toNat_satAdd, toNat_position] at h
    omega

/-- A charged and aligned primary stays within the bound of the clock that it was aligned to,
when it either was the least served one or is admitted within the bound of the least. -/
theorem standing_charge_le {a : ServiceAccounting} {w : NonZero 16} {cost : U16}
    {clock clock' least service admission : U128} {bound : Nat}
    (hclock : clock'.toNat = max clock.toNat least.toNat) (hservice : service = a.position w clock)
    (hadmission : admission = service.satAdd (a.costDelta w cost))
    (hcost : 2 * cost.toNat ≤ bound)
    (h : least = service ∨ admission.toNat ≤ least.toNat + bound) :
    ((a.align w clock').charge cost).pos w ≤ clock'.toNat + bound := by
  have hle : admission.toNat ≤ least.toNat + bound := by
    have hdelta := toNat_costDelta_le (a := a) (w := w) (c := cost)
    rcases h with rfl | h
    · rw [hadmission, BitVec.toNat_satAdd]
      omega
    · exact h
  refine (Nat.le_max_left _ clock'.toNat).trans
    ((standing_charge_le_other (hservice ▸ hadmission) hcost hle).trans ?_)
  omega

theorem toNat_advancedClock {record : CandidateRecord} {g : FairPermitGeneration}
    {pass : SelectionPass} {k : Nat} {m : U128}
    (hlow : record.candidate.scope.isLowVolume = false)
    (hmin : pass.serviceExtrema.min = some (k, m)) :
    (l.advancedClock (record.selection g) pass).toNat = max l.serviceClock.toNat m.toNat := by
  have hlow' : (record.selection g).scope.isLowVolume = false := hlow
  simp only [advancedClock, hlow', hmin, Bool.false_eq_true, if_false, BitVec.toNat_umax]

/-- The service clock never goes back. -/
theorem serviceClock_le_advancedClock (sel : CandidateSelection) (pass : SelectionPass) :
    l.serviceClock.toNat ≤ (l.advancedClock sel pass).toNat := by
  unfold advancedClock
  split
  · exact le_rfl
  · split
    · exact le_rfl
    · rw [BitVec.toNat_umax]; exact le_max_left _ _

/-- A selection keeps the spread. -/
theorem SpreadInv.select (h : l.SpreadInv) {l₀ : FairnessLedger} {now : Option Timestamp}
    {eligible : Option (Finset JobId)} {record : CandidateRecord} {g : FairPermitGeneration}
    {prepared : PreparedCandidate} (hreset : l.UpToReset l₀)
    (hch : l₀.Chosen (l.prepareSelectionPass now eligible) record g prepared prep) :
    (l₀.settleSelection (record.selection g) prep
      (l.prepareSelectionPass now eligible)).2.SpreadInv := by
  have hcoreAt : ∀ s, l₀.coreAt s = l.coreAt s := fun s => by rcases hreset with rfl | rfl <;> rfl
  have hclock₀ : l₀.serviceClock = l.serviceClock := by rcases hreset with rfl | rfl <;> rfl
  intro s st' hs hst'
  have hbound : (l₀.settleSelection (record.selection g) prep
      (l.prepareSelectionPass now eligible)).2.admissionBound = l.admissionBound := by
    rw [admissionBound, settleSelection_frame.2.1, hreset.budget, admissionBound]
  rw [hbound, settleSelection_frame.2.2.2]
  rw [settleSelection_coreAt, hcoreAt] at hst'
  obtain ⟨st, hst, rfl⟩ := map_eq_some_iff.mp hst'
  by_cases hsp : s = record.candidate.scope.primaryScope
  · subst hsp
    have hlow : record.candidate.scope.isLowVolume = false := by
      rw [← isLowVolume_primaryScope]
      exact isLowVolume_of_isScopedPrimary hs
    have hfacts := hch.facts hreset
    have hcost := hch.admissible.cost
    rw [hreset.budget] at hcost
    have hscope : prep.facts.lowVolume = false := by rw [hfacts]; exact hlow
    have hnorm : l.checkNormalizedAdmission prep (l.prepareSelectionPass now eligible) = .ok () := by
      have := hch.admissible.normalized
      rcases hreset with rfl | rfl <;> exact this
    obtain ⟨k, m, hmin, hcase⟩ := admitted_le
      ⟨hch.mem, hch.admissible.ready, hch.admissible.due, hch.admissible.prepared, hscope, hcost⟩
      hnorm
    obtain ⟨st₁, hm⟩ := hch.measures hreset
    cases hst.symm.trans (coreAt_of_get hm.get)
    rw [standing_selectScope_primary hlow]
    have hservice := hm.primaryService hlow
    have hadmission := hm.admissionService
    rw [← hservice] at hadmission
    refine standing_charge_le ?_ hservice hadmission ?_ hcase
    · rw [toNat_advancedClock hlow hmin, hclock₀]
    · rw [hfacts] at hcost
      exact charge_le_admissionBound hcost
  · rw [selectScope_other hs hsp]
    have hclock := serviceClock_le_advancedClock (l := l₀) (record.selection g)
      (l.prepareSelectionPass now eligible)
    rw [hclock₀] at hclock
    have hold := h s st hs hst
    omega

theorem SpreadInv.effect (h : l.SpreadInv) {op : LedgerOp} (heff : l.Effect op l') :
    l'.SpreadInv := by
  by_cases hop : ∀ now eligible, op ≠ .select now eligible
  · intro s st' hs hst'
    rw [(heff.clocks hop).2, admissionBound, heff.budget, ← admissionBound]
    rcases heff.scopeMove hop hst' with ⟨-, rfl⟩ | ⟨st, hst, hmove⟩
    · rw [ScopeState.standing_fresh]
      exact Nat.zero_le _
    · exact hmove.standing_le.trans (h s st hs hst)
  · cases heff with
    | unchanged => exact h
    | refused reset => rcases reset with rfl | rfl <;> exact h
    | selected reset chosen => exact h.select reset chosen
    | _ => exact absurd (fun _ _ => nofun) hop

theorem spread_run {b : FairnessBudget} (h : RunFrom (fun _ _ => True) (.new b) l) :
    l.SpreadInv := by
  refine h.invariant (fun _ _ _ hi _ hst => SpreadInv.effect hi hst.effect) ?_
  intro s st _ hst
  simp [FairnessLedger.new, coreAt] at hst

/-! ## Admission of the least served -/

section Least

variable {now : Option Timestamp} {eligible : Option (Finset JobId)}
  {prepared : PreparedCandidate} {prep : CandidatePreparation}

theorem Eligible.measures (he : l.Eligible (l.prepareSelectionPass now eligible) prepared prep) :
    ∃ c st, c.scope.isLowVolume = false ∧ prep.facts = c.facts ∧ l.Measures c st prep.metrics := by
  obtain ⟨c, g, st, -, hfacts, hm⟩ := prepareSelectionPass_measures he.mem he.prepared
  exact ⟨c, st, (congrArg (·.lowVolume) hfacts).symm.trans he.scope, hfacts, hm⟩

/-- An eligible primary stands between the clock and the bound above it. -/
theorem Eligible.service_bounds (h : l.SpreadInv)
    (he : l.Eligible (l.prepareSelectionPass now eligible) prepared prep) :
    l.serviceClock.toNat ≤ prep.metrics.primaryService.toNat ∧
      prep.metrics.primaryService.toNat ≤ l.serviceClock.toNat + l.admissionBound.toNat := by
  obtain ⟨c, st, hlow, hfacts, hm⟩ := he.measures
  have hold := h _ _ (isScopedPrimary_primaryScope hlow) (coreAt_of_get hm.get)
  change st.service.pos st.weight ≤ _ at hold
  rw [hm.primaryService hlow, toNat_position]
  omega

/-- The charge that admission foresees for an eligible candidate is within the bound. -/
theorem Eligible.admission_bounds
    (he : l.Eligible (l.prepareSelectionPass now eligible) prepared prep) :
    prep.metrics.primaryService.toNat ≤ prep.metrics.admissionService.toNat ∧
      prep.metrics.admissionService.toNat ≤
        prep.metrics.primaryService.toNat + l.admissionBound.toNat := by
  obtain ⟨c, st, hlow, hfacts, hm⟩ := he.measures
  have hcost := he.cost
  rw [hfacts] at hcost
  have hbound := charge_le_admissionBound hcost
  have hdelta := toNat_costDelta_le (a := st.service) (w := st.weight) (c := c.costUnits.get)
  have hmax := prep.metrics.primaryService.isLt
  rw [hm.admissionService, ← hm.primaryService hlow, BitVec.toNat_satAdd]
  change 2 * c.costUnits.get.toNat ≤ _ at hbound
  omega

end Least

/-- In every reachable ledger, a ready and due scoped candidate that was prepared, is within the
cost limit and whose primary is least served among the eligible primaries of the pass is admitted
by the normalized bound. -/
theorem least_served_admitted {b : FairnessBudget} {l : FairnessLedger}
    (hrun : RunFrom (fun _ _ => True) (.new b) l) (now : Timestamp) (eligible : Finset JobId)
    {prepared : PreparedCandidate} {prep : CandidatePreparation}
    (he : l.Eligible (l.prepareSelectionPass (some now) (some eligible)) prepared prep)
    (hleast : ∀ prepared' prep',
      l.Eligible (l.prepareSelectionPass (some now) (some eligible)) prepared' prep' →
        prep.metrics.primaryService ≤ prep'.metrics.primaryService) :
    l.checkNormalizedAdmission prep (l.prepareSelectionPass (some now) (some eligible)) =
      .ok () := by
  have hspread := spread_run hrun
  obtain ⟨xs, hsum, hmem⟩ := serviceExtrema_summarises l (some now) (some eligible)
  obtain ⟨hlow, hhigh⟩ := he.admission_bounds
  have hclock := (he.service_bounds hspread).1
  have hclose : ∀ k v, (k, v) ∈ xs →
      prep.metrics.admissionService.absDiff v ≤ l.admissionBound := by
    intro k v hv
    obtain ⟨prepared', prep', he', -, rfl⟩ := (hmem k v).mp hv
    have hleast' := BitVec.le_def.mp (hleast prepared' prep' he')
    have hupper := (he'.service_bounds hspread).2
    rw [BitVec.le_def, BitVec.toNat_absDiff]
    omega
  rw [checkNormalizedAdmission_ok he.scope, allows]
  split
  · rfl
  · rw [minimumExcept_eq, maximumExcept_eq, Bool.and_eq_true, all_eq_true, all_eq_true]
    refine ⟨fun v hv => ?_, fun v hv => ?_⟩
    · obtain ⟨k, hk, -⟩ := (hsum.lows.except _).mem v hv
      exact decide_eq_true (hclose k v hk)
    · obtain ⟨k, hk, -⟩ := (hsum.highs.except _).mem v hv
      exact decide_eq_true (hclose k v hk)

/-- Two primaries, the first of which was served once. -/
def spreadSample : FairnessLedger :=
  [LedgerOp.add (.plain 1 7), .add (.plain 2 8), .select ⟨5⟩ {.repeated 1, .repeated 2},
    .release (.plain 1 7) .retry].foldl apply (.new .tiny)

def spreadPass : SelectionPass :=
  spreadSample.prepareSelectionPass (some ⟨5⟩) (some {.repeated 1, .repeated 2})

theorem least_served_admitted_sample :
    ∃ prepared prep, prepared.jobId = .repeated 2 ∧
      spreadSample.Eligible spreadPass prepared prep ∧
      spreadSample.checkNormalizedAdmission prep spreadPass = .ok () := by
  have hrun : RunFrom (fun _ _ => True) (.new .tiny) spreadSample := .ofList (by decide +kernel)
  have hany : spreadPass.candidates.any (fun q =>
      q.jobId = .repeated 2 && q.ready && q.due && q.preparation.toOption.any fun prep =>
        prep.facts.lowVolume = false
          && prep.facts.costUnits.get ≤ spreadSample.budget.maxCostUnits.get
          && prep.metrics.primaryService = 0) = true := by
    decide +kernel
  obtain ⟨prepared, hmem, hq⟩ := List.any_eq_true.mp hany
  cases hp : prepared.preparation with
  | error e => simp [hp, Except.toOption] at hq
  | ok prep =>
    simp only [hp, Except.toOption, any_some, Bool.and_eq_true, decide_eq_true_eq] at hq
    obtain ⟨⟨⟨hjob, hready⟩, hdue⟩, ⟨hscope, hcost⟩, hzero⟩ := hq
    have he : spreadSample.Eligible spreadPass prepared prep :=
      ⟨hmem, hready, hdue, hp, hscope, hcost⟩
    have hleast : ∀ prepared' prep', spreadSample.Eligible spreadPass prepared' prep' →
        prep.metrics.primaryService ≤ prep'.metrics.primaryService := by
      intro prepared' prep' _
      rw [hzero]
      exact BitVec.le_def.mpr (Nat.zero_le _)
    exact ⟨prepared, prep, hjob, he, least_served_admitted hrun _ _ he hleast⟩

end FairnessLedger

end AuxCommon
