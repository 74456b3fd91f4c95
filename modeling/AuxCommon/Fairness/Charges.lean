import AuxCommon.Fairness.Spread

/-!
# Where a selection leaves the primaries

A pass measures every primary by its normalized service, which counts in units of
`1 / NORMALIZATION_SCALE` and never lags behind the service clock. Admission looks at where the
primary of a candidate would stand, and the charge that follows moves it no further
(`standing_charge_le_other`): after a selection no other eligible primary of the pass is behind the
selected one by more than the normalized error bound (`selected_primary_within_bound`).
-/

namespace AuxCommon

open ServiceAccounting

namespace FairnessLedger

variable {l l₀ : FairnessLedger} {s : FairScope} {pass : SelectionPass}
  {prep : CandidatePreparation} {record : CandidateRecord} {g : FairPermitGeneration}

/-- The normalized service of a primary as `prepare_primary_stats` measures it. -/
def normalizedServiceAt (l : FairnessLedger) (s : FairScope) : Option U128 :=
  l.scopes[s]?.map fun st =>
    if s.isLowVolume then 0 else st.service.position st.weight l.serviceClock

/-- A primary that a pass marks as eligible. -/
def EligiblePrimary (l : FairnessLedger) (pass : SelectionPass) (s : FairScope) : Prop :=
  ∃ prepared prep, l.Eligible pass prepared prep ∧
    l.primaries[prep.metrics.primaryIndex]? = some s

theorem normalizedServiceAt_eq (l : FairnessLedger) (hs : s.isScopedPrimary = true) :
    l.normalizedServiceAt s =
      (l.coreAt s).map fun st => st.service.position st.weight l.serviceClock := by
  simp only [normalizedServiceAt, FairScope.isLowVolume_of_isScopedPrimary hs, coreAt,
    Option.map_map]
  rfl

/-- The normalized service of a scope after a selection. -/
theorem normalizedServiceAt_settleSelection {sel : CandidateSelection}
    {st : ScopeState} (hs : s.isScopedPrimary = true) (h : l.scopes[s]? = some st) :
    (l.settleSelection sel prep pass).2.normalizedServiceAt s =
      some ((l.selectScope sel prep pass s st.core).service.position
        (l.selectScope sel prep pass s st.core).weight (l.advancedClock sel pass)) := by
  rw [normalizedServiceAt_eq _ hs, settleSelection_coreAt, settleSelection_frame.2.2.2,
    coreAt_of_get h]
  rfl

theorem UpToReset.scopes (h : l.UpToReset l₀) : l₀.scopes = l.scopes := by
  rcases h with rfl | rfl <;> rfl

theorem UpToReset.serviceClock (h : l.UpToReset l₀) : l₀.serviceClock = l.serviceClock := by
  rcases h with rfl | rfl <;> rfl

/-- An admitted candidate is an eligible one, unless it is low-volume. -/
theorem Chosen.eligible {prepared : PreparedCandidate}
    (h : l₀.Chosen pass record g prepared prep) (hreset : l.UpToReset l₀)
    (hlow : prep.facts.lowVolume = false) : l.Eligible pass prepared prep := by
  have hcost := h.admissible.cost
  rw [hreset.budget] at hcost
  exact ⟨h.mem, h.admissible.ready, h.admissible.due, h.admissible.prepared, hlow, hcost⟩

theorem Chosen.normalized {prepared : PreparedCandidate}
    (h : l₀.Chosen pass record g prepared prep) (hreset : l.UpToReset l₀) :
    l.checkNormalizedAdmission prep pass = .ok () := by
  have := h.admissible.normalized
  rcases hreset with rfl | rfl <;> exact this

section Pass

variable {now : Option Timestamp} {eligible : Option (Finset JobId)}
  {prepared : PreparedCandidate}

/-- An eligible primary is that of a scoped candidate, with the service that the pass measured. -/
theorem EligiblePrimary.measured (h : l.EligiblePrimary (l.prepareSelectionPass now eligible) s) :
    s.isScopedPrimary = true ∧ ∃ st prepared prep, l.scopes[s]? = some st ∧
      l.Eligible (l.prepareSelectionPass now eligible) prepared prep ∧
      l.primaries.idxOf? s = some prep.metrics.primaryIndex ∧
      prep.metrics.primaryService = st.service.position st.weight l.serviceClock := by
  obtain ⟨prepared, prep, he, hindex⟩ := h
  obtain ⟨c, st, hlow, -, hm⟩ := he.measures
  have hs : c.scope.primaryScope = s := by
    obtain ⟨hlt, heq, -⟩ := List.idxOf?_eq_some_iff.mp hm.index
    rw [List.getElem?_eq_getElem hlt, heq] at hindex
    exact Option.some.inj hindex
  subst hs
  exact ⟨FairScope.isScopedPrimary_primaryScope hlow, st, prepared, prep, hm.get, he, hm.index,
    hm.primaryService hlow⟩

/-- Admission keeps a candidate within the bound of every other eligible primary. -/
theorem admitted_le_other (he : l.Eligible (l.prepareSelectionPass now eligible) prepared prep)
    (ha : l.checkNormalizedAdmission prep (l.prepareSelectionPass now eligible) = .ok ())
    {prepared' : PreparedCandidate} {prep' : CandidatePreparation}
    (he' : l.Eligible (l.prepareSelectionPass now eligible) prepared' prep')
    (hne : prep'.metrics.primaryIndex ≠ prep.metrics.primaryIndex) :
    prep.metrics.admissionService.toNat ≤
      prep'.metrics.primaryService.toNat + l.admissionBound.toNat := by
  obtain ⟨xs, hsum, hmem⟩ := serviceExtrema_summarises l now eligible
  rw [checkNormalizedAdmission_ok he.scope] at ha
  exact hsum.le_of_allows ((hmem _ _).mpr ⟨prepared, prep, he, rfl, rfl⟩)
    ((hmem _ _).mpr ⟨prepared', prep', he', rfl, rfl⟩) hne ha

end Pass

/-- After a selection of a scoped candidate, the normalized service of its primary is within the
normalized error bound of that of every other eligible primary of the pass. -/
theorem selected_primary_within_bound (l : FairnessLedger) (now : Timestamp)
    (eligible : Finset JobId) {p : FairPermit}
    (hselect : (l.selectNextDueIn now eligible).1 = .ok (some p))
    (hscoped : p.scope.isLowVolume = false) {s : FairScope}
    (hs : l.EligiblePrimary (l.prepareSelectionPass (some now) (some eligible)) s)
    (hne : s ≠ p.scope.primaryScope) :
    ∃ own other,
      (l.selectNextDueIn now eligible).2.normalizedServiceAt p.scope.primaryScope = some own ∧
      (l.selectNextDueIn now eligible).2.normalizedServiceAt s = some other ∧
      own.toNat ≤ other.toNat +
        normalizationScale.toNat * l.budget.normalizedErrorBound.toNat := by
  obtain ⟨l₀, hreset, ⟨hno, -⟩ | ⟨record, g, prepared, prep, hch, heq⟩⟩ :=
    selectNextDueIn_cases l now eligible
  · exact absurd hselect (hno p)
  rw [heq] at hselect ⊢
  cases hselect
  have hlow : record.candidate.scope.isLowVolume = false := hscoped
  have hfacts := hch.facts hreset
  obtain ⟨st, hm⟩ := hch.measures hreset
  have hscope : prep.facts.lowVolume = false := by rw [hfacts]; exact hlow
  have he := hch.eligible hreset hscope
  obtain ⟨hprimary, st', prepared', prep', hst', he', hindex', hservice'⟩ := hs.measured
  have hindex : prep'.metrics.primaryIndex ≠ prep.metrics.primaryIndex := by
    intro h
    refine hne ?_
    obtain ⟨hlt, heq, -⟩ := List.idxOf?_eq_some_iff.mp hm.index
    obtain ⟨hlt', heq', -⟩ := List.idxOf?_eq_some_iff.mp hindex'
    simp only [h] at heq'
    exact heq'.symm.trans heq
  have hle := admitted_le_other he (hch.normalized hreset) he' hindex
  have hcost : 2 * record.candidate.costUnits.get.toNat ≤ l.admissionBound.toNat := by
    have := he.cost
    rw [hfacts] at this
    exact charge_le_admissionBound this
  have hget := hm.get
  rw [← hreset.scopes] at hget hst'
  refine ⟨_, _, normalizedServiceAt_settleSelection (FairScope.isScopedPrimary_primaryScope hlow)
    hget, normalizedServiceAt_settleSelection hprimary hst', ?_⟩
  rw [selectScope_other hprimary hne, toNat_position, toNat_position,
    show normalizationScale.toNat = 2 from rfl, ← toNat_admissionBound]
  change max (ScopeState.standing
    (l₀.selectScope _ _ _ record.candidate.scope.primaryScope _)) _ ≤ _
  rw [standing_selectScope_primary hlow]
  have hclock := serviceClock_le_advancedClock (l := l₀) (record.selection g)
    (l.prepareSelectionPass (some now) (some eligible))
  rw [hreset.serviceClock] at hclock
  rw [hservice', toNat_position] at hle
  refine (standing_charge_le_other hm.admissionService hcost hle).trans (Nat.add_le_add_right ?_ _)
  change max (max (st'.service.pos st'.weight) _) _ ≤ max (st'.service.pos st'.weight) _
  omega

theorem eligiblePrimary_of_any
    (h : pass.candidates.any (fun q => q.ready && q.due && q.preparation.toOption.any fun prep =>
      prep.facts.lowVolume = false && prep.facts.costUnits.get ≤ l.budget.maxCostUnits.get &&
        l.primaries[prep.metrics.primaryIndex]? = some s) = true) : l.EligiblePrimary pass s := by
  obtain ⟨prepared, hmem, hq⟩ := List.any_eq_true.mp h
  cases hp : prepared.preparation with
  | error e => simp [hp, Except.toOption] at hq
  | ok prep =>
    simp only [hp, Except.toOption, Option.any_some, Bool.and_eq_true, decide_eq_true_eq] at hq
    obtain ⟨⟨hready, hdue⟩, ⟨hscope, hcost⟩, hindex⟩ := hq
    exact ⟨prepared, prep, ⟨hmem, hready, hdue, hp, hscope, hcost⟩, hindex⟩

theorem selected_primary_within_bound_sample :
    ∃ own other, (spreadSample.selectNextDueIn ⟨5⟩ {.repeated 1, .repeated 2}).2.normalizedServiceAt
        (.scoped (.single 8) none) = some own ∧
      (spreadSample.selectNextDueIn ⟨5⟩ {.repeated 1, .repeated 2}).2.normalizedServiceAt
        (.scoped (.single 7) none) = some other ∧
      own.toNat ≤ other.toNat +
        normalizationScale.toNat * spreadSample.budget.normalizedErrorBound.toNat :=
  have hselect : (spreadSample.selectNextDueIn ⟨5⟩ {.repeated 1, .repeated 2}).1 =
      .ok (some (.plain 2 8)) := by decide +kernel
  have hother : spreadSample.EligiblePrimary spreadPass (.scoped (.single 7) none) :=
    eligiblePrimary_of_any (by decide +kernel)
  selected_primary_within_bound spreadSample ⟨5⟩ _ hselect rfl hother (by decide)

/-- In every reachable ledger no scoped primary is further ahead of another than the normalized error
bound, whichever of them have work. -/
theorem primaries_within_bound {b : FairnessBudget} {l : FairnessLedger}
    (hrun : RunFrom (fun _ _ => True) (.new b) l) {s s' : FairScope}
    (hs : s.isScopedPrimary = true) (hs' : s'.isScopedPrimary = true) {own other : U128}
    (hown : l.normalizedServiceAt s = some own) (hother : l.normalizedServiceAt s' = some other) :
    own.toNat ≤ other.toNat + normalizationScale.toNat * l.budget.normalizedErrorBound.toNat := by
  rw [normalizedServiceAt_eq _ hs] at hown
  rw [normalizedServiceAt_eq _ hs'] at hother
  obtain ⟨st, hst, rfl⟩ := Option.map_eq_some_iff.mp hown
  obtain ⟨st', -, rfl⟩ := Option.map_eq_some_iff.mp hother
  have hahead : st.service.pos st.weight ≤ _ := spread_run hrun s st hs hst
  rw [toNat_admissionBound] at hahead
  have hscale : normalizationScale.toNat = 2 := rfl
  rw [toNat_position, toNat_position, hscale]
  omega

theorem primaries_within_bound_sample : (2 : U128).toNat ≤
    (0 : U128).toNat + normalizationScale.toNat * spreadSample.budget.normalizedErrorBound.toNat :=
  have hrun : RunFrom (fun _ _ => True) (.new .tiny) spreadSample := .ofList (by decide +kernel)
  have hown : spreadSample.normalizedServiceAt (.scoped (.single 7) none) = some 2 := by
    decide +kernel
  have hother : spreadSample.normalizedServiceAt (.scoped (.single 8) none) = some 0 := by
    decide +kernel
  primaries_within_bound hrun rfl rfl hown hother

end FairnessLedger

end AuxCommon
