import AuxCommon.Fairness.Run

/-!
# What a selection pass holds

The pass of `select_next_due_in` is computed from the ledger before anything is charged. The
statistics that the loop of `prepare_candidates` carries along never change the service of a
primary, so each entry of the pass is a function of the ledger and of its record alone
(`passEntry`), and the two sweeps that follow only add counts to it (`mem_prepareSelectionPass`).
-/

namespace AuxCommon

open List Option

/-- Statistics of the same primaries with the same services. -/
def SameService (stats stats' : List PrimaryStats) : Prop :=
  stats.map (·.normalizedService) = stats'.map (·.normalizedService)

theorem SameService.get {stats stats' : List PrimaryStats} (h : SameService stats stats')
    (i : Nat) : stats[i]?.map (·.normalizedService) = stats'[i]?.map (·.normalizedService) := by
  rw [← getElem?_map, ← getElem?_map, show stats.map _ = stats'.map _ from h]

theorem SameService.modify (stats : List PrimaryStats) (i : Nat) {f : PrimaryStats → PrimaryStats}
    (hf : ∀ st, (f st).normalizedService = st.normalizedService) :
    SameService (stats.modify i f) stats := by
  refine ext_getElem? fun k => ?_
  rw [getElem?_map, getElem?_map, getElem?_modify]
  cases stats[k]? with
  | none => rfl
  | some st =>
    split
    · exact congrArg some (hf st)
    · rfl

/-- The facts of a candidate that a pass keeps. -/
def FairCandidate.facts (c : FairCandidate) : CandidateFacts where
  scheduledAt := c.scheduledAt
  priority := c.priority
  costUnits := c.costUnits
  lowVolume := c.scope.isLowVolume

namespace FairnessLedger

variable {l : FairnessLedger} {now : Option Timestamp} {eligible : Option (Finset JobId)}
  {prepared : PreparedCandidate} {prep : CandidatePreparation} {j : JobId}
  {stats stats' : List PrimaryStats} {record : CandidateRecord} {l₀ : FairnessLedger}
  {g : FairPermitGeneration}

/-! ## One entry -/

theorem candidateServiceMetrics_congr (h : SameService stats stats') (c : FairCandidate) :
    l.candidateServiceMetrics c stats = l.candidateServiceMetrics c stats' := by
  unfold candidateServiceMetrics
  dsimp only
  cases l.primaries.idxOf? (c.scope.parent.getD c.scope) with
  | none => rfl
  | some i =>
    cases l.scopes[c.scope.parent.getD c.scope]? with
    | none => rfl
    | some st =>
      have hi := h.get i
      dsimp only
      cases hs : stats[i]? with
      | none =>
        rw [hs, map_none, eq_comm, map_eq_none_iff] at hi
        rw [hi]
      | some a =>
        rw [hs, map_some, eq_comm, map_eq_some_iff] at hi
        obtain ⟨b, hb, heq⟩ := hi
        rw [hb]
        dsimp only
        rw [heq]

theorem prepareCandidateForPass_congr (h : SameService stats stats') :
    l.prepareCandidateForPass j stats = l.prepareCandidateForPass j stats' := by
  unfold prepareCandidateForPass
  cases l.validateCandidate j with
  | error e => rfl
  | ok v =>
    change (l.candidateServiceMetrics v.1 stats >>= _) = (l.candidateServiceMetrics v.1 stats' >>= _)
    rw [candidateServiceMetrics_congr h]

theorem recordReadyCandidate_sameService (c : FairCandidate) (ready : Bool) :
    SameService (l.recordReadyCandidate c ready stats) stats := by
  unfold recordReadyCandidate
  split
  · split
    · rfl
    · exact .modify _ _ fun _ => rfl
  · rfl

theorem markEligibleCandidate_sameService (ready due : Bool)
    (selection : Except FairnessRejection CandidatePreparation) :
    SameService (l.markEligibleCandidate ready due selection stats) stats := by
  unfold markEligibleCandidate
  split
  · rfl
  · split
    · exact .modify _ _ fun _ => rfl
    · rfl

/-- The entry of one record. -/
def passEntry (l : FairnessLedger) (now : Option Timestamp) (eligible : Option (Finset JobId))
    (record : CandidateRecord) : PreparedCandidate :=
  (l.prepareCandidateEntry now eligible record l.preparePrimaryStats).1

theorem prepareCandidateEntry_sameService (l : FairnessLedger) (now : Option Timestamp)
    (eligible : Option (Finset JobId)) (record : CandidateRecord) (stats : List PrimaryStats) :
    SameService (l.prepareCandidateEntry now eligible record stats).2 stats :=
  (markEligibleCandidate_sameService _ _ _).trans (recordReadyCandidate_sameService _ _)

theorem prepareCandidateEntry_fst (now : Option Timestamp) (eligible : Option (Finset JobId))
    (h : SameService stats l.preparePrimaryStats) (record : CandidateRecord) :
    (l.prepareCandidateEntry now eligible record stats).1 = l.passEntry now eligible record := by
  unfold passEntry prepareCandidateEntry
  dsimp only
  congr 2
  exact prepareCandidateForPass_congr ((recordReadyCandidate_sameService _ _).trans
    (h.trans (recordReadyCandidate_sameService _ _).symm))

/-- A preparation that succeeded is that of a record which can be selected. -/
theorem passEntry_ok (h : (l.passEntry now eligible record).preparation = .ok prep) :
    ∃ c g, l.validateCandidate record.candidate.jobId = .ok (c, g) ∧
      l.candidateServiceMetrics c l.preparePrimaryStats = .ok prep.metrics ∧
      prep.facts = c.facts := by
  unfold passEntry prepareCandidateEntry at h
  dsimp only at h
  split at h
  · rw [prepareCandidateForPass_congr (recordReadyCandidate_sameService _ _)] at h
    obtain ⟨⟨c, g⟩, hv, h⟩ := Except.bind_eq_ok.mp h
    obtain ⟨metrics, hm, h⟩ := Except.bind_eq_ok.mp h
    cases h
    exact ⟨c, g, hv, hm, rfl⟩
  · cases h

/-! ## The whole pass -/

theorem prepareCandidates_fst (h : SameService stats l.preparePrimaryStats)
    (records : List CandidateRecord) :
    (l.prepareCandidates now eligible records stats).1 =
      records.map (l.passEntry now eligible) := by
  induction records generalizing stats with
  | nil => rfl
  | cons record records ih =>
    rw [prepareCandidates, map_cons, ← prepareCandidateEntry_fst now eligible h record,
      ← ih ((prepareCandidateEntry_sameService l now eligible record stats).trans h)]

theorem prepareCandidates_sameService (l : FairnessLedger) (now : Option Timestamp)
    (eligible : Option (Finset JobId)) (records : List CandidateRecord)
    (stats : List PrimaryStats) :
    SameService (l.prepareCandidates now eligible records stats).2 stats := by
  induction records generalizing stats with
  | nil => rfl
  | cons record records ih => 
    exact (ih _).trans (prepareCandidateEntry_sameService l now eligible record stats)

/-- The counts that `attach_candidate_counts` adds change nothing that the checks read. -/
theorem attachCandidateCounts_ok (h : (attachCandidateCounts stats prepared).preparation = .ok prep) :
    ∃ prep₀, prepared.preparation = .ok prep₀ ∧ prep.facts = prep₀.facts ∧
      prep.metrics.primaryIndex = prep₀.metrics.primaryIndex ∧
      prep.metrics.primaryService = prep₀.metrics.primaryService ∧
      prep.metrics.admissionService = prep₀.metrics.admissionService := by
  unfold attachCandidateCounts at h
  split at h
  · rename_i e he
    rw [he] at h
    cases h
  · rename_i prep₀ hprep₀
    refine ⟨prep₀, hprep₀, ?_⟩
    split at h
    · cases hprep₀.symm.trans h
      exact ⟨rfl, rfl, rfl, rfl⟩
    · cases h
      exact ⟨rfl, rfl, rfl, rfl⟩

theorem attachCandidateCounts_of_ok (stats : List PrimaryStats) (h : prepared.preparation = .ok prep) :
    ∃ prep', (attachCandidateCounts stats prepared).preparation = .ok prep' := by
  unfold attachCandidateCounts
  rw [h]
  dsimp only
  split
  · exact ⟨prep, h⟩
  · exact ⟨_, rfl⟩

theorem attachCandidateCounts_frame (stats : List PrimaryStats) (prepared : PreparedCandidate) :
    (attachCandidateCounts stats prepared).jobId = prepared.jobId ∧
      (attachCandidateCounts stats prepared).ready = prepared.ready ∧
      (attachCandidateCounts stats prepared).due = prepared.due := by
  unfold attachCandidateCounts
  split
  · exact ⟨rfl, rfl, rfl⟩
  · split <;> exact ⟨rfl, rfl, rfl⟩

/-- The entries of a pass are those of the records, with counts attached. -/
theorem mem_prepareSelectionPass (h : prepared ∈ (l.prepareSelectionPass now eligible).candidates) :
    ∃ record ∈ l.candidates.values, ∃ stats,
      prepared = attachCandidateCounts stats (l.passEntry now eligible record) := by
  unfold prepareSelectionPass at h
  dsimp only at h
  rw [prepareCandidates_fst rfl] at h
  obtain ⟨entry, hentry, rfl⟩ := mem_map.mp h
  obtain ⟨record, hrecord, rfl⟩ := mem_map.mp hentry
  exact ⟨record, hrecord, _, rfl⟩

/-- A preparation of the pass that succeeded is that of a candidate which passes
`validate_candidate`, with its facts and its measures. -/
theorem prepareSelectionPass_ok (h : prepared ∈ (l.prepareSelectionPass now eligible).candidates)
    (hp : prepared.preparation = .ok prep) :
    ∃ c g metrics, l.validateCandidate prepared.jobId = .ok (c, g) ∧ prep.facts = c.facts ∧
      l.candidateServiceMetrics c l.preparePrimaryStats = .ok metrics ∧
      prep.metrics.primaryIndex = metrics.primaryIndex ∧
      prep.metrics.primaryService = metrics.primaryService ∧
      prep.metrics.admissionService = metrics.admissionService := by
  obtain ⟨record, -, stats, rfl⟩ := mem_prepareSelectionPass h
  obtain ⟨prep₀, hprep₀, hfacts, hmetrics⟩ := attachCandidateCounts_ok hp
  obtain ⟨c, g, hv, hm, hfacts₀⟩ := passEntry_ok hprep₀
  rw [(attachCandidateCounts_frame _ _).1]
  exact ⟨c, g, prep₀.metrics, hv, hfacts.trans hfacts₀, hm, hmetrics⟩

theorem validateCandidate_resetPriorityWindow :
    l.resetPriorityWindow.validateCandidate j = l.validateCandidate j := by
  unfold validateCandidate
  rw [resetPriorityWindow_get]
  cases l.candidates[j]? <;> rfl

theorem UpToReset.validateCandidate (h : l.UpToReset l₀) :
    l₀.validateCandidate j = l.validateCandidate j := by
  rcases h with rfl | rfl
  · rfl
  · exact validateCandidate_resetPriorityWindow

/-- The candidate that a selection charges is the one that it measured. -/
theorem Chosen.facts (h : l₀.Chosen (l.prepareSelectionPass now eligible) record g prepared prep)
    (hreset : l.UpToReset l₀) : prep.facts = record.candidate.facts := by
  obtain ⟨c, g', -, hv, hfacts, -⟩ := prepareSelectionPass_ok h.mem h.admissible.prepared
  rw [← hreset.validateCandidate] at hv
  obtain ⟨record', hval, rfl⟩ := validateCandidate_ok hv
  cases h.validated.get.symm.trans hval.get
  exact hfacts

/-! ## Measures -/

/-- The measures of a candidate: where the primary that it is charged to stands, and where it
would stand after the charge. -/
structure Measures (l : FairnessLedger) (c : FairCandidate) (st : ScopeState)
    (metrics : SelectionMetrics) : Prop where
  get : l.scopes[c.scope.primaryScope]? = some st
  index : l.primaries.idxOf? c.scope.primaryScope = some metrics.primaryIndex
  primaryService : c.scope.isLowVolume = false →
    metrics.primaryService = st.service.position st.weight l.serviceClock
  admissionService : metrics.admissionService =
    (st.service.position st.weight l.serviceClock).satAdd
      (st.service.costDelta st.weight c.costUnits.get)

theorem preparePrimaryStats_get {s : FairScope} {i : Nat} {st : ScopeState}
    (hi : l.primaries.idxOf? s = some i) (hs : l.scopes[s]? = some st)
    (hv : s.isLowVolume = false) :
    l.preparePrimaryStats[i]? =
      some { normalizedService := st.service.position st.weight l.serviceClock } := by
  obtain ⟨hlt, heq, -⟩ := idxOf?_eq_some_iff.mp hi
  rw [preparePrimaryStats, getElem?_map, getElem?_eq_getElem hlt, heq, map_some, hs]
  simp only [hv, Bool.false_eq_true, if_false]

theorem candidateServiceMetrics_ok {c : FairCandidate} {metrics : SelectionMetrics}
    (h : l.candidateServiceMetrics c l.preparePrimaryStats = .ok metrics) :
    ∃ st, l.Measures c st metrics := by
  unfold candidateServiceMetrics at h
  simp only [FairScope.parent_getD] at h
  cases hi : l.primaries.idxOf? c.scope.primaryScope with
  | none => simp [hi] at h
  | some i =>
    cases hs : l.scopes[c.scope.primaryScope]? with
    | none => simp [hi, hs] at h
    | some st =>
      cases hps : l.preparePrimaryStats[i]? with
      | none => simp [hi, hs, hps] at h
      | some ps =>
        cases hc : l.scopes[c.scope]? with
        | none => simp [hi, hs, hps, hc] at h
        | some child =>
          simp only [hi, hs, hps, hc] at h
          cases h
          refine ⟨st, hs, hi, fun hv => ?_, rfl⟩
          rw [← FairScope.isLowVolume_primaryScope] at hv
          cases (preparePrimaryStats_get hi hs hv).symm.trans hps
          rfl

/-- The preparations of a pass measure the primary of their candidate. -/
theorem prepareSelectionPass_measures
    (h : prepared ∈ (l.prepareSelectionPass now eligible).candidates)
    (hp : prepared.preparation = .ok prep) :
    ∃ c g st, l.validateCandidate prepared.jobId = .ok (c, g) ∧ prep.facts = c.facts ∧
      l.Measures c st prep.metrics := by
  obtain ⟨c, g, metrics, hv, hfacts, hm, hi, hs, ha⟩ := prepareSelectionPass_ok h hp
  obtain ⟨st, hmeasures⟩ := candidateServiceMetrics_ok hm
  refine ⟨c, g, st, hv, hfacts, hmeasures.get, ?_, ?_, ?_⟩
  · rw [hi]; exact hmeasures.index
  · rw [hs]; exact hmeasures.primaryService
  · rw [ha]; exact hmeasures.admissionService

/-- A selection charges the candidate that it measured. -/
theorem Chosen.measures (h : l₀.Chosen (l.prepareSelectionPass now eligible) record g prepared prep)
    (hreset : l.UpToReset l₀) : ∃ st, l.Measures record.candidate st prep.metrics := by
  obtain ⟨c, g', st, hv, -, hm⟩ := prepareSelectionPass_measures h.mem h.admissible.prepared
  rw [← hreset.validateCandidate] at hv
  obtain ⟨record', hval, rfl⟩ := validateCandidate_ok hv
  cases h.validated.get.symm.trans hval.get
  exact ⟨st, hm⟩

end FairnessLedger

end AuxCommon
