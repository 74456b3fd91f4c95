import AuxCommon.Fairness.AllOrNothing

/-!
# Work outside the eligible set

`select_next_due_in` walks every candidate of the ledger, also those that it may not select. What
it returns is nevertheless a function of the rest of the ledger and of the eligible candidates
alone: it is what the same call returns on the ledger that has only those (`restrict`). The
candidates outside the set are left alone, except that a call that starts a new priority window
starts it for all of them.
-/

namespace AuxCommon

open Std List

/-- A pass without its entries outside a set. -/
def SelectionPass.restrict (pass : SelectionPass) (eligible : Finset JobId) : SelectionPass :=
  { pass with candidates := pass.candidates.filter (·.jobId ∈ eligible) }

namespace FairnessLedger

variable {l l' : FairnessLedger} {eligible : Finset JobId} {now : Option Timestamp}
  {pass : SelectionPass} {record : CandidateRecord} {prepared : PreparedCandidate} {j : JobId}
  {stats : List PrimaryStats}

/-- The ledger without the candidates outside a set. -/
def restrict (l : FairnessLedger) (eligible : Finset JobId) : FairnessLedger :=
  { l with candidates := l.candidates.filter fun j _ => j ∈ eligible }

/-- Two ledgers that differ at most in the records of the candidates outside a set. -/
structure AgreeOn (eligible : Finset JobId) (l l' : FairnessLedger) : Prop where
  budget : l'.budget = l.budget
  scopes : l'.scopes = l.scopes
  orders : l'.orders = l.orders
  priority : l'.priority = l.priority
  serviceClock : l'.serviceClock = l.serviceClock
  candidates : ∀ j ∈ eligible, l'.candidates[j]? = l.candidates[j]?

theorem restrict_get_of_mem (h : j ∈ eligible) :
    (l.restrict eligible).candidates[j]? = l.candidates[j]? := by
  rw [restrict, OrdMap.get_filter]
  cases l.candidates[j]? with
  | none => rfl
  | some r => simp [h]

theorem restrict_get_of_notMem (h : j ∉ eligible) :
    (l.restrict eligible).candidates[j]? = none := by
  rw [restrict, OrdMap.get_filter]
  cases l.candidates[j]? with
  | none => rfl
  | some r => simp [h]

theorem AgreeOn.restrict_eq (h : AgreeOn eligible l l') :
    l'.restrict eligible = l.restrict eligible := by
  have hcandidates : (l'.restrict eligible).candidates = (l.restrict eligible).candidates := by
    refine ExtTreeMap.ext_getElem? fun j => ?_
    by_cases hj : j ∈ eligible
    · rw [restrict_get_of_mem hj, restrict_get_of_mem hj, h.candidates j hj]
    · rw [restrict_get_of_notMem hj, restrict_get_of_notMem hj]
  obtain ⟨b, s, c, o, p, k⟩ := l
  obtain ⟨b', s', c', o', p', k'⟩ := l'
  obtain ⟨rfl, rfl, rfl, rfl, rfl, -⟩ := h
  exact congrArg (FairnessLedger.mk _ _ · _ _ _) hcandidates

theorem restrict_resetPriorityWindow :
    l.resetPriorityWindow.restrict eligible = (l.restrict eligible).resetPriorityWindow := by
  refine congrArg (FairnessLedger.mk _ _ · _ _ _) (ExtTreeMap.ext_getElem? fun j => ?_)
  by_cases hj : j ∈ eligible
  · change (l.resetPriorityWindow.restrict eligible).candidates[j]? =
      (l.restrict eligible).resetPriorityWindow.candidates[j]?
    rw [resetPriorityWindow_get, restrict_get_of_mem hj, restrict_get_of_mem hj,
      resetPriorityWindow_get]
  · change (l.resetPriorityWindow.restrict eligible).candidates[j]? =
      (l.restrict eligible).resetPriorityWindow.candidates[j]?
    rw [resetPriorityWindow_get, restrict_get_of_notMem hj, restrict_get_of_notMem hj]
    rfl

/-! ## The pass -/

theorem validateCandidate_restrict (h : j ∈ eligible) :
    (l.restrict eligible).validateCandidate j = l.validateCandidate j := by
  unfold validateCandidate
  rw [restrict_get_of_mem h]
  rfl

theorem prepareCandidate_restrict (h : j ∈ eligible) :
    (l.restrict eligible).prepareCandidate j = l.prepareCandidate j := by
  unfold prepareCandidate
  rw [validateCandidate_restrict h]

theorem prepareCandidateForPass_restrict (h : j ∈ eligible) :
    (l.restrict eligible).prepareCandidateForPass j stats = l.prepareCandidateForPass j stats := by
  unfold prepareCandidateForPass
  rw [validateCandidate_restrict h]
  rfl

theorem prepareCandidateEntry_restrict :
    (l.restrict eligible).prepareCandidateEntry now (some eligible) record stats =
      l.prepareCandidateEntry now (some eligible) record stats := by
  unfold prepareCandidateEntry
  dsimp only
  by_cases h : record.candidate.jobId ∈ eligible
  · rw [prepareCandidateForPass_restrict h]
    rfl
  · simp only [Option.all_some, h, decide_false, Bool.false_eq_true, if_false]
    rfl

theorem prepareCandidates_restrict (records : List CandidateRecord) :
    (l.restrict eligible).prepareCandidates now (some eligible) records stats =
      l.prepareCandidates now (some eligible) records stats := by
  induction records generalizing stats with
  | nil => rfl
  | cons record records ih =>
    rw [prepareCandidates, prepareCandidates, prepareCandidateEntry_restrict]
    dsimp only
    rw [ih]

/-- A record outside the set is not counted, and its entry is not ready. -/
theorem prepareCandidateEntry_of_notMem (h : record.candidate.jobId ∉ eligible) :
    (l.prepareCandidateEntry now (some eligible) record stats).2 = stats := by
  unfold prepareCandidateEntry
  simp only [Option.all_some, h, decide_false, Bool.false_and, Bool.false_eq_true, if_false,
    recordReadyCandidate, markEligibleCandidate]

/-- Leaving out the records outside the set leaves out their entries, and nothing else. -/
theorem prepareCandidates_filter (records : List CandidateRecord) :
    l.prepareCandidates now (some eligible) (records.filter (·.candidate.jobId ∈ eligible)) stats =
      ((l.prepareCandidates now (some eligible) records stats).1.filter (·.jobId ∈ eligible),
        (l.prepareCandidates now (some eligible) records stats).2) := by
  induction records generalizing stats with
  | nil => rfl
  | cons record records ih =>
    have hentry : (l.prepareCandidateEntry now (some eligible) record stats).1.jobId =
        record.candidate.jobId := rfl
    by_cases h : record.candidate.jobId ∈ eligible
    · rw [filter_cons_of_pos (by simpa using h), prepareCandidates, prepareCandidates]
      dsimp only
      rw [ih, filter_cons_of_pos (by simpa [hentry] using h)]
    · rw [filter_cons_of_neg (by simpa using h), prepareCandidates, ih]
      dsimp only
      rw [filter_cons_of_neg (by simpa [hentry] using h), prepareCandidateEntry_of_notMem h]

theorem restrict_values (hk : l.Keyed) : (l.restrict eligible).candidates.values =
      l.candidates.values.filter (·.candidate.jobId ∈ eligible) := by
  rw [OrdMap.values_eq, OrdMap.values_eq, restrict, ExtTreeMap.toList_filter, filter_map]
  refine congrArg _ (filter_congr fun e he => ?_)
  rw [Function.comp_apply, hk e.1 e.2 (OrdMap.mem_toList.mp he)]

theorem prepareSelectionPass_restrict (hk : l.Keyed) :
    (l.restrict eligible).prepareSelectionPass now (some eligible) =
      (l.prepareSelectionPass now (some eligible)).restrict eligible := by
  have hstats : (l.restrict eligible).preparePrimaryStats = l.preparePrimaryStats := rfl
  unfold prepareSelectionPass
  rw [prepareCandidates_restrict, restrict_values hk, prepareCandidates_filter, hstats,
    SelectionPass.restrict]
  rw [filter_map]
  refine congrArg (SelectionPass.mk · _) (congrArg _ (filter_congr fun prepared _ => ?_))
  rw [Function.comp_apply, (attachCandidateCounts_frame _ _).1]

/-- The ready entries of a pass are in its set. -/
theorem mem_of_ready (h : prepared ∈ (l.prepareSelectionPass now (some eligible)).candidates)
    (hready : prepared.ready = true) : prepared.jobId ∈ eligible := by
  obtain ⟨record, -, stats, rfl⟩ := mem_prepareSelectionPass h
  rw [(attachCandidateCounts_frame _ _).1]
  rw [(attachCandidateCounts_frame _ _).2.1] at hready
  have hin := (Bool.and_eq_true_iff.mp hready).1
  exact of_decide_eq_true hin

/-! ## The loop

The loop reads a pass through its ready entries alone, so it decides the same on a pass whose
other entries were left out. -/

section Loop

variable {bulkReady : Bool}

/-- Every ready entry of the pass is in the set. -/
def Confined (eligible : Finset JobId) (pass : SelectionPass) : Prop :=
  ∀ prepared ∈ pass.candidates, prepared.ready = true → prepared.jobId ∈ eligible

/-- A test that only ready entries pass finds the same in the restricted pass. -/
theorem Confined.any_restrict (h : Confined eligible pass) {test : PreparedCandidate → Bool}
    (htest : ∀ prepared, test prepared = true → prepared.ready = true) :
    (pass.restrict eligible).candidates.any test = pass.candidates.any test := by
  rw [SelectionPass.restrict, Bool.eq_iff_iff, any_eq_true, any_eq_true]
  constructor
  · rintro ⟨prepared, hmem, ht⟩
    exact ⟨prepared, (mem_filter.mp hmem).1, ht⟩
  · rintro ⟨prepared, hmem, ht⟩
    have hin := h prepared hmem (htest prepared ht)
    exact ⟨prepared, mem_filter.mpr ⟨hmem, decide_eq_true hin⟩, ht⟩

theorem Confined.hasAdmissibleBulk_restrict (h : Confined eligible pass) :
    (l.restrict eligible).hasAdmissibleBulk (pass.restrict eligible) = l.hasAdmissibleBulk pass := by
  refine h.any_restrict fun prepared ht => ?_
  simp only [Bool.and_eq_true] at ht
  exact ht.1.1

theorem Confined.laneActive_restrict (h : Confined eligible pass) (lane : Priority) :
    (l.restrict eligible).laneActive (pass.restrict eligible) lane = l.laneActive pass lane := by
  refine h.any_restrict fun prepared ht => ?_
  simp only [passesAllButPriority, Bool.and_eq_true] at ht
  exact ht.1.1.1

theorem searchStep_of_not_ready (h : prepared.ready = false) (search : DueCandidateSearch) :
    l.searchStep pass bulkReady search prepared = search := by
  rw [searchStep, h]
  rfl

theorem Confined.findDueCandidate_restrict (h : Confined eligible pass) :
    (l.restrict eligible).findDueCandidate (pass.restrict eligible) bulkReady =
      l.findDueCandidate pass bulkReady := by
  unfold findDueCandidate SelectionPass.restrict
  rw [foldl_filter]
  refine foldl_ext _ _ _ fun search prepared hmem => ?_
  by_cases hin : prepared.jobId ∈ eligible
  · rw [if_pos (decide_eq_true hin)]
    rfl
  · have hready : prepared.ready = false :=
      Bool.eq_false_iff.mpr fun hready => hin (h prepared hmem hready)
    rw [if_neg (by simpa using hin), searchStep_of_not_ready hready]

theorem Confined.resetExhaustedPriorityWindow_restrict (h : Confined eligible pass) :
    (l.restrict eligible).resetExhaustedPriorityWindow (pass.restrict eligible) =
      ((l.resetExhaustedPriorityWindow pass).1,
        (l.resetExhaustedPriorityWindow pass).2.restrict eligible) := by
  have hpriority : (l.restrict eligible).priority = l.priority := rfl
  unfold resetExhaustedPriorityWindow
  simp only [h.laneActive_restrict, hpriority, ← restrict_resetPriorityWindow]
  split
  · split <;> rfl
  · rfl

/-- The loop returns the same on the restricted ledger. -/
theorem Confined.selectLoop_restrict (h : Confined eligible pass) (fuel : Nat) :
    (selectLoop (pass.restrict eligible) fuel (l.restrict eligible)).map Prod.fst =
      (selectLoop pass fuel l).map Prod.fst := by
  induction fuel generalizing l with
  | zero => rfl
  | succ fuel ih =>
    rw [selectLoop, selectLoop]
    rw [h.hasAdmissibleBulk_restrict, h.findDueCandidate_restrict]
    cases hbest : (l.findDueCandidate pass (l.hasAdmissibleBulk pass)).best with
    | some best =>
      obtain ⟨jobId, preparation, score⟩ := best
      obtain ⟨prepared, hmem, hadm, hjob⟩ := findDueCandidate_some hbest
      -- the job that is settled is a ready entry, so its record is in both ledgers
      dsimp only at hjob ⊢
      have hin : jobId ∈ eligible := hjob ▸ h prepared hmem hadm.ready
      rw [prepareCandidate_restrict hin]
      cases l.prepareCandidate jobId with
      | error reason => rfl
      | ok selection => rfl
    | none =>
      rw [h.resetExhaustedPriorityWindow_restrict]
      dsimp only
      split
      · exact ih
      · rfl

end Loop

/-- `select_next_due_in` returns what it returns without the candidates outside the set. -/
theorem selectNextDueIn_restrict (hk : l.Keyed) (now : Timestamp) :
    ((l.restrict eligible).selectNextDueIn now eligible).1 = (l.selectNextDueIn now eligible).1 := by
  have hconfined : Confined eligible (l.prepareSelectionPass (some now) (some eligible)) :=
    fun prepared hmem => mem_of_ready hmem
  unfold selectNextDueIn
  rw [prepareSelectionPass_restrict hk, ← Option.getD_map Prod.fst, ← Option.getD_map Prod.fst,
    hconfined.selectLoop_restrict]

/-! ## The candidates outside the set -/

/-- A selection changes the record of the job that it settles and of no other. -/
theorem Chosen.settle_get {l₀ : FairnessLedger} {g : FairPermitGeneration}
    {prep : CandidatePreparation} (hk : l₀.Keyed)
    (h : l₀.Chosen (l.prepareSelectionPass now (some eligible)) record g prepared prep)
    (hj : j ∉ eligible) :
    (l₀.settleSelection (record.selection g) prep pass).2.candidates[j]? = l₀.candidates[j]? := by
  have hin := mem_of_ready h.mem h.admissible.ready
  rw [← hk _ _ h.validated.get] at hin
  rw [settleSelection_candidates]
  exact get_modify_of_ne (fun heq => hj (heq ▸ hin))

/-- Ledgers that agree on everything but the candidates outside the eligible set select the same.
The candidates outside the set are left alone, unless the priority windows are due for a reset:
then the count of their service transitions may start again as well. -/
theorem ineligible_work_does_not_influence_selection (hk : l.Keyed) (hk' : l'.Keyed)
    (h : AgreeOn eligible l l') (now : Timestamp) :
    (l'.selectNextDueIn now eligible).1 = (l.selectNextDueIn now eligible).1 ∧
      ((∀ j ∉ eligible, (l.selectNextDueIn now eligible).2.candidates[j]? = l.candidates[j]?) ∨
        l.ResetDue (l.prepareSelectionPass (some now) (some eligible)) ∧
          ∀ j ∉ eligible, (l.selectNextDueIn now eligible).2.candidates[j]? =
            l.candidates[j]?.map fun record => { record with serviceTransitions := 0 }) := by
  constructor
  · rw [← selectNextDueIn_restrict hk', ← selectNextDueIn_restrict hk, h.restrict_eq]
  · by_cases hdue : l.ResetDue (l.prepareSelectionPass (some now) (some eligible))
    · obtain ⟨l₀, hreset, hres⟩ := l.selectNextDueIn_cases now eligible
      have hsame : ∀ j ∉ eligible,
          (l.selectNextDueIn now eligible).2.candidates[j]? = l₀.candidates[j]? := by
        intro j hj
        rcases hres with ⟨-, hl⟩ | ⟨record, g, prepared, prep, hchosen, heq⟩
        · rw [hl]
        · rw [heq]
          exact hchosen.settle_get (hk.upToReset hreset) hj
      rcases hreset with rfl | rfl
      · exact .inl hsame
      · refine .inr ⟨hdue, fun j hj => ?_⟩
        rw [hsame j hj, resetPriorityWindow_get]
    · refine .inl fun j hj => ?_
      rcases selectLoop_not_due hdue 1 with ⟨r, -, heq⟩ | ⟨record, g, prepared, prep, hchosen, heq⟩
      · rw [selectNextDueIn, heq]
        rfl
      · rw [selectNextDueIn, heq]
        exact hchosen.settle_get hk hj

theorem Keyed.foldl (hk : l.Keyed) (ops : List LedgerOp) : (ops.foldl apply l).Keyed := by
  induction ops generalizing l with
  | nil => exact hk
  | cons op ops ih => exact ih ((apply_effect op).keyed hk)

/-- A job that may be selected, and one outside the set with `units` of service. -/
def outsideOps (units : U64) : List LedgerOp :=
  [.add (.plain 1 7), .add (.plain 3 9), .recordService (.repeated 3) units]

theorem ineligible_work_does_not_influence_selection_sample :
    let l := (outsideOps 0).foldl apply (.new .tiny)
    let l' := (outsideOps 5).foldl apply (.new .tiny)
    l' ≠ l ∧ (l'.selectNextDueIn ⟨8⟩ {.repeated 1}).1 = (l.selectNextDueIn ⟨8⟩ {.repeated 1}).1 := by
  have hnew := (WellFormed.new .tiny).keyed
  have hagree : AgreeOn {.repeated 1} ((outsideOps 0).foldl apply (.new .tiny))
      ((outsideOps 5).foldl apply (.new .tiny)) := by
    constructor <;> decide +kernel
  exact ⟨by decide +kernel, (ineligible_work_does_not_influence_selection (hnew.foldl _)
    (hnew.foldl _) hagree ⟨8⟩).1⟩

/-- The selection of a first bulk job uses up the bulk window; a job outside has been served. -/
def newWindowOps : List LedgerOp :=
  [.add { FairCandidateInput.plain 1 7 with priority := .bulk },
    .add { FairCandidateInput.plain 2 8 with priority := .bulk }, .add (.plain 3 9),
    .recordService (.repeated 3) 5, .select ⟨8⟩ {.repeated 1}]

/-- The selection of the second bulk job starts a new window, and with it the count of the service
transitions of the job outside the set. -/
theorem new_window_clears_outside_candidate :
    let l := newWindowOps.foldl apply (.new .tiny)
    let served (l : FairnessLedger) : Option U64 :=
      l.candidates[(.repeated 3 : JobId)]?.map CandidateRecord.serviceTransitions
    RunFrom (fun _ _ => True) (.new .tiny) l ∧ served l = some 5 ∧
      served (l.selectNextDueIn ⟨8⟩ {.repeated 2}).2 = some 0 :=
  ⟨.ofList (by decide +kernel), by decide +kernel, by decide +kernel⟩

end FairnessLedger

end AuxCommon
