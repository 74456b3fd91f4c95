import AuxCommon.Lib.System
import AuxCommon.Fairness.SelectionEffects

/-!
# Runs of the ledger

The operations of the ledger as the labels of a system: `FairnessLedger.apply` is one call, and
a run is any finite sequence of calls. A call that fails leaves the ledger as the code leaves
it. Claims about every run are proved from one lemma per operation.
-/

namespace AuxCommon

open Option OrdMap

/-- One call of a ledger operation. -/
inductive LedgerOp
  | add (input : FairCandidateInput)
  | upsert (input : FairCandidateInput)
  | select (now : Timestamp) (eligible : Finset JobId)
  | release (permit : FairPermit) (outcome : FairRelease)
  | defer (jobId : JobId) (scheduledAt : Timestamp)
  | remove (jobId : JobId)
  | reconcile (jobId : JobId) (scheduledAt : Timestamp)
  | setWeight (scope : FairScope) (weight : NonZero 16)
  | recordService (jobId : JobId) (units : U64)
  | compact (jobId : JobId)
  | compactScopes
  deriving DecidableEq

/-- The candidate that a call registers. -/
def LedgerOp.registers : LedgerOp → Option FairCandidateInput
  | .add input | .upsert input => some input
  | _ => none

namespace FairnessLedger

/-- The ledger after one call. -/
def apply (l : FairnessLedger) : LedgerOp → FairnessLedger
  | .add input => (l.addCandidate input).2
  | .upsert input => (l.upsertCandidate input).2
  | .select now eligible => (l.selectNextDueIn now eligible).2
  | .release permit outcome => (l.release permit outcome).2
  | .defer jobId scheduledAt => l.deferCandidate jobId scheduledAt
  | .remove jobId => l.removeCandidate jobId
  | .reconcile jobId scheduledAt => (l.reconcileLeased jobId scheduledAt).2
  | .setWeight scope weight => (l.setScopeWeight scope weight).2
  | .recordService jobId units => (l.recordServiceUnits jobId units).2
  | .compact jobId => (l.compactCandidate jobId).2
  | .compactScopes => l.compactEmptyScopes

/-- The step relation of the ledger. -/
def Step (l : FairnessLedger) (op : LedgerOp) (l' : FairnessLedger) : Prop := l' = l.apply op

/-- The runs of the ledger whose calls all meet `ok` in the state before them. -/
abbrev RunFrom (ok : FairnessLedger → LedgerOp → Prop) : FairnessLedger → FairnessLedger → Prop :=
  Run Step ok

/-- The permit of the current lease of a job. -/
def currentPermit (l : FairnessLedger) (j : JobId) : Option FairPermit :=
  l.candidates[j]?.bind fun record =>
    if record.state = .leased then some (permitForLeasedRecord j record) else none

variable {l l' : FairnessLedger} {j : JobId} {op : LedgerOp} {g : CandidateRecord → CandidateRecord}
  {old : Option CandidateRoute} {refresh : IndexRefresh} {r : CandidateRecord}

theorem currentPermit_eq_some {p : FairPermit} : l.currentPermit j = some p ↔
      ∃ record, l.candidates[j]? = some record ∧ record.state = .leased ∧
        p = permitForLeasedRecord j record := by
  simp only [currentPermit, bind_eq_some_iff]
  constructor
  · rintro ⟨record, hr, h⟩
    split at h
    · rename_i hl; exact ⟨record, hr, hl, (some.inj h).symm⟩
    · cases h
  · rintro ⟨record, hr, hl, rfl⟩
    exact ⟨record, hr, if_pos hl⟩

/-- Everything that one call can do to the ledger: each branch of each operation, with the
checks that lead to it. -/
inductive Effect (l : FairnessLedger) : LedgerOp → FairnessLedger → Prop
  | unchanged {op : LedgerOp} : Effect l op l
  | added {input : FairCandidateInput} {c : FairCandidate}
      (valid : FairCandidate.tryFrom input = .ok c) (puts : l.Puts (.scheduled c))
      (fresh : l.candidates[c.jobId]? = none) :
      Effect l (.add input) (l.putCandidate (.scheduled c) none .advanceOrder)
  | upserted {input : FairCandidateInput} {c : FairCandidate} {state : FairCandidateState}
      (valid : FairCandidate.tryFrom input = .ok c) (puts : l.Puts (l.upserted c state))
      (next : upsertState (l.candidateState c.jobId) = .ok state) :
      Effect l (.upsert input)
        (l.putCandidate (l.upserted c state) (l.route c.jobId) .preserveOrder)
  | refused {now : Timestamp} {eligible : Finset JobId} {l₀ : FairnessLedger}
      (reset : l.UpToReset l₀) : Effect l (.select now eligible) l₀
  | selected {now : Timestamp} {eligible : Finset JobId} {l₀ : FairnessLedger}
      {record : CandidateRecord} {g : FairPermitGeneration} {prepared : PreparedCandidate}
      {prep : CandidatePreparation} (reset : l.UpToReset l₀)
      (chosen : l₀.Chosen (l.prepareSelectionPass (some now) (some eligible)) record g prepared
        prep) :
      Effect l (.select now eligible)
        (l₀.settleSelection (record.selection g) prep
          (l.prepareSelectionPass (some now) (some eligible))).2
  | released {p : FairPermit} {outcome : FairRelease} {record : CandidateRecord}
      (get : l.candidates[p.jobId]? = some record) (leased : record.state = .leased)
      (generation : record.acquisitionGeneration = some p.acquisitionGeneration) :
      Effect l (.release p outcome) (l.applySettlement p outcome)
  | deferred {j : JobId} {t : Timestamp} {record : CandidateRecord}
      (get : l.candidates[j]? = some record) :
      Effect l (.defer j t) (l.updateRecord j (l.route j) (·.deferred t))
  | settled {j : JobId} {record : CandidateRecord}
      (get : l.candidates[j]? = some record) (leased : record.state = .leased) :
      Effect l (.remove j)
        ((l.applySettlement (permitForLeasedRecord j record)
          .complete).restoreReconciledLowVolumeService (permitForLeasedRecord j record))
  | removed {j : JobId} {record : CandidateRecord}
      (get : l.candidates[j]? = some record) (idle : record.state ≠ .leased) :
      Effect l (.remove j)
        (l.updateRecord j (l.route j) fun record => { record with state := .absent })
  | reconciled {j : JobId} {t : Timestamp} {record : CandidateRecord}
      (get : l.candidates[j]? = some record) (leased : record.state = .leased) :
      Effect l (.reconcile j t)
        (((l.releaseCapacity (permitForLeasedRecord j record)
          .restoreRate).restoreReconciledLowVolumeService
            (permitForLeasedRecord j record)).updateRecord j
              (some (.fromRecord record)) (·.reconciled t))
  | weighted {s : FairScope} {w : NonZero 16} :
      Effect l (.setWeight s w) (l.setScopeWeight s w).2
  | served {j : JobId} {u : U64} :
      Effect l (.recordService j u) (l.modifyCandidate j fun record =>
        { record with serviceTransitions := record.serviceTransitions.satAdd u })
  | compacted {j : JobId} {record : CandidateRecord}
      (get : l.candidates[j]? = some record) (compactable : record.state.isCompactable = true) :
      Effect l (.compact j) (l.dropCandidate j record)
  | compactedScopes : Effect l .compactScopes l.compactEmptyScopes

/-- The inversion of a call: every invariant of the runs is proved by cases on this. -/
theorem apply_effect (op : LedgerOp) : l.Effect op (l.apply op) := by
  cases op with
  | add input =>
    rcases addCandidate_cases l input with ⟨e, h⟩ | ⟨c, hc, hp, hn, h⟩ <;> rw [apply, h]
    · exact .unchanged
    · exact .added hc hp hn
  | upsert input =>
    rcases upsertCandidate_cases l input with ⟨e, h⟩ | ⟨c, st, hc, hp, hn, h⟩ <;> rw [apply, h]
    · exact .unchanged
    · exact .upserted hc hp hn
  | select now eligible =>
    obtain ⟨l₀, hl₀, ⟨-, h⟩ | ⟨r, g, prepared, prep, hch, h⟩⟩ :=
      selectNextDueIn_cases l now eligible <;> rw [apply, h]
    · exact .refused hl₀
    · exact .selected hl₀ hch
  | release p outcome =>
    rcases release_cases (l := l) (p := p) (r := outcome) with ⟨-, h⟩ | ⟨r, hr, hl, hg, h⟩ <;>
      rw [apply, h]
    · exact .unchanged
    · exact .released hr hl hg
  | defer j t =>
    rcases deferCandidate_cases (l := l) (j := j) (t := t) with h | ⟨r, hr, h⟩ <;> rw [apply, h]
    · exact .unchanged
    · exact .deferred hr
  | remove j =>
    rcases removeCandidate_cases (l := l) (j := j) with ⟨-, h⟩ | ⟨r, hr, hl, h⟩ | ⟨r, hr, hl, h⟩ <;>
      rw [apply, h]
    · exact .unchanged
    · exact .settled hr hl
    · exact .removed hr hl
  | reconcile j t =>
    rcases reconcileLeased_cases (l := l) (j := j) (t := t) with h | ⟨r, hr, hl, h⟩ <;>
      rw [apply, h]
    · exact .unchanged
    · exact .reconciled hr hl
  | setWeight s w => exact .weighted
  | recordService j u => rw [apply, recordServiceUnits_eq]; exact .served
  | compact j =>
    rcases compactCandidate_cases (l := l) (j := j) with h | ⟨r, hr, hc, h⟩ <;> rw [apply, h]
    · exact .unchanged
    · exact .compacted hr hc
  | compactScopes => exact .compactedScopes

theorem Step.effect (h : l.Step op l') : l.Effect op l' := by
  rw [Step] at h
  exact h ▸ apply_effect op

theorem UpToReset.budget (h : l.UpToReset l') : l'.budget = l.budget := by
  rcases h with rfl | rfl <;> rfl

/-- No operation changes the budget. -/
theorem Effect.budget (h : l.Effect op l') : l'.budget = l.budget := by
  cases h with
  | unchanged => rfl
  | added => exact putCandidate_frame.1
  | upserted => exact putCandidate_frame.1
  | refused hreset => exact hreset.budget
  | selected hreset => exact settleSelection_frame.2.1.trans hreset.budget
  | released => exact applySettlement_frame.1
  | deferred => exact updateRecord_budget
  | settled => exact restoreReconciledLowVolumeService_frame.1.trans applySettlement_frame.1
  | removed => exact updateRecord_budget
  | reconciled =>
    exact updateRecord_budget.trans
      (restoreReconciledLowVolumeService_frame.1.trans releaseCapacity_frame.1)
  | weighted => exact setScopeWeight_frame.1
  | served => rfl
  | compacted => exact dropCandidate_frame.1
  | compactedScopes => rfl

/-- Only selections move the priority windows and the service clock. -/
theorem Effect.clocks (h : l.Effect op l') (hop : ∀ now eligible, op ≠ .select now eligible) :
    l'.priority = l.priority ∧ l'.serviceClock = l.serviceClock := by
  cases h with
  | unchanged => exact ⟨rfl, rfl⟩
  | added => exact putCandidate_frame.2
  | upserted => exact putCandidate_frame.2
  | refused => exact absurd rfl (hop _ _)
  | selected => exact absurd rfl (hop _ _)
  | released => exact applySettlement_frame.2
  | deferred => exact ⟨updateRecord_priority, updateRecord_serviceClock⟩
  | settled =>
    obtain ⟨-, -, -, hp, hc⟩ := restoreReconciledLowVolumeService_frame
    exact ⟨hp.trans applySettlement_frame.2.1, hc.trans applySettlement_frame.2.2⟩
  | removed => exact ⟨updateRecord_priority, updateRecord_serviceClock⟩
  | reconciled =>
    obtain ⟨-, -, -, hp, hc⟩ := restoreReconciledLowVolumeService_frame
    obtain ⟨-, -, hp', hc'⟩ := releaseCapacity_frame
    exact ⟨updateRecord_priority.trans (hp.trans hp'),
      updateRecord_serviceClock.trans (hc.trans hc')⟩
  | weighted => exact setScopeWeight_frame.2.2.2
  | served => exact ⟨rfl, rfl⟩
  | compacted => exact dropCandidate_frame.2.2
  | compactedScopes => exact ⟨rfl, rfl⟩

/-! ## The record of one job -/

/-- What one call can do to the record of the job `j`. -/
inductive RecordChange (j : JobId) :
    LedgerOp → Option CandidateRecord → Option CandidateRecord → Prop
  | kept {op : LedgerOp} {o : Option CandidateRecord} : RecordChange j op o o
  | counted {op : LedgerOp} {r : CandidateRecord} (n : U64) :
      RecordChange j op (some r) (some { r with serviceTransitions := n })
  | put {op : LedgerOp} {o : Option CandidateRecord} {r : CandidateRecord}
      {input : FairCandidateInput} (registers : op.registers = some input)
      (valid : FairCandidate.tryFrom input = .ok r.candidate)
      (job : r.candidate.jobId = j) (ready : r.state.hasReadyRoute = true)
      (idle : ∀ r₀, o = some r₀ → r₀.state ≠ .leased)
      (generation : r.acquisitionGeneration = o.bind (·.acquisitionGeneration)) :
      RecordChange j op o (some r)
  | leased {now : Timestamp} {eligible : Finset JobId} {r : CandidateRecord}
      {g : FairPermitGeneration} (ready : r.state.hasReadyRoute = true)
      (generation : nextPermitGeneration r.acquisitionGeneration = .ok g) (n : U64) :
      RecordChange j (.select now eligible) (some r)
        (some { r.leased g with serviceTransitions := n })
  | released {p : FairPermit} {outcome : FairRelease} {r : CandidateRecord} (job : p.jobId = j)
      (leased : r.state = .leased)
      (generation : r.acquisitionGeneration = some p.acquisitionGeneration) :
      RecordChange j (.release p outcome) (some r) (some { r with state := outcome.state })
  | deferred {t : Timestamp} {r : CandidateRecord} :
      RecordChange j (.defer j t) (some r) (some (r.deferred t))
  | removed {r : CandidateRecord} :
      RecordChange j (.remove j) (some r) (some { r with state := .absent })
  | reconciled {t : Timestamp} {r : CandidateRecord} (leased : r.state = .leased) :
      RecordChange j (.reconcile j t) (some r) (some (r.reconciled t))
  | compacted {r : CandidateRecord} (compactable : r.state.isCompactable = true) :
      RecordChange j (.compact j) (some r) none

/-- Every record sits under its own job id. -/
def Keyed (l : FairnessLedger) : Prop :=
  ∀ (j : JobId) r, l.candidates[j]? = some r → r.candidate.jobId = j

theorem get_modify_self
    (h : l.candidates[j]? = some r) : (l.candidates.modify j g)[j]? = some (g r) := by
  rw [get_modify, h]; simp

theorem get_modify_of_ne {j' : JobId} (h : j' ≠ j) :
    (l.candidates.modify j g)[j']? = l.candidates[j']? := by
  rw [get_modify]; simp [h]

theorem UpToReset.get (h : l.UpToReset l') (hr : l'.candidates[j]? = some r) :
    ∃ n, l.candidates[j]? = some { r with serviceTransitions := n } := by
  rcases h with rfl | rfl
  · exact ⟨_, hr⟩
  · rw [resetPriorityWindow_get] at hr
    obtain ⟨r₀, hr₀, rfl⟩ := map_eq_some_iff.mp hr
    exact ⟨_, hr₀⟩

theorem UpToReset.recordChange (h : l.UpToReset l') :
    RecordChange j op l.candidates[j]? l'.candidates[j]? := by
  rcases h with rfl | rfl
  · exact .kept
  · rw [resetPriorityWindow_get]
    cases l.candidates[j]? with
    | none => exact .kept
    | some r => exact .counted 0

theorem Keyed.upToReset (hk : l.Keyed) (h : l.UpToReset l') : l'.Keyed := by
  intro j r hr
  obtain ⟨n, hn⟩ := h.get hr
  have := hk j _ hn
  exact this

/-- A record that a call rewrites in place. -/
theorem recordChange_modify {j' : JobId}
    (hj : ∀ r, l.candidates[j]? = some r → RecordChange j op (some r) (some (g r))) :
    RecordChange j' op l.candidates[j']? (l.candidates.modify j g)[j']? := by
  by_cases h : j' = j
  · subst h
    cases hr : l.candidates[j']? with
    | none => rw [get_modify, hr]; exact .kept
    | some r => rw [get_modify_self hr]; exact hj r hr
  · rw [get_modify_of_ne h]; exact .kept

theorem recordChange_put {record : CandidateRecord}
    {input : FairCandidateInput} (hop : op.registers = some input)
    (hc : FairCandidate.tryFrom input = .ok record.candidate) (hp : l.Puts record) :
    RecordChange j op l.candidates[j]? (l.putCandidate record old refresh).candidates[j]? := by
  rw [putCandidate_candidates, get_insert]
  split
  · rename_i h
    subst h
    exact .put hop hc rfl hp.ready (fun r hr => hp.not_leased hr) hp.generation
  · exact .kept

/-- The record of every job changes in one of the ways of `RecordChange`. -/
theorem Effect.record (h : l.Effect op l') (hk : l.Keyed) (j : JobId) :
    RecordChange j op l.candidates[j]? l'.candidates[j]? := by
  cases h with
  | unchanged => exact .kept
  | added valid puts => exact recordChange_put rfl valid puts
  | upserted valid puts => exact recordChange_put rfl valid puts
  | refused reset => exact reset.recordChange
  | @selected _ _ l₀ record g prepared prep reset chosen =>
    have hjob := hk.upToReset reset _ _ chosen.validated.get
    rw [settleSelection_candidates, show (record.selection g).jobId = _ from hjob]
    by_cases hj : j = prepared.jobId
    · subst hj
      obtain ⟨n, hn⟩ := reset.get chosen.validated.get
      rw [get_modify_self chosen.validated.get, hn]
      exact .leased (r := { record with serviceTransitions := n }) chosen.validated.ready
        chosen.validated.generation record.serviceTransitions
    · rw [get_modify_of_ne hj]; exact reset.recordChange
  | released get leased generation =>
    rw [applySettlement_candidates]
    refine recordChange_modify fun r hr => ?_
    cases get.symm.trans hr
    exact .released rfl leased generation
  | deferred get =>
    rw [updateRecord_candidates]
    exact recordChange_modify fun r _ => .deferred
  | settled get leased =>
    rw [restoreReconciledLowVolumeService_frame.2.1, applySettlement_candidates]
    exact recordChange_modify fun r _ => .removed
  | removed get idle =>
    rw [updateRecord_candidates]
    exact recordChange_modify fun r _ => .removed
  | reconciled get leased =>
    rw [updateRecord_candidates, restoreReconciledLowVolumeService_frame.2.1,
      releaseCapacity_frame.2.1]
    refine recordChange_modify fun r hr => ?_
    cases get.symm.trans hr
    exact .reconciled leased
  | weighted => rw [setScopeWeight_frame.2.1]; exact .kept
  | served => exact recordChange_modify fun r _ => .counted _
  | compacted get compactable =>
    rw [dropCandidate_frame.2.1, get_erase]
    split
    · rename_i h
      subst h
      rw [get]
      exact .compacted compactable
    · exact .kept
  | compactedScopes => exact .kept

/-- Unless it was registered anew, a record keeps its candidate up to the scheduled time. -/
theorem RecordChange.candidate {o o' : Option CandidateRecord}
    {r' : CandidateRecord} (h : RecordChange j op o o') (hr : o' = some r') :
    (op.registers.isSome = true ∧ r'.candidate.jobId = j) ∨ ∃ r, o = some r ∧
        r'.candidate = { r.candidate with scheduledAt := r'.candidate.scheduledAt } := by
  cases h with
  | kept => exact .inr ⟨r', hr, rfl⟩
  | put registers _ job => cases hr; exact .inl ⟨by rw [registers]; rfl, job⟩
  | compacted => cases hr
  | _ => cases hr; exact .inr ⟨_, rfl, rfl⟩

theorem Effect.keyed (h : l.Effect op l') (hk : l.Keyed) : l'.Keyed := by
  intro j r' hr'
  rcases (h.record hk j).candidate hr' with ⟨-, hj⟩ | ⟨r, hr, hc⟩
  · exact hj
  · rw [hc]; exact hk j r hr

/-! ## Scopes of the candidates -/

theorem coreAt_upToReset {s : FairScope} (h : l.UpToReset l') : l'.coreAt s = l.coreAt s := by
  rcases h with rfl | rfl <;> rfl

/-- Only a compaction of the empty scopes removes a scope. -/
theorem Effect.coreAt_isSome {s : FairScope} (h : l.Effect op l')
    (hop : op ≠ .compactScopes) (hs : (l.coreAt s).isSome = true) :
    (l'.coreAt s).isSome = true := by
  cases h with
  | unchanged => exact hs
  | added => rw [putCandidate_coreAt]; split <;> simp [hs]
  | upserted => rw [putCandidate_coreAt]; split <;> simp [hs]
  | refused reset => rw [coreAt_upToReset reset]; exact hs
  | selected reset => rw [settleSelection_coreAt, coreAt_upToReset reset, isSome_map]; exact hs
  | released => rw [applySettlement_coreAt, isSome_map]; exact hs
  | deferred => rw [updateRecord_coreAt]; exact hs
  | settled =>
    rw [restoreReconciledLowVolumeService_coreAt, applySettlement_coreAt, isSome_map, isSome_map]
    exact hs
  | removed => rw [updateRecord_coreAt]; exact hs
  | reconciled =>
    rw [updateRecord_coreAt, restoreReconciledLowVolumeService_coreAt, releaseCapacity_coreAt,
      isSome_map, isSome_map]
    exact hs
  | weighted => rw [setScopeWeight_coreAt, isSome_map]; exact hs
  | served => exact hs
  | compacted => rw [dropCandidate_coreAt]; exact hs
  | compactedScopes => exact absurd rfl hop

/-- The scopes that a candidate is charged to exist. -/
def Covered (l : FairnessLedger) : Prop :=
  ∀ (j : JobId) r s, l.candidates[j]? = some r → r.candidate.chargedTo s = true →
    (l.coreAt s).isSome = true

theorem Covered.put (h : l.Covered) {record : CandidateRecord}
    : (l.putCandidate record old refresh).Covered := by
  intro j r s hr hs
  rw [putCandidate_coreAt]
  split
  · rfl
  · rename_i hnot
    rw [putCandidate_candidates, get_insert] at hr
    split at hr
    · cases hr; exact absurd hs hnot
    · exact h j r s hr hs

theorem Covered.compactEmptyScopes (h : l.Covered) : l.compactEmptyScopes.Covered := by
  intro j r s hr hs
  obtain ⟨st, hst⟩ := isSome_iff_exists.mp (h j r s hr hs)
  obtain ⟨st', hst', -⟩ := coreAt_eq_some hst
  have hkeep : l.compactEmptyScopes.scopes[s]? = some st' :=
    compactEmptyScopes_get.mpr ⟨hst', .inr (.inr (hasCandidateIn_iff.mpr ⟨j, r, hr, hs⟩))⟩
  rw [coreAt_of_get hkeep]
  rfl

theorem Effect.covered (h : l.Effect op l') (hk : l.Keyed) (hc : l.Covered) : l'.Covered := by
  have hold : op.registers = none → op ≠ .compactScopes → l'.Covered := by
    intro hreg hop j r' s hr' hs
    rcases (h.record hk j).candidate hr' with ⟨hsome, -⟩ | ⟨r, hr, hcand⟩
    · rw [hreg] at hsome; cases hsome
    · rw [hcand] at hs
      exact h.coreAt_isSome hop (hc j r s hr hs)
  cases h with
  | added => exact hc.put
  | upserted => exact hc.put
  | compactedScopes => exact hc.compactEmptyScopes
  | @unchanged op => exact hc
  | _ => exact hold rfl (by rintro ⟨⟩)

/-- What holds of the candidates of every ledger that the operations build. -/
structure WellFormed (l : FairnessLedger) : Prop where
  keyed : l.Keyed
  covered : l.Covered

theorem WellFormed.new (b : FairnessBudget) : (FairnessLedger.new b).WellFormed where
  keyed j r h := by simp [FairnessLedger.new] at h
  covered j r s h := by simp [FairnessLedger.new] at h

theorem WellFormed.effect (hw : l.WellFormed) (h : l.Effect op l') : l'.WellFormed :=
  ⟨h.keyed hw.keyed, h.covered hw.keyed hw.covered⟩

/-- Whatever calls are made, compactions among them, every record stays under its own job id and
with the scopes that it is charged to. -/
theorem candidates_never_stranded (b : FairnessBudget) (ops : List LedgerOp) :
    (ops.foldl apply (.new b)).WellFormed :=
  List.foldlRecOn ops apply (WellFormed.new b) fun _ hw op _ => hw.effect (apply_effect op)

end FairnessLedger

end AuxCommon
