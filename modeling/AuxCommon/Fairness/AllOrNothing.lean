import AuxCommon.Fairness.Windows

/-!
# Rejected selections

"Selection is all-or-nothing: no counters change on rejection" (`runner.rs`). A rejected call of
`select` or `select_next_due_in` changes at most one thing: it may have started a new epoch of the
priority windows before the last check rejects. `selection_all_or_nothing_iff` says exactly when
that happens: the windows are due for a reset and the new epoch does not help either, because the
cost of the candidate is over the whole share of its lane or, in `select`, because the target
fails the normalized bound.
-/

namespace AuxCommon

open BitVec PriorityDeficit

namespace FairnessLedger

variable {l l' : FairnessLedger} {pass : SelectionPass} {prepared : PreparedCandidate}
  {prep : CandidatePreparation} {j : JobId}

/-! ## `select` -/

/-- The first check of `select`. A priority rejection is checked again in the new epoch when the
windows are exhausted, and the ledger keeps the new epoch whatever the second check says. -/
def checkTarget (l : FairnessLedger) (pass : SelectionPass) (target : PreparedCandidate) :
    Except FairnessRejection CandidatePreparation × FairnessLedger :=
  match l.checkSelection target (l.hasAdmissibleBulk pass) with
  | .ok preparation => (.ok preparation, l)
  | .error reason =>
    if reason = .priorityDeficit then
      let (reset, l') := l.resetExhaustedPriorityWindow pass
      if reset then (l'.checkSelection target (l'.hasAdmissibleBulk pass), l')
      else (.error reason, l)
    else (.error reason, l)

/-- The checks of `select` after the first one, and the settlement. -/
def settleTarget (l : FairnessLedger) (pass : SelectionPass) (jobId : JobId)
    (preparation : CandidatePreparation) : Except FairnessRejection FairPermit × FairnessLedger :=
  match l.checkNormalizedAdmission preparation pass with
  | .error reason => (.error reason, l)
  | .ok () =>
    match l.prepareCandidate jobId with
    | .error reason => (.error reason, l)
    | .ok selection =>
      let (permit, l) := l.settleSelection selection preparation pass
      (.ok permit, l)

/-- `select`: the permit of one job, whatever the time. -/
def select (l : FairnessLedger) (jobId : JobId) :
    Except FairnessRejection FairPermit × FairnessLedger :=
  let pass := l.prepareSelectionPass none none
  match pass.candidates.find? (·.jobId = jobId) with
  | none => (.error .unknownScope, l)
  | some target =>
    match l.checkTarget pass target with
    | (.error reason, l) => (.error reason, l)
    | (.ok preparation, l) => l.settleTarget pass jobId preparation

/-- The windows are due for a reset: some candidate waits for nothing but them, and the lane of
each such candidate is exhausted. -/
def ResetDue (l : FairnessLedger) (pass : SelectionPass) : Prop :=
  (∃ prepared prep, l.Qualifies pass prepared prep) ∧
    ∀ prepared prep, l.Qualifies pass prepared prep → l.Exhausted prep

/-- The cost is within the whole share of its lane. -/
def FitsShare (prep : CandidatePreparation) : Prop :=
  prep.facts.costUnits.get.toNat ≤ prep.facts.priority.laneWeight.toNat

/-- A new epoch that lets no candidate of the pass through. -/
def WastesReset (l : FairnessLedger) (pass : SelectionPass) : Prop :=
  l.ResetDue pass ∧ ∀ prepared prep, l.Qualifies pass prepared prep → ¬FitsShare prep

/-- A new epoch that does not let the target through: the windows reject it now, and it is over
its share or over the normalized bound. -/
def WastesResetOn (l : FairnessLedger) (pass : SelectionPass) (target : PreparedCandidate) : Prop :=
  l.checkSelection target (l.hasAdmissibleBulk pass) = .error .priorityDeficit ∧
    l.ResetDue pass ∧
    ¬∃ prep, target.preparation = .ok prep ∧ FitsShare prep ∧
      l.checkNormalizedAdmission prep pass = .ok ()

/-! ## Resets -/

theorem resetExhaustedPriorityWindow_of_due (h : l.ResetDue pass) :
    l.resetExhaustedPriorityWindow pass = (true, l.resetPriorityWindow) := by
  rcases resetExhaustedPriorityWindow_cases l pass with hr | hr
  · have := (resetExhaustedPriorityWindow_iff l pass).mpr h
    rw [hr] at this
    cases this
  · exact hr

theorem resetExhaustedPriorityWindow_of_not_due (h : ¬l.ResetDue pass) :
    l.resetExhaustedPriorityWindow pass = (false, l) := by
  rcases resetExhaustedPriorityWindow_cases l pass with hr | hr
  · exact hr
  · exact absurd ((resetExhaustedPriorityWindow_iff l pass).mp (by rw [hr])) h

/-- A lane that has room for a cost is not exhausted. -/
theorem Exhausted.not_hasRoom (h : l.Exhausted prep) : ¬l.HasRoom prep := by
  have hpos := prep.facts.costUnits.pos
  unfold Exhausted at h
  unfold HasRoom
  omega

theorem ResetDue.not_hasRoom (h : l.ResetDue pass) :
    ¬∃ prepared prep, l.Qualifies pass prepared prep ∧ l.HasRoom prep := by
  rintro ⟨prepared, prep, hq, hroom⟩
  exact (h.2 prepared prep hq).not_hasRoom hroom

/-- A reset of exhausted windows is visible. -/
theorem ResetDue.reset_ne (h : l.ResetDue pass) : l.resetPriorityWindow ≠ l := by
  obtain ⟨⟨prepared, prep, hq⟩, hall⟩ := h
  intro heq
  have hex := hall prepared prep hq
  rw [← heq] at hex
  exact not_exhausted_resetPriorityWindow hex

theorem not_resetDue_resetPriorityWindow : ¬l.resetPriorityWindow.ResetDue pass := by
  rintro ⟨⟨prepared, prep, hq⟩, hall⟩
  exact not_exhausted_resetPriorityWindow (hall prepared prep hq)

/-! ## `select_next_due_in` -/

/-- Windows that are not due for a reset are not reset: the loop stops in its first turn. -/
theorem selectLoop_not_due (hdue : ¬l.ResetDue pass) (fuel : Nat) :
    (∃ r, (∀ p, r ≠ .ok (some p)) ∧ selectLoop pass (fuel + 1) l = some (r, l)) ∨
      ∃ record g prepared prep, l.Chosen pass record g prepared prep ∧
        selectLoop pass (fuel + 1) l = some (.ok (some (record.selection g).permit),
          (l.settleSelection (record.selection g) prep pass).2) := by
  cases hbest : (l.findDueCandidate pass (l.hasAdmissibleBulk pass)).best with
  | some b => exact (selectLoop_best hbest fuel).imp_left fun ⟨reason, h⟩ => ⟨_, by simp, h⟩
  | none =>
    rw [selectLoop]
    rw [hbest, resetExhaustedPriorityWindow_of_not_due hdue]
    dsimp only
    rw [Bool.and_false, if_neg Bool.false_ne_true]
    refine .inl ⟨_, fun p => ?_, rfl⟩
    cases DueCandidateSearch.firstRejection _ <;> simp

theorem selectNextDueIn_unchanged_iff {k : Nat} (hk : l.priority.InStep k) (now : Timestamp)
    (eligible : Finset JobId) :
    ((∀ p, (l.selectNextDueIn now eligible).1 ≠ .ok (some p)) →
        (l.selectNextDueIn now eligible).2 = l) ↔
      ¬l.WastesReset (l.prepareSelectionPass (some now) (some eligible)) := by
  have hrep := repeats_upToReset (l := l) (some now) (some eligible) (.inr rfl)
  unfold selectNextDueIn
  generalize l.prepareSelectionPass (some now) (some eligible) = pass at *
  by_cases hdue : l.ResetDue pass
  · rcases selectLoop_reset hk hdue.1 hdue.not_hasRoom 1 with ⟨-, hloop⟩ | ⟨hnot, -⟩
    · rw [hloop]
      by_cases hfit : ∃ prepared prep, l.Qualifies pass prepared prep ∧ FitsShare prep
      · -- the new epoch lets a candidate through
        obtain ⟨prepared, prep, hq, hfits⟩ := hfit
        obtain ⟨p, _, hp⟩ := selectLoop_found (l := l.resetPriorityWindow) (k := 0) .init hrep
          ⟨prepared, prep, qualifies_resetPriorityWindow.mpr hq,
            hasRoom_resetPriorityWindow.mpr hfits⟩ 0
        rw [hp]
        exact iff_of_true (fun hno => absurd rfl (hno p)) fun hw => hw.2 prepared prep hq hfits
      · -- the new epoch is wasted
        have hno : ∃ r, (∀ p, r ≠ .ok (some p)) ∧
            selectLoop pass 1 l.resetPriorityWindow = some (r, l.resetPriorityWindow) := by
          obtain ⟨prepared, prep, hq⟩ := hdue.1
          have hq' := qualifies_resetPriorityWindow.mpr hq
          have hroom : ¬∃ prepared prep, l.resetPriorityWindow.Qualifies pass prepared prep ∧
              l.resetPriorityWindow.HasRoom prep := by
            rintro ⟨q, prep, hq, hroom⟩
            exact hfit ⟨q, prep, qualifies_resetPriorityWindow.mp hq,
              hasRoom_resetPriorityWindow.mp hroom⟩
          rcases selectLoop_reset (l := l.resetPriorityWindow) (k := 0) .init
            ⟨prepared, prep, hq'⟩ hroom 0 with ⟨hall, -⟩ | ⟨-, hno⟩
          · exact absurd (hall prepared prep hq') not_exhausted_resetPriorityWindow
          · exact hno
        obtain ⟨r, hno, hlast⟩ := hno
        rw [hlast]
        refine iff_of_false (fun hkeep => hdue.reset_ne (hkeep hno)) fun hw => hw ⟨hdue, ?_⟩
        · exact fun prepared prep hq hfits => hfit ⟨prepared, prep, hq, hfits⟩
    · exact absurd hdue.2 hnot
  · refine iff_of_true (fun hno => ?_) fun hw => hdue hw.1
    rcases selectLoop_not_due hdue 1 with ⟨r, -, heq⟩ | ⟨record, g, prepared, prep, -, heq⟩
    · rw [heq]
      rfl
    · rw [heq] at hno
      exact absurd rfl (hno _)

/-! ## The target of `select` -/

theorem allows_of_cycle_lt {d : PriorityDeficit} {lane : Priority} {cost bound : U32}
    (h : d.cycle.satAdd cost < bound) (bulkReady : Bool) :
    d.allows lane cost bulkReady bound = d.allows lane cost false bound := by
  unfold allows
  simp only [BitVec.not_le.mpr h, false_and, and_false]

/-- In a new epoch the share of the lane decides alone: the bound that lets bulk work go first is
over every cost that the budget allows. -/
theorem checkPriority_resetPriorityWindow {bulkReady : Bool}
    (hcost : prep.facts.costUnits.get ≤ l.budget.maxCostUnits.get) :
    l.resetPriorityWindow.checkPriority prep.facts.priority prep.facts.costUnits.get bulkReady =
      .ok () ↔ FitsShare prep := by
  rw [checkPriority_ok]
  constructor
  · intro h
    exact hasRoom_resetPriorityWindow.mp (hasRoom_iff.mpr (windowAllows_of_allows h))
  · intro h
    have hroom := hasRoom_iff.mp (hasRoom_resetPriorityWindow (l := l).mpr h)
    rw [allows_of_cycle_lt]
    · exact InStep.allows (k := 0) .init cost_ne_zero hroom
    · have hw := l.budget.candidateWindow.pos
      have hn := l.budget.maxConcurrencyPerScope.pos
      have hpos := prep.facts.costUnits.pos
      have hbound := l.budget.toNat_normalizedErrorBound
      have hlt := prep.facts.costUnits.get.isLt
      rw [le_def] at hcost
      have hmul : l.budget.maxCostUnits.get.toNat * 2 ≤ l.budget.normalizedErrorBound.toNat := by
        rw [hbound]
        exact Nat.mul_le_mul_left _ (by omega)
      rw [lt_def, toNat_satAdd, toNat_widen (by decide : 16 ≤ 32)]
      change min (0 + _) _ < ((l.budget.normalizedErrorBound.umin _).setWidth 32).toNat
      rw [toNat_setWidth, toNat_umin, toNat_widen (by decide : 32 ≤ 64)]
      change _ < min _ (2 ^ 32 - 1) % 2 ^ 32
      omega

/-- What the first check of `select` does. -/
theorem checkTarget_cases (l : FairnessLedger) (pass : SelectionPass) (target : PreparedCandidate) :
    (∃ prep, l.checkSelection target (l.hasAdmissibleBulk pass) = .ok prep ∧
        l.checkTarget pass target = (.ok prep, l)) ∨
      (l.checkSelection target (l.hasAdmissibleBulk pass) = .error .priorityDeficit ∧
        l.ResetDue pass ∧
        l.checkTarget pass target = (l.resetPriorityWindow.checkSelection target
          (l.resetPriorityWindow.hasAdmissibleBulk pass), l.resetPriorityWindow)) ∨
      ∃ reason, l.checkSelection target (l.hasAdmissibleBulk pass) = .error reason ∧
        ¬(reason = .priorityDeficit ∧ l.ResetDue pass) ∧
        l.checkTarget pass target = (.error reason, l) := by
  unfold checkTarget
  cases hcheck : l.checkSelection target (l.hasAdmissibleBulk pass) with
  | ok prep => exact .inl ⟨prep, rfl, rfl⟩
  | error reason =>
    right
    dsimp only
    by_cases hreason : reason = .priorityDeficit
    · subst hreason
      by_cases hdue : l.ResetDue pass
      · rw [if_pos rfl, resetExhaustedPriorityWindow_of_due hdue]
        exact .inl ⟨rfl, hdue, rfl⟩
      · rw [if_pos rfl, resetExhaustedPriorityWindow_of_not_due hdue]
        exact .inr ⟨_, rfl, fun h => hdue h.2, rfl⟩
    · rw [if_neg hreason]
      exact .inr ⟨reason, rfl, fun h => hreason h.1, rfl⟩

/-- The settlement of `select` leaves the ledger alone or charges a candidate that passed the
normalized bound. -/
theorem settleTarget_cases (l : FairnessLedger) (pass : SelectionPass) (j : JobId)
    (prep : CandidatePreparation) :
    ((∀ p, (l.settleTarget pass j prep).1 ≠ .ok p) ∧ (l.settleTarget pass j prep).2 = l ∧
        ¬(l.checkNormalizedAdmission prep pass = .ok () ∧ ∃ sel, l.prepareCandidate j = .ok sel)) ∨
      ∃ sel, l.checkNormalizedAdmission prep pass = .ok () ∧ l.prepareCandidate j = .ok sel ∧
        l.settleTarget pass j prep = (.ok sel.permit, (l.settleSelection sel prep pass).2) := by
  unfold settleTarget
  cases hnorm : l.checkNormalizedAdmission prep pass with
  | error reason => exact .inl ⟨by simp, rfl, by simp⟩
  | ok u =>
    cases hsel : l.prepareCandidate j with
    | error reason =>
      exact .inl ⟨by simp, rfl, by simp⟩
    | ok sel =>
      refine .inr ⟨sel, rfl, rfl, ?_⟩
      dsimp only
      rw [settleSelection_frame.1]

theorem checkSelection_resetPriorityWindow {bulkReady bulkReady' : Bool}
    (hbad : l.checkSelection prepared bulkReady = .error .priorityDeficit)
    (hp : prepared.preparation = .ok prep) :
    l.resetPriorityWindow.checkSelection prepared bulkReady' = .ok prep ↔ FitsShare prep := by
  have hcost : prep.facts.costUnits.get ≤ l.budget.maxCostUnits.get := by
    rw [checkSelection, hp] at hbad
    change (if _ then _ else _) = _ at hbad
    split at hbad
    · cases hbad
    · rename_i hlt
      exact BitVec.not_lt.mp hlt
  rw [checkSelection_ok, checkPriority_resetPriorityWindow hcost]
  exact ⟨fun h => h.2.2, fun h => ⟨hp, hcost, h⟩⟩

/-- `select` on a target of the pass whose preparation `prepare_candidate` repeats. -/
theorem select_unchanged_iff (l : FairnessLedger) (j : JobId) :
    ((∀ p, (l.select j).1 ≠ .ok p) → (l.select j).2 = l) ↔
      ∀ target, (l.prepareSelectionPass none none).candidates.find? (·.jobId = j) = some target →
        ¬l.WastesResetOn (l.prepareSelectionPass none none) target := by
  have hrep := repeats_upToReset (l := l) none none (.inr rfl)
  unfold select
  generalize l.prepareSelectionPass none none = pass at *
  dsimp only
  cases hfind : pass.candidates.find? (·.jobId = j) with
  | none => exact iff_of_true (fun _ => rfl) (by simp)
  | some target =>
    have hmem := List.mem_of_find?_eq_some hfind
    have hjob : target.jobId = j := by simpa using List.find?_some hfind
    simp only [Option.some.injEq, forall_eq']
    rcases checkTarget_cases l pass target with ⟨prep, hok, heq⟩ | ⟨hbad, hdue, heq⟩ |
      ⟨reason, hbad, hno, heq⟩
    · -- the first check passes: no reset
      rw [heq]
      refine iff_of_true (fun hno => ?_) fun hw => ?_
      · rcases settleTarget_cases l pass j prep with ⟨-, hl, -⟩ | ⟨sel, -, -, hs⟩
        · exact hl
        · exact absurd (congrArg Prod.fst hs) (hno _)
      · cases hok.symm.trans hw.1
    · rw [heq]
      cases hcheck : l.resetPriorityWindow.checkSelection target
        (l.resetPriorityWindow.hasAdmissibleBulk pass) with
      | error reason =>
        refine iff_of_false (fun hkeep => hdue.reset_ne (hkeep (by simp))) fun hw => hw ⟨hbad, hdue, ?_⟩
        rintro ⟨prep, hp, hfits, -⟩
        cases hcheck.symm.trans ((checkSelection_resetPriorityWindow hbad hp).mpr hfits)
      | ok prep =>
        have hp := (checkSelection_ok.mp hcheck).1
        have hfits := (checkSelection_resetPriorityWindow hbad hp).mp hcheck
        obtain ⟨sel, hsel⟩ := hrep target prep hmem hp
        rw [hjob] at hsel
        rcases settleTarget_cases l.resetPriorityWindow pass j prep with ⟨hno, hl, hcond⟩ |
          ⟨sel, hnorm, -, hs⟩
        · refine iff_of_false (fun hkeep => hdue.reset_ne (hl.symm.trans (hkeep hno))) fun hw =>
            hw ⟨hbad, hdue, ?_⟩
          rintro ⟨prep', hp', -, hnorm⟩
          cases hp.symm.trans hp'
          exact hcond ⟨hnorm, sel, hsel⟩
        · refine iff_of_true (fun hno => absurd (congrArg Prod.fst hs) (hno _)) fun hw => ?_
          exact hw.2.2 ⟨prep, hp, hfits, hnorm⟩
    · -- the first check rejects, and no reset follows
      rw [heq]
      refine iff_of_true (fun _ => rfl) fun hw => hno ⟨?_, hw.2.1⟩
      cases hbad.symm.trans hw.1
      rfl

/-! ## Runs with `select` -/

/-- One call, `select` among them. -/
inductive Call
  | ledger (op : LedgerOp)
  | select (jobId : JobId)
  deriving DecidableEq

/-- The ledger after one call. -/
def call (l : FairnessLedger) : Call → FairnessLedger
  | .ledger op => l.apply op
  | .select jobId => (l.select jobId).2

/-- The ledgers that calls lead to from an empty one. -/
def Reachable (b : FairnessBudget) (l : FairnessLedger) : Prop :=
  Run (fun l c l' => l' = l.call c) (fun _ _ => True) (.new b) l

/-- `select` charges a lane only within its window. -/
theorem select_inStep {k : Nat} (hk : l.priority.InStep k) (j : JobId) :
    ∃ k, (l.select j).2.priority.InStep k := by
  have hsettle : ∀ {l₀ : FairnessLedger} {pass : SelectionPass} {target : PreparedCandidate}
      {prep : CandidatePreparation} {bulkReady : Bool} {k : Nat}, l.UpToReset l₀ →
      target ∈ (l.prepareSelectionPass none none).candidates → target.jobId = j →
      l₀.checkSelection target bulkReady = .ok prep → l₀.priority.InStep k →
      ∃ k, (l₀.settleTarget pass j prep).2.priority.InStep k := by
    intro l₀ pass target prep bulkReady k hreset hmem hjob hcheck hk
    obtain ⟨hp, -, hpri⟩ := checkSelection_ok.mp hcheck
    rcases settleTarget_cases l₀ pass j prep with ⟨-, hl, -⟩ | ⟨sel, -, hsel, hs⟩
    · rw [hl]
      exact ⟨k, hk⟩
    · -- the candidate that is charged is the one that was checked
      obtain ⟨c, g, -, hv, hfacts, -⟩ := prepareSelectionPass_ok hmem hp
      obtain ⟨record, g', hval, rfl⟩ := prepareCandidate_ok hsel
      rw [hjob, ← hreset.validateCandidate] at hv
      obtain ⟨record', hval', rfl⟩ := validateCandidate_ok hv
      cases hval.get.symm.trans hval'.get
      rw [hs, settleSelection_frame.2.2.1]
      rw [checkPriority_ok, hfacts] at hpri
      exact hk.charge (windowAllows_of_allows hpri)
  unfold select
  dsimp only
  cases hfind : (l.prepareSelectionPass none none).candidates.find? (·.jobId = j) with
  | none => exact ⟨k, hk⟩
  | some target =>
    have hmem := List.mem_of_find?_eq_some hfind
    have hjob : target.jobId = j := by simpa using List.find?_some hfind
    dsimp only
    rcases checkTarget_cases l (l.prepareSelectionPass none none) target with
      ⟨prep, hok, heq⟩ | ⟨-, -, heq⟩ | ⟨reason, -, -, heq⟩
    · rw [heq]
      exact hsettle (.inl rfl) hmem hjob hok hk
    · rw [heq]
      cases hcheck : l.resetPriorityWindow.checkSelection target
          (l.resetPriorityWindow.hasAdmissibleBulk (l.prepareSelectionPass none none)) with
      | error reason => exact ⟨0, .init⟩
      | ok prep => exact hsettle (.inr rfl) hmem hjob hcheck (k := 0) .init
    · rw [heq]
      exact ⟨k, hk⟩

theorem Reachable.inStep {b : FairnessBudget} (h : Reachable b l) : ∃ k, l.priority.InStep k := by
  refine h.invariant (I := fun l => ∃ k, l.priority.InStep k) ?_ ⟨0, .init⟩
  rintro l c l' ⟨k, hk⟩ - rfl
  cases c with
  | ledger op => exact (apply_effect op).inStep ⟨k, hk⟩
  | select j => exact select_inStep hk j

/-- A selection without a permit leaves the ledger as it was, unless it wastes a reset of the
priority windows, and then it does not. -/
theorem selection_all_or_nothing_iff {b : FairnessBudget} {l : FairnessLedger}
    (hl : Reachable b l) (now : Timestamp) (eligible : Finset JobId) (j : JobId) :
    (((∀ p, (l.selectNextDueIn now eligible).1 ≠ .ok (some p)) →
        (l.selectNextDueIn now eligible).2 = l) ↔
      ¬l.WastesReset (l.prepareSelectionPass (some now) (some eligible))) ∧
    (((∀ p, (l.select j).1 ≠ .ok p) → (l.select j).2 = l) ↔
      ∀ target, (l.prepareSelectionPass none none).candidates.find? (·.jobId = j) = some target →
        ¬l.WastesResetOn (l.prepareSelectionPass none none) target) := by
  obtain ⟨k, hk⟩ := hl.inStep
  exact ⟨selectNextDueIn_unchanged_iff hk now eligible, select_unchanged_iff l j⟩

/-- Two bulk jobs, of cost one and of cost two, the first one selected. -/
def wastedCalls : List Call :=
  [.ledger (.add { FairCandidateInput.plain 1 7 with priority := .bulk }),
    .ledger (.add { FairCandidateInput.plain 2 8 with
      priority := .bulk, costUnits := ⟨2, by decide⟩ }),
    .select (.repeated 1)]

theorem wastedCalls_reachable : Reachable .tiny (wastedCalls.foldl call (.new .tiny)) :=
  .ofList (by decide +kernel)

/-- The bulk window is used up by the first job, so both ways to select the second one start a new
epoch, and then reject it because it costs more than the share of its lane: the calls fail with
`PriorityDeficit`, and the priority windows are not the ones from before the call. -/
theorem rejected_selection_resets_windows :
    let l := wastedCalls.foldl call (.new .tiny)
    Reachable .tiny l ∧ (l.selectNextDueIn ⟨8⟩ {.repeated 2}).1 = .error .priorityDeficit ∧
      (l.selectNextDueIn ⟨8⟩ {.repeated 2}).2.priority ≠ l.priority ∧
      (l.select (.repeated 2)).1 = .error .priorityDeficit ∧
      (l.select (.repeated 2)).2.priority ≠ l.priority :=
  ⟨wastedCalls_reachable, by decide +kernel⟩

/-- So both calls waste a reset there. -/
theorem selection_all_or_nothing_iff_wasted :
    let l := wastedCalls.foldl call (.new .tiny)
    l.WastesReset (l.prepareSelectionPass (some ⟨8⟩) (some {.repeated 2})) ∧
      ∃ target, l.WastesResetOn (l.prepareSelectionPass none none) target := by
  intro l
  obtain ⟨hnext, hselect⟩ :=
    selection_all_or_nothing_iff wastedCalls_reachable ⟨8⟩ {.repeated 2} (.repeated 2)
  have hfails : (l.selectNextDueIn ⟨8⟩ {.repeated 2}).1 = .error .priorityDeficit ∧
      (l.select (.repeated 2)).1 = .error .priorityDeficit := by decide +kernel
  have hchanges : (l.selectNextDueIn ⟨8⟩ {.repeated 2}).2.priority ≠ l.priority ∧
      (l.select (.repeated 2)).2.priority ≠ l.priority := by decide +kernel
  constructor
  · by_contra hkept
    refine hchanges.1 (congrArg FairnessLedger.priority (hnext.mpr hkept fun p hp => ?_))
    cases hfails.1.symm.trans hp
  · by_contra hkept
    refine hchanges.2 (congrArg FairnessLedger.priority (hselect.mpr (fun target _ hwastes =>
      hkept ⟨target, hwastes⟩) fun p hp => ?_))
    cases hfails.2.symm.trans hp

end FairnessLedger

end AuxCommon
