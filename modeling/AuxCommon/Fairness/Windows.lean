import AuxCommon.Fairness.Preparation

/-!
# The priority windows and the progress of selection

In every reachable ledger the total that a lane was served is its share of the finished windows
plus what it used of the current one (`PriorityDeficit.InStep`). So the totals never reject a
candidate that the window of its lane has room for, and a selection that finds a candidate passing
every other check returns a permit exactly when such a window exists, now or after the reset of
exhausted windows (`FairnessLedger.WindowOpen`).

A window is not always open. A lane whose rest is positive but smaller than every cost that waits
in it is neither admissible nor exhausted, and a candidate that costs more than the whole share of
its lane is never admitted.
-/

namespace AuxCommon

/-! ## The windows in step with the totals -/

variable {k : Nat}

namespace PriorityDeficit

variable {d : PriorityDeficit} {lane : Priority} {cost : U32} {bound : U32} {bulkReady : Bool}

/-- The service of a lane since the last reset. -/
def served (d : PriorityDeficit) : Priority → U64
  | .critical => d.criticalServed
  | .default => d.defaultServed
  | .bulk => d.bulkServed

/-- A deficit after `k` finished windows: no lane is over its share, and the totals are the
shares of the finished windows and the parts used of the current one. -/
structure InStep (d : PriorityDeficit) (k : Nat) : Prop where
  window_le : ∀ lane, (d.window lane).toNat ≤ lane.laneWeight.toNat
  served_eq : ∀ lane, (d.served lane).toNat =
    min (lane.laneWeight.toNat * k + (d.window lane).toNat) (2 ^ 64 - 1)

theorem InStep.init : InStep {} 0 where
  window_le lane := by cases lane <;> decide
  served_eq lane := by cases lane <;> decide

theorem windowAllows_iff : d.windowAllows lane cost = true ↔
      (d.window lane).toNat + cost.toNat ≤ lane.laneWeight.toNat := by
  have hweight : lane.laneWeight.toNat ≤ 8 := by cases lane <;> decide
  rw [windowAllows, decide_eq_true_eq, BitVec.le_def, BitVec.toNat_satAdd]
  omega

theorem windowAllows_of_allows (h : d.allows lane cost bulkReady bound = true) :
    d.windowAllows lane cost = true := by
  by_contra hw
  unfold allows at h
  rw [if_pos (.inr (.inr hw))] at h
  cases h

/-- The bulk lane is held back by its window alone. -/
theorem allows_bulk (hcost : cost ≠ 0) (hw : d.windowAllows .bulk cost = true) :
    d.allows .bulk cost bulkReady bound = true := by
  unfold allows
  rw [if_neg]
  rintro (h | ⟨-, -, h⟩ | h)
  exacts [hcost h, h rfl, h hw]

/-- While no bulk candidate can go first, room in the window of a lane is enough: its total is
within the bound that the bulk total sets. -/
theorem InStep.allows (h : d.InStep k) (hcost : cost ≠ 0)
    (hw : d.windowAllows lane cost = true) : d.allows lane cost false bound = true := by
  have hroom := windowAllows_iff.mp hw
  have hbulk := h.served_eq .bulk
  have hlane := h.served_eq lane
  have hgate : ¬(cost = 0 ∨ (false = true ∧ bound ≤ d.cycle.satAdd cost ∧ lane ≠ .bulk) ∨
      ¬d.windowAllows lane cost = true) := by
    rintro (h | ⟨h, -⟩ | h)
    exacts [hcost h, Bool.noConfusion h, h hw]
  unfold PriorityDeficit.allows
  rw [if_neg hgate]
  have hwide : (cost.setWidth 64).toNat = cost.toNat := BitVec.toNat_widen (by decide)
  cases lane with
  | critical =>
    simp only [decide_eq_true_eq, BitVec.le_def, BitVec.toNat_satAdd, BitVec.toNat_satMul, hwide]
    simp only [served, window, Priority.laneWeight] at hbulk hlane hroom
    change _ ≤ min (8 * min (_ + 1) _) _
    change _ = min (8 * k + _) _ at hlane
    change _ = min (1 * k + _) _ at hbulk
    change _ ≤ 8 at hroom
    omega
  | default =>
    simp only [decide_eq_true_eq, BitVec.le_def, BitVec.toNat_satAdd, BitVec.toNat_satMul, hwide]
    simp only [served, window, Priority.laneWeight] at hbulk hlane hroom
    change _ ≤ min (4 * min (_ + 1) _) _
    change _ = min (4 * k + _) _ at hlane
    change _ = min (1 * k + _) _ at hbulk
    change _ ≤ 4 at hroom
    omega
  | bulk => rfl

theorem window_chargeLane (lane' : Priority) : (d.chargeLane lane cost).window lane' =
      if lane' = lane then (d.window lane).satAdd cost else d.window lane' := by
  cases lane <;> cases lane' <;> rfl

theorem served_chargeLane (lane' : Priority) : (d.chargeLane lane cost).served lane' =
      if lane' = lane then (d.served lane).satAdd (cost.setWidth 64) else d.served lane' := by
  cases lane <;> cases lane' <;> rfl

theorem InStep.chargeLane (h : d.InStep k) (hw : d.windowAllows lane cost = true) :
    (d.chargeLane lane cost).InStep k := by
  have hroom := windowAllows_iff.mp hw
  have hweight : lane.laneWeight.toNat ≤ 8 := by cases lane <;> decide
  have hwide : (cost.setWidth 64).toNat = cost.toNat := BitVec.toNat_widen (by decide)
  refine ⟨fun lane' => ?_, fun lane' => ?_⟩
  · rw [window_chargeLane]
    split
    · rename_i heq
      subst heq
      rw [BitVec.toNat_satAdd]
      omega
    · exact h.window_le lane'
  · rw [served_chargeLane, window_chargeLane]
    split
    · rename_i heq
      subst heq
      have hserved := h.served_eq lane'
      rw [BitVec.toNat_satAdd, BitVec.toNat_satAdd, hwide]
      generalize lane'.laneWeight.toNat * k = share at hserved ⊢
      omega
    · exact h.served_eq lane'

/-- A charge that the window of its lane has room for keeps the windows in step; it finishes one
when it fills the last lane. -/
theorem InStep.charge (h : d.InStep k) (hw : d.windowAllows lane cost = true) :
    ∃ k', (d.charge lane cost).InStep k' := by
  have hc := h.chargeLane hw
  unfold PriorityDeficit.charge
  dsimp only
  split
  · rename_i hfull
    refine ⟨k + 1, fun lane' => by cases lane' <;> exact Nat.zero_le _, fun lane' => ?_⟩
    have hle := hc.window_le lane'
    have hserved := hc.served_eq lane'
    have hge : lane'.laneWeight.toNat ≤ ((d.chargeLane lane cost).window lane').toNat := by
      obtain ⟨h8, h4, h1⟩ := hfull
      cases lane' with
      | critical => exact BitVec.le_def.mp h8
      | default => exact BitVec.le_def.mp h4
      | bulk => exact BitVec.le_def.mp h1
    calc _ = ((d.chargeLane lane cost).served lane').toNat := by cases lane' <;> rfl
      _ = min (lane'.laneWeight.toNat * (k + 1)) (2 ^ 64 - 1) := by
        rw [hserved, le_antisymm hle hge, Nat.mul_succ]
      _ = _ := by cases lane' <;> rfl
  · exact ⟨k, hc⟩

end PriorityDeficit

namespace FairnessLedger

variable {l l' : FairnessLedger} {pass : SelectionPass} {bulkReady : Bool}
  {prepared : PreparedCandidate} {prep : CandidatePreparation}

theorem checkPriority_ok {lane : Priority} {cost : U16} :
    l.checkPriority lane cost bulkReady = .ok () ↔
      l.priority.allows lane (cost.setWidth 32) bulkReady
        ((l.budget.normalizedErrorBound.umin ((BitVec.allOnes 32).setWidth 64)).setWidth 32) =
          true := by
  unfold checkPriority
  dsimp only
  split
  · rename_i h
    exact ⟨fun _ => h, fun _ => rfl⟩
  · rename_i h
    exact ⟨nofun, fun h' => absurd h' h⟩

/-- The windows stay in step with the totals in every call. -/
theorem Effect.inStep {op : LedgerOp} (heff : l.Effect op l') (h : ∃ k, l.priority.InStep k) :
    ∃ k, l'.priority.InStep k := by
  by_cases hop : ∀ now eligible, op ≠ .select now eligible
  · rw [(heff.clocks hop).1]
    exact h
  · have hreset : ∀ {l₀}, l.UpToReset l₀ → ∃ k, l₀.priority.InStep k := by
      rintro l₀ (rfl | rfl)
      · exact h
      · exact ⟨0, .init⟩
    cases heff with
    | unchanged => exact h
    | refused reset => exact hreset reset
    | @selected now eligible l₀ record g prepared prep reset chosen =>
      obtain ⟨k, hk⟩ := hreset reset
      have hallows := checkPriority_ok.mp chosen.admissible.priority
      rw [chosen.facts reset] at hallows
      rw [settleSelection_frame.2.2.1]
      exact hk.charge (PriorityDeficit.windowAllows_of_allows hallows)
    | _ => exact absurd (fun _ _ => nofun) hop

theorem inStep_run {b : FairnessBudget} (h : RunFrom (fun _ _ => True) (.new b) l) :
    ∃ k, l.priority.InStep k :=
  h.invariant (I := fun l => ∃ k, l.priority.InStep k)
    (fun _ _ _ hi _ hst => hst.effect.inStep hi) ⟨0, .init⟩

/-- After any calls, what two lanes were served since the last reset is in proportion to their shares,
up to one window, until the total of one of them has no room left. -/
theorem lanes_in_proportion (b : FairnessBudget) (ops : List LedgerOp) (lane lane' : Priority) :
    let d := (ops.foldl apply (.new b)).priority
    (d.served lane').toNat = 2 ^ 64 - 1 ∨
      (d.served lane).toNat * lane'.laneWeight.toNat ≤
        ((d.served lane').toNat + lane'.laneWeight.toNat) * lane.laneWeight.toNat := by
  intro d
  obtain ⟨k, hk⟩ : ∃ k, d.InStep k := List.foldlRecOn ops apply
    (motive := fun l => ∃ k, l.priority.InStep k) ⟨0, .init⟩ fun _ hi op _ =>
      (apply_effect op).inStep hi
  refine or_iff_not_imp_left.mpr fun hroom => ?_
  have hlane := hk.served_eq lane
  have hwindow := hk.window_le lane
  have hother := hk.served_eq lane'
  calc (d.served lane).toNat * lane'.laneWeight.toNat
      ≤ lane.laneWeight.toNat * (k + 1) * lane'.laneWeight.toNat :=
        Nat.mul_le_mul_right _ (by rw [Nat.mul_succ]; omega)
    _ = lane'.laneWeight.toNat * (k + 1) * lane.laneWeight.toNat := by ac_rfl
    _ ≤ _ := Nat.mul_le_mul_right _ (by rw [Nat.mul_succ]; omega)

/-! ## Candidates that only the windows can reject -/

/-- A ready and due candidate of the pass whose preparation succeeded, within the cost limit and
the normalized bound. -/
structure Qualifies (l : FairnessLedger) (pass : SelectionPass) (prepared : PreparedCandidate)
    (prep : CandidatePreparation) : Prop where
  mem : prepared ∈ pass.candidates
  ready : prepared.ready = true
  due : prepared.due = true
  prepared : prepared.preparation = .ok prep
  cost : prep.facts.costUnits.get ≤ l.budget.maxCostUnits.get
  normalized : l.checkNormalizedAdmission prep pass = .ok ()

/-- The window of the candidate's lane has room for its cost. -/
def HasRoom (l : FairnessLedger) (prep : CandidatePreparation) : Prop :=
  (l.priority.window prep.facts.priority).toNat + prep.facts.costUnits.get.toNat ≤
    prep.facts.priority.laneWeight.toNat

/-- The window of the candidate's lane is used up. -/
def Exhausted (l : FairnessLedger) (prep : CandidatePreparation) : Prop :=
  prep.facts.priority.laneWeight.toNat ≤ (l.priority.window prep.facts.priority).toNat

/-- Some qualifying candidate has room, or every qualifying candidate's lane is exhausted and
one of them costs at most the whole share of its lane. -/
def WindowOpen (l : FairnessLedger) (pass : SelectionPass) : Prop :=
  (∃ prepared prep, l.Qualifies pass prepared prep ∧ l.HasRoom prep) ∨
    (∀ prepared prep, l.Qualifies pass prepared prep → l.Exhausted prep) ∧
      ∃ prepared prep, l.Qualifies pass prepared prep ∧
        prep.facts.costUnits.get.toNat ≤ prep.facts.priority.laneWeight.toNat

theorem hasRoom_iff : l.HasRoom prep ↔
      l.priority.windowAllows prep.facts.priority (prep.facts.costUnits.get.setWidth 32) = true := by
  rw [PriorityDeficit.windowAllows_iff, BitVec.toNat_widen (by decide)]
  exact Iff.rfl

theorem cost_ne_zero : prep.facts.costUnits.get.setWidth 32 ≠ (0 : U32) := by
  intro h
  have hpos := prep.facts.costUnits.pos
  have hzero := congrArg BitVec.toNat h
  rw [BitVec.toNat_widen (by decide)] at hzero
  change _ = 0 at hzero
  omega

/-- An admissible bulk candidate is one that qualifies and has room. -/
theorem hasAdmissibleBulk_qualifies (h : l.hasAdmissibleBulk pass = true) :
    ∃ prepared prep, l.Qualifies pass prepared prep ∧ prep.facts.priority = .bulk ∧
      l.HasRoom prep := by
  obtain ⟨prepared, hmem, hcond⟩ := List.any_eq_true.mp h
  simp only [Bool.and_eq_true] at hcond
  obtain ⟨⟨hready, hdue⟩, hprep⟩ := hcond
  cases hp : prepared.preparation with
  | error e => simp [hp] at hprep
  | ok prep =>
    simp only [hp, Bool.and_eq_true, decide_eq_true_eq] at hprep
    obtain ⟨⟨hlane, hpriority⟩, hnorm⟩ := hprep
    have hallows := checkPriority_ok.mp (Except.isOk_unit.mp hpriority)
    have hroom := hasRoom_iff.mpr (PriorityDeficit.windowAllows_of_allows hallows)
    refine ⟨prepared, prep, ⟨hmem, hready, hdue, hp, ?_, Except.isOk_unit.mp hnorm⟩, hlane, hroom⟩
    -- the bulk share is one unit, which no cost limit forbids
    have hmax := l.budget.maxCostUnits.pos
    unfold HasRoom at hroom
    rw [hlane] at hroom
    change _ ≤ 1 at hroom
    rw [BitVec.le_def]
    omega

/-- With the windows in step, the search finds a candidate exactly when one that qualifies has
room in its lane. -/
theorem admissible_iff (hk : l.priority.InStep k) : (∃ prepared ∈ pass.candidates, ∃ prep,
        l.Admissible pass (l.hasAdmissibleBulk pass) prepared prep) ↔
      ∃ prepared prep, l.Qualifies pass prepared prep ∧ l.HasRoom prep := by
  constructor
  · rintro ⟨prepared, hmem, prep, ha⟩
    have hallows := checkPriority_ok.mp ha.priority
    exact ⟨prepared, prep, ⟨hmem, ha.ready, ha.due, ha.prepared, ha.cost, ha.normalized⟩,
      hasRoom_iff.mpr (PriorityDeficit.windowAllows_of_allows hallows)⟩
  · rintro ⟨prepared, prep, hq, hroom⟩
    cases hbulk : l.hasAdmissibleBulk pass with
    | false =>
      exact ⟨prepared, hq.mem, prep, hq.ready, hq.due, hq.prepared, hq.cost,
        checkPriority_ok.mpr (hk.allows cost_ne_zero (hasRoom_iff.mp hroom)), hq.normalized⟩
    | true =>
      obtain ⟨prepared, prep, hq, hlane, hroom⟩ := hasAdmissibleBulk_qualifies hbulk
      have hw := hasRoom_iff.mp hroom
      rw [hlane] at hw
      refine ⟨prepared, hq.mem, prep, hq.ready, hq.due, hq.prepared, hq.cost, ?_, hq.normalized⟩
      rw [hlane]
      exact checkPriority_ok.mpr (PriorityDeficit.allows_bulk cost_ne_zero hw)

/-! ## The loop -/

theorem checkSelection_priorityDeficit (hp : prepared.preparation = .ok prep)
    (hcost : prep.facts.costUnits.get ≤ l.budget.maxCostUnits.get)
    (hno : l.checkPriority prep.facts.priority prep.facts.costUnits.get bulkReady ≠ .ok ()) :
    l.checkSelection prepared bulkReady = .error .priorityDeficit := by
  have hbad : l.checkPriority prep.facts.priority prep.facts.costUnits.get bulkReady =
      .error .priorityDeficit := by
    unfold checkPriority at hno ⊢
    dsimp only at hno ⊢
    split at hno
    · exact absurd rfl hno
    · rename_i h
      rw [if_neg h]
  rw [checkSelection, hp]
  change (if _ then _ else _) = _
  rw [if_neg (BitVec.not_lt.mpr hcost), hbad]
  rfl

/-- A search that meets a candidate which only the windows reject notes a priority rejection. -/
theorem findDueCandidate_priorityRejected (hq : l.Qualifies pass prepared prep)
    (hno : l.checkPriority prep.facts.priority prep.facts.costUnits.get bulkReady ≠ .ok ()) :
    (l.findDueCandidate pass bulkReady).priorityRejected = true := by
  have hkeep : ∀ search prepared, search.priorityRejected = true →
      (l.searchStep pass bulkReady search prepared).priorityRejected = true := by
    intro search prepared h
    unfold searchStep
    split
    · exact h
    · split
      · simp [h]
      · split
        · dsimp only
          split <;> exact h
        · exact h
  have hrun : ∀ (cands : List PreparedCandidate) search, search.priorityRejected = true →
      (cands.foldl (l.searchStep pass bulkReady) search).priorityRejected = true := by
    intro cands
    induction cands with
    | nil => exact fun _ h => h
    | cons p cands ih => exact fun search h => ih _ (hkeep search p h)
  have hhit : ∀ search, (l.searchStep pass bulkReady search prepared).priorityRejected = true := by
    intro search
    unfold searchStep
    rw [hq.ready, hq.due, checkSelection_priorityDeficit hq.prepared hq.cost hno]
    simp
  obtain ⟨before, after, hsplit⟩ := List.append_of_mem hq.mem
  rw [findDueCandidate, hsplit, List.foldl_append, List.foldl_cons]
  exact hrun _ _ (hhit _)

theorem passesAllButPriority_iff (hmem : prepared ∈ pass.candidates) :
    l.passesAllButPriority pass prepared = true ↔ ∃ prep, l.Qualifies pass prepared prep := by
  unfold passesAllButPriority
  cases hp : prepared.preparation with
  | error e =>
    simp only [Bool.and_false, Bool.false_eq_true, false_iff, not_exists]
    intro prep hq
    cases hp.symm.trans hq.prepared
  | ok prep =>
    simp only [Bool.and_eq_true, decide_eq_true_eq, Except.isOk_unit]
    constructor
    · rintro ⟨⟨hready, hdue⟩, hcost, hnorm⟩
      exact ⟨prep, hmem, hready, hdue, hp, hcost, hnorm⟩
    · rintro ⟨prep', hq⟩
      cases hp.symm.trans hq.prepared
      exact ⟨⟨hq.ready, hq.due⟩, hq.cost, hq.normalized⟩

theorem laneActive_iff {lane : Priority} : l.laneActive pass lane = true ↔
      ∃ prepared prep, l.Qualifies pass prepared prep ∧ prep.facts.priority = lane := by
  unfold laneActive
  rw [List.any_eq_true]
  constructor
  · rintro ⟨prepared, hmem, hcond⟩
    rw [Bool.and_eq_true, passesAllButPriority_iff hmem] at hcond
    obtain ⟨⟨prep, hq⟩, hlane⟩ := hcond
    rw [hq.prepared] at hlane
    exact ⟨prepared, prep, hq, by simpa using hlane⟩
  · rintro ⟨prepared, prep, hq, hlane⟩
    refine ⟨prepared, hq.mem, ?_⟩
    rw [Bool.and_eq_true, passesAllButPriority_iff hq.mem, hq.prepared]
    exact ⟨⟨prep, hq⟩, by simpa using hlane⟩

/-- The windows are reset exactly when some candidate qualifies and the lane of each is
exhausted. -/
theorem resetExhaustedPriorityWindow_iff (l : FairnessLedger) (pass : SelectionPass) :
    (l.resetExhaustedPriorityWindow pass).1 = true ↔
      (∃ prepared prep, l.Qualifies pass prepared prep) ∧
        ∀ prepared prep, l.Qualifies pass prepared prep → l.Exhausted prep := by
  have hactive : (l.laneActive pass .critical || l.laneActive pass .default ||
      l.laneActive pass .bulk) = true ↔ ∃ prepared prep, l.Qualifies pass prepared prep := by
    simp only [Bool.or_eq_true, laneActive_iff]
    constructor
    · rintro ((⟨q, prep, h, -⟩ | ⟨q, prep, h, -⟩) | ⟨q, prep, h, -⟩) <;> exact ⟨q, prep, h⟩
    · rintro ⟨q, prep, h⟩
      cases hlane : prep.facts.priority with
      | critical => exact .inl (.inl ⟨q, prep, h, hlane⟩)
      | default => exact .inl (.inr ⟨q, prep, h, hlane⟩)
      | bulk => exact .inr ⟨q, prep, h, hlane⟩
  have hlane : ∀ lane, (!l.laneActive pass lane || decide (lane.laneWeight ≤
      l.priority.window lane)) = true ↔ ∀ prepared prep, l.Qualifies pass prepared prep →
        prep.facts.priority = lane → l.Exhausted prep := by
    intro lane
    rw [Bool.or_eq_true, Bool.not_eq_true', ← Bool.not_eq_true, laneActive_iff, decide_eq_true_eq,
      BitVec.le_def]
    constructor
    · rintro (h | h) q prep hq rfl
      · exact absurd ⟨q, prep, hq, rfl⟩ h
      · exact h
    · intro h
      by_cases hex : ∃ prepared prep, l.Qualifies pass prepared prep ∧ prep.facts.priority = lane
      · obtain ⟨q, prep, hq, rfl⟩ := hex
        exact .inr (h q prep hq rfl)
      · exact .inl hex
  have hcomplete : ((!l.laneActive pass .critical || decide (8 ≤ l.priority.criticalWindow))
      && (!l.laneActive pass .default || decide (4 ≤ l.priority.defaultWindow))
      && (!l.laneActive pass .bulk || decide (1 ≤ l.priority.bulkWindow))) = true ↔
        ∀ prepared prep, l.Qualifies pass prepared prep → l.Exhausted prep := by
    rw [Bool.and_eq_true, Bool.and_eq_true]
    refine (and_congr (and_congr (hlane .critical) (hlane .default)) (hlane .bulk)).trans ?_
    constructor
    · rintro ⟨⟨hc, hd⟩, hb⟩ q prep hq
      cases h : prep.facts.priority with
      | critical => exact hc q prep hq h
      | default => exact hd q prep hq h
      | bulk => exact hb q prep hq h
    · intro h
      exact ⟨⟨fun q prep hq _ => h q prep hq, fun q prep hq _ => h q prep hq⟩,
        fun q prep hq _ => h q prep hq⟩
  rw [← hactive, ← hcomplete]
  unfold resetExhaustedPriorityWindow
  dsimp only
  split
  · rename_i ha
    split
    · rename_i hc; simp only [ha, hc, and_self]
    · rename_i hc; simp only [hc, Bool.false_eq_true, and_false]
  · rename_i ha
    simp only [ha, Bool.false_eq_true, false_and]

/-- A pass whose successful preparations `prepare_candidate` repeats. -/
def Repeats (l : FairnessLedger) (pass : SelectionPass) : Prop :=
  ∀ prepared prep, prepared ∈ pass.candidates → prepared.preparation = .ok prep →
    ∃ sel, l.prepareCandidate prepared.jobId = .ok sel

theorem repeats_upToReset (now : Option Timestamp) (eligible : Option (Finset JobId))
    (hreset : l.UpToReset l') : l'.Repeats (l.prepareSelectionPass now eligible) := by
  intro prepared prep hmem hp
  obtain ⟨c, g, -, hv, -⟩ := prepareSelectionPass_ok hmem hp
  rw [prepareCandidate, hreset.validateCandidate]
  exact ⟨_, Except.bind_eq_ok.mpr ⟨(c, g), hv, rfl⟩⟩

/-- A turn of the loop that has an admissible candidate returns a permit. -/
theorem selectLoop_found (hk : l.priority.InStep k) (hrep : l.Repeats pass)
    (hroom : ∃ prepared prep, l.Qualifies pass prepared prep ∧ l.HasRoom prep) (fuel : Nat) :
    ∃ p l', selectLoop pass (fuel + 1) l = some (.ok (some p), l') := by
  obtain ⟨prepared, hmem, prep, hadm⟩ := (admissible_iff hk).mpr hroom
  rw [selectLoop]
  cases hbest : (l.findDueCandidate pass (l.hasAdmissibleBulk pass)).best with
  | none => exact absurd hadm (findDueCandidate_none hbest prepared hmem prep)
  | some b =>
    obtain ⟨q, hq, hqadm, hjob⟩ := findDueCandidate_some hbest
    obtain ⟨jobId, prep', score⟩ := b
    dsimp only at hqadm hjob ⊢
    subst hjob
    obtain ⟨sel, hsel⟩ := hrep q prep' hq hqadm.prepared
    rw [hsel]
    exact ⟨_, _, rfl⟩

/-- A turn without an admissible candidate resets exhausted windows and goes on, or ends without
a permit. -/
theorem selectLoop_reset (hk : l.priority.InStep k)
    (hq : ∃ prepared prep, l.Qualifies pass prepared prep)
    (hroom : ¬∃ prepared prep, l.Qualifies pass prepared prep ∧ l.HasRoom prep) (fuel : Nat) :
    ((∀ prepared prep, l.Qualifies pass prepared prep → l.Exhausted prep) ∧
        selectLoop pass (fuel + 1) l = selectLoop pass fuel l.resetPriorityWindow) ∨
      (¬(∀ prepared prep, l.Qualifies pass prepared prep → l.Exhausted prep) ∧
        ∃ r, (∀ p, r ≠ .ok (some p)) ∧ selectLoop pass (fuel + 1) l = some (r, l)) := by
  have hadm := mt (admissible_iff hk).mp hroom
  have hrejected : (l.findDueCandidate pass (l.hasAdmissibleBulk pass)).priorityRejected = true := by
    obtain ⟨prepared, prep, hq⟩ := hq
    refine findDueCandidate_priorityRejected hq fun hok => hadm ⟨prepared, hq.mem, prep, ?_⟩
    exact ⟨hq.ready, hq.due, hq.prepared, hq.cost, hok, hq.normalized⟩
  have hnone : (l.findDueCandidate pass (l.hasAdmissibleBulk pass)).best = none := by
    cases hbest : (l.findDueCandidate pass (l.hasAdmissibleBulk pass)).best with
    | none => rfl
    | some b =>
      obtain ⟨prepared, hmem, ha, -⟩ := findDueCandidate_some hbest
      exact absurd ⟨prepared, hmem, b.2.1, ha⟩ hadm
  have hiff := resetExhaustedPriorityWindow_iff l pass
  rw [selectLoop]
  rw [hnone, hrejected]
  rcases resetExhaustedPriorityWindow_cases l pass with h | h
  · rw [h] at hiff ⊢
    refine .inr ⟨fun hall => Bool.noConfusion (hiff.mpr ⟨hq, hall⟩), _, fun p => ?_, rfl⟩
    cases DueCandidateSearch.firstRejection _ <;> simp
  · rw [h] at hiff ⊢
    exact .inl ⟨(hiff.mp rfl).2, by simp⟩

theorem qualifies_resetPriorityWindow :
    l.resetPriorityWindow.Qualifies pass prepared prep ↔ l.Qualifies pass prepared prep :=
  ⟨fun ⟨h₁, h₂, h₃, h₄, h₅, h₆⟩ => ⟨h₁, h₂, h₃, h₄, h₅, h₆⟩,
    fun ⟨h₁, h₂, h₃, h₄, h₅, h₆⟩ => ⟨h₁, h₂, h₃, h₄, h₅, h₆⟩⟩

theorem window_resetPriorityWindow (lane : Priority) :
    (l.resetPriorityWindow.priority.window lane).toNat = 0 := by
  cases lane <;> rfl

theorem hasRoom_resetPriorityWindow : l.resetPriorityWindow.HasRoom prep ↔
      prep.facts.costUnits.get.toNat ≤ prep.facts.priority.laneWeight.toNat := by
  rw [HasRoom, window_resetPriorityWindow, Nat.zero_add]

/-- Fresh windows are not exhausted. -/
theorem not_exhausted_resetPriorityWindow : ¬l.resetPriorityWindow.Exhausted prep := by
  rw [Exhausted, window_resetPriorityWindow]
  cases prep.facts.priority <;> decide

/-- A turn ends the loop, or resets the windows and goes on. -/
theorem selectLoop_turn (l : FairnessLedger) (pass : SelectionPass) :
    (∃ out, ∀ n, selectLoop pass (n + 1) l = some out) ∨
      (l.resetExhaustedPriorityWindow pass).1 = true ∧
        ∀ n, selectLoop pass (n + 1) l = selectLoop pass n l.resetPriorityWindow := by
  simp only [selectLoop]
  generalize l.findDueCandidate pass (l.hasAdmissibleBulk pass) = search
  rcases search with ⟨_ | b, rejection, rejected⟩
  · rcases resetExhaustedPriorityWindow_cases l pass with h | h <;> rw [h]
    · exact .inl ⟨(rejection.elim (.ok none) .error, l), fun n => by simp⟩
    · cases rejected with
      | false => exact .inl ⟨_, fun _ => rfl⟩
      | true => exact .inr ⟨rfl, fun _ => rfl⟩
  · refine .inl ?_
    dsimp only
    cases l.prepareCandidate b.1 <;> exact ⟨_, fun _ => rfl⟩

/-- The loop ends in at most two turns. -/
theorem selectLoop_ends (l : FairnessLedger) (pass : SelectionPass) :
    ∃ out, ∀ n, selectLoop pass (n + 2) l = some out := by
  rcases selectLoop_turn l pass with ⟨out, hout⟩ | ⟨-, hagain⟩
  · exact ⟨out, fun n => hout (n + 1)⟩
  · rcases selectLoop_turn l.resetPriorityWindow pass with ⟨out, hout⟩ | ⟨hreset, -⟩
    · exact ⟨out, fun n => (hagain (n + 1)).trans (hout n)⟩
    · obtain ⟨⟨prepared, prep, hq⟩, hall⟩ := (resetExhaustedPriorityWindow_iff _ pass).mp hreset
      exact absurd (hall prepared prep hq) not_exhausted_resetPriorityWindow

/-- In every reachable ledger, a selection whose pass holds a candidate that only the priority
windows can reject returns a permit exactly when a window is open to one of them. -/
theorem selection_progresses_iff {b : FairnessBudget} {l : FairnessLedger}
    (hrun : RunFrom (fun _ _ => True) (.new b) l) (now : Timestamp) (eligible : Finset JobId)
    (hq : ∃ prepared prep,
      l.Qualifies (l.prepareSelectionPass (some now) (some eligible)) prepared prep) :
    (∃ p, (l.selectNextDueIn now eligible).1 = .ok (some p)) ↔
      l.WindowOpen (l.prepareSelectionPass (some now) (some eligible)) := by
  obtain ⟨k, hk⟩ := inStep_run hrun
  have hrep := repeats_upToReset (l := l) (some now) (some eligible) (.inl rfl)
  have hrep' := repeats_upToReset (l := l) (some now) (some eligible) (.inr rfl)
  unfold selectNextDueIn WindowOpen
  generalize l.prepareSelectionPass (some now) (some eligible) = pass at *
  by_cases hroom : ∃ prepared prep, l.Qualifies pass prepared prep ∧ l.HasRoom prep
  · obtain ⟨p, l', hloop⟩ := selectLoop_found hk hrep hroom 1
    exact iff_of_true ⟨p, by rw [hloop]; rfl⟩ (.inl hroom)
  · rw [or_iff_right hroom]
    rcases selectLoop_reset hk hq hroom 1 with ⟨hall, hloop⟩ | ⟨hnot, r, hno, hloop⟩
    · -- the second turn, with fresh windows
      rw [hloop, and_iff_right hall]
      have hiff : (∃ prepared prep, l.resetPriorityWindow.Qualifies pass prepared prep ∧
          l.resetPriorityWindow.HasRoom prep) ↔ ∃ prepared prep, l.Qualifies pass prepared prep ∧
            prep.facts.costUnits.get.toNat ≤ prep.facts.priority.laneWeight.toNat := by
        simp only [qualifies_resetPriorityWindow, hasRoom_resetPriorityWindow]
      rw [← hiff]
      have hinit : l.resetPriorityWindow.priority.InStep 0 := .init
      by_cases hroom' : ∃ prepared prep, l.resetPriorityWindow.Qualifies pass prepared prep ∧
          l.resetPriorityWindow.HasRoom prep
      · obtain ⟨p, l', hloop⟩ := selectLoop_found hinit hrep' hroom' 0
        exact iff_of_true ⟨p, by rw [hloop]; rfl⟩ hroom'
      · refine iff_of_false ?_ hroom'
        obtain ⟨prepared, prep, hq⟩ := hq
        have hq' := qualifies_resetPriorityWindow.mpr hq
        rcases selectLoop_reset hinit ⟨prepared, prep, hq'⟩ hroom' 0 with
          ⟨hall', -⟩ | ⟨-, r, hno, hloop⟩
        · exact absurd (hall' prepared prep hq') not_exhausted_resetPriorityWindow
        · rw [hloop]
          rintro ⟨p, hp⟩
          exact hno p hp
    · refine iff_of_false ?_ fun h => hnot h.1
      rw [hloop]
      rintro ⟨p, hp⟩
      exact hno p hp

theorem qualifies_of_any (h : pass.candidates.any (l.passesAllButPriority pass) = true) :
    ∃ prepared prep, l.Qualifies pass prepared prep := by
  obtain ⟨prepared, hmem, hpass⟩ := List.any_eq_true.mp h
  exact ⟨prepared, (passesAllButPriority_iff hmem).mp hpass⟩

/-- One registered candidate, ready and due, in fresh windows. -/
def windowSample : FairnessLedger := (FairnessLedger.new .tiny).apply (.add (.plain 1 7))

theorem selection_progresses_iff_sample :
    (∃ p, (windowSample.selectNextDueIn ⟨5⟩ {.repeated 1}).1 = .ok (some p)) ↔
      windowSample.WindowOpen
        (windowSample.prepareSelectionPass (some ⟨5⟩) (some {.repeated 1})) := by
  have hrun : RunFrom (fun _ _ => True) (.new .tiny) windowSample :=
    .single (a := .add (.plain 1 7)) trivial rfl
  have hany : (windowSample.prepareSelectionPass (some ⟨5⟩) (some {.repeated 1})).candidates.any
      (windowSample.passesAllButPriority
        (windowSample.prepareSelectionPass (some ⟨5⟩) (some {.repeated 1}))) = true := by
    decide +kernel
  have hq := qualifies_of_any hany
  exact selection_progresses_iff hrun _ _ hq

/-- After `ops`, the pass holds a candidate that only the windows can reject, and the selection
is refused with `PriorityDeficit`. -/
def Deadlocks (ops : List LedgerOp) (now : Timestamp) (eligible : Finset JobId) : Prop :=
  let l := ops.foldl apply (.new .tiny)
  let pass := l.prepareSelectionPass (some now) (some eligible)
  pass.candidates.any (l.passesAllButPriority pass) = true ∧
    (l.selectNextDueIn now eligible).1 = .error .priorityDeficit

instance (ops : List LedgerOp) (now : Timestamp) (eligible : Finset JobId) :
    Decidable (Deadlocks ops now eligible) := by
  unfold Deadlocks; infer_instance

/-- A bulk candidate of cost two is never selected, and a critical candidate of cost five is not
selected after another one, whatever the time and with nothing else in the ledger. -/
theorem priority_windows_deadlock :
    Deadlocks [.add { FairCandidateInput.plain 1 7 with
        priority := .bulk, costUnits := ⟨2, by decide⟩ }] ⟨5⟩ {.repeated 1} ∧
      Deadlocks [.add { FairCandidateInput.plain 1 7 with costUnits := ⟨5, by decide⟩ },
        .add { FairCandidateInput.plain 2 8 with costUnits := ⟨5, by decide⟩ },
        .select ⟨5⟩ {.repeated 1, .repeated 2}] ⟨5⟩ {.repeated 1, .repeated 2} := by
  decide +kernel

end FairnessLedger

end AuxCommon
