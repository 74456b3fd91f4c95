import AuxCommon.Fairness.Credit
import AuxCommon.Fairness.Eligibility
import AuxCommon.Fairness.Permits

/-!
# A conflict is credit neutral

A claim that loses its race releases its permit with `Conflict`, and the ledger undoes the charge of
the selection: after the two calls every row has the slots, the counts and the costs from before,
and stands where it stood, up to the alignment that the selection made (`conflict_credit_neutral`).

`check_scope` lets a charge through only if `service` has room for it. `served` and the cost of
`own_service` are saturating counters that nothing checks: a selection that fills one of them loses
a unit of it when it is undone.
-/

namespace AuxCommon

open List Option OrdMap ServiceAccounting FairScope ScopeState FairPermit

/-! ## One row -/

namespace ServiceAccounting

variable {a : ServiceAccounting} {w : NonZero 16} {c : U16} {clock clock' : U128}

/-- A charge that the counter has room for is undone exactly. -/
theorem undo_charge (h : a.Based) (hcost : a.cost.toNat + c.toNat < 2 ^ 64) :
    (a.charge c).undo c = a := by
  have hback : (a.cost.satAdd (c.setWidth 64)).satSub (c.setWidth 64) = a.cost := by
    refine BitVec.eq_of_toNat_eq ?_
    rw [BitVec.toNat_satSub, BitVec.toNat_satAdd, BitVec.toNat_widen (by decide)]
    omega
  have hbase : a.baseCost.umin a.cost = a.baseCost := by
    refine BitVec.eq_of_toNat_eq ?_
    rw [BitVec.toNat_umin]
    exact Nat.min_eq_left h
  unfold undo charge
  dsimp only
  rw [hback, hbase]

theorem cost_align : (a.align w clock).cost = a.cost := by
  unfold align
  split <;> rfl

/-- A clock that moves forward lifts the positions that it is the floor of. -/
theorem position_of_le (h : clock.toNat ≤ clock'.toNat) :
    a.position w clock' = (a.position w clock).umax clock' := by
  refine BitVec.eq_of_toNat_eq ?_
  rw [BitVec.toNat_umax, toNat_position, toNat_position]
  omega

theorem position_align (h : clock.toNat ≤ clock'.toNat) :
    (a.align w clock').position w clock' = (a.position w clock).umax clock' := by
  refine BitVec.eq_of_toNat_eq ?_
  rw [BitVec.toNat_umax, toNat_position, toNat_position, pos_align]
  omega

end ServiceAccounting

namespace ScopeState

variable {st : ScopeState} {b : FairnessBudget} {s : FairScope} {c : U16} {k : ScopeCharge}

/-- The counters of the row that the charge fills, because nothing checks them. -/
def Fills (st : ScopeState) (s : FairScope) (c : U16) : Prop :=
  2 ^ 64 ≤ st.served.toNat + 1 ∨
    s.isScopedPrimary = true ∧ 2 ^ 64 ≤ st.ownService.cost.toNat + c.toNat

/-- A row within its budget, with room for a charge. -/
structure Undoable (b : FairnessBudget) (s : FairScope) (c : U16) (k : ScopeCharge)
    (st : ScopeState) : Prop where
  based : st.Based
  inFlight : st.inFlight.toNat < b.maxConcurrencyPerScope.get.toNat
  permits : 0 < st.permits.toNat ∧ st.permits.toNat ≤ b.maxConcurrencyPerScope.get.toNat
  rate : 0 < st.rate.toNat ∧ st.rate.toNat ≤ b.maxRatePerScope.get.toNat
  cost : st.service.cost.toNat + c.toNat < 2 ^ 64
  unfilled : k = .service → ¬st.Fills s c

theorem Undoable.advanceChildClock (h : st.Undoable b s c k) (m : U128) :
    (st.advanceChildClock m).Undoable b s c k := ⟨h.1, h.2, h.3, h.4, h.5, h.6⟩

theorem Undoable.alignService (h : st.Undoable b s c k) (floor : U128) :
    (st.alignService floor).Undoable b s c k := by
  refine ⟨⟨h.based.1.align _ _, h.based.2⟩, h.2, h.3, h.4, ?_, h.6⟩
  change ((st.service.align st.weight floor).cost.toNat + _ < _)
  rw [cost_align]
  exact h.cost

theorem Undoable.alignOwnService (h : st.Undoable b s c k) (floor : U128) :
    (st.alignOwnService floor).Undoable b s c k := by
  refine ⟨⟨h.based.1, h.based.2.align _ _⟩, h.2, h.3, h.4, h.5, fun hk => ?_⟩
  have := h.unfilled hk
  unfold Fills ScopeState.alignOwnService at *
  rw [cost_align]
  exact this

/-- The release undoes the charge. Only the two statistics still count both. -/
theorem Undoable.release_acquire (h : st.Undoable b s c k) :
    (st.acquire s c k).release b s .undoService c k = { st with
        acquisitions := st.acquisitions.satAdd 1
        releases := st.releases.satAdd 1 } := by
  have hbudget := b.maxConcurrencyPerScope.get.isLt
  have hinFlight : (st.inFlight.satAdd 1).satSub 1 = st.inFlight := by
    have := h.inFlight
    refine BitVec.eq_of_toNat_eq ?_
    rw [BitVec.toNat_satSub, BitVec.toNat_satAdd]
    change min (st.inFlight.toNat + 1) _ - 1 = _
    omega
  have hslot : ∀ {x max : U32}, 0 < x.toNat → x.toNat ≤ max.toNat →
      ((x.satSub 1).satAdd 1).umin max = x := by
    intro x max hpos hle
    have := max.isLt
    refine BitVec.eq_of_toNat_eq ?_
    rw [BitVec.toNat_umin, BitVec.toNat_satAdd, BitVec.toNat_satSub]
    change min (min (x.toNat - 1 + 1) _) _ = _
    omega
  have hserved : k = .service → (st.served.satAdd 1).satSub 1 = st.served := by
    intro hk
    have := h.unfilled hk
    unfold Fills at this
    refine BitVec.eq_of_toNat_eq ?_
    rw [BitVec.toNat_satSub, BitVec.toNat_satAdd]
    change min (st.served.toNat + 1) _ - 1 = _
    omega
  have hown : k = .service ∧ s.isScopedPrimary = true → (st.ownService.charge c).undo c =
      st.ownService := by
    rintro ⟨hk, hs⟩
    exact undo_charge h.based.2 (Nat.lt_of_not_le fun hle => h.unfilled hk (.inr ⟨hs, hle⟩))
  unfold release acquire
  simp only [true_and, if_true, hinFlight, hslot h.permits.1 h.permits.2,
    hslot h.rate.1 h.rate.2, undo_charge h.based.1 h.cost]
  congr 1
  · by_cases hk : k = .service
    · rw [if_pos hk, if_pos hk, hserved hk]
    · rw [if_neg hk, if_neg hk]
  · by_cases hk : k = .service ∧ s.isScopedPrimary = true
    · rw [if_pos hk, if_pos hk, hown hk]
    · rw [if_neg hk, if_neg hk]

/-- Slots never exceed the budget. -/
def Capped (b : FairnessBudget) (st : ScopeState) : Prop :=
  st.permits.toNat ≤ b.maxConcurrencyPerScope.get.toNat ∧
    st.rate.toNat ≤ b.maxRatePerScope.get.toNat

theorem capped_closed (b : FairnessBudget) : ScopeClosed b (Capped b) where
  clock _ _ h := h
  align _ _ h := h
  alignOwn _ _ h := h
  acquire st s c k h := by
    unfold Capped at *
    unfold acquire
    rw [BitVec.toNat_satSub, BitVec.toNat_satSub]
    omega
  release st s r c k h := by
    unfold Capped release
    rw [BitVec.toNat_umin, BitVec.toNat_umin]
    omega
  restore _ _ h := h
  weight st w h := by
    unfold setWeight
    split <;> exact h

end ScopeState

namespace FairnessLedger

variable {l l' l₀ : FairnessLedger} {s : FairScope} {st st' : ScopeState}

/-! ## Both calls -/

/-- The clock of the level that a scope is measured at: a child among the children of its primary,
a primary among the primaries. -/
def levelClock (l : FairnessLedger) (s : FairScope) : U128 :=
  if s.isSecondary then l.childClockAt s.primaryScope else l.serviceClock

/-- What a pair of calls from `l` to `l'` that is credit neutral leaves of the row of a scope: its
slots, counts and costs, and its positions lifted to the clocks of `l'`. -/
structure CreditNeutral (l l' : FairnessLedger) (s : FairScope) (st st' : ScopeState) : Prop where
  inFlight : st'.inFlight = st.inFlight
  permits : st'.permits = st.permits
  rate : st'.rate = st.rate
  served : st'.served = st.served
  cost : st'.service.cost = st.service.cost
  ownCost : st'.ownService.cost = st.ownService.cost
  position : st'.service.position st'.weight (l'.levelClock s) =
    (st.service.position st.weight (l.levelClock s)).umax (l'.levelClock s)
  ownPosition : st'.ownService.position st'.weight st'.childServiceClock =
    (st.ownService.position st.weight st.childServiceClock).umax st'.childServiceClock

theorem checkScope_rate {cost : U16} (h : l.checkScope s cost = .ok ())
    (hst : l.scopes[s]? = some st) : 0 < st.rate.toNat := by
  unfold checkScope at h
  rw [hst] at h
  dsimp only at h
  split at h
  · cases h
  · split at h
    · cases h
    · split at h
      · cases h
      · rename_i hrate
        exact Nat.pos_of_ne_zero fun h0 => hrate (BitVec.eq_of_toNat_eq (by simpa using h0))

/-- A scope that `check_scope` let a charge through can give it back. -/
theorem undoable_of_checkScope {cost : U16} {k : ScopeCharge}
    (hbased : ∀ s st, l.coreAt s = some st → st.Based)
    (hcapped : ∀ s st, l.coreAt s = some st → st.Capped l.budget)
    (hcheck : l.checkScope s cost = .ok ()) (hst : l.scopes[s]? = some st)
    (hfill : k = .service → ¬st.Fills s cost) : st.core.Undoable l.budget s cost k := by
  obtain ⟨st₁, hst₁, hcost, hinFlight, hpermits⟩ := checkScope_ok hcheck
  cases hst.symm.trans hst₁
  have hcap := hcapped s st.core (coreAt_of_get hst)
  have hrate := checkScope_rate hcheck hst
  exact ⟨hbased s st.core (coreAt_of_get hst), hinFlight, ⟨hpermits, hcap.1⟩,
    ⟨hrate, hcap.2⟩, hcost, hfill⟩

section Row

variable {record : CandidateRecord} {g : FairPermitGeneration} {b : FairnessBudget}

theorem giveBack_child (hsec : record.candidate.scope.isSecondary = true) (r : CapacityRelease)
    (st : ScopeState) :
    (record.selection g).permit.giveBack b r record.candidate.scope st =
      st.release b record.candidate.scope r record.candidate.costUnits.get .service := by
  have hne := ne_primaryScope_of_secondary hsec
  have hprimary : (record.selection g).permit.primary = some record.candidate.scope.primaryScope :=
    selection_primary_secondary g hsec
  unfold giveBack
  dsimp only
  rw [hprimary, if_neg (fun h => hne (some.inj h).symm)]
  exact if_pos rfl

theorem giveBack_parent (hsec : record.candidate.scope.isSecondary = true) (r : CapacityRelease)
    (st : ScopeState) :
    (record.selection g).permit.giveBack b r record.candidate.scope.primaryScope st =
      st.release b record.candidate.scope.primaryScope r record.candidate.costUnits.get
        .parentCapacity := by
  have hne := ne_primaryScope_of_secondary hsec
  have hprimary : (record.selection g).permit.primary = some record.candidate.scope.primaryScope :=
    selection_primary_secondary g hsec
  have hscope : record.candidate.scope.primaryScope ≠ (record.selection g).permit.scope := hne.symm
  unfold giveBack
  dsimp only
  rw [hprimary, if_pos rfl, if_neg hscope]
  rfl

theorem giveBack_own (hsec : record.candidate.scope.isSecondary = false) (r : CapacityRelease)
    (st : ScopeState) :
    (record.selection g).permit.giveBack b r record.candidate.scope st =
      st.release b record.candidate.scope r record.candidate.costUnits.get .service := by
  have hprimary : (record.selection g).permit.primary = none :=
    selection_primary_not_secondary g hsec
  unfold giveBack
  dsimp only
  rw [hprimary, if_neg (by simp)]
  exact if_pos rfl

theorem giveBack_none (hs : s ≠ record.candidate.scope)
    (hne : s ≠ record.candidate.scope.primaryScope) (r : CapacityRelease) (st : ScopeState) :
    (record.selection g).permit.giveBack b r s st = st := by
  have hscope : s ≠ (record.selection g).permit.scope := hs
  have hprimary : (record.selection g).permit.primary ≠ some s := by
    intro h
    have hp := selection_primary record g
    change (record.selection g).primary = some s at h
    rw [h] at hp
    exact hne hp
  unfold giveBack
  dsimp only
  rw [if_neg hprimary, if_neg hscope]

end Row

/-- What the two calls do to the ledger, row by row. -/
structure Undoes (l l₀ l' : FairnessLedger) (record : CandidateRecord) (g : FairPermitGeneration)
    (prep : CandidatePreparation) (pass : SelectionPass) : Prop where
  coreAt : ∀ s, l'.coreAt s = (l.coreAt s).map fun st =>
    (record.selection g).permit.giveBack l.budget .undoService s
      (l₀.selectScope (record.selection g) prep pass s st)
  serviceClock : l'.serviceClock = l₀.advancedClock (record.selection g) pass
  serviceClock_le : l.serviceClock.toNat ≤ l'.serviceClock.toNat

section Undoes

variable {record : CandidateRecord} {g : FairPermitGeneration} {prep : CandidatePreparation}
  {pass : SelectionPass}

theorem Undoes.childClockAt_le (h : Undoes l l₀ l' record g prep pass) (s : FairScope) :
    (l.childClockAt s).toNat ≤ (l'.childClockAt s).toNat := by
  rw [childClockAt_eq, childClockAt_eq, h.coreAt]
  cases l.coreAt s with
  | none => exact Nat.le_refl _
  | some st =>
    have hclosed := childClock_closed l.budget st.childServiceClock.toNat
    exact hclosed.giveBack _ _ (hclosed.selectScope _ _ _ _ (Nat.le_refl _))

theorem Undoes.levelClock_le (h : Undoes l l₀ l' record g prep pass) (s : FairScope) :
    (l.levelClock s).toNat ≤ (l'.levelClock s).toNat := by
  unfold levelClock
  split
  · exact h.childClockAt_le _
  · exact h.serviceClock_le

/-- The children of the selected primary were aligned to the child clock that it has now. -/
theorem Undoes.childFloor (h : Undoes l l₀ l' record g prep pass) (hreset : l.UpToReset l₀)
    (hlow : record.candidate.scope.isLowVolume = false) :
    l'.childClockAt record.candidate.scope.primaryScope =
      l₀.childFloor (record.selection g) prep pass := by
  rw [← childClockAt_settleSelection hlow, childClockAt_eq, childClockAt_eq, h.coreAt,
    settleSelection_coreAt, coreAt_upToReset hreset, Option.map_map, Option.map_map]
  congr 2
  funext st
  unfold giveBack
  dsimp only
  split <;> split <;> rfl

/-- The row of every scope is credit neutral. -/
theorem Undoes.creditNeutral (h : Undoes l l₀ l' record g prep pass) (hreset : l.UpToReset l₀)
    (hst : l.coreAt s = some st) (hst' : l'.coreAt s = some st')
    (hown : s = record.candidate.scope →
      st.Undoable l.budget s record.candidate.costUnits.get .service)
    (hparent : record.candidate.scope.isSecondary = true → s = record.candidate.scope.primaryScope →
      st.Undoable l.budget s record.candidate.costUnits.get .parentCapacity) :
    l.CreditNeutral l' s st st' := by
  have hlevel := h.levelClock_le s
  have hrow := h.coreAt s
  rw [hst, hst', map_some, some.injEq] at hrow
  have hchild : st.childServiceClock.toNat ≤ st'.childServiceClock.toNat := by
    have := h.childClockAt_le s
    rwa [childClockAt_eq, childClockAt_eq, hst, hst'] at this
  have hservice := position_of_le (a := st.service) (w := st.weight) hlevel
  have hownService := position_of_le (a := st.ownService) (w := st.weight) hchild
  by_cases hs : s = record.candidate.scope
  · subst hs
    have hund := hown rfl
    cases hlow : record.candidate.scope.isLowVolume with
    | true =>
      rw [selectScope_lowVolume hlow, giveBack_own (isSecondary_of_isLowVolume hlow),
        hund.release_acquire] at hrow
      subst hrow
      exact ⟨rfl, rfl, rfl, rfl, rfl, rfl, hservice, hownService⟩
    | false =>
      have hfloor := h.childFloor hreset hlow
      cases hsec : record.candidate.scope.isSecondary with
      | true =>
        have hclock : l'.childClockAt record.candidate.scope.primaryScope =
            l'.levelClock record.candidate.scope := (if_pos hsec).symm
        rw [selectScope_child hsec, giveBack_child hsec, (hund.alignService _).release_acquire,
          ← hfloor, hclock] at hrow
        subst hrow
        exact ⟨rfl, rfl, rfl, rfl, cost_align, rfl, position_align hlevel, hownService⟩
      | false =>
        -- both accountings are aligned, each to the clock of its level
        have hclock : l'.serviceClock = l'.levelClock record.candidate.scope :=
          (if_neg (by simp [hsec])).symm
        have hclock' : l'.childClockAt record.candidate.scope.primaryScope =
            st'.childServiceClock := by
          rw [primaryScope_of_not_secondary hsec, childClockAt_eq, hst']
          rfl
        rw [selectScope_own hsec hlow, giveBack_own hsec,
          (((hund.advanceChildClock _).alignService _).alignOwnService _).release_acquire,
          ← hfloor, hclock', ← h.serviceClock, hclock] at hrow
        have hposition := position_align (a := st.service) (w := st.weight) hlevel
        have hownPosition :=
          position_align (a := st.ownService) (w := st.weight) hchild
        have hweight : st'.weight = st.weight := (congrArg weight hrow :)
        have hserviceEq : st'.service = st.service.align st.weight _ :=
          (congrArg service hrow :)
        have hownEq : st'.ownService = st.ownService.align st.weight st'.childServiceClock :=
          (congrArg ownService hrow :)
        refine ⟨(congrArg inFlight hrow :), (congrArg permits hrow :),
          (congrArg rate hrow :), (congrArg served hrow :), ?_, ?_, ?_, ?_⟩
        · rw [hserviceEq, cost_align]
        · rw [hownEq, cost_align]
        · rw [hserviceEq, hweight, hposition]
        · rw [hownEq, hweight, hownPosition]
  · by_cases hp : record.candidate.scope.isSecondary = true ∧
        s = record.candidate.scope.primaryScope
    · obtain ⟨hsec, rfl⟩ := hp
      have hclock : l'.serviceClock = l'.levelClock record.candidate.scope.primaryScope :=
        (if_neg (by simp)).symm
      rw [selectScope_parent hsec, giveBack_parent hsec,
        (((hparent hsec rfl).advanceChildClock _).alignService _).release_acquire,
        ← h.serviceClock, hclock] at hrow
      subst hrow
      exact ⟨rfl, rfl, rfl, rfl, cost_align, rfl, position_align hlevel, hownService⟩
    · have hne : s ≠ record.candidate.scope.primaryScope := by
        rintro rfl
        cases hsec : record.candidate.scope.isSecondary with
        | true => exact hp ⟨hsec, rfl⟩
        | false => exact hs (primaryScope_of_not_secondary hsec)
      rw [selectScope_none hs hne, giveBack_none hs hne] at hrow
      subst hrow
      exact ⟨rfl, rfl, rfl, rfl, rfl, rfl, hservice, hownService⟩

end Undoes

/-- The permit of a selection is accepted at once. -/
theorem selectNextDueIn_release (hk : l.Keyed) {now : Timestamp} {eligible : Finset JobId}
    {p : FairPermit} (hselect : (l.selectNextDueIn now eligible).1 = .ok (some p))
    (outcome : FairRelease) :
    (l.selectNextDueIn now eligible).2.release p outcome =
      (.ok (), (l.selectNextDueIn now eligible).2.applySettlement p outcome) := by
  obtain ⟨-, hg, hcurrent⟩ := selectNextDueIn_permit hk (Prod.ext hselect rfl)
  obtain ⟨r, hr, hleased, -⟩ := currentPermit_eq_some.mp hcurrent
  rw [generationAt, hr] at hg
  rw [release, settlePermit, hr]
  exact if_pos ⟨hleased, hg⟩

/-- In every reachable ledger, a selection whose permit is released at once with `Conflict` is
credit neutral for every scope, if it fills neither `served` nor `own_service` of its scope. -/
theorem conflict_credit_neutral {b : FairnessBudget} {l : FairnessLedger}
    (hrun : RunFrom (fun _ _ => True) (.new b) l) {now : Timestamp} {eligible : Finset JobId}
    {p : FairPermit} (hselect : (l.selectNextDueIn now eligible).1 = .ok (some p))
    (hfill : ∀ st, l.scopes[p.scope]? = some st → ¬st.Fills p.scope p.costUnits.get) :
    let released := (l.selectNextDueIn now eligible).2.release p .conflict
    released.1 = .ok () ∧ ∀ (s : FairScope) st, l.scopes[s]? = some st →
      ∃ st', released.2.scopes[s]? = some st' ∧ l.CreditNeutral released.2 s st st' := by
  obtain ⟨hbudget, hbased⟩ := (based_closed b).run (fun _ => ⟨le_rfl, le_rfl⟩) hrun
  obtain ⟨-, hcapped⟩ := (capped_closed b).run (fun _ => ⟨le_rfl, le_rfl⟩) hrun
  obtain ⟨hkeyed, -⟩ : l.WellFormed :=
    hrun.invariant (fun _ _ _ hw _ hst => hw.effect hst.effect) (.new b)
  subst hbudget
  dsimp only
  rw [selectNextDueIn_release hkeyed hselect]
  refine ⟨rfl, fun s st hst => ?_⟩
  have hclock := (apply_effect (l := l) (.select now eligible)).serviceClock_le
  rw [apply] at hclock
  obtain ⟨l₀, hreset, ⟨hno, -⟩ | ⟨record, g, prepared, prep, hch, heq⟩⟩ :=
    selectNextDueIn_cases l now eligible
  · exact absurd hselect (hno p)
  rw [heq] at hselect hclock ⊢
  cases hselect
  dsimp only at hclock ⊢
  -- the checks that the candidate passed were made on the same rows
  have hcheck : l.checkScope record.candidate.scope record.candidate.costUnits.get = .ok () := by
    have := hch.validated.scope
    rcases hreset with rfl | rfl <;> exact this
  have hcheck' : record.candidate.scope.isSecondary = true →
      l.checkScope record.candidate.scope.primaryScope record.candidate.costUnits.get = .ok () := by
    intro hsec
    have := hch.validated.parent _ (if_pos hsec)
    rcases hreset with rfl | rfl <;> exact this
  generalize l.prepareSelectionPass (some now) (some eligible) = pass at *
  have hundoes : Undoes l l₀ ((l₀.settleSelection (record.selection g) prep pass).2.applySettlement
      (record.selection g).permit .conflict) record g prep pass := by
    refine ⟨fun s => ?_, ?_, ?_⟩
    · rw [applySettlement_coreAt, settleSelection_coreAt, settleSelection_frame.2.1,
        coreAt_upToReset hreset, hreset.budget, Option.map_map]
      rfl
    · rw [applySettlement_frame.2.2, settleSelection_frame.2.2.2]
    · rw [applySettlement_frame.2.2]
      exact hclock
  have hrow := hundoes.coreAt s
  rw [coreAt_of_get hst, Option.map_some] at hrow
  obtain ⟨st', hst', hcore⟩ := coreAt_eq_some hrow
  have hneutral := hundoes.creditNeutral hreset (coreAt_of_get hst) (coreAt_of_get hst') (by
      rintro rfl
      exact undoable_of_checkScope hbased hcapped hcheck hst fun _ => hfill st hst)
    (by
      rintro hsec rfl
      exact undoable_of_checkScope hbased hcapped (hcheck' hsec) hst (by simp))
  exact ⟨st', hst', hneutral.1, hneutral.2, hneutral.3, hneutral.4, hneutral.5, hneutral.6,
    hneutral.7, hneutral.8⟩

theorem conflict_credit_neutral_sample :
    let released := (windowSample.selectNextDueIn ⟨5⟩ {.repeated 1}).2.release (.plain 1 7) .conflict
    released.1 = .ok () ∧ ∃ st st', windowSample.scopes[FairScope.scoped (.single 7) none]? = some st ∧
      released.2.scopes[FairScope.scoped (.single 7) none]? = some st' ∧
      windowSample.CreditNeutral released.2 (.scoped (.single 7) none) st st' := by
  have hrun : RunFrom (fun _ _ => True) (.new .tiny) windowSample :=
    .single (a := .add (.plain 1 7)) trivial rfl
  obtain ⟨st, hst, hserved, hown⟩ :
      ∃ st, windowSample.scopes[FairScope.scoped (.single 7) none]? = some st ∧
        st.served = 0 ∧ st.ownService.cost = 0 := by
    have hany : windowSample.scopes[FairScope.scoped (.single 7) none]?.any (fun st =>
        st.served = 0 && st.ownService.cost = 0) = true := by decide +kernel
    simpa [Option.any_eq_true] using hany
  have hselect : (windowSample.selectNextDueIn ⟨5⟩ {.repeated 1}).1 = .ok (some (.plain 1 7)) := by
    decide +kernel
  have hfill : ∀ st, windowSample.scopes[(plain 1 7).scope]? = some st →
      ¬st.Fills (plain 1 7).scope (plain 1 7).costUnits.get := by
    intro st₁ hst₁
    cases hst.symm.trans hst₁
    simp [ScopeState.Fills, hserved, hown, plain]
  obtain ⟨hok, hall⟩ := conflict_credit_neutral hrun hselect hfill
  obtain ⟨st', hst', hneutral⟩ := hall _ st hst
  exact ⟨hok, st, st', hst, hst', hneutral⟩

/-! ## A candidate that is alone -/

section Sole

variable {j : JobId} {record : CandidateRecord} {g : FairPermitGeneration} {now : Timestamp}
  {prepared : PreparedCandidate} {prep : CandidatePreparation}

theorem Validated.validateCandidate (h : l.Validated j record g) :
    l.validateCandidate j = .ok (record.candidate, g) := by
  have hparent : l.checkParentScope record.candidate.scope record.candidate.costUnits.get =
      .ok () := by
    unfold checkParentScope
    cases hp : record.candidate.scope.parent with
    | none => rfl
    | some primary => exact h.parent primary hp
  have hpayload : ¬l.budget.maxPayloadBytes.get < record.candidate.payloadBytes :=
    Nat.not_lt.mpr h.payload
  unfold FairnessLedger.validateCandidate
  rw [h.get]
  dsimp only
  rw [if_neg (by simp [h.ready]), h.unblocked]
  dsimp only
  rw [if_neg hpayload, h.generation, h.scope, hparent, h.order]
  rfl

/-- A candidate whose scopes are in the ledger can be measured. -/
theorem Validated.metrics (h : l.Validated j record g) :
    ∃ metrics, l.candidateServiceMetrics record.candidate l.preparePrimaryStats = .ok metrics := by
  obtain ⟨st, hst, -⟩ := checkScope_ok h.scope
  obtain ⟨primary, hprimary⟩ :
      ∃ primary, l.scopes[record.candidate.scope.primaryScope]? = some primary := by
    cases hsec : record.candidate.scope.isSecondary with
    | true =>
      obtain ⟨primary, hprimary, -⟩ := checkScope_ok (h.parent _ (if_pos hsec))
      exact ⟨primary, hprimary⟩
    | false =>
      rw [primaryScope_of_not_secondary hsec]
      exact ⟨st, hst⟩
  obtain ⟨i, hi⟩ : ∃ i, l.primaries.idxOf? record.candidate.scope.primaryScope = some i := by
    refine isSome_iff_exists.mp ?_
    rw [isSome_idxOf?, primaries, mem_filter, Std.ExtTreeMap.mem_keys,
      Std.ExtTreeMap.mem_iff_isSome_getElem?, hprimary]
    exact ⟨rfl, by simp⟩
  obtain ⟨stats, hstats⟩ : ∃ stats, l.preparePrimaryStats[i]? = some stats := by
    obtain ⟨hlt, -⟩ := idxOf?_eq_some_iff.mp hi
    exact ⟨_, getElem?_eq_getElem (by rw [preparePrimaryStats, length_map]; exact hlt)⟩
  unfold candidateServiceMetrics
  simp only [parent_getD, hi, hprimary, hstats, hst]
  exact ⟨_, rfl⟩

/-- The entry of a validated candidate that is due. -/
theorem Validated.entry (hk : l.Keyed) (h : l.Validated j record g)
    (hdue : record.candidate.scheduledAt ≤ now) :
    ∃ prepared ∈ (l.prepareSelectionPass (some now) (some {j})).candidates, ∃ prep,
      prepared.ready = true ∧ prepared.due = true ∧ prepared.preparation = .ok prep := by
  obtain ⟨metrics, hmetrics⟩ := h.metrics
  have hjob := hk j record h.get
  have hin : decide (record.candidate.jobId ∈ ({j} : Finset JobId)) = true := by simp [hjob]
  have hentry : (l.passEntry (some now) (some {j}) record).preparation =
      .ok ⟨record.candidate.facts, metrics⟩ := by
    unfold passEntry prepareCandidateEntry
    dsimp only [all_some]
    rw [if_pos hin, prepareCandidateForPass_congr (recordReadyCandidate_sameService _ _),
      prepareCandidateForPass, hjob, h.validateCandidate]
    change (l.candidateServiceMetrics record.candidate _ >>= _) = _
    rw [hmetrics]
    rfl
  have hmem : record ∈ l.candidates.values := by
    rw [values_eq]
    exact mem_map_of_mem (f := (·.2)) (a := (j, record)) (mem_toList.mpr h.get)
  obtain ⟨stats, hstats⟩ : ∃ stats, (l.prepareSelectionPass (some now) (some {j})).candidates =
      (l.candidates.values.map (l.passEntry (some now) (some {j}))).map
        (attachCandidateCounts stats) := by
    unfold prepareSelectionPass
    dsimp only
    rw [prepareCandidates_fst rfl]
    exact ⟨_, rfl⟩
  obtain ⟨-, hready, hdue'⟩ :=
    attachCandidateCounts_frame stats (l.passEntry (some now) (some {j}) record)
  obtain ⟨prep, hprep⟩ := attachCandidateCounts_of_ok stats hentry
  refine ⟨_, hstats ▸ mem_map_of_mem (mem_map_of_mem hmem), prep, ?_, ?_, hprep⟩
  · rw [hready]
    exact Bool.and_eq_true_iff.mpr ⟨hin, h.ready⟩
  · rw [hdue']
    exact Bool.and_eq_true_iff.mpr ⟨hin, decide_eq_true hdue⟩

/-- The ready entries of a pass over one job are all about its candidate. -/
theorem Validated.sole (h : l.Validated j record g)
    (hmem : prepared ∈ (l.prepareSelectionPass (some now) (some {j})).candidates)
    (hready : prepared.ready = true) (hp : prepared.preparation = .ok prep) :
    prep.facts = record.candidate.facts ∧
      l.primaries.idxOf? record.candidate.scope.primaryScope = some prep.metrics.primaryIndex := by
  obtain ⟨c, g', st, hv, hfacts, hm⟩ := prepareSelectionPass_measures hmem hp
  rw [Finset.mem_singleton.mp (mem_of_ready hmem hready), h.validateCandidate] at hv
  cases hv
  exact ⟨hfacts, hm.index⟩

/-- Without another eligible primary there is nothing to be ahead of. -/
theorem Validated.normalized (h : l.Validated j record g)
    (hmem : prepared ∈ (l.prepareSelectionPass (some now) (some {j})).candidates)
    (hready : prepared.ready = true) (hp : prepared.preparation = .ok prep) :
    l.checkNormalizedAdmission prep (l.prepareSelectionPass (some now) (some {j})) = .ok () := by
  obtain ⟨xs, hsum, hxs⟩ := serviceExtrema_summarises l (some now) (some {j})
  have hself := (h.sole hmem hready hp).2
  have hothers : ∀ x ∈ xs, x.1 = prep.metrics.primaryIndex := by
    rintro ⟨i, v⟩ hx
    obtain ⟨prepared', prep', he, rfl, -⟩ := (hxs i v).mp hx
    exact some.inj ((h.sole he.mem he.ready he.prepared).2.symm.trans hself)
  have hlow : ∀ {β : Type} [LinearOrder β] {f : U128 → β} {t : TwoLeast Nat U128},
      t.Tracks f xs → t.except prep.metrics.primaryIndex = none := by
    intro β _ f t ht
    cases hleast : t.except prep.metrics.primaryIndex with
    | none => rfl
    | some v =>
      obtain ⟨i, hx, hne⟩ := (ht.except prep.metrics.primaryIndex).mem v hleast
      exact absurd (hothers (i, v) hx) hne
  unfold checkNormalizedAdmission
  split
  · rfl
  · rw [if_pos]
    unfold ServiceExtrema.allows
    rw [ServiceExtrema.minimumExcept_eq, ServiceExtrema.maximumExcept_eq, hlow hsum.lows,
      hlow hsum.highs]
    simp

/-- A candidate of cost one that is alone, valid and due is selected, whatever the windows. -/
theorem Validated.selected {k : Nat} (hk : l.Keyed) (hstep : l.priority.InStep k)
    (h : l.Validated j record g) (hdue : record.candidate.scheduledAt ≤ now)
    (hcost : record.candidate.costUnits.get.toNat = 1) :
    ∃ p, (l.selectNextDueIn now {j}).1 = .ok (some p) := by
  obtain ⟨prepared, hmem, prep, hready, hdue', hp⟩ := h.entry hk hdue
  have hone : ∀ {prepared prep},
      l.Qualifies (l.prepareSelectionPass (some now) (some {j})) prepared prep →
        prep.facts.costUnits.get.toNat = 1 := by
    intro prepared prep hq
    rw [(h.sole hq.mem hq.ready hq.prepared).1]
    exact hcost
  have hqualifies : l.Qualifies (l.prepareSelectionPass (some now) (some {j})) prepared prep := by
    refine ⟨hmem, hready, hdue', hp, ?_, h.normalized hmem hready hp⟩
    rw [(h.sole hmem hready hp).1, BitVec.le_def]
    exact hcost.le.trans l.budget.maxCostUnits.pos
  have hshare : ∀ lane : Priority, 1 ≤ lane.laneWeight.toNat := by
    intro lane
    cases lane <;> decide
  have hrep := repeats_upToReset (l := l) (some now) (some {j}) (.inl rfl)
  have hrep' := repeats_upToReset (l := l) (some now) (some {j}) (.inr rfl)
  unfold selectNextDueIn
  by_cases hroom : ∃ prepared prep,
      l.Qualifies (l.prepareSelectionPass (some now) (some {j})) prepared prep ∧ l.HasRoom prep
  · obtain ⟨p, l', hloop⟩ := selectLoop_found hstep hrep hroom 1
    exact ⟨p, by rw [hloop]; rfl⟩
  · -- its lane is exhausted, and a new window has room for it
    have hexhausted : ∀ prepared prep,
        l.Qualifies (l.prepareSelectionPass (some now) (some {j})) prepared prep →
          l.Exhausted prep := by
      intro prepared prep hq
      have hfull : ¬l.HasRoom prep := fun hr => hroom ⟨prepared, prep, hq, hr⟩
      unfold HasRoom at hfull
      unfold Exhausted
      rw [hone hq] at hfull
      omega
    rcases selectLoop_reset hstep ⟨prepared, prep, hqualifies⟩ hroom 1 with ⟨-, hloop⟩ | ⟨hnot, -⟩
    · have hfits : l.resetPriorityWindow.HasRoom prep := by
        rw [hasRoom_resetPriorityWindow, hone hqualifies]
        exact hshare _
      obtain ⟨p, l', hfound⟩ := selectLoop_found (k := 0) .init hrep'
        ⟨prepared, prep, qualifies_resetPriorityWindow.mpr hqualifies, hfits⟩ 0
      exact ⟨p, by rw [hloop, hfound]; rfl⟩
    · exact absurd hexhausted hnot

end Sole

/-! ## Counters that are full -/

/-- The primary of `FairCandidateInput.plain 1 7`. -/
def worked : FairScope := .scoped (.single 7) none

/-- A row without leases whose `served` and `own_service` are one ahead of `service`. -/
structure Ahead (n : Nat) (st : ScopeState) : Prop where
  block : st.block = none
  mode : st.mode ≠ .lowVolume
  inFlight : st.inFlight = 0
  permits : st.permits = 1
  rate : st.rate = 4
  cost : st.service.cost.toNat = n
  served : st.served.toNat = n + 1
  ownCost : st.ownService.cost.toNat = n + 1

/-- A ledger without candidates and with such a row. -/
structure Parked (n : Nat) (l : FairnessLedger) : Prop where
  run : RunFrom (fun _ _ => True) (.new .tiny) l
  empty : l.candidates = ∅
  row : ∃ st, l.coreAt worked = some st ∧ Ahead n st

/-- A claim of the only job of the primary. -/
def claim (l : FairnessLedger) : Except FairnessRejection (Option FairPermit) × FairnessLedger :=
  (l.apply (.add (.plain 1 7))).selectNextDueIn ⟨8⟩ {.repeated 1}

/-- A child of the primary 7 is selected, and its permit kept. The job is forgotten together with
its scopes, works for the primary once, and then for another primary under the same permit
generation. The old permit now takes a unit of `service` from the primary 7, which has only the
unit of its own work. -/
def aheadOps : List LedgerOp :=
  let child : FairCandidateInput :=
    { FairCandidateInput.plain 2 7 with fairness := .scoped ⟨.single 7, some (.single 5)⟩ }
  let permit : FairPermit :=
    { FairPermit.plain 2 7 with
      scope := .scoped (.single 7) (some (.single 5)), primary := some worked }
  [.add child, .select ⟨8⟩ {.repeated 2}, .reconcile (.repeated 2) ⟨0⟩, .remove (.repeated 2),
    .compact (.repeated 2), .compactScopes,
    .add (.plain 1 7), .select ⟨8⟩ {.repeated 1}, .release (.plain 1 7) .complete,
    .compact (.repeated 1),
    .add (.plain 2 8), .select ⟨8⟩ {.repeated 2}, .release permit .conflict, .remove (.repeated 2),
    .compact (.repeated 2)]

theorem parked_aheadOps : Parked 0 (aheadOps.foldl apply (.new .tiny)) := by
  have hall : ((aheadOps.foldl apply (.new .tiny)).coreAt worked).any (fun st =>
      st.block = none && st.mode ≠ .lowVolume && st.inFlight = 0 && st.permits = 1 && st.rate = 4 &&
        st.service.cost.toNat = 0 && st.served.toNat = 1 && st.ownService.cost.toNat = 1) = true := by
    decide +kernel
  refine ⟨.ofList (by decide +kernel), by decide +kernel, ?_⟩
  obtain ⟨st, hst, hrow⟩ := (any_eq_true _ _).mp hall
  simp only [Bool.and_eq_true, decide_eq_true_eq] at hrow
  obtain ⟨⟨⟨⟨⟨⟨⟨hblock, hmode⟩, hinFlight⟩, hpermits⟩, hrate⟩, hcost⟩, hserved⟩, hown⟩ := hrow
  exact ⟨st, hst, hblock, hmode, hinFlight, hpermits, hrate, hcost, hserved, hown⟩

section Claim

variable {n : Nat}

/-- The record of the job that works for the primary. -/
def workRecord : CandidateRecord :=
  .scheduled {
    jobId := .repeated 1
    scope := worked
    priority := .critical
    costUnits := (FairCandidateInput.plain 1 7).costUnits
    scheduledAt := ⟨0⟩
    payloadBytes := 0
    orderingKey := none
    orderingPosition := 0
    block := none }

theorem Parked.add (h : Parked n l) :
    l.apply (.add (.plain 1 7)) = l.putCandidate workRecord none .advanceOrder := by
  rcases addCandidate_cases l (.plain 1 7) with ⟨e, he⟩ | ⟨c, hc, -, -, hadd⟩
  · have hcontains : l.candidates.contains (.repeated 1) = false := by
      rw [h.empty]
      rfl
    have hok : FairCandidate.tryFrom (.plain 1 7) = .ok workRecord.candidate := rfl
    rw [addCandidate, hok] at he
    dsimp only at he
    rw [show workRecord.candidate.jobId = .repeated 1 from rfl, hcontains,
      if_neg Bool.false_ne_true] at he
    cases congrArg Prod.fst he
  · cases hc
    exact congrArg Prod.snd hadd

theorem Ahead.checkScope {st : ScopeState} (h : Ahead n st) (hn : n + 1 < 2 ^ 64)
    (hb : l.budget = .tiny) (hst : l.coreAt worked = some st) :
    l.checkScope worked workRecord.candidate.costUnits.get = .ok () := by
  obtain ⟨st, hget, rfl⟩ := coreAt_eq_some hst
  have hblock : st.block = none := h.block
  have hmode : st.mode ≠ .lowVolume := h.mode
  have hrate : st.rate = 4 := h.rate
  have hpermits : st.permits = 1 := h.permits
  have hinFlight : st.inFlight = 0 := h.inFlight
  have hcost : st.service.cost.toNat = n := h.cost
  unfold FairnessLedger.checkScope
  rw [hget]
  dsimp only
  rw [hblock]
  dsimp only
  rw [if_neg, if_neg (by rw [hrate]; decide), if_neg (by simp [hmode])]
  rw [BitVec.checkedAdd_eq_none, hcost, hpermits, hinFlight, hb, not_or, not_or]
  refine ⟨?_, by decide, by decide⟩
  change ¬2 ^ 64 ≤ n + 1
  omega

theorem Parked.row_put (h : Parked n l) :
    (l.putCandidate workRecord none .advanceOrder).coreAt worked = l.coreAt worked := by
  obtain ⟨st, hst, -⟩ := h.row
  rw [putCandidate_coreAt, if_pos (by decide), hst]
  rfl

theorem Parked.budget (h : Parked n l) : l.budget = .tiny :=
  h.run.invariant (I := fun l => l.budget = .tiny)
    (fun _ _ _ hb _ hst => hst.effect.budget.trans hb) rfl

theorem Parked.validated (h : Parked n l) (hn : n + 1 < 2 ^ 64) :
    (l.putCandidate workRecord none .advanceOrder).Validated (.repeated 1) workRecord .first := by
  obtain ⟨st, hst, hrow⟩ := h.row
  have hbudget : (l.putCandidate workRecord none .advanceOrder).budget = .tiny :=
    putCandidate_frame.1.trans h.budget
  have hparent : workRecord.candidate.scope.parent = none := rfl
  refine ⟨?_, rfl, rfl, ?_, rfl, hrow.checkScope hn hbudget (h.row_put.trans hst),
    by simp [hparent], rfl⟩
  · rw [putCandidate_candidates]
    exact get_insert_self
  · rw [hbudget]
    decide

theorem Ahead.aligned {st : ScopeState} (h : Ahead n st) (m clock floor : U128) :
    Ahead n (((st.advanceChildClock m).alignService clock).alignOwnService floor) := by
  refine ⟨h.1, h.2, h.3, h.4, h.5, ?_, h.7, ?_⟩
  · exact (congrArg BitVec.toNat cost_align).trans h.cost
  · exact (congrArg BitVec.toNat cost_align).trans h.ownCost

/-- The claim succeeds: the row is aligned and charged, and only the job of the claim is there. -/
theorem Parked.claim (h : Parked n l) (hn : n + 1 < 2 ^ 64) :
    ∃ p st, l.claim.1 = .ok (some p) ∧ Ahead n st ∧
      ∀ r : FairRelease, ∃ record, (l.claim.2.release p r).1 = .ok () ∧
        (l.claim.2.release p r).2.coreAt worked = some ((st.acquire worked 1 .service).release .tiny
          worked r.capacityRelease 1 .service) ∧
        (∀ j : JobId, j ≠ .repeated 1 → (l.claim.2.release p r).2.candidates[j]? = none) ∧
        (l.claim.2.release p r).2.candidates[(.repeated 1 : JobId)]? = some record ∧
        record.state = r.state := by
  have hadd := h.add
  have hrun := h.run.tail (a := .add (.plain 1 7)) trivial rfl
  rw [hadd] at hrun
  obtain ⟨hkeyed, -⟩ : (l.putCandidate workRecord none .advanceOrder).WellFormed :=
    hrun.invariant (fun _ _ _ hw _ hst => hw.effect hst.effect) (.new .tiny)
  obtain ⟨k, hk⟩ := inStep_run hrun
  obtain ⟨st, hst, hrow⟩ := h.row
  have hbudget : (l.putCandidate workRecord none .advanceOrder).budget = .tiny :=
    putCandidate_frame.1.trans h.budget
  have hval := h.validated hn
  have hcore := h.row_put.trans hst
  have hothers : ∀ j : JobId, j ≠ .repeated 1 →
      (l.putCandidate workRecord none .advanceOrder).candidates[j]? = none := by
    intro j hj
    rw [putCandidate_candidates, get_insert]
    rw [if_neg (show j ≠ workRecord.candidate.jobId from hj), h.empty]
    simp
  unfold FairnessLedger.claim
  rw [hadd]
  generalize l.putCandidate workRecord none .advanceOrder = l₁ at *
  obtain ⟨p, hp⟩ : ∃ p, (l₁.selectNextDueIn ⟨8⟩ {.repeated 1}).1 = .ok (some p) :=
    hval.selected hkeyed hk (by decide) rfl
  obtain ⟨l₀, hreset, ⟨hno, -⟩ | ⟨record, g, prepared, prep, hch, heq⟩⟩ :=
    selectNextDueIn_cases l₁ ⟨8⟩ {.repeated 1}
  · exact absurd hp (hno p)
  have hjob := Finset.mem_singleton.mp (mem_of_ready hch.mem hch.admissible.ready)
  have hget := hch.validated.get
  rw [hjob] at hget
  obtain ⟨m, hm⟩ := hreset.get hget
  have hcandidate : record.candidate = workRecord.candidate := by
    have := hval.get.symm.trans hm
    exact (congrArg CandidateRecord.candidate (some.inj this)).symm
  refine ⟨p, _, hp, hrow.aligned prep.childMinimum
    (l₀.advancedClock (record.selection g) (l₁.prepareSelectionPass (some ⟨8⟩) (some {.repeated 1})))
    (l₀.childFloor (record.selection g) prep
      (l₁.prepareSelectionPass (some ⟨8⟩) (some {.repeated 1}))), fun r => ?_⟩
  rw [selectNextDueIn_release hkeyed hp]
  have hscope : record.candidate.scope = worked := congrArg FairCandidate.scope hcandidate
  have hcost : record.candidate.costUnits.get = 1 :=
    congrArg (fun c => c.costUnits.get) hcandidate
  rw [heq] at hp ⊢
  cases hp
  have hsec : record.candidate.scope.isSecondary = false := by rw [hscope]; rfl
  have hlow : record.candidate.scope.isLowVolume = false := by rw [hscope]; rfl
  have hjob' : record.candidate.jobId = .repeated 1 := congrArg FairCandidate.jobId hcandidate
  have hleased : ((l₀.settleSelection (record.selection g) prep (l₁.prepareSelectionPass (some ⟨8⟩)
      (some {.repeated 1}))).2.candidates.modify (.repeated 1) fun record =>
        { record with state := r.state })[(.repeated 1 : JobId)]? =
      some { record.leased g with state := r.state } := by
    rw [settleSelection_candidates]
    refine get_modify_self (l := { l₀ with candidates := l₀.candidates.modify _ _ }) ?_
    change (l₀.candidates.modify record.candidate.jobId _)[_]? = _
    rw [hjob']
    exact get_modify_self hget
  refine ⟨{ record.leased g with state := r.state }, rfl, ?_, fun j hj => ?_, ?_, rfl⟩
  · dsimp only
    rw [applySettlement_coreAt, settleSelection_coreAt, coreAt_upToReset hreset, hcore,
      settleSelection_frame.2.1, hreset.budget, hbudget, map_some, map_some, ← hscope,
      selectScope_own hsec hlow, giveBack_own hsec, hcost]
  · have hnone : l₀.candidates[j]? = none := by
      cases hj₀ : l₀.candidates[j]? with
      | none => rfl
      | some r' =>
        obtain ⟨m', hm'⟩ := hreset.get hj₀
        rw [hothers j hj] at hm'
        cases hm'
    dsimp only
    rw [applySettlement_candidates, settleSelection_candidates]
    change ((l₀.candidates.modify record.candidate.jobId _).modify record.candidate.jobId _)[j]? = _
    rw [hjob', get_modify, get_modify, hnone]
    simp
  · dsimp only
    rw [applySettlement_candidates]
    change ((l₀.settleSelection _ _ _).2.candidates.modify record.candidate.jobId _)[_]? = _
    rw [hjob']
    exact hleased

/-- Work that completes leaves the row as far ahead as it was. -/
theorem Ahead.cycle {st : ScopeState} (h : Ahead n st) (hn : n + 2 < 2 ^ 64) :
    Ahead (n + 1) ((st.acquire worked 1 .service).release .tiny worked .restoreRate 1 .service) := by
  have hadd : ∀ {x : U64} {m : Nat}, x.toNat = m → m + 1 < 2 ^ 64 → (x.satAdd 1).toNat = m + 1 := by
    intro x m hx hm
    rw [BitVec.toNat_satAdd, hx]
    exact Nat.min_eq_left (by change m + 1 ≤ 2 ^ 64 - 1; omega)
  have hslots : ((st.permits.satSub 1).satAdd 1).umin 1 = 1 := by rw [h.permits]; decide
  have hrate : ((st.rate.satSub 1).satAdd 1).umin 4 = 4 := by rw [h.rate]; decide
  have hinFlight : (st.inFlight.satAdd 1).satSub 1 = 0 := by rw [h.inFlight]; decide
  exact ⟨h.block, h.mode, hinFlight, hslots, hrate, hadd h.cost (by omega), hadd h.served hn,
    hadd h.ownCost hn⟩

theorem Parked.cycle (h : Parked n l) (hn : n + 2 < 2 ^ 64) : ∃ l', Parked (n + 1) l' := by
  obtain ⟨p, st, -, hrow, hrelease⟩ := h.claim (by omega)
  obtain ⟨record, -, hcore, hothers, hget, hstate⟩ := hrelease .complete
  have hadded := h.run.tail (a := .add (.plain 1 7)) trivial rfl
  have hselected := hadded.tail (a := .select ⟨8⟩ {.repeated 1}) trivial rfl
  have hrun : RunFrom (fun _ _ => True) (.new .tiny) (l.claim.2.release p .complete).2 :=
    hselected.tail (a := .release p .complete) trivial rfl
  have hcompact : (l.claim.2.release p .complete).2.apply (.compact (.repeated 1)) =
      (l.claim.2.release p .complete).2.dropCandidate (.repeated 1) record := by
    rw [apply, compactCandidate, hget]
    dsimp only
    rw [if_pos (by rw [hstate]; rfl)]
  refine ⟨_, hrun.tail (a := .compact (.repeated 1)) trivial rfl, ?_, ?_⟩
  · rw [hcompact, dropCandidate_frame.2.1]
    refine Std.ExtTreeMap.ext_getElem? fun j => ?_
    rw [get_erase]
    split
    · simp
    · rename_i hj
      rw [hothers j hj]
      simp
  · rw [hcompact, dropCandidate_coreAt]
    exact ⟨_, hcore, hrow.cycle hn⟩

theorem exists_parked (hn : n + 1 < 2 ^ 64) : ∃ l, Parked n l := by
  induction n with
  | zero => exact ⟨_, parked_aheadOps⟩
  | succ n ih =>
    obtain ⟨l, hl⟩ := ih (by omega)
    exact hl.cycle hn

/-- After `2 ^ 64 - 1` acquisitions of a primary whose `service` an old permit has set back by one,
the next selection is still let through. `served` and the cost of `own_service` do not move any
more, and the release with `Conflict` takes one off them. -/
theorem conflict_lowers_full_counters :
    ∃ (l : FairnessLedger) (p : FairPermit) (st st' : ScopeState),
      RunFrom (fun _ _ => True) (.new .tiny) l ∧
      (l.selectNextDueIn ⟨8⟩ {.repeated 1}).1 = .ok (some p) ∧ l.scopes[worked]? = some st ∧
      ((l.selectNextDueIn ⟨8⟩ {.repeated 1}).2.release p .conflict).2.scopes[worked]? = some st' ∧
      st.served.toNat = 2 ^ 64 - 1 ∧ st'.served.toNat = 2 ^ 64 - 2 ∧
      st.ownService.cost.toNat = 2 ^ 64 - 1 ∧ st'.ownService.cost.toNat = 2 ^ 64 - 2 := by
  obtain ⟨l, hl⟩ := exists_parked (n := 2 ^ 64 - 2) (by decide)
  obtain ⟨p, aligned, hp, hahead, hrelease⟩ := hl.claim (by decide)
  obtain ⟨-, -, hcore, -⟩ := hrelease .conflict
  obtain ⟨st', hst', heq⟩ := coreAt_eq_some hcore
  obtain ⟨row, hrow, hahead₀⟩ := hl.row
  have hput := hl.row_put
  rw [← hl.add, hrow] at hput
  obtain ⟨st, hst, rfl⟩ := coreAt_eq_some hput
  have hback : ∀ {x : U64}, x.toNat = 2 ^ 64 - 2 + 1 → ((x.satAdd 1).satSub 1).toNat = 2 ^ 64 - 2 := by
    intro x hx
    rw [BitVec.toNat_satSub, BitVec.toNat_satAdd, hx]
    decide
  have hserved : st'.served = (aligned.served.satAdd 1).satSub 1 := congrArg served heq
  have hown : st'.ownService.cost = (aligned.ownService.cost.satAdd 1).satSub 1 :=
    congrArg (fun st : ScopeState => st.ownService.cost) heq
  refine ⟨_, p, st, st', hl.run.tail (a := .add (.plain 1 7)) trivial rfl, hp, hst, hst',
    hahead₀.served, ?_, hahead₀.ownCost, ?_⟩
  · rw [hserved, hback hahead.served]
  · rw [hown, hback hahead.ownCost]

end Claim

end FairnessLedger

end AuxCommon
