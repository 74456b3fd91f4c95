import AuxCommon.Fairness.Charges

/-!
# Idle scopes bank no credit

Before a selection charges a scope, it lifts the scope to the clock of its level: a primary to the
service clock, a child (and a primary's own service among its children) to the child clock of the
primary. The clocks only move forward, so a scope that was idle, or is new, is charged from a
position that is not behind the clock of its return, and from there on it obtains no more service
in a row than a scope that joins at that moment with the same weight (`no_banked_credit`).

The child clock lives in the row of its primary. `compact_empty_scopes` drops the row of an empty
primary, and with it the clock and the positions of the children: a primary that comes back starts
again at zero. The low-volume scope has no place on the time line at all.

* `ScopeClosed.effect`: what the updates of one scope keep, every call keeps.
* `ServiceAccounting.Covers`: one accounting never falls behind another, whatever both are charged.
-/

namespace AuxCommon

open Option BitVec CandidateSelection FairPermit ServiceAccounting Nat FairnessLedger

/-! ## Service in a row -/

namespace ServiceAccounting

variable {a n : ServiceAccounting} {w : NonZero 16} {c : U16}

/-- The accounting does not start from a cost that it has not reached. -/
def Based (a : ServiceAccounting) : Prop := a.baseCost.toNat ≤ a.cost.toNat

theorem Based.align (h : a.Based) (w : NonZero 16) (floor : U128) : (a.align w floor).Based := by
  unfold ServiceAccounting.align
  split
  · exact le_refl _
  · exact h

theorem Based.reweight (a : ServiceAccounting) (w : NonZero 16) : (a.reweight w).Based :=
  le_refl _

theorem Based.charge (h : a.Based) (c : U16) : (a.charge c).Based := by
  unfold Based at h
  unfold Based ServiceAccounting.charge
  rw [toNat_satAdd]
  change a.baseCost.toNat ≤ _
  omega

theorem Based.undo (a : ServiceAccounting) (c : U16) : (a.undo c).Based := by
  unfold Based ServiceAccounting.undo
  rw [toNat_umin]
  exact min_le_right _ _

/-- Where the scope stands after `k` more units of cost. -/
def posAfter (a : ServiceAccounting) (w : NonZero 16) (k : Nat) : Nat :=
  min (a.origin.toNat + (a.cost.toNat - a.baseCost.toNat + k) * 2 / w.get.toNat) (2 ^ 128 - 1)

theorem posAfter_charge (h : a.Based) (hcost : a.cost.toNat + c.toNat < 2 ^ 64) (k : Nat) :
    (a.charge c).posAfter w k = a.posAfter w (c.toNat + k) := by
  have hgain : (a.charge c).cost.toNat - (a.charge c).baseCost.toNat + k =
      a.cost.toNat - a.baseCost.toNat + (c.toNat + k) := by
    unfold Based at h
    unfold charge
    rw [toNat_satAdd, toNat_widen (by decide)]
    change min _ _ - a.baseCost.toNat + k = _
    omega
  rw [posAfter, hgain]
  rfl

/-- The costs that a scope is charged in a row, each one within the cost counter (which
`check_scope` looks at), before it stands beyond `limit`. -/
def Obtains (w : NonZero 16) (limit : Nat) : ServiceAccounting → List U16 → Prop
  | _, [] => True
  | a, c :: costs => a.cost.toNat + c.toNat < 2 ^ 64 ∧ (a.charge c).pos w ≤ limit ∧
      Obtains w limit (a.charge c) costs

/-- `a` has been charged at least as much as `n` and never stands behind it. -/
structure Covers (w : NonZero 16) (a n : ServiceAccounting) : Prop where
  based : a.Based
  based' : n.Based
  cost : n.cost.toNat ≤ a.cost.toNat
  pos : ∀ k, n.posAfter w k ≤ a.posAfter w k

theorem Covers.charge (h : Covers w a n) (hcost : a.cost.toNat + c.toNat < 2 ^ 64) :
    Covers w (a.charge c) (n.charge c) where
  based := h.based.charge c
  based' := h.based'.charge c
  cost := by
    have := h.cost
    unfold ServiceAccounting.charge
    rw [toNat_satAdd, toNat_satAdd]
    omega
  pos k := by
    have := h.cost
    rw [posAfter_charge h.based hcost, posAfter_charge h.based' (by omega)]
    exact h.pos _

theorem Covers.obtains (h : Covers w a n) {limit : Nat} {costs : List U16}
    (ha : Obtains w limit a costs) : Obtains w limit n costs := by
  induction costs generalizing a n with
  | nil => trivial
  | cons c costs ih =>
    obtain ⟨hcost, hpos, hrest⟩ := ha
    have hle := h.cost
    refine ⟨by omega, ?_, ih (h.charge hcost) hrest⟩
    exact ((h.charge hcost).pos 0).trans hpos

/-- A scope that is lifted to a clock covers a new one that joins at that clock. -/
theorem Covers.join (h : a.Based) (clock : U128) :
    Covers w (a.align w clock) (({} : ServiceAccounting).align w clock) := by
  have hpos := pos_align a w clock
  have hcost : (({} : ServiceAccounting).align w clock).cost = 0 := by
    unfold ServiceAccounting.align
    split <;> rfl
  have hnew : ∀ k, (({} : ServiceAccounting).align w clock).posAfter w k =
      min (clock.toNat + k * 2 / w.get.toNat) (2 ^ 128 - 1) := by
    intro k
    have hzero : ({} : ServiceAccounting).pos w = 0 := pos_restart {} 0
    rcases Nat.eq_zero_or_pos clock.toNat with h0 | hlt
    · rw [align_of_le (by omega), h0]
      change min (0 + (0 - 0 + k) * 2 / w.get.toNat) _ = _
      rw [Nat.sub_zero, Nat.zero_add k]
    · rw [align_of_lt (by omega)]
      change min (clock.toNat + (0 - 0 + k) * 2 / w.get.toNat) _ = _
      rw [Nat.sub_zero, Nat.zero_add k]
  refine ⟨h.align w clock, Based.align (a := {}) (Nat.le_refl _) w clock, ?_, fun k => ?_⟩
  · rw [hcost]
    exact Nat.zero_le _
  · rw [hnew]
    generalize a.align w clock = a' at hpos ⊢
    unfold ServiceAccounting.pos gained at hpos
    unfold posAfter
    have hsplit : (a'.cost.toNat - a'.baseCost.toNat) * 2 / w.get.toNat + k * 2 / w.get.toNat ≤
        ((a'.cost.toNat - a'.baseCost.toNat) * 2 + k * 2) / w.get.toNat :=
      Nat.div_add_div_le_add_div
    rw [← Nat.add_mul] at hsplit
    omega

end ServiceAccounting

/-- A charge at a clock that gives no credit for idle time: the scope is lifted to the clock, its
position is not behind the value that the clock had before (`since`), and from there it obtains no
more service in a row than a scope that joins at the clock with the same weight. -/
structure ChargedWithoutCredit (since clock : U128) (w : NonZero 16) (cost : U16)
    (before after : ServiceAccounting) : Prop where
  charged : after = (before.align w clock).charge cost
  position : since.toNat ≤ (before.align w clock).pos w
  obtains : ∀ limit costs, (before.align w clock).Obtains w limit costs →
    (({} : ServiceAccounting).align w clock).Obtains w limit costs

theorem ChargedWithoutCredit.intro {since clock : U128} {w : NonZero 16} {cost : U16}
    {before after : ServiceAccounting} (hbased : before.Based) (hsince : since.toNat ≤ clock.toNat)
    (h : after = (before.align w clock).charge cost) :
    ChargedWithoutCredit since clock w cost before after where
  charged := h
  position := by
    rw [pos_align]
    omega
  obtains limit costs ha := (Covers.join hbased clock).obtains ha

/-! ## What every update of a scope keeps -/

/-- A property that each update of a scope keeps. -/
structure ScopeClosed (b : FairnessBudget) (P : ScopeState → Prop) : Prop where
  clock : ∀ st m, P st → P (st.advanceChildClock m)
  align : ∀ st floor, P st → P (st.alignService floor)
  alignOwn : ∀ st floor, P st → P (st.alignOwnService floor)
  acquire : ∀ st s c k, P st → P (st.acquire s c k)
  release : ∀ st s r c k, P st → P (st.release b s r c k)
  restore : ∀ st c, P st → P (st.restoreLowVolume c)
  weight : ∀ st w, P st → P (st.setWeight w)

variable {op : LedgerOp}

namespace ScopeClosed

variable {b : FairnessBudget} {P : ScopeState → Prop} {s : FairScope} {st st' : ScopeState}

theorem giveBack (h : ScopeClosed b P) (p : FairPermit) (r : CapacityRelease) (hst : P st) :
    P (p.giveBack b r s st) := by
  unfold FairPermit.giveBack
  dsimp only
  have hfirst : P (if s = p.scope then st.release b p.scope r p.costUnits.get .service else st) := by
    split
    · exact h.release _ _ _ _ _ hst
    · exact hst
  split
  · exact h.release _ _ _ _ _ hfirst
  · exact hfirst

theorem move (h : ScopeClosed b P) (hmove : ScopeMove b s st st') (hst : P st) : P st' := by
  cases hmove with
  | kept => exact hst
  | givenBack p r => exact h.giveBack p r hst
  | restored p r =>
    unfold restoreLowVolume
    split
    · exact h.restore _ _ (h.giveBack p r hst)
    · exact h.giveBack p r hst
  | weighted w => exact h.weight _ _ hst

theorem selectScope (h : ScopeClosed b P) (l : FairnessLedger) (sel : CandidateSelection)
    (prep : CandidatePreparation) (pass : SelectionPass) (hst : P st) :
    P (l.selectScope sel prep pass s st) := by
  have hadvance : P (sel.advanceClock prep.childMinimum s st) := by
    unfold advanceClock
    split
    · exact h.clock _ _ hst
    · exact hst
  have halign : ∀ clock floor, P (sel.alignService clock floor s
      (sel.advanceClock prep.childMinimum s st)) := by
    intro clock floor
    unfold alignService
    split
    · exact hadvance
    · split
      · split
        · exact h.alignOwn _ _ (h.align _ _ hadvance)
        · exact hadvance
      · dsimp only
        split <;> split
        · exact h.align _ _ (h.align _ _ hadvance)
        · exact h.align _ _ hadvance
        · exact h.align _ _ hadvance
        · exact hadvance
  have htake : ∀ {st}, P st → P (sel.take s st) := by
    intro st hst
    unfold take
    split <;> split
    · exact h.acquire _ _ _ _ (h.acquire _ _ _ _ hst)
    · exact h.acquire _ _ _ _ hst
    · exact h.acquire _ _ _ _ hst
    · exact hst
  exact htake (halign _ _)

/-- A call creates scopes, and keeps the property of those that stay. -/
theorem effect {l l' : FairnessLedger} (h : ScopeClosed l.budget P)
    (heff : l.Effect op l') (hst' : l'.coreAt s = some st') :
    (l.coreAt s = none ∧ st' = .fresh l.budget s) ∨
      ∃ st, l.coreAt s = some st ∧ (P st → P st') := by
  by_cases hop : ∀ now eligible, op ≠ .select now eligible
  · rcases heff.scopeMove hop hst' with hnew | ⟨st, hst, hmove⟩
    · exact .inl hnew
    · exact .inr ⟨st, hst, h.move hmove⟩
  · right
    cases heff with
    | unchanged => exact ⟨st', hst', id⟩
    | refused reset =>
      rw [coreAt_upToReset reset] at hst'
      exact ⟨st', hst', id⟩
    | selected reset chosen =>
      rw [settleSelection_coreAt, coreAt_upToReset reset] at hst'
      obtain ⟨st, hst, rfl⟩ := map_eq_some_iff.mp hst'
      exact ⟨st, hst, h.selectScope _ _ _ _⟩
    | _ => exact absurd (fun _ _ => by simp) hop

/-- A property that new scopes have holds of every scope in every run. -/
theorem run (h : ScopeClosed b P) (hnew : ∀ s, P (.fresh b s)) {l : FairnessLedger}
    (hrun : RunFrom (fun _ _ => True) (.new b) l) :
    l.budget = b ∧ ∀ s st, l.coreAt s = some st → P st := by
  refine hrun.invariant (I := fun l => l.budget = b ∧ ∀ s st, l.coreAt s = some st → P st) ?_
    ⟨rfl, fun s st hst => by simp [new, coreAt] at hst⟩
  rintro l op l' ⟨rfl, hall⟩ - hstep
  refine ⟨hstep.effect.budget, fun s st' hst' => ?_⟩
  rcases h.effect hstep.effect hst' with ⟨-, rfl⟩ | ⟨st, hst, hkeep⟩
  · exact hnew s
  · exact hkeep (hall s st hst)

end ScopeClosed

namespace ScopeState

/-- Both accountings of the scope start from a cost that was reached. -/
def Based (st : ScopeState) : Prop := st.service.Based ∧ st.ownService.Based

theorem based_closed (b : FairnessBudget) : ScopeClosed b Based where
  clock _ _ h := h
  align _ _ h := ⟨h.1.align _ _, h.2⟩
  alignOwn _ _ h := ⟨h.1, h.2.align _ _⟩
  acquire st s c k h := by
    refine ⟨h.1.charge c, ?_⟩
    unfold acquire
    dsimp only
    split
    · exact h.2.charge c
    · exact h.2
  release st s r c k h := by
    unfold Based release
    dsimp only
    constructor
    · split
      · exact .undo _ _
      · exact h.1
    · split
      · exact .undo _ _
      · exact h.2
  restore _ _ h := ⟨.undo _ _, h.2⟩
  weight st w h := by
    unfold setWeight
    split
    · exact ⟨.reweight _ _, .reweight _ _⟩
    · exact h

/-- No update sets the child clock back. -/
theorem childClock_closed (b : FairnessBudget) (x : Nat) :
    ScopeClosed b fun st => x ≤ st.childServiceClock.toNat where
  clock st m h := by
    change x ≤ (st.childServiceClock.umax m).toNat
    rw [toNat_umax]
    omega
  align _ _ h := h
  alignOwn _ _ h := h
  acquire _ _ _ _ h := h
  release _ _ _ _ _ h := h
  restore _ _ h := h
  weight st w h := by
    unfold setWeight
    split <;> exact h

end ScopeState

namespace FairnessLedger

variable {l l' : FairnessLedger} {s : FairScope}

/-! ## The clocks -/

/-- No call sets the service clock back. -/
theorem Effect.serviceClock_le (heff : l.Effect op l') :
    l.serviceClock.toNat ≤ l'.serviceClock.toNat := by
  by_cases hop : ∀ now eligible, op ≠ .select now eligible
  · rw [(heff.clocks hop).2]
  · cases heff with
    | unchanged => exact le_refl _
    | refused reset => rw [reset.serviceClock]
    | selected reset chosen =>
      rw [settleSelection_frame.2.2.2, ← reset.serviceClock]
      exact serviceClock_le_advancedClock _ _
    | _ => exact absurd (fun _ _ => by simp) hop

theorem childClockAt_eq (l : FairnessLedger) (s : FairScope) :
    l.childClockAt s = ((l.coreAt s).map (·.childServiceClock)).getD 0 := by
  rw [childClockAt, coreAt, map_map]
  rfl

/-- No call sets the child clock of a primary back that stays in the ledger. -/
theorem Effect.childClock_le (heff : l.Effect op l') (hs : (l'.coreAt s).isSome = true) :
    (l.childClockAt s).toNat ≤ (l'.childClockAt s).toNat := by
  obtain ⟨st', hst'⟩ := isSome_iff_exists.mp hs
  rw [childClockAt_eq, childClockAt_eq, hst']
  rcases (ScopeState.childClock_closed l.budget (l.childClockAt s).toNat).effect heff hst' with
    ⟨hnone, -⟩ | ⟨st, hst, hkeep⟩
  · rw [hnone]
    exact zero_le _
  · rw [childClockAt_eq, hst] at hkeep
    rw [hst]
    exact hkeep (le_refl _)

/-- The calls after which the scope is in the ledger. -/
def Keeps (s : FairScope) (l : FairnessLedger) (op : LedgerOp) : Prop :=
  ((l.apply op).scopes[s]?).isSome = true

theorem serviceClock_le_of_run (h : RunFrom (fun _ _ => True) l l') :
    l.serviceClock.toNat ≤ l'.serviceClock.toNat :=
  (h.relate (I := fun _ => True) (R := fun l l' => l.serviceClock.toNat ≤ l'.serviceClock.toNat)
    (fun _ => le_refl _) (fun _ _ _ => le_trans)
    (fun _ _ _ _ _ hst => ⟨trivial, hst.effect.serviceClock_le⟩) trivial).2

theorem childClock_le_of_run (h : RunFrom (Keeps s) l l') :
    (l.childClockAt s).toNat ≤ (l'.childClockAt s).toNat := by
  refine (h.relate (I := fun _ => True)
    (R := fun l l' => (l.childClockAt s).toNat ≤ (l'.childClockAt s).toNat)
    (fun _ => le_refl _) (fun _ _ _ => le_trans) ?_ trivial).2
  rintro l op l' - hkeeps rfl
  refine ⟨trivial, (apply_effect op).childClock_le ?_⟩
  rw [coreAt, isSome_map]
  exact hkeeps

/-! ## The charge of a selection -/

section Charge

variable {record : CandidateRecord} {g : FairPermitGeneration} {prep : CandidatePreparation}
  {pass : SelectionPass}

/-- The child clock of the selected primary after the call is the one that the children were
aligned to. -/
theorem childClockAt_settleSelection (hlow : record.candidate.scope.isLowVolume = false) :
    (l.settleSelection (record.selection g) prep pass).2.childClockAt
        record.candidate.scope.primaryScope = l.childFloor (record.selection g) prep pass := by
  rw [childFloor, selection_primary, childClockAt_eq, settleSelection_coreAt, coreAt, childClockAt,
    advanceServiceClocks_scopes, map_map, map_map, map_map]
  congr 2
  funext st
  have hadvance : (record.selection g).advanceClock prep.childMinimum
      record.candidate.scope.primaryScope st = st.advanceChildClock prep.childMinimum :=
    if_pos ⟨hlow, (selection_primary record g).symm⟩
  simp only [Function.comp, hadvance]
  cases hsec : record.candidate.scope.isSecondary with
  | true =>
    rw [selectScope_parent hsec]
    rfl
  | false =>
    rw [FairScope.primaryScope_of_not_secondary hsec, selectScope_own hsec hlow]
    rfl

end Charge

/-- What a scope is charged for its own service: a child its `service`, a primary its
`own_service` among its children. -/
def ownAccounting (s : FairScope) (st : ScopeState) : ServiceAccounting :=
  if s.isSecondary then st.service else st.ownService

/-- The call from `l` to `l'` charges the accounting `f` of the scope `s` without credit for idle
time. -/
def ChargesWithoutCredit (l l' : FairnessLedger) (s : FairScope)
    (f : ScopeState → ServiceAccounting) (since clock : U128) (cost : U16) : Prop :=
  ∃ before after, l.scopes[s]? = some before ∧ l'.scopes[s]? = some after ∧
    ChargedWithoutCredit since clock before.weight cost (f before) (f after)

theorem chargesWithoutCredit_of_core {f : ScopeState → ServiceAccounting} {since clock : U128}
    {cost : U16} {st st' : ScopeState} (hf : ∀ st, f st.core = f st) (hst : l.coreAt s = some st)
    (hst' : l'.coreAt s = some st')
    (h : ChargedWithoutCredit since clock st.weight cost (f st) (f st')) :
    l.ChargesWithoutCredit l' s f since clock cost := by
  obtain ⟨before, hbefore, rfl⟩ := coreAt_eq_some hst
  obtain ⟨after, hafter, rfl⟩ := coreAt_eq_some hst'
  rw [hf, hf] at h
  exact ⟨before, after, hbefore, hafter, h⟩

/-- A selection of a scoped candidate charges its primary at the service clock and its own service
at the child clock, both without credit. -/
theorem selects_without_credit (hbased : ∀ s st, l.coreAt s = some st → st.Based)
    {now : Timestamp} {eligible : Finset JobId} {p : FairPermit}
    (hselect : (l.selectNextDueIn now eligible).1 = .ok (some p))
    (hscoped : p.scope.isLowVolume = false) {since since' : U128}
    (hsince : since.toNat ≤ l.serviceClock.toNat)
    (hsince' : since'.toNat ≤ (l.childClockAt p.scope.primaryScope).toNat) :
    l.ChargesWithoutCredit (l.selectNextDueIn now eligible).2 p.scope.primaryScope
        ScopeState.service since (l.selectNextDueIn now eligible).2.serviceClock
        p.costUnits.get ∧
      l.ChargesWithoutCredit (l.selectNextDueIn now eligible).2 p.scope (ownAccounting p.scope)
        since' ((l.selectNextDueIn now eligible).2.childClockAt p.scope.primaryScope)
        p.costUnits.get := by
  obtain ⟨l₀, hreset, ⟨hno, -⟩ | ⟨record, g, prepared, prep, hch, heq⟩⟩ :=
    selectNextDueIn_cases l now eligible
  · exact absurd hselect (hno p)
  have heff := apply_effect (l := l) (.select now eligible)
  rw [heq] at hselect
  cases hselect
  have hlow : record.candidate.scope.isLowVolume = false := hscoped
  change since'.toNat ≤ (l.childClockAt record.candidate.scope.primaryScope).toNat at hsince'
  change l.ChargesWithoutCredit _ record.candidate.scope.primaryScope _ _ _
      record.candidate.costUnits.get ∧ l.ChargesWithoutCredit _ record.candidate.scope
        (ownAccounting record.candidate.scope) _
          (childClockAt _ record.candidate.scope.primaryScope) record.candidate.costUnits.get
  have hclock := heff.serviceClock_le
  have hcore : ∀ s, (l.selectNextDueIn now eligible).2.coreAt s = (l.coreAt s).map
      (l₀.selectScope (record.selection g) prep
        (l.prepareSelectionPass (some now) (some eligible)) s) := by
    intro s
    rw [heq, settleSelection_coreAt, coreAt_upToReset hreset]
  have hclock' : (l.selectNextDueIn now eligible).2.serviceClock =
      l₀.advancedClock (record.selection g)
        (l.prepareSelectionPass (some now) (some eligible)) := by
    rw [heq, settleSelection_frame.2.2.2]
  have hfloor : (l.selectNextDueIn now eligible).2.childClockAt
      record.candidate.scope.primaryScope = l₀.childFloor (record.selection g) prep
        (l.prepareSelectionPass (some now) (some eligible)) := by
    rw [heq, childClockAt_settleSelection hlow]
  obtain ⟨st, hm⟩ := hch.measures hreset
  have hst := coreAt_of_get hm.get
  have hst' := hcore record.candidate.scope.primaryScope
  rw [hst, map_some] at hst'
  have hchild := heff.childClock_le (s := record.candidate.scope.primaryScope)
    (by rw [apply, hst']; rfl)
  refine ⟨chargesWithoutCredit_of_core (fun _ => rfl) hst hst'
    (.intro (hbased _ _ hst).1 (hsince.trans hclock) ?_), ?_⟩
  · rw [(selectScope_primary hlow st.core).1, hclock']
  · have hown : ∀ st, ownAccounting record.candidate.scope st.core =
        ownAccounting record.candidate.scope st := fun _ => rfl
    cases hsec : record.candidate.scope.isSecondary with
    | true =>
      -- the child has a row of its own
      obtain ⟨child, hchild', -⟩ := checkScope_ok hch.validated.scope
      rw [hreset.scopes] at hchild'
      have hc := coreAt_of_get hchild'
      have hc' := hcore record.candidate.scope
      rw [hc, map_some, selectScope_child hsec] at hc'
      have hacc : ∀ st, ownAccounting record.candidate.scope st = st.service := fun _ => if_pos hsec
      refine chargesWithoutCredit_of_core hown hc hc' ?_
      rw [hacc, hacc]
      exact .intro (hbased _ _ hc).1 (hsince'.trans hchild) (by rw [← hfloor]; rfl)
    | false =>
      have hself := FairScope.primaryScope_of_not_secondary hsec
      rw [hself] at hst hst'
      rw [selectScope_own hsec hlow] at hst'
      have hacc : ∀ st, ownAccounting record.candidate.scope st = st.ownService := fun _ =>
        if_neg (by rw [hsec]; exact Bool.false_ne_true)
      refine chargesWithoutCredit_of_core hown hst hst' ?_
      rw [hacc, hacc]
      refine .intro (hbased _ _ hst).2 (hsince'.trans hchild) ?_
      change (if _ then _ else _) = _
      rw [if_pos ⟨rfl, by rw [← hself]; exact FairScope.isScopedPrimary_primaryScope hlow⟩, ← hfloor]
      rfl

/-- Over every run the service clock never goes back, and neither does the child clock of a
primary while the primary stays in the ledger. A selection at the end of the run charges the
primary, and the scope's own service among the primary's children, from a position that is not
behind the value that the clock of that level had at the beginning; from there the scope obtains no
more service in a row than one that joins at that moment with the same weight. -/
theorem no_banked_credit {b : FairnessBudget} {l : FairnessLedger}
    (hstart : RunFrom (fun _ _ => True) (.new b) l) :
    (∀ l', RunFrom (fun _ _ => True) l l' →
      l.serviceClock.toNat ≤ l'.serviceClock.toNat ∧
      ∀ now eligible p, (l'.selectNextDueIn now eligible).1 = .ok (some p) →
        p.scope.isLowVolume = false →
        l'.ChargesWithoutCredit (l'.selectNextDueIn now eligible).2 p.scope.primaryScope
          ScopeState.service l.serviceClock (l'.selectNextDueIn now eligible).2.serviceClock
          p.costUnits.get) ∧
    ∀ primary l', RunFrom (Keeps primary) l l' →
      (l.childClockAt primary).toNat ≤ (l'.childClockAt primary).toNat ∧
      ∀ now eligible p, (l'.selectNextDueIn now eligible).1 = .ok (some p) →
        p.scope.isLowVolume = false → p.scope.primaryScope = primary →
        l'.ChargesWithoutCredit (l'.selectNextDueIn now eligible).2 p.scope
          (ownAccounting p.scope) (l.childClockAt primary)
          ((l'.selectNextDueIn now eligible).2.childClockAt primary) p.costUnits.get := by
  have hbased : ∀ {l' : FairnessLedger}, RunFrom (fun _ _ => True) l l' →
      ∀ s st, l'.coreAt s = some st → st.Based := fun h =>
    ((ScopeState.based_closed b).run (fun _ => ⟨le_refl _, le_refl _⟩) (hstart.trans h)).2
  refine ⟨fun l' hrun => ?_, fun primary l' hrun => ?_⟩
  · have hclock := serviceClock_le_of_run hrun
    exact ⟨hclock, fun now eligible p hp hscoped =>
      (selects_without_credit (hbased hrun) hp hscoped hclock (le_refl _)).1⟩
  · have hclock := childClock_le_of_run hrun
    refine ⟨hclock, fun now eligible p hp hscoped hprimary => ?_⟩
    subst hprimary
    exact (selects_without_credit (hbased (hrun.mono fun _ _ _ => trivial)) hp hscoped
      (le_refl _) hclock).2

theorem no_banked_credit_sample :
    spreadSample.ChargesWithoutCredit
        (spreadSample.selectNextDueIn ⟨5⟩ {.repeated 1, .repeated 2}).2
        (FairPermit.plain 2 8).scope ScopeState.service spreadSample.serviceClock
        (spreadSample.selectNextDueIn ⟨5⟩ {.repeated 1, .repeated 2}).2.serviceClock 1 ∧
      spreadSample.ChargesWithoutCredit
        (spreadSample.selectNextDueIn ⟨5⟩ {.repeated 1, .repeated 2}).2
        (FairPermit.plain 2 8).scope (ownAccounting (FairPermit.plain 2 8).scope)
        (spreadSample.childClockAt (FairPermit.plain 2 8).scope)
        ((spreadSample.selectNextDueIn ⟨5⟩ {.repeated 1, .repeated 2}).2.childClockAt
          (FairPermit.plain 2 8).scope) 1 :=
  have hrun : RunFrom (fun _ _ => True) (.new .tiny) spreadSample := .ofList (by decide +kernel)
  have hselect : (spreadSample.selectNextDueIn ⟨5⟩ {.repeated 1, .repeated 2}).1 =
      .ok (some (.plain 2 8)) := by decide +kernel
  have hcredit := no_banked_credit hrun
  ⟨(hcredit.1 _ .refl).2 _ _ _ hselect rfl, (hcredit.2 _ _ .refl).2 _ _ _ hselect rfl rfl⟩

/-- Two jobs of one primary served one after the other, which moves both clocks to two. -/
def creditCalls : List LedgerOp :=
  [.add (.plain 1 7), .select ⟨5⟩ {.repeated 1}, .release (.plain 1 7) .complete,
    .add (.plain 2 7), .select ⟨5⟩ {.repeated 2}, .release (.plain 2 7) .complete]

/-- The primary compacted away and back with a new job. -/
def rejoinCalls : List LedgerOp :=
  [.compact (.repeated 1), .compact (.repeated 2), .compactScopes, .add (.plain 3 7)]

/-- A low-volume job that returns after the two. -/
def lowVolumeCalls : List LedgerOp :=
  [.add { FairCandidateInput.plain 4 7 with fairness := .lowVolume }]

/-- The child clock of the primary stands at two, and at zero after the primary was compacted away
and came back. A low-volume job that returns when the service clock stands at two is charged from
position zero. -/
theorem child_clock_forgotten_by_compaction :
    let l := creditCalls.foldl apply (.new .tiny)
    let rejoined := rejoinCalls.foldl apply l
    let returned := lowVolumeCalls.foldl apply l
    RunFrom (fun _ _ => True) (.new .tiny) l ∧ RunFrom (fun _ _ => True) l rejoined ∧
      l.childClockAt (FairPermit.plain 1 7).scope = 2 ∧
      rejoined.scopes.contains (FairPermit.plain 1 7).scope = true ∧
      rejoined.childClockAt (FairPermit.plain 1 7).scope = 0 ∧
      returned.serviceClock = 2 ∧
      (returned.selectNextDueIn ⟨5⟩ {.repeated 4}).2.scopes[FairScope.lowVolume]?.map (·.service) =
        some (({} : ServiceAccounting).charge 1) := by
  refine ⟨Run.ofList ?_, Run.ofList ?_, ?_⟩ <;> decide +kernel

end FairnessLedger

end AuxCommon
