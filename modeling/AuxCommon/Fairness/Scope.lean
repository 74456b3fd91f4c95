import AuxCommon.Fairness.Values

/-!
# Service accounting and the state of one scope

`ServiceAccounting` (`service_accounting.rs`) places the cost that a scope was charged on a
virtual time line: the scope stands at `origin` plus the weighted cost since `base_cost`.
`ScopeState` (`scope.rs`) is the row of one scope in the ledger, with the updates that the
ledger applies to it (`admission/capacity.rs`, `index.rs`).

`ServiceAccounting.pos` is the position as a natural number. `pos_align`, `pos_charge_le`,
`pos_undo_le` and `pos_reweight` say what each update does to it.
-/

namespace AuxCommon

open BitVec

/-- `NORMALIZATION_SCALE`. -/
def normalizationScale : U64 := 2

/-- `normalized_service`: cost over weight, scaled by two. -/
def normalizedService (servedCost : U64) (weight : NonZero 16) : U128 :=
  ((servedCost.setWidth 128).satMul (normalizationScale.setWidth 128)) /
    weight.get.setWidth 128

theorem toNat_normalizedService (c : U64) (w : NonZero 16) :
    (normalizedService c w).toNat = c.toNat * 2 / w.get.toNat := by
  have hc := c.isLt
  have hscale : normalizationScale.toNat = 2 := rfl
  simp only [normalizedService, toNat_udiv, toNat_satMul, hscale,
    toNat_widen (by decide : 64 ≤ 128), toNat_widen (by decide : 16 ≤ 128)]
  rw [Nat.min_eq_left (by omega)]

/-! ## Positions on the virtual time line -/

/-- `ServiceAccounting`. -/
structure ServiceAccounting where
  cost : U64 := 0
  origin : U128 := 0
  baseCost : U64 := 0
  deriving DecidableEq

namespace ServiceAccounting

def position (a : ServiceAccounting) (weight : NonZero 16) (floor : U128) : U128 :=
  (a.origin.satAdd (normalizedService (a.cost.satSub a.baseCost) weight)).umax floor

def align (a : ServiceAccounting) (weight : NonZero 16) (floor : U128) : ServiceAccounting :=
  if a.position weight 0 < floor then { a with origin := floor, baseCost := a.cost } else a

def reweight (a : ServiceAccounting) (previousWeight : NonZero 16) : ServiceAccounting :=
  { a with origin := a.position previousWeight 0, baseCost := a.cost }

def costDelta (a : ServiceAccounting) (weight : NonZero 16) (cost : U16) : U128 :=
  let current := a.cost.satSub a.baseCost
  (normalizedService (current.satAdd (cost.setWidth 64)) weight).satSub
    (normalizedService current weight)

def charge (a : ServiceAccounting) (cost : U16) : ServiceAccounting :=
  { a with cost := a.cost.satAdd (cost.setWidth 64) }

def undo (a : ServiceAccounting) (cost : U16) : ServiceAccounting :=
  let cost := a.cost.satSub (cost.setWidth 64)
  { a with cost, baseCost := a.baseCost.umin cost }

variable {a : ServiceAccounting} {w : NonZero 16} {floor : U128} {c : U16}

/-- The cost since `base_cost`, over the weight. -/
def gained (a : ServiceAccounting) (w : NonZero 16) : Nat :=
  (a.cost.toNat - a.baseCost.toNat) * 2 / w.get.toNat

/-- The position without a floor. -/
def pos (a : ServiceAccounting) (w : NonZero 16) : Nat :=
  min (a.origin.toNat + a.gained w) (2 ^ 128 - 1)

theorem toNat_position : (a.position w floor).toNat = max (a.pos w) floor.toNat := by
  simp only [position, toNat_umax, toNat_satAdd, toNat_normalizedService, toNat_satSub, pos, gained]

/-- A scope that restarts at an origin stands there, whatever its weight. -/
theorem pos_restart (a : ServiceAccounting) (origin : U128) :
    ({ a with origin, baseCost := a.cost } : ServiceAccounting).pos w = origin.toNat := by
  rw [pos, gained, Nat.sub_self, Nat.zero_mul, Nat.zero_div, Nat.add_zero]
  exact Nat.min_eq_left (by omega)

theorem align_of_lt (h : a.pos w < floor.toNat) :
    a.align w floor = { a with origin := floor, baseCost := a.cost } := by
  rw [align, if_pos]
  rw [lt_def, toNat_position]
  exact max_lt h (Nat.zero_lt_of_lt h)

theorem align_of_le (h : floor.toNat ≤ a.pos w) : a.align w floor = a := by
  rw [align, if_neg]
  rw [lt_def, toNat_position, not_lt]
  exact h.trans (le_max_left _ _)

theorem pos_align (a : ServiceAccounting) (w : NonZero 16) (floor : U128) :
    (a.align w floor).pos w = max (a.pos w) floor.toNat := by
  rcases Nat.lt_or_ge (a.pos w) floor.toNat with h | h
  · rw [align_of_lt h, pos_restart, max_eq_right h.le]
  · rw [align_of_le h, max_eq_left h]

/-- A change of weight does not move the scope. -/
theorem pos_reweight {w' : NonZero 16} : (a.reweight w).pos w' = a.pos w := by
  rw [reweight, pos_restart, toNat_position]
  exact max_eq_left (Nat.zero_le _)

theorem pos_undo_le : (a.undo c).pos w ≤ a.pos w := by
  have hgain : (a.undo c).gained w ≤ a.gained w := by
    refine Nat.div_le_div_right (Nat.mul_le_mul_right _ ?_)
    simp only [undo, toNat_satSub, toNat_umin]
    omega
  have horigin : (a.undo c).origin = a.origin := rfl
  unfold pos
  rw [horigin]
  omega

theorem toNat_costDelta_le : (a.costDelta w c).toNat ≤ 2 * c.toNat := by
  have hw := w.pos
  simp only [costDelta, toNat_satSub, toNat_normalizedService, toNat_satAdd,
    toNat_widen (by decide : 16 ≤ 64)]
  generalize a.cost.toNat - a.baseCost.toNat = x
  have hdiv : min (x + c.toNat) (2 ^ 64 - 1) * 2 / w.get.toNat ≤ x * 2 / w.get.toNat + 2 * c.toNat := by
    calc min (x + c.toNat) (2 ^ 64 - 1) * 2 / w.get.toNat
        ≤ (x * 2 + 2 * c.toNat * w.get.toNat) / w.get.toNat := by
          refine Nat.div_le_div_right ?_
          have : 2 * c.toNat * 1 ≤ 2 * c.toNat * w.get.toNat := Nat.mul_le_mul_left _ hw
          omega
      _ = x * 2 / w.get.toNat + 2 * c.toNat := Nat.add_mul_div_right _ _ hw
  omega

/-- A charge moves the scope by at most the difference that admission foresees. -/
theorem pos_charge_le : (a.charge c).pos w ≤ a.pos w + (a.costDelta w c).toNat := by
  have hgain : (a.charge c).gained w ≤ a.gained w + (a.costDelta w c).toNat := by
    simp only [costDelta, charge, gained, toNat_satSub, toNat_normalizedService,
      toNat_satAdd, toNat_widen (by decide : 16 ≤ 64)]
    have hcost := a.cost.isLt
    have hle : (min (a.cost.toNat + c.toNat) (2 ^ 64 - 1) - a.baseCost.toNat) * 2 / w.get.toNat ≤
        min (a.cost.toNat - a.baseCost.toNat + c.toNat) (2 ^ 64 - 1) * 2 / w.get.toNat :=
      Nat.div_le_div_right (by omega)
    omega
  have horigin : (a.charge c).origin = a.origin := rfl
  unfold pos
  rw [horigin]
  omega

end ServiceAccounting

/-! ## One scope -/

/-- `ScopeCharge`: a charge for the scope's own service, or the parent's share of it. -/
inductive ScopeCharge
  | service | parentCapacity
  deriving DecidableEq

/-- `CapacityRelease`, without the variant of the source's test support. -/
inductive CapacityRelease
  | restoreRate | undoService
  deriving DecidableEq

/-- `ScopeState`. -/
structure ScopeState where
  mode : FairVolumeMode
  readyCount : U32
  head : U64
  order : U64
  cost : NonZero 16
  block : Option CandidateBlock
  weight : NonZero 16
  served : U64
  service : ServiceAccounting
  ownService : ServiceAccounting
  childServiceClock : U128
  inFlight : U32
  permits : U32
  rate : U32
  quietDwell : U32
  errors : U128
  acquisitions : U64
  releases : U64
  deriving DecidableEq

namespace ScopeState

/-- `ScopeState::new`. -/
def new (scope : FairScope) (cost : NonZero 16) (mode : FairVolumeMode)
    (budget : FairnessBudget) : ScopeState :=
  let initialOrder : U64 := if scope.isSecondary then 0 else 1
  { mode
    readyCount := 0
    head := initialOrder
    order := initialOrder
    cost
    block := none
    weight := ⟨1, NonZero.one_ne_zero16⟩
    served := 0
    service := {}
    ownService := {}
    childServiceClock := 0
    inFlight := 0
    permits := budget.maxConcurrencyPerScope.get
    rate := budget.maxRatePerScope.get
    quietDwell := 0
    errors := 0
    acquisitions := 0
    releases := 0 }

variable (st : ScopeState)

def isReady : Bool := st.readyCount != 0

/-- Lifts the scope's position to the floor, as `align_selection_service` does. -/
def alignService (floor : U128) : ScopeState :=
  { st with service := st.service.align st.weight floor }

/-- Lifts the position of a primary's own service among its children to the floor. -/
def alignOwnService (floor : U128) : ScopeState :=
  { st with ownService := st.ownService.align st.weight floor }

/-- Moves the clock of a primary's children forward. -/
def advanceChildClock (minimum : U128) : ScopeState :=
  { st with childServiceClock := st.childServiceClock.umax minimum }

/-- The body of `acquire_scope`. -/
def acquire (scope : FairScope) (cost : U16) (charge : ScopeCharge) : ScopeState :=
  { st with
    permits := st.permits.satSub 1
    rate := st.rate.satSub 1
    inFlight := st.inFlight.satAdd 1
    served := if charge = .service then st.served.satAdd 1 else st.served
    service := st.service.charge cost
    ownService :=
      if charge = .service ∧ scope.isScopedPrimary then st.ownService.charge cost
      else st.ownService
    acquisitions := st.acquisitions.satAdd 1 }

/-- The body of `release_scope`. -/
def release (st : ScopeState) (budget : FairnessBudget) (scope : FairScope)
    (release : CapacityRelease) (cost : U16) (charge : ScopeCharge) : ScopeState :=
  { st with
    inFlight := st.inFlight.satSub 1
    permits := (st.permits.satAdd 1).umin budget.maxConcurrencyPerScope.get
    rate := (st.rate.satAdd 1).umin budget.maxRatePerScope.get
    service := if release = .undoService then st.service.undo cost else st.service
    served :=
      if release = .undoService ∧ charge = .service then st.served.satSub 1 else st.served
    ownService :=
      if release = .undoService ∧ charge = .service ∧ scope.isScopedPrimary then
        st.ownService.undo cost
      else st.ownService
    releases := st.releases.satAdd 1 }

/-- The body of `set_scope_weight`. -/
def setWeight (weight : NonZero 16) : ScopeState :=
  if st.weight ≠ weight then
    { st with
      service := st.service.reweight st.weight
      ownService := st.ownService.reweight st.weight
      weight }
  else st

/-- The body of `restore_reconciled_low_volume_service`. -/
def restoreLowVolume (cost : U16) : ScopeState :=
  { st with served := st.served.satSub 1, service := st.service.undo cost }

/-- The body of `adjust_ready_count`. -/
def adjustReady (add : Bool) : ScopeState :=
  { st with readyCount := if add then st.readyCount.satAdd 1 else st.readyCount.satSub 1 }

/-- What `replace_candidate_route` does to a scope's advisory order when it advances. -/
def advanceOrder (position : U64) : ScopeState :=
  { st with
    order := st.order.umax position
    head := if st.head = 0 ∨ position < st.head then position else st.head }

end ScopeState

end AuxCommon
