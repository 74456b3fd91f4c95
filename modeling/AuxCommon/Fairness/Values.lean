import AuxCommon.Policy

/-!
# Values of the fair dispatcher

The data of `fairness/`: scopes, candidates, permits, the budget, the priority windows and the
service accounting of one scope. Everything here is a value or a function on one value; the
ledger that holds them is in `Ledger`.
-/

namespace AuxCommon

open Std

/-- `MAX_COST_UNITS`. -/
def maxCostUnits : Nat := 1024

/-! ## Scopes -/

/-- `FairScope`: a primary scope with an optional child, or the low-volume lane. -/
inductive FairScope
  | scoped (primary : FairnessKey) (secondary : Option FairnessKey)
  | lowVolume
  deriving DecidableEq

namespace FairScope

def primaryScope : FairScope → FairScope
  | .scoped primary _ => .scoped primary none
  | .lowVolume => .lowVolume

def isSecondary : FairScope → Bool
  | .scoped _ (some _) => true
  | .scoped _ none => false
  | .lowVolume => false

/-- `matches!(scope, FairScope::Scoped { secondary: None, .. })`. -/
def isScopedPrimary : FairScope → Bool
  | .scoped _ none => true
  | .scoped _ (some _) => false
  | .lowVolume => false

def isLowVolume : FairScope → Bool
  | .scoped _ _ => false
  | .lowVolume => true

/-- The scope that shares this scope's charges: its primary when it is a child. -/
def parent (s : FairScope) : Option FairScope := if s.isSecondary then some s.primaryScope else none

-- The derived order of the source: variants in declaration order, then fields.
private def variantIndex : FairScope → Nat
  | .scoped _ _ => 0
  | .lowVolume => 1

private def primaryKey : FairScope → Option FairnessKey
  | .scoped primary _ => some primary
  | .lowVolume => none

private def secondaryKey : FairScope → Option FairnessKey
  | .scoped _ secondary => secondary
  | .lowVolume => none

instance : Ord FairScope :=
  ⟨compareLex (compareOn variantIndex) (compareLex (compareOn primaryKey) (compareOn secondaryKey))⟩

instance : TransOrd FairScope := inferInstanceAs (TransCmp (compareLex (compareOn variantIndex)
  (compareLex (compareOn primaryKey) (compareOn secondaryKey))))

instance : LawfulEqOrd FairScope where
  eq_of_compare {a b} h := by
    have h : ((compare a.variantIndex b.variantIndex).then
        ((compare a.primaryKey b.primaryKey).then (compare a.secondaryKey b.secondaryKey))) = .eq := h
    rw [Ordering.then_eq_eq, Ordering.then_eq_eq, Std.compare_eq_iff_eq, Std.compare_eq_iff_eq,
      Std.compare_eq_iff_eq] at h
    obtain ⟨hv, hp, hs⟩ := h
    cases a <;> cases b <;> simp_all [variantIndex, primaryKey, secondaryKey]

@[simp] theorem isSecondary_primaryScope (s : FairScope) : s.primaryScope.isSecondary = false := by
  cases s <;> rfl

variable {s : FairScope}

theorem primaryScope_of_not_secondary (h : s.isSecondary = false) : s.primaryScope = s := by
  rcases s with ⟨p, _ | c⟩ | _
  · rfl
  · cases h
  · rfl

theorem parent_getD (s : FairScope) : s.parent.getD s = s.primaryScope := by
  unfold parent
  split
  · rfl
  · rename_i h
    exact (primaryScope_of_not_secondary (by simpa using h)).symm

@[simp] theorem isLowVolume_primaryScope (s : FairScope) :
    s.primaryScope.isLowVolume = s.isLowVolume := by
  cases s <;> rfl

theorem isSecondary_of_isScopedPrimary (h : s.isScopedPrimary = true) : s.isSecondary = false := by
  rcases s with ⟨p, _ | c⟩ | _
  · rfl
  · cases h
  · rfl

theorem isScopedPrimary_primaryScope (h : s.isLowVolume = false) :
    s.primaryScope.isScopedPrimary = true := by
  rcases s with ⟨p, c⟩ | _
  · rfl
  · cases h

theorem isLowVolume_of_isScopedPrimary (h : s.isScopedPrimary = true) : s.isLowVolume = false := by
  rcases s with ⟨p, c⟩ | _
  · rfl
  · cases h

theorem isLowVolume_of_isSecondary (h : s.isSecondary = true) : s.isLowVolume = false := by
  rcases s with ⟨p, c⟩ | _
  · rfl
  · cases h

theorem isSecondary_of_isLowVolume (h : s.isLowVolume = true) : s.isSecondary = false := by
  rcases s with ⟨p, c⟩ | _
  · cases h
  · rfl

theorem ne_primaryScope_of_secondary (h : s.isSecondary = true) : s ≠ s.primaryScope := by
  intro he
  rw [he, isSecondary_primaryScope] at h
  cases h

end FairScope

/-- `FairVolumeMode`. -/
inductive FairVolumeMode
  | scoped | lowVolume
  deriving DecidableEq

/-- The mode in which `ensure_scope` creates a scope. -/
def FairScope.volumeMode : FairScope → FairVolumeMode
  | .scoped _ _ => .scoped
  | .lowVolume => .lowVolume

/-! ## Candidates and permits -/

/-- `CandidateBlock`. -/
inductive CandidateBlock
  | leased | missing | corrupt | oversized | poison | rateLimited | capacity
  deriving DecidableEq

/-- `FairnessPath`. -/
structure FairnessPath where
  primary : FairnessKey
  secondary : Option FairnessKey
  deriving DecidableEq

/-- `FairnessClass`. -/
inductive FairnessClass
  | scoped (path : FairnessPath)
  | lowVolume
  deriving DecidableEq

/-- `FairScope::from`. -/
def FairScope.ofClass : FairnessClass → FairScope
  | .scoped path => .scoped path.primary path.secondary
  | .lowVolume => .lowVolume

/-- `FairCandidateInput`. -/
structure FairCandidateInput where
  jobId : JobId
  fairness : FairnessClass
  priority : Priority
  costUnits : NonZero 16
  scheduledAt : Timestamp
  payloadBytes : Usize
  orderingKey : Option OrderingKey
  orderingPosition : U64
  block : Option CandidateBlock
  deriving DecidableEq

/-- A due candidate with one-byte identifiers, for runs on concrete inputs. -/
def FairCandidateInput.plain (job primary : UInt8) : FairCandidateInput where
  jobId := .repeated job
  fairness := .scoped ⟨.single primary, none⟩
  priority := .critical
  costUnits := ⟨1, by decide⟩
  scheduledAt := ⟨0⟩
  payloadBytes := 0
  orderingKey := none
  orderingPosition := 0
  block := none

/-- `FairCandidate`. -/
structure FairCandidate where
  jobId : JobId
  scope : FairScope
  priority : Priority
  costUnits : NonZero 16
  scheduledAt : Timestamp
  payloadBytes : Usize
  orderingKey : Option OrderingKey
  orderingPosition : U64
  block : Option CandidateBlock
  deriving DecidableEq

/-- `FairCandidate::try_from`: the cost of a candidate is bounded at the boundary. -/
def FairCandidate.tryFrom (input : FairCandidateInput) : Except ValidationError FairCandidate :=
  if maxCostUnits < input.costUnits.get.toNat then
    .error (.tooLong "fair candidate cost units" maxCostUnits input.costUnits.get.toNat)
  else
    .ok {
      jobId := input.jobId
      scope := FairScope.ofClass input.fairness
      priority := input.priority
      costUnits := input.costUnits
      scheduledAt := input.scheduledAt
      payloadBytes := input.payloadBytes
      orderingKey := input.orderingKey
      orderingPosition := input.orderingPosition
      block := input.block }

/-- `FairCandidateState`. -/
inductive FairCandidateState
  | absent | scheduled | leased | retryWaiting | deadLettered | cancelled
  deriving DecidableEq

def FairCandidateState.hasReadyRoute : FairCandidateState → Bool
  | scheduled | retryWaiting => true
  | absent | leased | deadLettered | cancelled => false

/-- The states that compaction may drop. -/
def FairCandidateState.isCompactable : FairCandidateState → Bool
  | absent | deadLettered | cancelled => true
  | scheduled | leased | retryWaiting => false

/-- `FairPermitGeneration`. -/
structure FairPermitGeneration where
  value : NonZero 64
  deriving DecidableEq

namespace FairPermitGeneration

/-- `FairPermitGeneration::FIRST`. -/
def first : FairPermitGeneration := ⟨⟨1, by decide⟩⟩

/-- `next`: `None` when the counter is exhausted. -/
def next (g : FairPermitGeneration) : Option FairPermitGeneration :=
  (g.value.get.checkedAdd 1).bind fun v => (NonZero.new v).map .mk

theorem next_eq_some {g g' : FairPermitGeneration} (h : g.next = some g') :
    g'.value.get.toNat = g.value.get.toNat + 1 := by
  obtain ⟨v, hv, hg⟩ := Option.bind_eq_some_iff.mp h
  obtain ⟨n, hn, rfl⟩ := Option.map_eq_some_iff.mp hg
  rw [BitVec.checkedAdd_eq_some] at hv
  rw [NonZero.new_eq_some.mp hn, hv]
  rfl

end FairPermitGeneration

/-- `FairPermit`: the lease-scoped dispatch authority that a selection returns. -/
structure FairPermit where
  jobId : JobId
  scope : FairScope
  primary : Option FairScope
  priority : Priority
  costUnits : NonZero 16
  orderingKey : Option OrderingKey
  orderingPosition : U64
  acquisitionGeneration : FairPermitGeneration
  deriving DecidableEq

/-- The permit of the first acquisition of `FairCandidateInput.plain`. -/
def FairPermit.plain (job primary : UInt8) : FairPermit where
  jobId := .repeated job
  scope := .scoped (.single primary) none
  primary := none
  priority := .critical
  costUnits := ⟨1, by decide⟩
  orderingKey := none
  orderingPosition := 0
  acquisitionGeneration := .first

/-- `FairnessRejection`. -/
inductive FairnessRejection
  | blocked (block : CandidateBlock)
  | payloadCapacity | scopeCapacity | rateCapacity | lowVolumeCapacity | orderingHead
  | priorityDeficit | normalizedServiceBound | unknownScope | permitGenerationExhausted
  deriving DecidableEq

/-- `FairRelease`. The source compiles `deadLetter` and `cancelled` only for its test support. -/
inductive FairRelease
  | complete | retry | deadLetter | cancelled | conflict
  deriving DecidableEq

def FairRelease.isTerminal : FairRelease → Bool
  | complete | deadLetter | cancelled => true
  | retry | conflict => false

/-! ## Budget -/

/-- `FairnessBudget`; its constructor `try_new` bounds the cost of a selection. -/
structure FairnessBudget where
  candidateWindow : NonZero 32
  maxConcurrencyPerScope : NonZero 32
  maxRatePerScope : NonZero 32
  maxLowVolumeService : NonZero 32
  maxPayloadBytes : NonZero 64
  maxCostUnits : NonZero 16
  maxCostUnits_le : maxCostUnits.get.toNat ≤ AuxCommon.maxCostUnits
  deriving DecidableEq

/-- `FairnessBudget::tiny`. -/
def FairnessBudget.tiny : FairnessBudget where
  candidateWindow := ⟨4, by decide⟩
  maxConcurrencyPerScope := ⟨1, by decide⟩
  maxRatePerScope := ⟨4, by decide⟩
  maxLowVolumeService := ⟨1, by decide⟩
  maxPayloadBytes := ⟨384 * 1024, by decide⟩
  maxCostUnits := ⟨1024, by decide⟩
  maxCostUnits_le := by decide

/-- `E = C * (W + N)`, the bounded normalized service error. -/
def FairnessBudget.normalizedErrorBound (b : FairnessBudget) : U64 :=
  (b.maxCostUnits.get.setWidth 64).satMul
    ((b.candidateWindow.get.setWidth 64).satAdd (b.maxConcurrencyPerScope.get.setWidth 64))

/-- The bound never saturates, so it is `C * (W + N)` exactly. -/
theorem FairnessBudget.toNat_normalizedErrorBound (b : FairnessBudget) :
    b.normalizedErrorBound.toNat = b.maxCostUnits.get.toNat *
      (b.candidateWindow.get.toNat + b.maxConcurrencyPerScope.get.toNat) := by
  have hc := b.maxCostUnits_le
  have hw := b.candidateWindow.get.isLt
  have hn := b.maxConcurrencyPerScope.get.isLt
  have hsum : b.candidateWindow.get.toNat + b.maxConcurrencyPerScope.get.toNat < 2 ^ 33 := by
    omega
  have hmul : b.maxCostUnits.get.toNat *
      (b.candidateWindow.get.toNat + b.maxConcurrencyPerScope.get.toNat) ≤ 1024 * 2 ^ 33 :=
    Nat.mul_le_mul hc hsum.le
  simp only [normalizedErrorBound, BitVec.toNat_satMul, BitVec.toNat_satAdd,
    BitVec.toNat_widen (by decide : 16 ≤ 64), BitVec.toNat_widen (by decide : 32 ≤ 64)]
  rw [Nat.min_eq_left (by omega : _ + _ ≤ 2 ^ 64 - 1), Nat.min_eq_left (by omega)]

end AuxCommon
