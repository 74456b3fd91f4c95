import AuxCommon.Fairness.Ledger
import Mathlib.Data.Finset.Basic

/-!
# Selection of the next due candidate

The selection pass of `fairness_ledger/admission/selection/`. A pass is a snapshot: every
candidate is validated and measured once (`preparation.rs`), the measures of the eligible
primaries are summarised by their extrema (`state.rs`), and the admissible candidate with the
least score is charged and leased (`runner.rs`, `admission.rs`, `capacity.rs`).
-/

namespace AuxCommon

open Std

/-! ## The values of a pass -/

/-- `CandidateSelection`. -/
structure CandidateSelection where
  jobId : JobId
  scope : FairScope
  primary : Option FairScope
  priority : Priority
  costUnits : NonZero 16
  orderingKey : Option OrderingKey
  orderingPosition : U64
  acquisitionGeneration : FairPermitGeneration
  deriving DecidableEq

/-- The permit of a settled selection. -/
def CandidateSelection.permit (s : CandidateSelection) : FairPermit where
  jobId := s.jobId
  scope := s.scope
  primary := s.primary
  priority := s.priority
  costUnits := s.costUnits
  orderingKey := s.orderingKey
  orderingPosition := s.orderingPosition
  acquisitionGeneration := s.acquisitionGeneration

/-- `SelectionMetrics`. -/
structure SelectionMetrics where
  primaryIndex : Nat
  primaryService : U128
  admissionService : U128
  childService : U128
  childServiceLag : U128
  primaryCandidateCount : U32
  deriving DecidableEq

/-- `CandidateFacts`. -/
structure CandidateFacts where
  scheduledAt : Timestamp
  priority : Priority
  costUnits : NonZero 16
  lowVolume : Bool
  deriving DecidableEq

/-- `CandidatePreparation`. -/
structure CandidatePreparation where
  facts : CandidateFacts
  metrics : SelectionMetrics
  deriving DecidableEq

/-- The least service of the children of the selected primary. -/
def CandidatePreparation.childMinimum (prep : CandidatePreparation) : U128 :=
  prep.metrics.childService.satSub prep.metrics.childServiceLag

/-- `PreparedCandidate`. -/
structure PreparedCandidate where
  jobId : JobId
  ready : Bool
  due : Bool
  preparation : Except FairnessRejection CandidatePreparation

/-- `PrimaryStats`. -/
structure PrimaryStats where
  candidateCount : U32 := 0
  eligible : Bool := false
  normalizedService : U128 := 0
  childMinimum : Option U128 := none
  deriving DecidableEq

/-- `ServiceExtrema`: the two least and the two greatest services of the eligible primaries. -/
structure ServiceExtrema where
  count : Nat := 0
  min : Option (Nat × U128) := none
  secondMin : Option U128 := none
  max : Option (Nat × U128) := none
  secondMax : Option U128 := none
  deriving DecidableEq

namespace ServiceExtrema

variable (e : ServiceExtrema)

def insert (primaryIndex : Nat) (service : U128) : ServiceExtrema :=
  let e := { e with count := e.count + 1 }
  let e := match e.min with
    | none => { e with min := some (primaryIndex, service) }
    | some (_, minService) =>
      if service < minService then
        { e with secondMin := some minService, min := some (primaryIndex, service) }
      else
        { e with secondMin := match e.secondMin with
          | none => some service
          | some secondMin => if service < secondMin then some service else some secondMin }
  match e.max with
  | none => { e with max := some (primaryIndex, service) }
  | some (_, maxService) =>
    if maxService < service then
      { e with secondMax := some maxService, max := some (primaryIndex, service) }
    else
      { e with secondMax := match e.secondMax with
        | none => some service
        | some secondMax => if secondMax < service then some service else some secondMax }

/-- The least service of the primaries other than `primaryIndex`. -/
def minimumExcept (primaryIndex : Nat) : Option U128 :=
  match e.min with
  | some (index, value) => if index ≠ primaryIndex then some value else e.secondMin
  | none => none

/-- The greatest service of the primaries other than `primaryIndex`. -/
def maximumExcept (primaryIndex : Nat) : Option U128 :=
  match e.max with
  | some (index, value) => if index ≠ primaryIndex then some value else e.secondMax
  | none => none

def allows (primaryIndex : Nat) (service bound : U128) : Bool :=
  if e.count ≤ 1 then true
  else
    (e.minimumExcept primaryIndex).all (fun value => service.absDiff value ≤ bound) &&
      (e.maximumExcept primaryIndex).all (fun value => service.absDiff value ≤ bound)

end ServiceExtrema

/-- `SelectionPass`. -/
structure SelectionPass where
  candidates : List PreparedCandidate
  serviceExtrema : ServiceExtrema

/-- `SelectionScore`, compared lexicographically. -/
structure SelectionScore where
  priority : Nat
  primaryService : U128
  primaryCandidateCount : U32
  childServiceLag : U128
  scheduledAt : Timestamp
  jobId : JobId
  deriving DecidableEq

instance : Ord SelectionScore :=
  ⟨compareLex (compareOn SelectionScore.priority)
    (compareLex (compareOn SelectionScore.primaryService)
      (compareLex (compareOn SelectionScore.primaryCandidateCount)
        (compareLex (compareOn SelectionScore.childServiceLag)
          (compareLex (compareOn SelectionScore.scheduledAt) (compareOn SelectionScore.jobId)))))⟩

/-- `DueCandidateSearch`. -/
structure DueCandidateSearch where
  best : Option (JobId × CandidatePreparation × SelectionScore) := none
  firstRejection : Option FairnessRejection := none
  priorityRejected : Bool := false

/-- `next_permit_generation`. -/
def nextPermitGeneration (previous : Option FairPermitGeneration) :
    Except FairnessRejection FairPermitGeneration :=
  match previous with
  | none => .ok .first
  | some g => match g.next with
    | some g => .ok g
    | none => .error .permitGenerationExhausted

namespace FairnessLedger

/-! ## Admission predicates -/

variable (l : FairnessLedger)

def checkScope (scope : FairScope) (cost : U16) : Except FairnessRejection Unit :=
  match l.scopes[scope]? with
  | none => .error .unknownScope
  | some st =>
    match st.block with
    | some block => .error (.blocked block)
    | none =>
      if st.service.cost.checkedAdd (cost.setWidth 64) = none
          ∨ l.budget.maxConcurrencyPerScope.get ≤ st.inFlight ∨ st.permits = 0 then
        .error .scopeCapacity
      else if st.rate = 0 then .error .rateCapacity
      else if st.mode = .lowVolume
          ∧ l.budget.maxLowVolumeService.get.setWidth 64 ≤ st.served then
        .error .lowVolumeCapacity
      else .ok ()

def checkOrder (candidate : FairCandidate) : Except FairnessRejection Unit :=
  match candidate.orderingKey with
  | none => .ok ()
  | some key =>
    match l.orders[key]? with
    | none => .error .orderingHead
    | some order =>
      if order.inFlight ∨ candidate.orderingPosition ≠ order.head then .error .orderingHead
      else .ok ()

/-- The second `check_scope` of `validate_candidate`, on the primary of a child. -/
def checkParentScope (scope : FairScope) (cost : U16) : Except FairnessRejection Unit :=
  match scope.parent with
  | none => .ok ()
  | some primary => l.checkScope primary cost

/-- `validate_candidate`: the candidate and the generation of its next permit. -/
def validateCandidate (jobId : JobId) :
    Except FairnessRejection (FairCandidate × FairPermitGeneration) :=
  match l.candidates[jobId]? with
  | none => .error .unknownScope
  | some record =>
    let candidate := record.candidate
    if record.state.hasReadyRoute = false then .error .orderingHead
    else match candidate.block with
      | some block => .error (.blocked block)
      | none =>
        if l.budget.maxPayloadBytes.get < candidate.payloadBytes then .error .payloadCapacity
        else do
          let generation ← nextPermitGeneration record.acquisitionGeneration
          l.checkScope candidate.scope candidate.costUnits.get
          l.checkParentScope candidate.scope candidate.costUnits.get
          l.checkOrder candidate
          pure (candidate, generation)

/-- `prepare_candidate`. -/
def prepareCandidate (jobId : JobId) : Except FairnessRejection CandidateSelection := do
  let (candidate, generation) ← l.validateCandidate jobId
  pure {
    jobId := candidate.jobId
    scope := candidate.scope
    primary := candidate.scope.parent
    priority := candidate.priority
    costUnits := candidate.costUnits
    orderingKey := candidate.orderingKey
    orderingPosition := candidate.orderingPosition
    acquisitionGeneration := generation }

def checkPriority (priority : Priority) (cost : U16) (bulkReady : Bool) :
    Except FairnessRejection Unit :=
  let bound : U32 :=
    (l.budget.normalizedErrorBound.umin ((BitVec.allOnes 32).setWidth 64)).setWidth 32
  if l.priority.allows priority (cost.setWidth 32) bulkReady bound then .ok ()
  else .error .priorityDeficit

/-- The bound that `check_normalized_admission` allows. -/
def admissionBound : U128 :=
  (l.budget.normalizedErrorBound.setWidth 128).satMul (normalizationScale.setWidth 128)

def checkNormalizedAdmission (preparation : CandidatePreparation) (pass : SelectionPass) :
    Except FairnessRejection Unit :=
  if preparation.facts.lowVolume then .ok ()
  else if pass.serviceExtrema.allows preparation.metrics.primaryIndex
      preparation.metrics.admissionService l.admissionBound then .ok ()
  else .error .normalizedServiceBound

def checkSelection (prepared : PreparedCandidate) (bulkReady : Bool) :
    Except FairnessRejection CandidatePreparation := do
  let preparation ← prepared.preparation
  if l.budget.maxCostUnits.get < preparation.facts.costUnits.get then .error .scopeCapacity
  else do
    l.checkPriority preparation.facts.priority preparation.facts.costUnits.get bulkReady
    pure preparation

/-- `has_admissible_bulk`. -/
def hasAdmissibleBulk (pass : SelectionPass) : Bool :=
  pass.candidates.any fun prepared =>
    prepared.ready && prepared.due &&
      match prepared.preparation with
      | .error _ => false
      | .ok preparation =>
        preparation.facts.priority = .bulk &&
          (l.checkPriority preparation.facts.priority preparation.facts.costUnits.get true).isOk &&
          (l.checkNormalizedAdmission preparation pass).isOk

/-! ## Preparation -/

/-- The keys of `primary_indices`: the index of a primary is its place in this list. -/
def primaries : List FairScope := l.scopes.keys.filter (!·.isSecondary)

def preparePrimaryStats : List PrimaryStats :=
  l.primaries.map fun scope =>
    match l.scopes[scope]? with
    | none => {}
    | some st =>
      { normalizedService :=
          if scope.isLowVolume then 0 else st.service.position st.weight l.serviceClock }

def candidateServiceMetrics (candidate : FairCandidate) (stats : List PrimaryStats) :
    Except FairnessRejection SelectionMetrics := do
  let scope := candidate.scope
  let primary := scope.parent.getD scope
  let some primaryIndex := l.primaries.idxOf? primary | .error .unknownScope
  let some primaryState := l.scopes[primary]? | .error .unknownScope
  let some primaryStats := stats[primaryIndex]? | .error .unknownScope
  let some childState := l.scopes[scope]? | .error .unknownScope
  let admissionService :=
    (primaryState.service.position primaryState.weight l.serviceClock).satAdd
      (primaryState.service.costDelta primaryState.weight candidate.costUnits.get)
  let childService :=
    if scope.isLowVolume then 0
    else if scope.isSecondary then
      childState.service.position childState.weight primaryState.childServiceClock
    else
      primaryState.ownService.position primaryState.weight primaryState.childServiceClock
  pure {
    primaryIndex
    primaryService := primaryStats.normalizedService
    admissionService
    childService
    childServiceLag := 0
    primaryCandidateCount := 0 }

def prepareCandidateForPass (jobId : JobId) (stats : List PrimaryStats) :
    Except FairnessRejection CandidatePreparation := do
  let (candidate, _) ← l.validateCandidate jobId
  let metrics ← l.candidateServiceMetrics candidate stats
  pure {
    facts := {
      scheduledAt := candidate.scheduledAt
      priority := candidate.priority
      costUnits := candidate.costUnits
      lowVolume := candidate.scope.isLowVolume }
    metrics }

def recordReadyCandidate (candidate : FairCandidate) (ready : Bool) (stats : List PrimaryStats) :
    List PrimaryStats :=
  if ready then
    match l.primaries.idxOf? candidate.scope.primaryScope with
    | none => stats
    | some i => stats.modify i fun st => { st with candidateCount := st.candidateCount.satAdd 1 }
  else stats

def markEligibleCandidate (ready due : Bool)
    (selection : Except FairnessRejection CandidatePreparation) (stats : List PrimaryStats) :
    List PrimaryStats :=
  match selection with
  | .error _ => stats
  | .ok preparation =>
    if ready ∧ due ∧ preparation.facts.lowVolume = false
        ∧ preparation.facts.costUnits.get ≤ l.budget.maxCostUnits.get then
      stats.modify preparation.metrics.primaryIndex fun st =>
        { st with
          eligible := true
          childMinimum := some (match st.childMinimum with
            | none => preparation.metrics.childService
            | some minimum => minimum.umin preparation.metrics.childService) }
    else stats

/-- `prepare_candidate_entry`, with the statistics that it updates. -/
def prepareCandidateEntry (now : Option Timestamp) (eligible : Option (Finset JobId))
    (record : CandidateRecord) (stats : List PrimaryStats) :
    PreparedCandidate × List PrimaryStats :=
  let candidate := record.candidate
  let inScope : Bool := eligible.all (candidate.jobId ∈ ·)
  let ready := inScope && record.state.hasReadyRoute
  let stats := l.recordReadyCandidate candidate ready stats
  let due := inScope && now.all (candidate.scheduledAt ≤ ·)
  let selection :=
    if inScope then l.prepareCandidateForPass candidate.jobId stats else .error .unknownScope
  let stats := l.markEligibleCandidate ready due selection stats
  ({ jobId := candidate.jobId, ready, due, preparation := selection }, stats)

/-- `prepare_candidates`: the loop over the records, in key order. -/
def prepareCandidates (l : FairnessLedger) (now : Option Timestamp)
    (eligible : Option (Finset JobId)) :
    List CandidateRecord → List PrimaryStats → List PreparedCandidate × List PrimaryStats
  | [], stats => ([], stats)
  | record :: records, stats =>
    let (prepared, stats) := l.prepareCandidateEntry now eligible record stats
    let (rest, stats) := l.prepareCandidates now eligible records stats
    (prepared :: rest, stats)

/-- `build_service_extrema`, from the index `i` on. -/
def buildServiceExtrema : Nat → List PrimaryStats → ServiceExtrema → ServiceExtrema
  | _, [], e => e
  | i, st :: stats, e =>
    buildServiceExtrema (i + 1) stats (if st.eligible then e.insert i st.normalizedService else e)

def attachCandidateCounts (stats : List PrimaryStats) (prepared : PreparedCandidate) :
    PreparedCandidate :=
  match prepared.preparation with
  | .error _ => prepared
  | .ok preparation =>
    match stats[preparation.metrics.primaryIndex]? with
    | none => prepared
    | some st =>
      { prepared with preparation := .ok { preparation with metrics := { preparation.metrics with
          primaryCandidateCount := st.candidateCount
          childServiceLag := match st.childMinimum with
            | none => 0
            | some minimum => preparation.metrics.childService.satSub minimum } } }

def prepareSelectionPass (now : Option Timestamp) (eligible : Option (Finset JobId)) :
    SelectionPass :=
  let (candidates, stats) :=
    l.prepareCandidates now eligible l.candidates.values l.preparePrimaryStats
  { candidates := candidates.map (attachCandidateCounts stats)
    serviceExtrema := buildServiceExtrema 0 stats {} }

/-! ## Settlement of a selection -/

/-- A candidate that only the priority windows can still reject: what makes a lane active. -/
def passesAllButPriority (pass : SelectionPass) (prepared : PreparedCandidate) : Bool :=
  prepared.ready && prepared.due &&
    match prepared.preparation with
    | .error _ => false
    | .ok preparation =>
      preparation.facts.costUnits.get ≤ l.budget.maxCostUnits.get &&
        (l.checkNormalizedAdmission preparation pass).isOk

/-- `active[lane]` of `reset_exhausted_priority_window`. -/
def laneActive (pass : SelectionPass) (lane : Priority) : Bool :=
  pass.candidates.any fun prepared =>
    l.passesAllButPriority pass prepared &&
      match prepared.preparation with
      | .error _ => false
      | .ok preparation => preparation.facts.priority = lane

def resetExhaustedPriorityWindow (pass : SelectionPass) : Bool × FairnessLedger :=
  let active := l.laneActive pass
  if active .critical || active .default || active .bulk then
    if (!active .critical || 8 ≤ l.priority.criticalWindow)
        && (!active .default || 4 ≤ l.priority.defaultWindow)
        && (!active .bulk || 1 ≤ l.priority.bulkWindow) then
      (true, l.resetPriorityWindow)
    else (false, l)
  else (false, l)

def advanceServiceClocks (selection : CandidateSelection) (preparation : CandidatePreparation)
    (pass : SelectionPass) : FairnessLedger :=
  if selection.scope.isLowVolume then l
  else
    let l := l.modifyScope (selection.primary.getD selection.scope)
      (·.advanceChildClock preparation.childMinimum)
    match pass.serviceExtrema.min with
    | none => l
    | some (_, minimum) => { l with serviceClock := l.serviceClock.umax minimum }

/-- The clock under the children of a primary. -/
def childClockAt (primary : FairScope) : U128 :=
  (l.scopes[primary]?.map (·.childServiceClock)).getD 0

def alignSelectionService (selection : CandidateSelection) : FairnessLedger :=
  if selection.scope.isLowVolume then l
  else
    let childFloor := l.childClockAt (selection.primary.getD selection.scope)
    match selection.primary with
    | none =>
      l.modifyScope selection.scope fun st =>
        (st.alignService l.serviceClock).alignOwnService childFloor
    | some primary =>
      (l.modifyScope selection.scope (·.alignService childFloor)).modifyScope primary
        (·.alignService l.serviceClock)

def chargeSelection (selection : CandidateSelection) : FairnessLedger :=
  let l := l.alignSelectionService selection
  let l := l.acquireScope selection.scope selection.costUnits.get .service
  let l := match selection.primary with
    | none => l
    | some primary => l.acquireScope primary selection.costUnits.get .parentCapacity
  l.modifyOrder selection.orderingKey fun order =>
    { order with
      owner := selection.jobId
      inFlight := true
      acquisitions := order.acquisitions.satAdd 1 }

def settleSelection (selection : CandidateSelection) (preparation : CandidatePreparation)
    (pass : SelectionPass) : FairPermit × FairnessLedger :=
  let l := l.advanceServiceClocks selection preparation pass
  let oldRoute := l.route selection.jobId
  let l := l.chargeSelection selection
  let l := { l with
    priority := l.priority.charge selection.priority (selection.costUnits.get.setWidth 32) }
  (selection.permit, l.updateRecord selection.jobId oldRoute fun record =>
    { record with
      state := .leased
      acquisitionGeneration := some selection.acquisitionGeneration })

/-! ## The selection loop -/

def selectionScore (jobId : JobId) (preparation : CandidatePreparation) : SelectionScore where
  priority := match preparation.facts.priority with
    | .critical => 0
    | .default => 1
    | .bulk => 2
  primaryService := preparation.metrics.primaryService
  primaryCandidateCount := preparation.metrics.primaryCandidateCount
  childServiceLag := preparation.metrics.childServiceLag
  scheduledAt := preparation.facts.scheduledAt
  jobId

/-- One turn of the loop of `find_due_candidate`. -/
def searchStep (pass : SelectionPass) (bulkReady : Bool) (search : DueCandidateSearch)
    (prepared : PreparedCandidate) : DueCandidateSearch :=
  if !prepared.ready || !prepared.due then search
  else match l.checkSelection prepared bulkReady with
    | .error reason =>
      { search with
        priorityRejected := search.priorityRejected || reason = .priorityDeficit
        firstRejection := some (search.firstRejection.getD reason) }
    | .ok preparation =>
      if (l.checkNormalizedAdmission preparation pass).isOk then
        let score := selectionScore prepared.jobId preparation
        if search.best.all (fun best => compare score best.2.2 = .lt) then
          { search with best := some (prepared.jobId, preparation, score) }
        else search
      else
        { search with
          firstRejection := some (search.firstRejection.getD .normalizedServiceBound) }

def findDueCandidate (pass : SelectionPass) (bulkReady : Bool) : DueCandidateSearch :=
  pass.candidates.foldl (l.searchStep pass bulkReady) {}

/-- The loop of `select_next_due_in_scope`, cut after some turns. A turn that does not return has
just reset the priority windows, and a second reset in a row is impossible (`selectLoop_ends`). -/
def selectLoop (pass : SelectionPass) :
    Nat → FairnessLedger → Option (Except FairnessRejection (Option FairPermit) × FairnessLedger)
  | 0, _ => none
  | fuel + 1, l =>
    let search := l.findDueCandidate pass (l.hasAdmissibleBulk pass)
    match search.best with
    | some (jobId, preparation, _) =>
      match l.prepareCandidate jobId with
      | .error reason => some (.error reason, l)
      | .ok selection =>
        let (permit, l) := l.settleSelection selection preparation pass
        some (.ok (some permit), l)
    | none =>
      let (reset, l') := l.resetExhaustedPriorityWindow pass
      if search.priorityRejected && reset then selectLoop pass fuel l'
      else some (search.firstRejection.elim (.ok none) .error, l)

/-- `select_next_due_in`. -/
def selectNextDueIn (now : Timestamp) (eligible : Finset JobId) :
    Except FairnessRejection (Option FairPermit) × FairnessLedger :=
  (selectLoop (l.prepareSelectionPass (some now) (some eligible)) 2 l).getD (.ok none, l)

end FairnessLedger

end AuxCommon
