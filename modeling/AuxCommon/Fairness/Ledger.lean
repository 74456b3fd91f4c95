import AuxCommon.Fairness.Scope
import AuxCommon.Fairness.Priority

/-!
# The fair ledger

`FairnessLedger` (`fairness_ledger/state.rs`) holds the scopes, the candidates and the ordering
groups of fair dispatch. This module has its state and every operation on it except selection:
the index of ready candidates (`index.rs`), the release of capacity (`admission/capacity.rs`)
and the candidate lifecycle (`lifecycle.rs`). A `&mut self` method returns the new ledger, next
to its result when it has one.
-/

namespace AuxCommon

/-- `CandidateRecord`. -/
structure CandidateRecord where
  candidate : FairCandidate
  state : FairCandidateState
  serviceTransitions : U64
  acquisitionGeneration : Option FairPermitGeneration
  deriving DecidableEq

/-- `CandidateRecord::scheduled`. -/
def CandidateRecord.scheduled (candidate : FairCandidate) : CandidateRecord where
  candidate
  state := .scheduled
  serviceTransitions := 0
  acquisitionGeneration := none

/-- `OrderRecord`. -/
structure OrderRecord where
  head : U64
  owner : JobId
  inFlight : Bool
  acquisitions : U64
  releases : U64
  deriving DecidableEq

variable (record : CandidateRecord)

/-- A record that `defer_candidate` moves to a later time. -/
def CandidateRecord.deferred (scheduledAt : Timestamp) : CandidateRecord :=
  { record with candidate := { record.candidate with scheduledAt }, state := .retryWaiting }

/-- A record whose lease `reconcile_leased` gave back: its permit generation starts again. -/
def CandidateRecord.reconciled (scheduledAt : Timestamp) : CandidateRecord :=
  { record.deferred scheduledAt with acquisitionGeneration := none }

/-- The order record that the first candidate of a group opens. -/
def OrderRecord.opened (candidate : FairCandidate) : OrderRecord where
  head := candidate.orderingPosition
  owner := candidate.jobId
  inFlight := false
  acquisitions := 0
  releases := 0

/-- `FairnessLedger`. -/
structure FairnessLedger where
  budget : FairnessBudget
  scopes : OrdMap FairScope ScopeState
  candidates : OrdMap JobId CandidateRecord
  orders : OrdMap OrderingKey OrderRecord
  priority : PriorityDeficit
  serviceClock : U128
  deriving DecidableEq

/-- `CandidateRoute`: how a candidate enters the ready index. -/
structure CandidateRoute where
  scope : FairScope
  ready : Bool
  orderingPosition : U64
  deriving DecidableEq

/-- `CandidateRoute::from_record`. -/
def CandidateRoute.fromRecord : CandidateRoute where
  scope := record.candidate.scope
  ready := record.state.hasReadyRoute
  orderingPosition := record.candidate.orderingPosition

/-- `IndexRefresh`. -/
inductive IndexRefresh
  | preserveOrder | advanceOrder
  deriving DecidableEq

/-- `PermitSettlement::state`. -/
def FairRelease.state : FairRelease → FairCandidateState
  | retry | conflict => .retryWaiting
  | deadLetter => .deadLettered
  | cancelled => .cancelled
  | complete => .absent

/-- `PermitSettlement::capacity_release`. -/
def FairRelease.capacityRelease : FairRelease → CapacityRelease
  | conflict => .undoService
  | complete | retry | deadLetter | cancelled => .restoreRate

/-- `permit_for_leased_record`. -/
def permitForLeasedRecord (jobId : JobId) (record : CandidateRecord) : FairPermit where
  jobId
  scope := record.candidate.scope
  primary := record.candidate.scope.parent
  priority := record.candidate.priority
  costUnits := record.candidate.costUnits
  orderingKey := record.candidate.orderingKey
  orderingPosition := record.candidate.orderingPosition
  acquisitionGeneration := record.acquisitionGeneration.getD .first

namespace FairnessLedger

/-- `FairnessLedger::new`. -/
def new (budget : FairnessBudget) : FairnessLedger where
  budget
  scopes := ∅
  candidates := ∅
  orders := ∅
  priority := {}
  serviceClock := 0

variable (l : FairnessLedger)

-- `get_mut` followed by an update of the entry.
def modifyScope (s : FairScope) (f : ScopeState → ScopeState) : FairnessLedger :=
  { l with scopes := l.scopes.modify s f }

def modifyCandidate (j : JobId) (f : CandidateRecord → CandidateRecord) : FairnessLedger :=
  { l with candidates := l.candidates.modify j f }

def modifyOrder (k : Option OrderingKey) (f : OrderRecord → OrderRecord) : FairnessLedger :=
  match k with
  | none => l
  | some k => { l with orders := l.orders.modify k f }

def candidateState (j : JobId) : Option FairCandidateState :=
  l.candidates[j]?.map (·.state)

/-! ## The ready index -/

def ensureScope (scope : FairScope) (cost : NonZero 16) : FairnessLedger :=
  match l.scopes[scope]? with
  | none => { l with scopes := l.scopes.insert scope (.new scope cost scope.volumeMode l.budget) }
  | some _ => l.modifyScope scope fun st => { st with cost := st.cost.max cost }

def setScopeWeight (scope : FairScope) (weight : NonZero 16) : Bool × FairnessLedger :=
  match l.scopes[scope]? with
  | none => (false, l)
  | some _ => (true, l.modifyScope scope (·.setWeight weight))

def adjustReadyCount (scope : FairScope) (ready add : Bool) : FairnessLedger :=
  if ready then l.modifyScope scope (·.adjustReady add) else l

def replaceCandidateRoute (old new : Option CandidateRoute) (refresh : IndexRefresh) :
    FairnessLedger :=
  let l := match old with
    | none => l
    | some route => l.adjustReadyCount route.scope route.ready false
  match new with
  | none => l
  | some route =>
    let l := l.adjustReadyCount route.scope route.ready true
    if route.ready ∧ refresh = .advanceOrder then
      l.modifyScope route.scope (·.advanceOrder route.orderingPosition)
    else l

def route (j : JobId) : Option CandidateRoute :=
  l.candidates[j]?.map CandidateRoute.fromRecord

/-- `rebuild_ready_counts`. -/
def rebuildReadyCounts : FairnessLedger :=
  let cleared := { l with scopes := l.scopes.map fun _ st => { st with readyCount := 0 } }
  let readyScopes := (l.candidates.toList.filter (·.2.state.hasReadyRoute)).map
    (·.2.candidate.scope)
  readyScopes.foldl (fun l scope => l.adjustReadyCount scope true true) cleared

/-! ## Capacity -/

def acquireScope (scope : FairScope) (cost : U16) (charge : ScopeCharge) : FairnessLedger :=
  l.modifyScope scope (·.acquire scope cost charge)

def releaseScope (scope : FairScope) (release : CapacityRelease) (cost : U16)
    (charge : ScopeCharge) : FairnessLedger :=
  l.modifyScope scope (·.release l.budget scope release cost charge)

def releaseCapacity (permit : FairPermit) (release : CapacityRelease) : FairnessLedger :=
  let l := l.releaseScope permit.scope release permit.costUnits.get .service
  let l := match permit.primary with
    | none => l
    | some primary => l.releaseScope primary release permit.costUnits.get .parentCapacity
  l.modifyOrder permit.orderingKey fun order =>
    { order with inFlight := false, releases := order.releases.satAdd 1 }

def restoreReconciledLowVolumeService (permit : FairPermit) : FairnessLedger :=
  if permit.scope.isLowVolume then
    l.modifyScope permit.scope (·.restoreLowVolume permit.costUnits.get)
  else l

/-! ## Candidate lifecycle -/

/-- The scopes of `register_candidate`: the candidate's own and, for a child, its primary. -/
def ensureCandidateScopes (candidate : FairCandidate) : FairnessLedger :=
  let l := l.ensureScope candidate.scope candidate.costUnits
  match candidate.scope.parent with
  | none => l
  | some primary => l.ensureScope primary candidate.costUnits

/-- `register_candidate`: a new ordering group starts at the position of its first candidate. -/
def registerCandidate (candidate : FairCandidate) : FairnessLedger :=
  let l := l.ensureCandidateScopes candidate
  match candidate.orderingKey with
  | none => l
  | some key => { l with orders := l.orders.insertIfNew key (.opened candidate) }

def addCandidate (input : FairCandidateInput) : Except ValidationError Unit × FairnessLedger :=
  match FairCandidate.tryFrom input with
  | .error e => (.error e, l)
  | .ok candidate =>
    if l.candidates.contains candidate.jobId then
      (.error (.invalidValue "duplicate fair candidate"), l)
    else
      let l := l.registerCandidate candidate
      let l := { l with candidates := l.candidates.insert candidate.jobId (.scheduled candidate) }
      (.ok (), l.replaceCandidateRoute none (l.route candidate.jobId) .advanceOrder)

def upsertState : Option FairCandidateState → Except ValidationError FairCandidateState
  | none | some .absent | some .scheduled => .ok .scheduled
  | some .retryWaiting => .ok .retryWaiting
  | some .leased => .error (.invalidValue "leased fair candidate")
  | some .deadLettered | some .cancelled => .error (.invalidValue "terminal fair candidate")

def replaceCandidateRecord (jobId : JobId) (candidate : FairCandidate)
    (state : FairCandidateState) : FairnessLedger :=
  match l.candidates[jobId]? with
  | some _ => l.modifyCandidate jobId fun record => { record with candidate, state }
  | none =>
    { l with candidates := l.candidates.insert jobId { CandidateRecord.scheduled candidate with state } }

def upsertCandidate (input : FairCandidateInput) : Except ValidationError Unit × FairnessLedger :=
  match FairCandidate.tryFrom input with
  | .error e => (.error e, l)
  | .ok candidate =>
    match upsertState (l.candidateState candidate.jobId) with
    | .error e => (.error e, l)
    | .ok nextState =>
      let previousRoute := l.route candidate.jobId
      let l := l.registerCandidate candidate
      let l := l.replaceCandidateRecord candidate.jobId candidate nextState
      (.ok (), l.replaceCandidateRoute previousRoute (l.route candidate.jobId) .preserveOrder)

/-- The shared tail of the lifecycle operations: update one record and move its route. -/
def updateRecord (jobId : JobId) (oldRoute : Option CandidateRoute)
    (f : CandidateRecord → CandidateRecord) : FairnessLedger :=
  let l := l.modifyCandidate jobId f
  l.replaceCandidateRoute oldRoute (l.route jobId) .preserveOrder

def deferCandidate (jobId : JobId) (scheduledAt : Timestamp) : FairnessLedger :=
  match l.candidates[jobId]? with
  | none => l
  | some _ => l.updateRecord jobId (l.route jobId) (·.deferred scheduledAt)

def applySettlement (permit : FairPermit) (release : FairRelease) : FairnessLedger :=
  let oldRoute := l.route permit.jobId
  let l := l.releaseCapacity permit release.capacityRelease
  let l := if release.isTerminal then
      l.modifyOrder permit.orderingKey fun order =>
        { order with head := permit.orderingPosition.satAdd 1 }
    else l
  l.updateRecord permit.jobId oldRoute fun record => { record with state := release.state }

def settlePermit (permit : FairPermit) (release : FairRelease) :
    Except FairnessRejection Unit × FairnessLedger :=
  match l.candidates[permit.jobId]? with
  | none => (.error .unknownScope, l)
  | some record =>
    if record.state = .leased ∧ record.acquisitionGeneration = some permit.acquisitionGeneration
    then (.ok (), l.applySettlement permit release)
    else (.error .orderingHead, l)

def release (l : FairnessLedger) (permit : FairPermit) (release : FairRelease) :
    Except FairnessRejection Unit × FairnessLedger :=
  l.settlePermit permit release

/-- `remove_candidate`: a leased projection is settled as complete; any other becomes absent. -/
def removeCandidate (jobId : JobId) : FairnessLedger :=
  match l.candidates[jobId]? with
  | none => l
  | some record =>
    if record.state = .leased then
      let permit := permitForLeasedRecord jobId record
      (l.applySettlement permit .complete).restoreReconciledLowVolumeService permit
    else
      l.updateRecord jobId (l.route jobId) fun record => { record with state := .absent }

def recordServiceUnits (jobId : JobId) (units : U64) : Bool × FairnessLedger :=
  match l.candidates[jobId]? with
  | none => (false, l)
  | some _ => (true, l.modifyCandidate jobId fun record =>
      { record with serviceTransitions := record.serviceTransitions.satAdd units })

/-- `reconcile_leased`: gives back a reservation whose lease a later drive no longer sees. -/
def reconcileLeased (jobId : JobId) (scheduledAt : Timestamp) : Bool × FairnessLedger :=
  match l.candidates[jobId]? with
  | none => (false, l)
  | some record =>
    if record.state = .leased then
      let permit := permitForLeasedRecord jobId record
      let oldRoute := some (CandidateRoute.fromRecord record)
      let l := l.releaseCapacity permit .restoreRate
      let l := l.restoreReconciledLowVolumeService permit
      (true, l.updateRecord jobId oldRoute (·.reconciled scheduledAt))
    else (false, l)

def resetPriorityWindow : FairnessLedger :=
  { l with
    priority := {}
    candidates := l.candidates.map fun _ record => { record with serviceTransitions := 0 } }

/-! ## Compaction -/

/-- Whether some candidate of the ledger carries the ordering key. -/
def carriesKey (key : OrderingKey) : Bool :=
  l.candidates.toList.any (·.2.candidate.orderingKey = some key)

/-- Drops a record with its route, and its ordering group when no other record carries the key. -/
def dropCandidate (jobId : JobId) (record : CandidateRecord) : FairnessLedger :=
  let l := { l with candidates := l.candidates.erase jobId }
  let l := l.replaceCandidateRoute (some (.fromRecord record)) none .preserveOrder
  match record.candidate.orderingKey with
  | none => l
  | some key => if l.carriesKey key then l else { l with orders := l.orders.erase key }

def compactCandidate (jobId : JobId) : Bool × FairnessLedger :=
  match l.candidates[jobId]? with
  | none => (false, l)
  | some record =>
    if record.state.isCompactable then (true, l.dropCandidate jobId record) else (false, l)

/-- Whether some candidate of the ledger is charged to the scope. -/
def hasCandidateIn (scope : FairScope) : Bool :=
  l.candidates.toList.any fun e =>
    e.2.candidate.scope = scope ∨ e.2.candidate.scope.primaryScope = scope

def compactEmptyScopes : FairnessLedger :=
  { l with scopes := l.scopes.filter fun scope st =>
      st.inFlight != 0 || st.isReady || l.hasCandidateIn scope }

end FairnessLedger

end AuxCommon
