import AuxCommon.Lib.LinkedMap
import AuxCommon.Lib.Saturating

/-!
# The costs of a request

Model of `RequestCostCollector` (`metrics-facade/src/request_cost.rs`): what a request has cost so
far, the work and the database calls that are under way, and the operations on them, each of which
is one critical section. An `Update` is one record of a cost.

The breakdowns are maps here, where the snapshot of the source lists their entries. Left out is the
time of the last update, which the settlement does not read.
-/

namespace AuxCommon.RequestCost

inductive StorageDirection where
  | read
  | write
  deriving DecidableEq

/-- What has been counted. -/
structure Counters where
  operation : Option String
  wallMs : Option Float
  remoteWaitMs : Float
  dbCalls : Nat
  dbSerialWaves : Nat
  dbMaxParallelism : Nat
  dbCallBreakdown : LinkedMap String Nat
  dbReadOps : Nat
  dbWriteOps : Nat
  dbReadBytes : Nat
  dbWriteBytes : Nat
  analyticsRowsInserted : Nat
  analyticsRowsUpdated : Nat
  analyticsRowsDeleted : Nat
  analyticsBytesWritten : Nat
  requestBytes : Nat
  responseBytes : Option Nat
  remoteRequestBytes : Nat
  remoteResponseBytes : Nat
  storageBreakdown : LinkedMap (String × String × StorageDirection) (Nat × Nat)

def Counters.new : Counters where
  operation := none
  wallMs := none
  remoteWaitMs := 0
  dbCalls := 0
  dbSerialWaves := 0
  dbMaxParallelism := 0
  dbCallBreakdown := .empty
  dbReadOps := 0
  dbWriteOps := 0
  dbReadBytes := 0
  dbWriteBytes := 0
  analyticsRowsInserted := 0
  analyticsRowsUpdated := 0
  analyticsRowsDeleted := 0
  analyticsBytesWritten := 0
  requestBytes := 0
  responseBytes := none
  remoteRequestBytes := 0
  remoteResponseBytes := 0
  storageBreakdown := .empty

/-! ## Labels -/

structure MetricLabel where
  key : String
  value : String
  valid : Bool

def maxMetricLabels : Nat := 16

def labelsAreValid (labels : List MetricLabel) : Bool :=
  labels.length ≤ maxMetricLabels && labels.all (·.valid)

def StorageDirection.ofLabel : String → Option StorageDirection
  | "read" => some .read
  | "write" => some .write
  | _ => none

/-- The last label of a key decides. -/
def storageLabels (labels : List MetricLabel) : Option (String × String × StorageDirection) :=
  let last (key : String) := (labels.reverse.find? (·.key = key)).map (·.value)
  match last "ddb_op", last "item_kind", (last "direction").bind StorageDirection.ofLabel with
  | some ddbOp, some itemKind, some direction => some (ddbOp, itemKind, direction)
  | _, _, _ => none

/-! ## Updates -/

/-- The counters of `record_counter` that only add. -/
inductive CounterMetric where
  | httpRequestBytesTotal
  | remoteStorageRequestBytesTotal
  | remoteStorageResponseBytesTotal
  | analyticsIngestionRecordsInsertedTotal
  | analyticsIngestionRecordsUpdatedTotal
  | analyticsIngestionRecordsDeletedTotal
  | analyticsIngestionBytesWrittenTotal
  deriving DecidableEq

inductive Update where
  /-- `set_request_cost_operation` -/
  | operation (operation : String)
  /-- `begin_database_call`, while so many calls are active -/
  | databaseCall (operation : String) (active : Nat)
  | counter (metric : CounterMetric) (value : Nat)
  /-- `StorageBilledItemOpsTotalMetric` -/
  | storageOps (labels : List MetricLabel) (value : Nat)
  /-- `StorageLogicalItemBytesTotalMetric` -/
  | storageBytes (labels : List MetricLabel) (value : Nat)
  /-- `RequestLatencyMetric` -/
  | requestLatency (value : Float)
  /-- `RemoteStorageRequestLatencyMs` -/
  | remoteStorageLatency (value : Float)
  /-- `record_analytics_request_cost_by_request_id` -/
  | analytics (rowDelta : Int) (bytes : Nat)
  /-- `prepare_snapshot` -/
  | prepared (wallMs : Float) (responseBytes : Option Nat)

def maxOperationBytes : Nat := 512

def maxDatabaseBreakdownEntries : Nat := 128

def maxStorageBreakdownEntries : Nat := 256

namespace Counters

variable (c : Counters)

def recordCounter (value : Nat) : CounterMetric → Counters
  | .httpRequestBytesTotal => { c with requestBytes := satAdd c.requestBytes value }
  | .remoteStorageRequestBytesTotal =>
    { c with remoteRequestBytes := satAdd c.remoteRequestBytes value }
  | .remoteStorageResponseBytesTotal =>
    { c with remoteResponseBytes := satAdd c.remoteResponseBytes value }
  | .analyticsIngestionRecordsInsertedTotal =>
    { c with analyticsRowsInserted := satAdd c.analyticsRowsInserted value }
  | .analyticsIngestionRecordsUpdatedTotal =>
    { c with analyticsRowsUpdated := satAdd c.analyticsRowsUpdated value }
  | .analyticsIngestionRecordsDeletedTotal =>
    { c with analyticsRowsDeleted := satAdd c.analyticsRowsDeleted value }
  | .analyticsIngestionBytesWrittenTotal =>
    { c with analyticsBytesWritten := satAdd c.analyticsBytesWritten value }

/-- The entry of a storage operation, unless there is no room for a new one. -/
def breakDown (key : String × String × StorageDirection) (add : Nat × Nat → Nat × Nat) : Counters :=
  if c.storageBreakdown.contains key = false ∧
      maxStorageBreakdownEntries ≤ c.storageBreakdown.len then c
  else
    { c with storageBreakdown :=
        c.storageBreakdown.insert key (add ((c.storageBreakdown.get? key).getD (0, 0))) }

def recordStorageOps (labels : List MetricLabel) (value : Nat) : Counters :=
  match if labelsAreValid labels then storageLabels labels else none with
  | none => c
  | some key =>
    let c := match key.2.2 with
      | .read => { c with dbReadOps := satAdd c.dbReadOps value }
      | .write => { c with dbWriteOps := satAdd c.dbWriteOps value }
    c.breakDown key fun entry => (satAdd entry.1 value, entry.2)

def recordStorageBytes (labels : List MetricLabel) (value : Nat) : Counters :=
  match if labelsAreValid labels then storageLabels labels else none with
  | none => c
  | some key =>
    let c := match key.2.2 with
      | .read => { c with dbReadBytes := satAdd c.dbReadBytes value }
      | .write => { c with dbWriteBytes := satAdd c.dbWriteBytes value }
    c.breakDown key fun entry => (entry.1, satAdd entry.2 value)

/-- The calls of an operation, when its name is short and there is room for it. -/
def breakDownCall (operation : String) : Counters :=
  if maxOperationBytes < operation.utf8ByteSize then c
  else match c.dbCallBreakdown.get? operation with
    | some calls => { c with dbCallBreakdown := c.dbCallBreakdown.insert operation (satAdd calls 1) }
    | none =>
      if c.dbCallBreakdown.len < maxDatabaseBreakdownEntries then
        { c with dbCallBreakdown := c.dbCallBreakdown.insert operation 1 }
      else c

def recordDatabaseCall (operation : String) (active : Nat) : Counters :=
  { c with
    dbCalls := satAdd c.dbCalls 1
    dbSerialWaves := if active = 0 then satAdd c.dbSerialWaves 1 else c.dbSerialWaves
    dbMaxParallelism := max c.dbMaxParallelism (satAdd active 1) }.breakDownCall operation

def recordAnalytics (rowDelta : Int) (bytes : Nat) : Counters :=
  let c :=
    if 0 < rowDelta then
      { c with analyticsRowsInserted := satAdd c.analyticsRowsInserted rowDelta.toNat }
    else if rowDelta < 0 then
      { c with analyticsRowsDeleted := satAdd c.analyticsRowsDeleted rowDelta.natAbs }
    else { c with analyticsRowsUpdated := satAdd c.analyticsRowsUpdated 1 }
  { c with analyticsBytesWritten := satAdd c.analyticsBytesWritten bytes }

def record : Update → Counters
  | .operation operation =>
    if operation.utf8ByteSize ≤ maxOperationBytes then { c with operation := some operation } else c
  | .databaseCall operation active => c.recordDatabaseCall operation active
  | .counter metric value => c.recordCounter value metric
  | .storageOps labels value => c.recordStorageOps labels value
  | .storageBytes labels value => c.recordStorageBytes labels value
  | .requestLatency value => { c with wallMs := some value }
  | .remoteStorageLatency value => { c with remoteWaitMs := c.remoteWaitMs + value }
  | .analytics rowDelta bytes => c.recordAnalytics rowDelta bytes
  | .prepared wallMs responseBytes =>
    { c with wallMs := some wallMs, responseBytes := responseBytes }

end Counters

/-! ## The collector -/

structure Collector where
  registrationId : Option Nat
  requestId : Option String
  counters : Counters
  activeDbCalls : Nat
  activeWork : Nat
  finalized : Bool

/-- What has been counted, with the request it is for. -/
structure Snapshot where
  requestId : Option String
  counters : Counters

namespace Collector

def new (registrationId : Option Nat) (requestId : Option String) : Collector where
  registrationId := registrationId
  requestId := requestId
  counters := .new
  activeDbCalls := 0
  activeWork := 0
  finalized := false

def record (c : Collector) (u : Update) : Collector := { c with counters := c.counters.record u }

variable (c : Collector)

/-- `begin_work`: whether the work is reserved. -/
def beginWork : Bool × Collector :=
  if c.finalized then (false, c)
  else (true, { c with activeWork := satAdd c.activeWork 1 })

def finishWork : Collector := { c with activeWork := c.activeWork - 1 }

def isWorkIdle : Bool := c.activeWork = 0 && c.activeDbCalls = 0

/-- `begin_database_call` in the scope of the collector. -/
def beginDatabaseCall (operation : String) : Collector :=
  { c.record (.databaseCall operation c.activeDbCalls) with
    activeDbCalls := satAdd c.activeDbCalls 1 }

/-- The drop of `DatabaseCallGuard`. -/
def finishDatabaseCall : Collector :=
  { c with activeDbCalls := c.activeDbCalls - 1 }

def snapshot : Snapshot := ⟨c.requestId, c.counters⟩

/-- `take_finished_snapshot`, without the registration that it returns to be removed. -/
def takeFinishedSnapshot : Snapshot × Collector :=
  (c.snapshot, { c with finalized := true, registrationId := none })

end Collector

end AuxCommon.RequestCost
