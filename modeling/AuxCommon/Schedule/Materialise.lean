import AuxCommon.Schedule.Evaluation

/-!
# Materialising occurrences

`schedule/schedule_materialise.rs`: a bounded number of due occurrences is enqueued, one after the
other, until the deadline. A call that is cut short returns a cursor to resume from.
-/

namespace AuxCommon

/-- `ENQUEUE_WORST_CASE_STORE_OPERATIONS`. -/
def enqueueWorstCaseStoreOperations : Nat := 4

/-- `MonotonicDeadline`. -/
structure MonotonicDeadline where
  nanos : U64
  deriving DecidableEq

/-- `is_at_or_before`. -/
def MonotonicDeadline.isAtOrBefore (deadline now : MonotonicDeadline) : Bool :=
  deadline.nanos.toNat ≤ now.nanos.toNat

/-- `ScheduleMaterializationBudget`, with the checks of `try_new`. -/
structure ScheduleMaterializationBudget where
  maxOccurrences : NonZero 32
  maxStoreOperations : NonZero 32
  finishBy : MonotonicDeadline
  deriving DecidableEq

/-- `materialization_item_limit`. -/
def ScheduleMaterializationBudget.itemLimit (budget : ScheduleMaterializationBudget) :
    Option Nat :=
  let limit := min budget.maxOccurrences.get.toNat
    (budget.maxStoreOperations.get.toNat / enqueueWorstCaseStoreOperations)
  if limit = 0 then none else some limit

/-- `MaterializedOccurrence`. -/
structure MaterializedOccurrence where
  occurrence : ScheduleOccurrence
  enqueue : EnqueueResult
  deriving DecidableEq

/-- `ScheduleMaterialization`. -/
structure ScheduleMaterialization where
  occurrences : List MaterializedOccurrence
  skipped : Nat
  nextWake : WakeHint
  cursor : ScheduleCursor
  complete : Bool
  deriving DecidableEq

/-- `resume_cursor`. -/
def resumeCursor (cursor : ScheduleCursor) (nextDue : Option Timestamp)
    (lastIntended : Timestamp) : ScheduleCursor :=
  { cursor with
    nextDue := nextDue
    watermark := some lastIntended
    lastIntended := some lastIntended }

/-- `resume_materialization`. -/
def resumeMaterialization (schedule : RecurringSchedule) (cursor : ScheduleCursor)
    (evaluation : ScheduleEvaluation) (materialized : List MaterializedOccurrence) :
    Except ValidationError ScheduleMaterialization := do
  let cursor ← (match materialized.getLast? with
    | some entry => do
      let lastIntended := entry.occurrence.intendedAt
      let nextDue ← schedule.firstDueAfter lastIntended
      return resumeCursor evaluation.cursor nextDue lastIntended
    | none => return cursor : Except ValidationError ScheduleCursor)
  return {
    occurrences := materialized
    skipped := 0
    nextWake := .now
    cursor := cursor
    complete := false }

/-- One call of `materialize`: its time and budget, the readings of its clock and the identities
that its enqueues draw. -/
structure MaterializeCall where
  now : Timestamp
  budget : ScheduleMaterializationBudget
  clock : Nat → MonotonicDeadline
  ids : Nat → EnqueueIds

/-- The loop of `materialize_occurrences`. -/
def materializeLoop (sys : JobSystem) (schedule : RecurringSchedule) (cursor : ScheduleCursor)
    (call : MaterializeCall) (evaluation : ScheduleEvaluation) :
    List ScheduleOccurrence → List MaterializedOccurrence → JobProg ScheduleMaterialization
  | [], materialized => return {
      occurrences := materialized
      skipped := evaluation.skipped
      nextWake := evaluation.wake
      cursor := evaluation.cursor
      complete := !evaluation.resumable }
  | occurrence :: rest, materialized =>
    if call.budget.finishBy.isAtOrBefore (call.clock materialized.length) then
      liftM (resumeMaterialization schedule cursor evaluation materialized)
    else do
      let job ← schedule.jobTemplate.occurrenceJob sys.sha256 occurrence schedule.overlap
      let result ← enqueue sys (call.ids materialized.length) job call.now
      materializeLoop sys schedule cursor call evaluation rest
        (materialized ++ [⟨occurrence, result⟩])

/-- `materialize`. -/
def materialize (sys : JobSystem) (schedule : RecurringSchedule) (cursor : ScheduleCursor)
    (call : MaterializeCall) : JobProg ScheduleMaterialization :=
  match call.budget.itemLimit with
  | none => return {
      occurrences := []
      skipped := 0
      nextWake := .now
      cursor := cursor
      complete := false }
  | some itemLimit => do
    let evaluation ← schedule.evaluateForMaterialization cursor call.now itemLimit
    materializeLoop sys schedule cursor call evaluation evaluation.occurrences []

end AuxCommon
