import AuxCommon.Schedule.Cursor

/-!
# Evaluating a schedule

`schedule/evaluation.rs`: the occurrences from the cursor's next due time to `now`, at most 65535 of
them, what the misfire policy selects among them, and the cursor after them. With a limit smaller
than the catch-up maximum the scan stops at the limit, and the evaluation is resumable if another
occurrence is due.
-/

namespace AuxCommon

/-- `MAX_OCCURRENCE_SCAN`. -/
def maxOccurrenceScan : Nat := 65535

/-- `WakeHint::from_optional_timestamp`. -/
def WakeHint.fromOptionalTimestamp : Option Timestamp → WakeHint
  | .some t => .atTime t
  | .none => .none

/-- `ScheduleEvaluation`. -/
structure ScheduleEvaluation where
  occurrences : List ScheduleOccurrence
  skipped : Nat
  cursor : ScheduleCursor
  wake : WakeHint
  blockedByOverlap : Bool
  resumable : Bool
  deriving DecidableEq

variable (cursor : ScheduleCursor)

namespace ScheduleEvaluation

/-- `idle`. -/
def idle (wake : WakeHint) : ScheduleEvaluation where
  occurrences := []
  skipped := 0
  cursor := cursor
  wake := wake
  blockedByOverlap := false
  resumable := false

/-- `blocked`. -/
def blocked : ScheduleEvaluation where
  occurrences := []
  skipped := 0
  cursor := cursor
  wake := .none
  blockedByOverlap := true
  resumable := false

end ScheduleEvaluation

/-! ## The backlog -/

/-- `Backlog`. -/
structure Backlog where
  first : Option Timestamp := none
  last : Option Timestamp := none
  count : Nat := 0
  selected : List ScheduleOccurrence := []
  resumable : Bool := false

/-- `BacklogQuery`. -/
structure BacklogQuery where
  cron : CronExpression
  nextDue : Timestamp
  now : Timestamp
  policy : MisfirePolicy
  scheduleId : ScheduleId
  generation : U32
  selectedLimit : Nat
  stopAfterSelection : Bool

namespace BacklogQuery

variable (query : BacklogQuery)

/-- `first_after`. -/
def firstAfter : Timestamp := query.nextDue.preceding

/-- `selected_limit`. -/
def limit : Nat :=
  match query.policy with
  | .catchUp _ => query.selectedLimit
  | .skip | .fireOnce => 0

end BacklogQuery

/-- The limits of `EvaluationLimits::try_new`. -/
def configuredLimit : MisfirePolicy → Nat
  | .catchUp maximumOccurrences => maximumOccurrences.get.toNat
  | .skip | .fireOnce => 0

/-- `EvaluationLimits::try_new`: the number of occurrences to select. -/
def selectedLimit (policy : MisfirePolicy) (materializationLimit : Option Nat) : Nat :=
  materializationLimit.elim (configuredLimit policy) (min (configuredLimit policy))

/-- `EvaluationLimits::try_new`: whether the scan stops there. -/
def stopAfterSelection (policy : MisfirePolicy) (materializationLimit : Option Nat) : Bool :=
  match policy with
  | .catchUp _ => materializationLimit.any (· < configuredLimit policy)
  | .skip | .fireOnce => false

namespace Backlog

variable (query : BacklogQuery) (backlog : Backlog)

/-- `record`. -/
def record (next : Timestamp) : Backlog :=
  { backlog with
    first := backlog.first.or (some next)
    last := some next
    count := backlog.count + 1
    selected :=
      if backlog.selected.length < query.limit then
        backlog.selected ++ [⟨query.scheduleId, next, query.generation⟩]
      else backlog.selected }

/-- `reached_selection`. -/
def reachedSelection (cursor : Timestamp) : Except ValidationError (Bool × Backlog) :=
  if !query.stopAfterSelection || backlog.selected.length < query.limit then
    .ok (false, backlog)
  else do
    let following ← query.cron.nextAfter cursor
    return (true, { backlog with resumable := following.any (· ≤ query.now) })

end Backlog

/-- The loop of `collect_backlog`. -/
def collectLoop (query : BacklogQuery) :
    Nat → Timestamp → Backlog → Except ValidationError Backlog
  | 0, _, backlog => .ok backlog
  | scan + 1, cursor, backlog => do
    match ← query.cron.nextAfter cursor with
    | none => return backlog
    | some next =>
      if query.now < next then return backlog
      else
        let (stop, backlog) ← (backlog.record query next).reachedSelection query next
        if stop then return backlog else collectLoop query scan next backlog

/-- `collect_backlog`. -/
def collectBacklog (query : BacklogQuery) : Except ValidationError Backlog :=
  collectLoop query maxOccurrenceScan query.firstAfter {}

/-! ## The result -/

variable (backlog : Backlog)

/-- `occurrences`: those that the policy selects. -/
def Backlog.occurrences (scheduleId : ScheduleId) (generation : U32) :
    MisfirePolicy → List ScheduleOccurrence
  | .skip => []
  | .fireOnce => backlog.last.toList.map (⟨scheduleId, ·, generation⟩)
  | .catchUp maximumOccurrences => backlog.selected.take maximumOccurrences.get.toNat

/-- `occurrences`: how many of them the policy selects. -/
def Backlog.selectedCount : MisfirePolicy → Nat
  | .skip => 0
  | .fireOnce => if backlog.count ≠ 0 then 1 else 0
  | .catchUp maximumOccurrences => min backlog.selected.length maximumOccurrences.get.toNat

/-- `occurrences`: the watermark. -/
def Backlog.watermark : MisfirePolicy → Option Timestamp
  | .skip => backlog.first
  | .fireOnce => backlog.last
  | .catchUp maximumOccurrences =>
    backlog.selected[backlog.selectedCount (.catchUp maximumOccurrences) - 1]?.map (·.intendedAt)

/-- `advance_cursor`. -/
def advanceCursor (nextDue watermark lastIntended : Option Timestamp) : ScheduleCursor :=
  { cursor with
    nextDue := nextDue
    watermark := watermark.or cursor.watermark
    revision := cursor.revision.satAdd 1
    lastIntended := lastIntended }

namespace RecurringSchedule

variable (schedule : RecurringSchedule)

/-- The next due time of `finish_evaluation`. -/
def nextDueAfter (now : Timestamp) (backlog : Backlog) :
    Except ValidationError (Option Timestamp) :=
  if backlog.resumable then do
    let next ← backlog.last.mapM schedule.cron.nextAfter
    return next.join
  else schedule.cron.nextAfter now

/-- `finish_evaluation`. -/
def finishEvaluation (now : Timestamp) (backlog : Backlog) :
    Except ValidationError ScheduleEvaluation :=
  if backlog.count = 0 then do
    let wake ← schedule.cron.nextAtOrAfter now
    return .idle cursor (.fromOptionalTimestamp wake)
  else do
    let nextDue ← schedule.nextDueAfter now backlog
    return {
      occurrences := backlog.occurrences schedule.scheduleId cursor.generation schedule.misfire
      skipped := min (backlog.count - backlog.selectedCount schedule.misfire) (2 ^ 32 - 1)
      cursor := advanceCursor cursor nextDue (backlog.watermark schedule.misfire) backlog.last
      wake := if backlog.resumable then .now else .fromOptionalTimestamp nextDue
      blockedByOverlap := false
      resumable := backlog.resumable }

/-- The query of `evaluate_with_limit`. -/
def backlogQuery (nextDue now : Timestamp) (materializationLimit : Option Nat) : BacklogQuery where
  cron := schedule.cron
  nextDue := nextDue
  now := now
  policy := schedule.misfire
  scheduleId := schedule.scheduleId
  generation := cursor.generation
  selectedLimit := selectedLimit schedule.misfire materializationLimit
  stopAfterSelection := stopAfterSelection schedule.misfire materializationLimit

/-- `evaluate_with_limit`. -/
def evaluateWithLimit (now : Timestamp) (materializationLimit : Option Nat) :
    Except ValidationError ScheduleEvaluation :=
  if !cursor.enabled || cursor.paused then .ok (.idle cursor .none)
  else if schedule.overlap = .forbid ∧ cursor.active then .ok (.blocked cursor)
  else match cursor.nextDue with
    | none => .ok (.idle cursor .none)
    | some nextDue => do
      let backlog ← collectBacklog
        (schedule.backlogQuery cursor nextDue now materializationLimit)
      schedule.finishEvaluation cursor now backlog

/-- `evaluate`. -/
def evaluate (now : Timestamp) :
    Except ValidationError ScheduleEvaluation := schedule.evaluateWithLimit cursor now none

/-- `evaluate_for_materialization`. -/
def evaluateForMaterialization (now : Timestamp) (maxOccurrences : Nat) :
    Except ValidationError ScheduleEvaluation :=
  schedule.evaluateWithLimit cursor now (some maxOccurrences)

end RecurringSchedule

end AuxCommon
