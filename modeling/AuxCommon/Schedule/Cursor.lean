import AuxCommon.Enqueue

/-!
# Recurring schedules and their cursors

`schedule/types.rs` and `schedule/schedule_control.rs`. A schedule copies its template into one job
for each occurrence of its cron expression. The caller keeps the cursor: the next due time, and the
controls, which are checked against its revision and generation. The cron expression and the calendar
are those of libraries; only the next occurrence after a time that the calendar represents is used.
-/

namespace AuxCommon

/-- `CronExpression`, through its libraries: the times for which `from_timestamp_millis` answers, and
the first occurrence after such a time. -/
structure CronExpression where
  representable : Timestamp → Bool
  after : Timestamp → Option Timestamp

/-- `next_after`, with the check of `timestamp_to_utc`. -/
def CronExpression.nextAfter (cron : CronExpression) (t : Timestamp) :
    Except ValidationError (Option Timestamp) :=
  if cron.representable t then .ok (cron.after t) else .error (.overflow "cron timestamp")

theorem CronExpression.nextAfter_eq_ok {cron : CronExpression} {t : Timestamp}
    {next : Option Timestamp} :
    cron.nextAfter t = .ok next ↔ cron.representable t = true ∧ cron.after t = next := by
  unfold nextAfter
  split <;> simp [*]

/-- The millisecond before, if there is one. -/
def Timestamp.preceding (t : Timestamp) : Timestamp :=
  if t.millis = Int64.minValue then t else ⟨t.millis - 1⟩

/-- `next_at_or_after`. -/
def CronExpression.nextAtOrAfter (cron : CronExpression) (t : Timestamp) :
    Except ValidationError (Option Timestamp) := cron.nextAfter t.preceding

/-- `MisfirePolicy`. -/
inductive MisfirePolicy
  | skip
  | fireOnce
  | catchUp (maximumOccurrences : NonZero 16)
  deriving DecidableEq

/-- `OverlapPolicy`. -/
inductive OverlapPolicy
  | allow | forbid
  deriving DecidableEq

/-! ## Occurrences -/

/-- `OccurrenceId::derive`. -/
def OccurrenceId.derive (sha256 : Bytes → Digest) (scheduleId : ScheduleId)
    (intendedAt : Timestamp) : OccurrenceId :=
  ⟨(sha256 (scheduleId.bytes.toList ++
    beBytes 8 intendedAt.millis.toBitVec.toNat)).take opaqueIdBytes⟩

/-- `ScheduleOccurrence`. -/
structure ScheduleOccurrence where
  scheduleId : ScheduleId
  intendedAt : Timestamp
  generation : U32
  deriving DecidableEq

/-- `job_id`. -/
def ScheduleOccurrence.jobId (sha256 : Bytes → Digest) (o : ScheduleOccurrence) : JobId :=
  ⟨(OccurrenceId.derive sha256 o.scheduleId o.intendedAt).bytes⟩

/-- `JobTemplate`, with the checks of `try_new`. -/
structure JobTemplate where
  kind : JobKind
  schemaVersion : NonZero 16
  payload : Bytes
  fairness : FairnessClass
  orderingKey : Option OrderingKey
  priority : Priority
  expiresAfter : Option Duration
  retryOverride : Option RetrySelection
  deduplication : Option Deduplication
  payload_le : payload.length ≤ maxInlinePayloadBytes
  expiresAfter_ne : ∀ d ∈ expiresAfter, d.nanos ≠ 0

/-- `occurrence_job`. -/
def JobTemplate.occurrenceJob (template : JobTemplate) (sha256 : Bytes → Digest)
    (o : ScheduleOccurrence) (overlap : OverlapPolicy) : Except ValidationError NewJob := do
  let expiresAt ← template.expiresAfter.mapM o.intendedAt.checkedAdd
  let orderingKey ← (match overlap with
    | .allow => .ok template.orderingKey
    | .forbid => (some <$> OpaqueBytes.tryNew o.scheduleId.bytes.toList).mapError fun _ =>
        .invalidValue "schedule ordering key" : Except ValidationError (Option OrderingKey))
  return {
    jobId := o.jobId sha256
    kind := template.kind
    schemaVersion := template.schemaVersion
    payload := template.payload
    fairness := template.fairness
    orderingKey := orderingKey
    priority := template.priority
    scheduledAt := o.intendedAt
    expiresAt := expiresAt
    retryOverride := template.retryOverride
    deduplication := template.deduplication }

/-! ## Cursors -/

/-- `ScheduleCursor`. -/
structure ScheduleCursor where
  nextDue : Option Timestamp
  watermark : Option Timestamp
  revision : U64
  generation : U32
  paused : Bool
  enabled : Bool
  active : Bool
  lastIntended : Option Timestamp
  deriving DecidableEq

/-- `ScheduleControl`. -/
inductive ScheduleControl
  | pause | resume | enable | disable
  deriving DecidableEq

/-- `ScheduleControlResult`. -/
inductive ScheduleControlResult
  | applied (revision : U64) (generation : U32)
  | conflict (revision : U64) (generation : U32)
  deriving DecidableEq

namespace ScheduleCursor

/-- `new`. -/
def new (nextDue : Option Timestamp) (enabled : Bool) : ScheduleCursor where
  nextDue := nextDue
  watermark := none
  revision := 0
  generation := 0
  paused := false
  enabled := enabled
  active := false
  lastIntended := none

variable (cursor : ScheduleCursor)

/-- `apply_control`. -/
def applyControl (expectedRevision : U64) (expectedGeneration : U32) (control : ScheduleControl) :
    ScheduleControlResult × ScheduleCursor :=
  if expectedRevision ≠ cursor.revision ∨ expectedGeneration ≠ cursor.generation then
    (.conflict cursor.revision cursor.generation, cursor)
  else
    let controlled := match control with
      | .pause => { cursor with paused := true }
      | .resume => { cursor with paused := false }
      | .enable => { cursor with enabled := true }
      | .disable => { cursor with enabled := false }
    let revision := cursor.revision.satAdd 1
    let generation := cursor.generation.satAdd 1
    (.applied revision generation, { controlled with
      active := false
      revision := revision
      generation := generation })

/-- `mark_started`. -/
def markStarted (generation : U32) (revision : U64) : Bool × ScheduleCursor :=
  if generation ≠ cursor.generation ∨ revision ≠ cursor.revision ∨ cursor.paused ∨
      ¬cursor.enabled ∨ cursor.active then (false, cursor)
  else (true, { cursor with active := true, revision := cursor.revision.satAdd 1 })

/-- `mark_completed`. -/
def markCompleted (generation : U32) (revision : U64) : Bool × ScheduleCursor :=
  if generation ≠ cursor.generation ∨ revision ≠ cursor.revision ∨ ¬cursor.active then
    (false, cursor)
  else (true, { cursor with active := false, revision := cursor.revision.satAdd 1 })

end ScheduleCursor

/-- `RecurringSchedule`, with a cadence that is a cron expression. -/
structure RecurringSchedule where
  scheduleId : ScheduleId
  jobTemplate : JobTemplate
  cron : CronExpression
  misfire : MisfirePolicy
  overlap : OverlapPolicy
  enabled : Bool

namespace RecurringSchedule

variable (schedule : RecurringSchedule)

/-- `first_due_after`. -/
def firstDueAfter (after : Timestamp) : Except ValidationError (Option Timestamp) :=
  schedule.cron.nextAfter after

end RecurringSchedule

end AuxCommon
