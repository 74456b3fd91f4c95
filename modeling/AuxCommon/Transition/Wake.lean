import AuxCommon.Engine

/-!
# The wake watermark

`wake/planning.rs` and `transition/wake.rs`: each queue has one advisory lower bound of its due index.
A lowering leaves a bound that is low enough alone, without a check. A transaction that was refused
may be tried again with a fresh write of its wake key (`refreshConflictedWake`).
-/

namespace AuxCommon

/-- `WakeUpdate`. -/
inductive WakeUpdate
  | lower (candidate : Timestamp)
  | reconcile (next : Option Timestamp)
  deriving DecidableEq

/-- The write of a wake key together with its check. -/
structure WakeWrite where
  check : StoreCheck
  mutation : StoreMutation
  deriving DecidableEq

/-- The last step of `apply`: from the bound read to the next one. -/
def wakeWrite (queue : QueueName) (current : Option Timestamp) (next : Option Timestamp) :
    Option WakeWrite :=
  match current, next with
  | some old, some new =>
    if old = new then none
    else some ⟨.value (.wake queue) (.wake old), .put (.wake queue) (.wake new)⟩
  | some old, none => some ⟨.value (.wake queue) (.wake old), .delete (.wake queue)⟩
  | none, some new => some ⟨.absent (.wake queue), .put (.wake queue) (.wake new)⟩
  | none, none => none

/-- `apply`. -/
def wakeApply (queue : QueueName) (current : Option StoreValue) (update : WakeUpdate) :
    Except StoreDataError (Option WakeWrite) := do
  let currentTime ← current.mapM decodeWakeValue
  match update with
  | .lower candidate =>
    if currentTime.any (· ≤ candidate) then return none
    return wakeWrite queue currentTime (some candidate)
  | .reconcile next => return wakeWrite queue currentTime next

/-- The checks and writes of a wake write. -/
def wakeChecks (wake : Option WakeWrite) : List StoreCheck := wake.toList.map WakeWrite.check

def wakeMutations (wake : Option WakeWrite) : List StoreMutation :=
  wake.toList.map WakeWrite.mutation

/-! ## Refreshing a refused wake write -/

/-- `find_wake_check`: the check of a wake key that the transaction also writes. -/
def findWakeCheck (t : StoreTransaction) : Option StoreCheck :=
  t.checks.find? fun c => c.key.isWake && t.mutations.any fun m => m.key = c.key

/-- Whether a value that was read is the one that the check expects. -/
def isUnchanged (current : Option StoreValue) : StoreCheck → Bool
  | .absent _ => current.isNone
  | .value _ expected => current = some expected

/-- `retain_wake_bound`. -/
def retainWakeBound (t : StoreTransaction) (wakeKey : StoreKey) (current : Option StoreValue) :
    Except StoreDataError (Option Timestamp) := do
  let currentTime ← current.mapM decodeWakeValue
  match t.mutations.find? fun m => m.key = wakeKey with
  | some (.put _ value) => some <$> decodeWakeValue value
  | _ => return currentTime

/-- `refresh_conflicted_wake`. -/
def refreshConflictedWake (sys : JobSystem) (id : Option CommitOperationId)
    (t : StoreTransaction) : JobProg (Option StoreTransaction) := do
  match findWakeCheck t with
  | none => return none
  | some check =>
    let current ← storeGet check.key
    if isUnchanged current check then return none
    let next ← (liftM (retainWakeBound t check.key current) : JobResult (Option Timestamp))
    let fresh ← (liftM (match check.key, next with
      | .wake queue, some next => wakeApply queue current (.lower next)
      | _, _ => .ok none) : JobResult (Option WakeWrite))
    let id ← (okOr .entropyUnavailable id : JobResult CommitOperationId)
    let transaction ← sys.checkedTransaction id
      ((t.checks.filter fun c => c.key ≠ check.key) ++ wakeChecks fresh)
      ((t.mutations.filter fun m => m.key ≠ check.key) ++ wakeMutations fresh)
    return some transaction

end AuxCommon
