import AuxCommon.Fairness.Values

/-!
# Priority windows

`PriorityDeficit` (`priority.rs`) gives the lanes critical, default and bulk 8, 4 and 1 units of
cost in a window, and starts a new window when all three are used up.
-/

namespace AuxCommon

/-- The share of a lane in one window: `CRITICAL_WEIGHT`, `DEFAULT_WEIGHT`, `BULK_WEIGHT`. -/
def Priority.laneWeight : Priority → U32
  | .critical => 8
  | .default => 4
  | .bulk => 1

/-- `PriorityDeficit`. -/
structure PriorityDeficit where
  criticalServed : U64 := 0
  defaultServed : U64 := 0
  bulkServed : U64 := 0
  criticalWindow : U32 := 0
  defaultWindow : U32 := 0
  bulkWindow : U32 := 0
  cycle : U32 := 0
  deriving DecidableEq

namespace PriorityDeficit

variable (d : PriorityDeficit)

/-- The part of a lane's share that the current window has used. -/
def window : Priority → U32
  | .critical => d.criticalWindow
  | .default => d.defaultWindow
  | .bulk => d.bulkWindow

def windowAllows (priority : Priority) (cost : U32) : Bool :=
  (d.window priority).satAdd cost ≤ priority.laneWeight

def allows (priority : Priority) (cost : U32) (bulkReady : Bool) (bound : U32) : Bool :=
  if cost = 0 ∨ (bulkReady ∧ bound ≤ d.cycle.satAdd cost ∧ priority ≠ .bulk)
      ∨ ¬d.windowAllows priority cost then
    false
  else
    match priority with
    | .critical =>
      d.criticalServed.satAdd (cost.setWidth 64) ≤ BitVec.satMul 8 (d.bulkServed.satAdd 1)
    | .default =>
      d.defaultServed.satAdd (cost.setWidth 64) ≤ BitVec.satMul 4 (d.bulkServed.satAdd 1)
    | .bulk => true

/-- The counters of one lane after `cost` units of service. -/
def chargeLane (priority : Priority) (cost : U32) : PriorityDeficit :=
  let value : U64 := cost.setWidth 64
  match priority with
  | .critical => { d with
      criticalServed := d.criticalServed.satAdd value
      criticalWindow := d.criticalWindow.satAdd cost
      cycle := d.cycle.satAdd cost }
  | .default => { d with
      defaultServed := d.defaultServed.satAdd value
      defaultWindow := d.defaultWindow.satAdd cost
      cycle := d.cycle.satAdd cost }
  | .bulk => { d with
      bulkServed := d.bulkServed.satAdd value
      bulkWindow := d.bulkWindow.satAdd cost
      cycle := 0 }

/-- `charge`: a window that all three lanes have used up starts again. -/
def charge (priority : Priority) (cost : U32) : PriorityDeficit :=
  let d := d.chargeLane priority cost
  if 8 ≤ d.criticalWindow ∧ 4 ≤ d.defaultWindow ∧ 1 ≤ d.bulkWindow then
    { d with criticalWindow := 0, defaultWindow := 0, bulkWindow := 0 }
  else d

end PriorityDeficit

end AuxCommon
