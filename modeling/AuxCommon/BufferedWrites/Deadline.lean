import AuxCommon.BufferedWrites.Retention

/-!
# Deadlines

`Deadline` of the engine: an instant, or none where the clock cannot count so far.
-/

namespace AuxCommon.BufferedWrites

/-- `Instant::checked_add`: the clock counts seconds in 63 bits. -/
def Instant.checkedAdd (t : Instant) (d : Nat) : Option Instant :=
  if t.nanos + d < 2 ^ 63 * 10 ^ 9 then some ⟨t.nanos + d⟩ else none

/-- `Deadline`. Durations are in nanoseconds. -/
structure Deadline where
  target : Option Instant
  budget : Nat

namespace Deadline

/-- `from_anchor`. -/
def fromAnchor (anchor : Instant) (budget : Nat) : Deadline := ⟨anchor.checkedAdd budget, budget⟩

/-- `remaining_at`. -/
def remainingAt (d : Deadline) (now : Instant) : Nat :=
  d.target.elim d.budget fun target => target.nanos - now.nanos

/-- `is_expired_at`. -/
def isExpiredAt (d : Deadline) (now : Instant) : Bool := d.remainingAt now = 0

end Deadline

end AuxCommon.BufferedWrites
