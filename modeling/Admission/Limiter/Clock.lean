import Admission.Duration

/-!
# Clocks

A clock that is moved by hand.  To wait is to move it, so the time spent waiting can be told from
the time that went by otherwise.
-/

namespace Admission

/-- A clock that is moved by hand. -/
structure Clock where
  /-- The present reading. -/
  now : Micros
  /-- The time spent waiting so far. -/
  slept : Micros
  deriving DecidableEq, Repr

namespace Clock

/-- A clock that nobody has moved. -/
def unmoved : Clock := ⟨0, 0⟩

/-- Let time go by. -/
def advance (c : Clock) (d : Duration) : Clock := { c with now := Micros.later c.now d.micros }

/-- Wait. -/
def sleep (c : Clock) (d : Duration) : Clock :=
  { c.advance d with slept := Micros.later c.slept d.micros }

end Clock

end Admission
