import Admission.Meter.Bucket
import Admission.Meter.Window

/-!
# Meters

A meter is the live state behind one rate: it decides whether so many permits can be had now, and
after what wait.  Meters never wait themselves, and they read no clock; the present instant comes
with each request.

* **`CustomMeter`** — what an algorithm of the embedding application has to offer;
* **`Meter`** — a window, a bucket or a custom meter.

A request for no permits is granted at once by every meter and leaves no trace.
-/

namespace Admission

/-- What an algorithm of the embedding application has to offer. -/
class CustomMeter (κ : Type) where
  /-- Take permits within a timeout, or nothing; the answer is the wait. -/
  reserve : κ → (permits : UInt64) → (timeout now : Micros) → Option Micros × κ
  /-- The earliest instant at which a reservation may start. -/
  earliest : κ → (now : Micros) → Micros
  /-- The permits of a second. -/
  pace : κ → Float

/-- The type without values has nothing to offer: programs that register no algorithm use it. -/
instance : CustomMeter Empty where
  reserve c := c.elim
  earliest c := c.elim
  pace c := c.elim

/-- The live state behind one rate. -/
inductive Meter (κ : Type) where
  /-- All or nothing in each window. -/
  | window (w : Window)
  /-- Stored permits, free or warming up. -/
  | bucket (b : Bucket Float)
  /-- An algorithm of the embedding application. -/
  | custom (c : κ)
  deriving Repr

namespace Meter

variable {κ : Type} [CustomMeter κ]

/-- What the meter's own algorithm answers, a request for no permits included. -/
def attempt (m : Meter κ) (permits : UInt64) (timeout now : Micros) : Option Micros × Meter κ :=
  match m with
  | window w => let (wait, w) := w.reserve permits now; (wait, window w)
  | bucket b => let (wait, b) := b.reserve permits timeout now; (wait, bucket b)
  | custom c => let (wait, c) := CustomMeter.reserve c permits timeout now; (wait, custom c)

/-- Take `permits` if they can be had within `timeout`; the answer is how long to wait for them.
No permits at all are always granted at once. -/
def reserve (m : Meter κ) (permits : UInt64) (timeout : Duration) (now : Micros) :
    Option Micros × Meter κ :=
  if permits = 0 then (some 0, m) else m.attempt permits timeout.micros now

/-- The earliest instant at which a reservation may start. -/
def earliest (m : Meter κ) (now : Micros) : Micros :=
  match m with
  | window w => w.earliest now
  | bucket b => b.earliest now
  | custom c => CustomMeter.earliest c now

/-- Whether a reservation could start now. -/
def isAvailable (m : Meter κ) (now : Micros) : Bool := m.earliest now ≤ now

/-- The permits of a second. -/
def pace (m : Meter κ) : Float :=
  match m with
  | window w => w.pace
  | bucket b => b.pace
  | custom c => CustomMeter.pace c

/-- A short name of the algorithm. -/
def kind : Meter κ → String
  | window _ => "all_or_nothing"
  | bucket b => if b.isWarmingUp then "warming_up" else "bursty"
  | custom _ => "custom"

theorem reserve_zero (m : Meter κ) (timeout : Duration) (now : Micros) :
    m.reserve 0 timeout now = (some 0, m) := rfl

theorem reserve_of_ne (m : Meter κ) {permits : UInt64} (h : permits ≠ 0) (timeout : Duration)
    (now : Micros) : m.reserve permits timeout now = m.attempt permits timeout.micros now :=
  if_neg h

end Meter

end Admission
