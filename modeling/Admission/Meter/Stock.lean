import Admission.Meter.Catalog

/-!
# Stock algorithms

A few plain algorithms that a catalog can register besides the built-in ones.

* **`always`** and **`never`** — grant or reject everything;
* **`quota`** — a fixed supply that is never refilled: the rate's permits, and one more for each
  microsecond that the clock has run when it is created;
* **`slow`** — waits the rate's permits in microseconds for each permit, and remembers nothing;
* **`broken`** — cannot be created.
-/

namespace Admission

/-- The live state of a stock algorithm. -/
inductive StockMeter where
  /-- Grants everything at once. -/
  | always
  /-- Rejects everything. -/
  | never
  /-- Grants at once while a fixed supply lasts. -/
  | quota (size left : UInt64)
  /-- Lets every permit wait. -/
  | slow (waitEach : UInt64)
  deriving DecidableEq, Repr

namespace StockMeter

/-- Take permits within a timeout, or nothing. -/
def reserve (s : StockMeter) (permits : UInt64) (timeout _now : Micros) :
    Option Micros × StockMeter :=
  match s with
  | always => (some 0, always)
  | never => (none, never)
  | quota size left =>
    if permits ≤ left then (some 0, quota size (left - permits)) else (none, quota size left)
  | slow waitEach =>
    let wait := Micros.ofNat (waitEach.toNat * permits.toNat)
    (if wait ≤ timeout then some wait else none, slow waitEach)

/-- The earliest instant at which a reservation may start. -/
def earliest (s : StockMeter) (now : Micros) : Micros :=
  match s with
  | always => now
  | never => Micros.top
  | quota _ left => if 0 < left then now else Micros.top
  | slow _ => now

/-- The permits of a second. -/
def pace : StockMeter → Float
  | always => 1.0 / 0.0
  | never => 0.0
  | quota size _ => size.toFloat
  | slow waitEach => 1000000.0 / waitEach.toFloat

instance : CustomMeter StockMeter := ⟨reserve, earliest, pace⟩

/-- A catalog that knows the stock algorithms by name. -/
def registerAll (c : Catalog StockMeter) : Catalog StockMeter :=
  (c.register "always" fun _ _ => pure always)
    |>.register "never" (fun _ _ => pure never)
    |>.register "quota" (fun rate now =>
      pure (quota rate.permits (Micros.later rate.permits now)))
    |>.register "slow" (fun rate _ => pure (slow rate.permits))
    |>.register "broken" (fun rate now =>
      throw (.invalidRate (.refused
        ("broken constructor for " ++ rate.text ++ " at " ++ toString now.toNat))))

end StockMeter

end Admission
