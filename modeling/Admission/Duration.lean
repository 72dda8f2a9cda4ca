import Admission.Micros

/-!
# Durations

A length of time, kept to the nanosecond.

* **in microseconds** — `Duration.micros`: whole microseconds, rounded down and held at the largest
  reading of a clock; `Duration.toNat_micros` states it in whole numbers;
* **as text** — `Duration.text`: the largest of the units `s`, `ms`, `µs`, `ns` that is not larger
  than the duration, with just as many places as the nanoseconds need.
-/

namespace Admission

/-- A length of time. -/
structure Duration where
  /-- The whole number of nanoseconds. -/
  nanos : Nat
  deriving DecidableEq, Repr, Inhabited

namespace Duration

/-- No time at all. -/
def zero : Duration := ⟨0⟩

/-- `n` seconds. -/
def ofSeconds (n : Nat) : Duration := ⟨n * 1000000000⟩

/-- `n` thousandths of a second. -/
def ofMillis (n : Nat) : Duration := ⟨n * 1000000⟩

/-- `n` microseconds. -/
def ofMicros (n : Micros) : Duration := ⟨n.toNat * 1000⟩

/-- Whether there is no time at all. -/
def isZero (d : Duration) : Bool := d.nanos == 0

/-- `n` times as long. -/
def times (d : Duration) (n : Nat) : Duration := ⟨d.nanos * n⟩

/-- What is left of `d` once `spent` is gone; nothing when `spent` is longer. -/
def minus (d spent : Duration) : Duration := ⟨d.nanos - spent.nanos⟩

/-- The whole seconds. -/
def seconds (d : Duration) : Nat := d.nanos / 1000000000

/-- The nanoseconds beyond the whole seconds. -/
def subsecondNanos (d : Duration) : Nat := d.nanos % 1000000000

/-- The whole microseconds, however many. -/
def wholeMicros (d : Duration) : Nat := d.nanos / 1000

/-- The whole microseconds, held at the largest reading of a clock. -/
def micros (d : Duration) : Micros := Micros.ofNat d.wholeMicros

theorem toNat_micros (d : Duration) : d.micros.toNat = min (d.nanos / 1000) (UInt64.size - 1) :=
  Micros.toNat_ofNat _

@[simp] theorem micros_ofMicros (n : Micros) : (ofMicros n).micros = n := by
  apply UInt64.toNat_inj.mp
  have hn := n.toNat_lt_size
  have hd : (ofMicros n).nanos / 1000 = n.toNat := Nat.mul_div_cancel _ (by decide)
  rw [toNat_micros, hd]
  omega

/-- `value / 10 ^ places`, without trailing zeros after the point. -/
def fractionText (value places : Nat) : String :=
  let whole := toString (value / Nat.pow 10 places)
  let part := toString (value % Nat.pow 10 places)
  let padded := List.replicate (places - part.length) '0' ++ part.toList
  match (padded.reverse.dropWhile (· == '0')).reverse with
  | [] => whole
  | digits => whole ++ "." ++ String.ofList digits

/-- The duration in its largest unit: `60s`, `1.5ms`, `250µs`, `0ns`. -/
def text (d : Duration) : String :=
  if 1000000000 ≤ d.nanos then fractionText d.nanos 9 ++ "s"
  else if 1000000 ≤ d.nanos then fractionText d.nanos 6 ++ "ms"
  else if 1000 ≤ d.nanos then fractionText d.nanos 3 ++ "µs"
  else fractionText d.nanos 0 ++ "ns"

end Duration

end Admission
