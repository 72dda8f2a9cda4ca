import Admission.Meter.PermitArith
import Admission.Micros
import Mathlib.Algebra.Order.Field.Rat
import Mathlib.Algebra.Order.Floor.Ring
import Mathlib.Data.Rat.Floor

/-!
# Permits counted exactly

Over the rational numbers nothing is rounded except where the rules of a bucket say so: in the step
from fractional to whole microseconds.

* **the operations** — `PermitArith Rat`.  There is no infinite rational number, so this reading is
  for buckets of a positive rate, which never ask for one;
* **their meaning** — `least_eq_min` and `most_eq_max`.
-/

namespace Admission

namespace PermitArith

instance : PermitArith Rat where
  ofNat n := n
  below x y := x < y
  isNumber _ := true
  isFinite _ := true
  infinity := 0
  wholePart x := Micros.ofNat ⌊x⌋.toNat

theorem least_eq_min (x y : Rat) : least x y = min x y := by
  change (if (decide (y < x)) = true then y else x) = min x y
  by_cases h : y < x
  · rw [if_pos (decide_eq_true h), min_eq_right h.le]
  · rw [if_neg (by simpa using h), min_eq_left (not_lt.1 h)]

theorem most_eq_max (x y : Rat) : most x y = max x y := by
  change (if (decide (x < y)) = true then y else x) = max x y
  by_cases h : x < y
  · rw [if_pos (decide_eq_true h), max_eq_right h.le]
  · rw [if_neg (by simpa using h), max_eq_left (not_lt.1 h)]

end PermitArith

end Admission
