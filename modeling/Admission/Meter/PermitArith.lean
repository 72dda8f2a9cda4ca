/-!
# Arithmetic of fractional permits

A bucket holds fractions of permits.  `PermitArith` names the few operations it needs of them, so
that the rules of a bucket can be run on floating-point numbers and read over exact ones.

* **order** — `PermitArith.least` and `PermitArith.most` prefer the value that is a number, and the
  first of two equal ones;
* **`Float`** — the instance that programs run on.
-/

namespace Admission

/-- The operations that a bucket needs of fractional permits. -/
class PermitArith (α : Type) extends Add α, Sub α, Mul α, Div α where
  /-- The value nearest to a whole number. -/
  ofNat : Nat → α
  /-- Whether the first value is below the second; false when either is not a number. -/
  below : α → α → Bool
  /-- Whether a value is a number, infinities included. -/
  isNumber : α → Bool
  /-- Whether a value is a finite number. -/
  isFinite : α → Bool
  /-- More than any finite number. -/
  infinity : α
  /-- The whole part, held between zero and the largest 64-bit word; zero when not a number. -/
  wholePart : α → UInt64

namespace PermitArith

variable {α : Type} [PermitArith α]

/-- No permits. -/
def zero : α := ofNat 0

/-- One permit. -/
def one : α := ofNat 1

/-- One half. -/
def half : α := (ofNat 1 : α) / ofNat 2

/-- Whether a value is above zero. -/
def isPositive (x : α) : Bool := below zero x

/-- The smaller of two values. -/
def least (x y : α) : α := if !isNumber x || below y x then y else x

/-- The larger of two values. -/
def most (x y : α) : α := if !isNumber x || below x y then y else x

end PermitArith

instance : PermitArith Float where
  ofNat := Float.ofNat
  below x y := x < y
  isNumber x := !x.isNaN
  isFinite := Float.isFinite
  infinity := 1.0 / 0.0
  wholePart := Float.toUInt64

end Admission
