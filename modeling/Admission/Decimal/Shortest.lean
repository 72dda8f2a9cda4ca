/-!
# Shortest decimals

The decimal text of a binary number is chosen in two steps: which digits to write, and how to lay
them out.  This module does the first.

* **decoding** — `Binary.ofFloat?` splits a finite nonzero number into a sign, a mantissa and a
  power of two;
* **the coarsest grid** — `Decimal.shortest` looks for the coarsest grid of decimals with a point
  that still reads back as the number, and takes the point of that grid nearest to it.

A coarser grid means fewer digits, so no shorter decimal reads back.
-/

namespace Admission

/-- A finite nonzero binary number `± mantissa · 2 ^ exponent`. -/
structure Binary where
  /-- Whether the number is below zero. -/
  negative : Bool
  /-- The whole-number part, never zero. -/
  mantissa : Nat
  /-- The power of two it is scaled by. -/
  exponent : Int
  /-- Whether the next number below is only half as far away as the next one above. -/
  narrowBelow : Bool
  deriving DecidableEq, Repr

/-- A positive decimal `digits · 10 ^ exponent`. -/
structure Decimal where
  /-- The digits, read as a whole number. -/
  digits : Nat
  /-- The power of ten they are scaled by. -/
  exponent : Int
  deriving DecidableEq, Repr

namespace Binary

/-- The weight of the sign among the bits of a number. -/
def signWeight : Nat := Nat.pow 2 63

/-- The weight of the lowest bit of the biased exponent, and the number of fractions. -/
def fractionCount : Nat := Nat.pow 2 52

/-- Split a number into sign, mantissa and power of two; zero, infinities and the not-a-number
value have no such form. -/
def ofFloat? (x : Float) : Option Binary :=
  let bits := x.toBits.toNat
  let negative : Bool := signWeight ≤ bits
  let biased : Nat := bits / fractionCount % 2048
  let fraction : Nat := bits % fractionCount
  if biased = 2047 then none
  else if biased = 0 then
    if fraction = 0 then none else some ⟨negative, fraction, -1074, false⟩
  else some ⟨negative, fractionCount + fraction, (biased : Int) - 1075, fraction = 0 && 1 < biased⟩

end Binary

namespace Decimal

/-- `10 ^ k` as a fraction: numerator and denominator. -/
def powerOfTen (k : Int) : Nat × Nat :=
  if 0 ≤ k then (Nat.pow 10 k.toNat, 1) else (1, Nat.pow 10 (-k).toNat)

/-- `2 ^ k` as a fraction: numerator and denominator. -/
def powerOfTwo (k : Int) : Nat × Nat :=
  if 0 ≤ k then (Nat.pow 2 k.toNat, 1) else (1, Nat.pow 2 (-k).toNat)

/-- The multiple of `10 ^ k` nearest to `b` among those that read back as `b`, if there is one; of
two equally near ones the larger.

All is measured in quarters of the last binary place: the number is `4 m`, and what reads back
lies between half a place below (a quarter where numbers are closer below) and half a place
above, ends included when the mantissa is even. -/
def onGrid? (b : Binary) (k : Int) : Option Decimal :=
  let (tenUp, tenDown) := powerOfTen k
  let (twoUp, twoDown) := powerOfTwo (b.exponent - 2)
  let step := tenUp * twoDown
  let unit := tenDown * twoUp
  let middle := 4 * b.mantissa * unit
  let low := (4 * b.mantissa - if b.narrowBelow then 1 else 2) * unit
  let high := (4 * b.mantissa + 2) * unit
  let readsBack (c : Nat) : Bool :=
    if b.mantissa % 2 = 0 then low ≤ c * step && c * step ≤ high
    else low < c * step && c * step < high
  let below := middle / step
  let above := below + 1
  if readsBack below && !(readsBack above && above * step - middle ≤ middle - below * step) then
    some ⟨below, k⟩
  else if readsBack above then some ⟨above, k⟩
  else none

/-- The first grid with a hit, going from `10 ^ k` to finer grids. -/
def searchFrom (b : Binary) : Nat → Int → Decimal
  | 0, k => ⟨0, k⟩
  | fuel + 1, k => (onGrid? b k).getD (searchFrom b fuel (k - 1))

/-- The shortest decimal that reads back as the size of `b`.  The search starts at a power of ten
above the number, and seventeen digits always suffice. -/
def shortest (b : Binary) : Decimal :=
  let start := (b.mantissa.log2 + 1 + b.exponent) * 30103 / 100000 + 1
  searchFrom b 24 start

end Decimal

end Admission
