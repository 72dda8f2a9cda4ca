import Admission.Decimal.Shortest

/-!
# Layout of decimals

How the chosen digits of a number are written.  Two layouts are in use:

* **plain** — `Decimal.plain`: never an exponent, and no fraction for a whole number, the form in
  which a fault reports a parameter;
* **marked** — `Decimal.marked`: a whole number keeps a trailing `.0`, and very small or very large
  numbers take an exponent, the form in which a value describes itself.

Both write the shortest digits that read back as the number.
-/

namespace Admission

namespace Decimal

/-- When a number is written with an exponent, and whether a whole number keeps a fraction. -/
structure Layout where
  /-- Keep `.0` after a whole number. -/
  wholeKeepsFraction : Bool
  /-- Positions of the leading digit, counted in powers of ten, that are written without an
  exponent; `none` means all of them. -/
  positional : Option (Int × Int)
  deriving Repr

/-- Never an exponent, and no fraction for a whole number. -/
def plainLayout : Layout := ⟨false, none⟩

/-- An exponent below one ten-thousandth and from `10 ^ 16` on; `.0` after a whole number. -/
def markedLayout : Layout := ⟨true, some (-4, 15)⟩

/-- `n` zeros. -/
def zeros (n : Nat) : String := String.ofList (List.replicate n '0')

/-- Digits without an exponent. -/
def positionalText (layout : Layout) (d : Decimal) : String :=
  let digits := toString d.digits
  if 0 ≤ d.exponent then
    digits ++ zeros d.exponent.toNat ++ (if layout.wholeKeepsFraction then ".0" else "")
  else
    let places := (-d.exponent).toNat
    let cs := (zeros (places + 1 - digits.length) ++ digits).toList
    let whole := cs.length - places
    String.ofList (cs.take whole) ++ "." ++ String.ofList (cs.drop whole)

/-- One digit, the rest after a point, and the power of ten. -/
def exponentText (d : Decimal) (leading : Int) : String :=
  let cs := (toString d.digits).toList
  let rest := cs.drop 1
  String.ofList (cs.take 1) ++ (if rest.isEmpty then "" else "." ++ String.ofList rest) ++ "e" ++
    toString leading

/-- A positive decimal as `layout` writes it. -/
def Layout.text (layout : Layout) (d : Decimal) : String :=
  let leading := d.exponent + ((toString d.digits).length : Int) - 1
  match layout.positional with
  | none => positionalText layout d
  | some (least, most) =>
    if least ≤ leading ∧ leading ≤ most then positionalText layout d else exponentText d leading

/-- Any number as `layout` writes it: the shortest digits that read back, a sign for numbers below
zero and for negative zero, and words for the values that are no number. -/
def Layout.number (layout : Layout) (x : Float) : String :=
  if x.isNaN then "NaN"
  else
    let sign := if Binary.signWeight ≤ x.toBits.toNat then "-" else ""
    if x.isInf then sign ++ "inf"
    else match Binary.ofFloat? x with
      | none => sign ++ (if layout.wholeKeepsFraction then "0.0" else "0")
      | some b => sign ++ layout.text (shortest b)

/-- A number without an exponent: `0.5`, `-1`, `0.0000001`. -/
def plain (x : Float) : String := plainLayout.number x

/-- A number that shows it is not a whole-number count: `0.5`, `-1.0`, `1e-7`. -/
def marked (x : Float) : String := markedLayout.number x

end Decimal

end Admission
