/-!
# Numerals

Reading numbers from characters.

* **whole numbers** — `Numeral.natural?` reads digits to a base, `Numeral.unsigned?` a decimal
  number with an optional plus and `Numeral.signed?` one with an optional sign;
* **ranges** — `Numeral.isSigned` and `Numeral.isUnsigned` say what fits into so many bits;
* **decimal fractions** — `Numeral.decimal?` reads digits with an optional point and power of ten,
  and gives the binary number nearest to them; `Numeral.real?` also takes a sign and the words for
  infinity and for what is not a number.
-/

namespace Admission

namespace Numeral

/-- The value of a digit to a base up to sixteen. -/
def digit? (base : Nat) (c : Char) : Option Nat :=
  let value :=
    if '0' ≤ c ∧ c ≤ '9' then some (c.toNat - '0'.toNat)
    else if 'a' ≤ c ∧ c ≤ 'f' then some (c.toNat - 'a'.toNat + 10)
    else if 'A' ≤ c ∧ c ≤ 'F' then some (c.toNat - 'A'.toNat + 10)
    else none
  value.filter (· < base)

/-- Append further digits to a number. -/
def extend? (base : Nat) (value : Nat) : List Char → Option Nat
  | [] => some value
  | c :: cs => do
    let d ← digit? base c
    extend? base (value * base + d) cs

/-- A whole number in digits to a base; at least one digit. -/
def natural? (base : Nat) : List Char → Option Nat
  | [] => none
  | cs => extend? base 0 cs

/-- A whole number in decimal digits, with an optional plus. -/
def unsigned? : List Char → Option Nat
  | '+' :: cs => natural? 10 cs
  | cs => natural? 10 cs

/-- A whole number in decimal digits, with an optional sign. -/
def signed? : List Char → Option Int
  | '+' :: cs => (natural? 10 cs).map Int.ofNat
  | '-' :: cs => (natural? 10 cs).map fun n => -(n : Int)
  | cs => (natural? 10 cs).map Int.ofNat

/-- Whether a number fits into so many bits when one of them is the sign. -/
def isSigned (bits : Nat) (n : Int) : Bool :=
  -(Nat.pow 2 (bits - 1) : Int) ≤ n && n < (Nat.pow 2 (bits - 1) : Int)

/-- Whether a number fits into so many bits without a sign. -/
def isUnsigned (bits : Nat) (n : Int) : Bool := 0 ≤ n && n < (Nat.pow 2 bits : Int)

/-- The power of ten after the digits: nothing, or the letter `e` and a whole number. -/
def exponent? : List Char → Option Int
  | [] => some 0
  | 'e' :: cs => signed? cs
  | 'E' :: cs => signed? cs
  | _ => none

/-- The binary number nearest to `digits · 10 ^ exponent`. -/
def nearest (digits : Nat) (exponent : Int) : Float :=
  Float.ofScientific digits (exponent < 0) exponent.natAbs

/-- Decimal digits with an optional point and power of ten; at least one digit. -/
def decimal? (cs : List Char) : Option Float := do
  let whole := cs.takeWhile Char.isDigit
  let rest := cs.dropWhile Char.isDigit
  let (part, rest) := match rest with
    | '.' :: more => (more.takeWhile Char.isDigit, more.dropWhile Char.isDigit)
    | _ => ([], rest)
  let digits ← natural? 10 (whole ++ part)
  let exponent ← exponent? rest
  pure (nearest digits (exponent - part.length))

/-- A number without a sign, or a word for infinity or for what is not a number. -/
def magnitude? (cs : List Char) : Option Float :=
  match String.ofList (cs.map Char.toLower) with
  | "inf" => some (1.0 / 0.0)
  | "infinity" => some (1.0 / 0.0)
  | "nan" => some (0.0 / 0.0)
  | _ => decimal? cs

/-- A number with an optional sign, or such a word. -/
def real? : List Char → Option Float
  | '+' :: cs => magnitude? cs
  | '-' :: cs => (magnitude? cs).map fun x => -x
  | cs => magnitude? cs

/-- The binary number nearest to a whole number. -/
def ofInt (n : Int) : Float :=
  if 0 ≤ n then Float.ofNat n.toNat else -Float.ofNat (-n).toNat

end Numeral

end Admission
