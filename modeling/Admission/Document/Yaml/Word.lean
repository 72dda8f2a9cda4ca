import Admission.Document.Numeral

/-!
# Words

What an unquoted word stands for: nothing, a truth value, a whole number, a number, or itself.

A whole number may be written to base ten, or behind `0x`, `0o` or `0b` to base sixteen, eight or
two.  Digits behind a leading zero look like a number but are a text.
-/

namespace Admission

namespace Yaml

namespace Word

/-- Whether a word stands for nothing. -/
def isNull (word : String) : Bool :=
  word == "~" || word == "null" || word == "Null" || word == "NULL"

/-- The truth value that a word stands for. -/
def truth? (word : String) : Option Bool :=
  if word == "true" || word == "True" || word == "TRUE" then some true
  else if word == "false" || word == "False" || word == "FALSE" then some false
  else none

/-- Digits behind a leading zero, with or without a sign. -/
def isPadded (cs : List Char) : Bool :=
  let digits := match cs with
    | '+' :: rest => rest
    | '-' :: rest => rest
    | _ => cs
  1 < digits.length && digits.head? == some '0' && digits.all Char.isDigit

/-- A whole number without a sign: decimal digits, or digits behind a mark for their base. -/
def magnitude? (cs : List Char) : Option Nat :=
  match cs with
  | '0' :: 'x' :: digits => Numeral.natural? 16 digits
  | '0' :: 'o' :: digits => Numeral.natural? 8 digits
  | '0' :: 'b' :: digits => Numeral.natural? 2 digits
  | _ => if isPadded cs then none else Numeral.natural? 10 cs

/-- The whole number that a word stands for, if it has no minus. -/
def natural? (word : String) : Option Nat :=
  match word.toList with
  | '+' :: cs => magnitude? cs
  | cs => magnitude? cs

/-- The size of the whole number that a word stands for, if it has a minus. -/
def negated? (word : String) : Option Nat :=
  match word.toList with
  | '-' :: cs => magnitude? cs
  | _ => none

/-- The number that a word stands for: finite digits, or a dotted word for infinity or for what is
not a number. -/
def real? (word : String) : Option Float :=
  match word with
  | ".inf" | ".Inf" | ".INF" | "+.inf" | "+.Inf" | "+.INF" => some (1.0 / 0.0)
  | "-.inf" | "-.Inf" | "-.INF" => some (-1.0 / 0.0)
  | ".nan" | ".NaN" | ".NAN" => some (0.0 / 0.0)
  | _ => (Numeral.real? word.toList).filter Float.isFinite

end Word

end Yaml

end Admission
