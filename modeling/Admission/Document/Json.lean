import Admission.Decimal.Layout
import Admission.Document.Basic

/-!
# Documents as JSON

* **reading** — `Json.read?` takes a whole text; a number with neither point nor power of ten is a
  whole one if it fits in sixty-four bits, a number beyond the largest finite one is refused, and of
  several parts of one name the last counts;
* **writing** — `Json.write` puts a document on one line.

The reader goes through the characters with a budget of one step for each of them, which a text
never exceeds, since every step takes at least one character.
-/

namespace Admission

namespace Json

/-! ## Reading -/

/-- Skip blanks and line ends. -/
def skipBlanks (cs : List Char) : List Char :=
  cs.dropWhile fun c => c == ' ' || c == '\n' || c == '\r' || c == '\t'

/-- The value of four hexadecimal digits, and what follows them. -/
def fourHex? : List Char → Option (Nat × List Char)
  | a :: b :: c :: d :: rest => (Numeral.natural? 16 [a, b, c, d]).map (·, rest)
  | _ => none

/-- The character behind `\u`, which may be written as two halves, and what follows it. -/
def unicode? (cs : List Char) : Option (Char × List Char) := do
  let (high, rest) ← fourHex? cs
  if 0xd800 ≤ high ∧ high < 0xdc00 then
    match rest with
    | '\\' :: 'u' :: more =>
      let (low, rest) ← fourHex? more
      if 0xdc00 ≤ low ∧ low < 0xe000 then
        pure (Char.ofNat (0x10000 + (high - 0xd800) * 0x400 + (low - 0xdc00)), rest)
      else none
    | _ => none
  else if 0xdc00 ≤ high ∧ high < 0xe000 then none
  else pure (Char.ofNat high, rest)

/-- The character that a backslash and a letter stand for. -/
def escaped? : Char → Option Char
  | '"' => some '"'
  | '\\' => some '\\'
  | '/' => some '/'
  | 'b' => some '\x08'
  | 'f' => some '\x0c'
  | 'n' => some '\n'
  | 'r' => some '\r'
  | 't' => some '\t'
  | _ => none

/-- The rest of a text after its opening quote, and what follows its closing quote. -/
def text? : Nat → List Char → List Char → Option (String × List Char)
  | 0, _, _ => none
  | fuel + 1, done, cs =>
    match cs with
    | '"' :: rest => some (String.ofList done.reverse, rest)
    | '\\' :: 'u' :: rest => do
      let (c, rest) ← unicode? rest
      text? fuel (c :: done) rest
    | '\\' :: letter :: rest => do
      let c ← escaped? letter
      text? fuel (c :: done) rest
    | c :: rest => if c.toNat < 0x20 then none else text? fuel (c :: done) rest
    | [] => none

/-- Whether a character can stand in a number. -/
def isNumberChar (c : Char) : Bool :=
  c.isDigit || c == '-' || c == '+' || c == '.' || c == 'e' || c == 'E'

/-- Whether digits start with a zero that is not the only one. -/
def hasLeadingZero : List Char → Bool
  | '0' :: c :: _ => c.isDigit
  | _ => false

/-- A real number; there are no others than finite ones. -/
def real? (x : Float) : Option Document := if x.isFinite then some (.real x) else none

/-- A number from the characters after its sign. -/
def signed? (negative : Bool) (size : List Char) : Option Document := do
  let first ← size.head?
  if !first.isDigit || hasLeadingZero size then none
  else if size.all Char.isDigit then
    let n ← Numeral.natural? 10 size
    let value : Int := if negative then -(n : Int) else n
    if Document.isWord64 value && !(negative && n == 0) then pure (.whole value)
    else real? (if negative then -Float.ofNat n else Float.ofNat n)
  else
    let x ← Numeral.decimal? size
    real? (if negative then -x else x)

/-- A number from its characters. -/
def number? : List Char → Option Document
  | '-' :: size => signed? true size
  | size => signed? false size

/-- Put a part into a record, in place of an earlier one of that name. -/
def putPart (parts : List (String × Document)) (name : String) (d : Document) :
    List (String × Document) :=
  if parts.any (·.1 == name) then
    parts.map fun part => if part.1 == name then (name, d) else part
  else parts ++ [(name, d)]

mutual

/-- A value, and what follows it. -/
def value? : Nat → List Char → Option (Document × List Char)
  | 0, _ => none
  | fuel + 1, cs =>
    match skipBlanks cs with
    | '"' :: rest => (text? fuel [] rest).map fun (s, rest) => (.text s, rest)
    | '[' :: rest =>
      match skipBlanks rest with
      | ']' :: rest => some (.list [], rest)
      | rest => items? fuel [] rest
    | '\x7b' :: rest =>
      match skipBlanks rest with
      | '\x7d' :: rest => some (.record [], rest)
      | rest => parts? fuel [] rest
    | 't' :: 'r' :: 'u' :: 'e' :: rest => some (.truth true, rest)
    | 'f' :: 'a' :: 'l' :: 's' :: 'e' :: rest => some (.truth false, rest)
    | 'n' :: 'u' :: 'l' :: 'l' :: rest => some (.null, rest)
    | cs =>
      (number? (cs.takeWhile isNumberChar)).map fun d => (d, cs.dropWhile isNumberChar)

/-- The rest of a list, from an item on. -/
def items? : Nat → List Document → List Char → Option (Document × List Char)
  | 0, _, _ => none
  | fuel + 1, done, cs => do
    let (d, rest) ← value? fuel cs
    match skipBlanks rest with
    | ',' :: rest => items? fuel (d :: done) rest
    | ']' :: rest => pure (.list (d :: done).reverse, rest)
    | _ => none

/-- The rest of a record, from a part on. -/
def parts? : Nat → List (String × Document) → List Char → Option (Document × List Char)
  | 0, _, _ => none
  | fuel + 1, done, cs =>
    match skipBlanks cs with
    | '"' :: rest => do
      let (name, rest) ← text? fuel [] rest
      match skipBlanks rest with
      | ':' :: rest =>
        let (d, rest) ← value? fuel rest
        let done := putPart done name d
        match skipBlanks rest with
        | ',' :: rest => parts? fuel done rest
        | '\x7d' :: rest => pure (.record done, rest)
        | _ => none
      | _ => none
    | _ => none

end

/-- The document of a whole text. -/
def read? (s : String) : Option Document := do
  let cs := s.toList
  let (d, rest) ← value? (cs.length + 1) cs
  if (skipBlanks rest).isEmpty then pure d else none

/-! ## Writing -/

/-- A character inside quotes: escapes for the quote, the backslash and control characters. -/
def writtenChar (c : Char) : List Char :=
  match c with
  | '"' => ['\\', '"']
  | '\\' => ['\\', '\\']
  | '\n' => ['\\', 'n']
  | '\r' => ['\\', 'r']
  | '\t' => ['\\', 't']
  | '\x08' => ['\\', 'b']
  | '\x0c' => ['\\', 'f']
  | c =>
    if c.toNat < 0x20 then
      let digits := Nat.toDigits 16 c.toNat
      ['\\', 'u'] ++ List.replicate (4 - digits.length) '0' ++ digits
    else [c]

/-- A text between quotes. -/
def writtenText (s : String) : String :=
  String.ofList ('"' :: s.toList.flatMap writtenChar ++ ['"'])

/-- How real numbers are written: so that they are not taken for whole ones, with an exponent only
when they are very small or very large. -/
def realLayout : Decimal.Layout := ⟨true, some (-5, 15)⟩

mutual

/-- A document on one line. -/
def write : Document → String
  | .null => "null"
  | .truth b => if b then "true" else "false"
  | .whole n => toString n
  | .real x => if x.isFinite then realLayout.number x else "null"
  | .text s => writtenText s
  | .list items => "[" ++ ",".intercalate (writeAll items) ++ "]"
  | .record parts => "\x7b" ++ ",".intercalate (writeParts parts) ++ "\x7d"

/-- Each item on one line. -/
def writeAll : List Document → List String
  | [] => []
  | d :: ds => write d :: writeAll ds

/-- Each part with its name on one line. -/
def writeParts : List (String × Document) → List String
  | [] => []
  | (name, d) :: ps => (writtenText name ++ ":" ++ write d) :: writeParts ps

end

end Json

end Admission
