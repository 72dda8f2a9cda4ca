import Admission.Document.Yaml.Lexeme
import Admission.Document.Yaml.Scalar

/-!
# Tags and directives

A tag says what kind of thing a node is.  It is written as a whole between angle brackets, or as the
short form of a family and a name in it, and a directive in front of a document may give further
short forms.

* **short forms** — a handle begins with an exclamation mark and mostly ends with one; the lone
  exclamation mark stands for the tags of the text's own;
* **octets** — a character may be written by its octets, each behind a percent sign;
* **dialects** — which characters may stand where is laid down by a `TagRules`.
-/

namespace Admission

namespace Yaml

/-- What may stand in a tag. -/
structure TagRules where
  /-- The characters between the exclamation marks of a handle. -/
  inHandle : Char → Bool
  /-- The characters of a name behind a handle. -/
  inName : Char → Bool
  /-- The characters of a family, and of a tag between angle brackets. -/
  inFamily : Char → Bool
  /-- The characters that a family may begin with. -/
  startsFamily : Char → Bool
  /-- Whether a blank has to stand between a handle and its family. -/
  needsGap : Bool
  /-- The character that some octets stand for. -/
  ofOctets : List Nat → Option Char

/-! ## Octets -/

/-- How many octets a character takes whose first octet is given. -/
def octetCount? (first : Nat) : Option Nat :=
  if first < 0x80 then some 1
  else if first < 0xc0 then none
  else if first < 0xe0 then some 2
  else if first < 0xf0 then some 3
  else if first < 0xf8 then some 4
  else none

/-- An octet behind a percent sign, and what follows it. -/
def octet? : List Char → Option (Nat × List Char)
  | '%' :: high :: low :: rest => (Numeral.natural? 16 [high, low]).map (·, rest)
  | _ => none

/-- So many further octets of a character. -/
def furtherOctets? : Nat → List Char → Option (List Nat × List Char)
  | 0, cs => some ([], cs)
  | n + 1, cs => do
    let (octet, cs) ← octet? cs
    if octet < 0x80 ∨ 0xc0 ≤ octet then none
    else
      let (octets, cs) ← furtherOctets? n cs
      pure (octet :: octets, cs)

/-- The octets of one character. -/
def octets? (cs : List Char) : Option (List Nat × List Char) := do
  let (first, cs) ← octet? cs
  let (octets, cs) ← furtherOctets? ((← octetCount? first) - 1) cs
  pure (first :: octets, cs)

/-- The character whose octets are given: six bits from each octet behind the first one, and from
the first one what its count of octets leaves over.  A longer form than needed is refused. -/
def charOfOctets? : List Nat → Option Char
  | [a] => charOfCode? a
  | [a, b] => (charOfCode? (a % 32 * 64 + b % 64)).filter (0x80 ≤ ·.toNat)
  | [a, b, c] => (charOfCode? ((a % 16 * 64 + b % 64) * 64 + c % 64)).filter (0x800 ≤ ·.toNat)
  | [a, b, c, d] =>
    (charOfCode? (((a % 8 * 64 + b % 64) * 64 + c % 64) * 64 + d % 64)).filter (0x10000 ≤ ·.toNat)
  | _ => none

/-! ## Tags -/

/-- The characters up to one that is not allowed, octets read as what they stand for, and what
follows them. -/
def escapedRun? (ofOctets : List Nat → Option Char) (allowed : Char → Bool) :
    Nat → List Char → Option (List Char × List Char)
  | 0, cs => some ([], cs)
  | fuel + 1, cs =>
    match cs with
    | '%' :: _ => do
      let (octets, rest) ← octets? cs
      let c ← ofOctets octets
      let (done, rest) ← escapedRun? ofOctets allowed fuel rest
      pure (c :: done, rest)
    | c :: rest =>
      if allowed c then do
        let (done, rest) ← escapedRun? ofOctets allowed fuel rest
        pure (c :: done, rest)
      else some ([], cs)
    | [] => some ([], [])

namespace TagRules

/-- The name behind a handle. -/
def name? (rules : TagRules) (cs : List Char) : Option (List Char × List Char) :=
  escapedRun? rules.ofOctets rules.inName cs.length cs

/-- A family, or a tag between angle brackets. -/
def family? (rules : TagRules) (cs : List Char) : Option (List Char × List Char) :=
  escapedRun? rules.ofOctets rules.inFamily cs.length cs

/-- A tag, as handle and name, and what follows it.  A tag as a whole has no handle, and so has the
lone exclamation mark. -/
def tag? (rules : TagRules) : List Char → Option (String × String × List Char)
  | '!' :: '<' :: cs => do
    match ← rules.family? cs with
    | (name, '>' :: cs) => pure ("", String.ofList name, cs)
    | _ => none
  | '!' :: cs =>
    let word := cs.takeWhile rules.inHandle
    match cs.drop word.length with
    | '!' :: cs => do
      let (name, cs) ← rules.name? cs
      if name.isEmpty then none
      else pure (String.ofList ('!' :: word ++ ['!']), String.ofList name, cs)
    | cs => do
      let (name, cs) ← rules.name? cs
      let name := word ++ name
      if name.isEmpty then pure ("", "!", cs) else pure ("!", String.ofList name, cs)
  | _ => none

/-! ## Directives -/

/-- A handle in a directive, and what follows it. -/
def handle? (rules : TagRules) : List Char → Option (String × List Char)
  | '!' :: cs =>
    let word := cs.takeWhile rules.inHandle
    match cs.drop word.length with
    | '!' :: cs => some (String.ofList ('!' :: word ++ ['!']), cs)
    | cs => if word.isEmpty then some ("!", cs) else none
  | _ => none

/-- The handle and the family of a directive, and what follows them. -/
def shorthand? (rules : TagRules) (cs : List Char) : Option (Lexeme × List Char) := do
  let (handle, cs) ← rules.handle? (cs.dropWhile isBlank)
  if rules.needsGap && !cs.head?.any isBlank then none
  else
    let cs := cs.dropWhile isBlank
    if cs.head?.all (!rules.startsFamily ·) then none
    else
      let (family, cs) ← rules.family? cs
      pure (.shorthand handle (String.ofList family), cs)

end TagRules

/-- A number in a version: up to nine digits. -/
def versionNumber? (cs : List Char) : Option (Nat × List Char) := do
  let digits := cs.takeWhile Char.isDigit
  let n ← Numeral.natural? 10 digits
  if digits.length ≤ 9 then pure (n, cs.drop digits.length) else none

/-- A version, and what follows it. -/
def version? (cs : List Char) : Option (Lexeme × List Char) := do
  let (major, cs) ← versionNumber? (cs.dropWhile isBlank)
  match cs with
  | '.' :: cs =>
    let (minor, cs) ← versionNumber? cs
    pure (.version major minor, cs)
  | _ => none

end Yaml

end Admission
