import Admission.Document.Basic
import Admission.Document.Yaml.Node
import Admission.Document.Yaml.Word

/-!
# Scalars decided

What a scalar says depends on its tag, on how it is written and on what is wanted.

* **wanted** — where a text is wanted, every scalar is one; a truth value or a number has to be
  written plainly, or as a literal block whose tag says so;
* **not known** — where it is not known what is wanted, a `Settled` value is what the tag says, and
  without a tag what the plain word stands for;
* **own tags** — a tag that begins with an exclamation mark is not a kind but a keyword.
-/

namespace Admission

namespace Yaml

/-- A value whose kind was decided before it was known what is wanted.  Of lists and records it only
says that they are there. -/
inductive Settled where
  /-- Nothing. -/
  | null
  /-- A truth value. -/
  | truth (value : Bool)
  /-- A whole number written without a minus. -/
  | natural (value : Nat)
  /-- A whole number written with a minus, by its size. -/
  | negated (size : Nat)
  /-- Another number. -/
  | real (value : Float)
  /-- A text. -/
  | text (value : String)
  /-- A list or a record. -/
  | group
  deriving Repr

/-- The value as a document; an empty list stands for lists and records. -/
def Settled.toDocument : Settled → Document
  | null => .null
  | truth value => .truth value
  | natural value => .whole value
  | negated size => .whole (-size)
  | real value => .real value
  | text value => .text value
  | group => .list []

namespace Tag

/-- The keyword that a tag of the text's own stands for. -/
def keyword? (tag : Tag) : Option String :=
  match tag.full.toList with
  | '!' :: [] => some "!"
  | '!' :: cs => some (String.ofList cs)
  | _ => none

/-- Whether a tag is the one of a name in the core family. -/
def isCore (tag : Tag) (name : String) : Bool := tag.full == coreFamily ++ name

end Tag

namespace Word

/-- The whole number that a word stands for, of sixty-four bits.  More than that is refused, unless
it is so large that it is taken for a real one. -/
def whole? (word : String) : Option (Option Settled) :=
  match natural? word, negated? word with
  | some n, _ =>
    if Numeral.isUnsigned 64 n then some (some (.natural n))
    else if Numeral.isUnsigned 128 n then none
    else some none
  | none, some n =>
    if Numeral.isSigned 64 (-n) then some (some (.negated n))
    else if Numeral.isSigned 128 (-n) then none
    else some none
  | none, none => some none

/-- What a plain word stands for. -/
def settled? (word : String) : Option Settled :=
  if word == "" || isNull word then some .null
  else match truth? word with
    | some b => some (.truth b)
    | none => do
      match ← whole? word with
      | some n => pure n
      | none =>
        if isPadded word.toList then pure (.text word)
        else pure (((real? word).map Settled.real).getD (.text word))

end Word

namespace Scalar

/-- Whether a scalar may stand for a value of a core kind. -/
def maybe (s : Scalar) (kind : String) : Bool :=
  s.style == .plain || (s.style == .literal && s.tag.any (·.isCore kind))

/-- A truth value. -/
def truth? (s : Scalar) : Option Bool :=
  if s.maybe "bool" then Word.truth? s.text else none

/-- A whole number from zero up to a bound. -/
def natural? (most : Nat) (s : Scalar) : Option Nat :=
  if s.maybe "int" then (Word.natural? s.text).filter (· ≤ most) else none

/-- A keyword: the tag of an empty scalar, or what the scalar says. -/
def keyword? (s : Scalar) : Option String :=
  match s.tag.bind Tag.keyword? with
  | some word =>
    if s.style == .plain && (s.text == "" || Word.isNull s.text) then some word else none
  | none => some s.text

/-- Whether a scalar stands for nothing; one that is tagged so has to say it. -/
def isNull? (s : Scalar) : Option Bool :=
  if s.style != .plain then some false
  else match s.tag with
    | none => some (s.text == "" || Word.isNull s.text)
    | some tag =>
      if !tag.isCore "null" then some false
      else if Word.isNull s.text then some true
      else none

/-- Whether a scalar is left out. -/
def isLeftOut (s : Scalar) : Bool := s.style == .plain && s.text == ""

/-- What a scalar says when it is not known what is wanted. -/
def settled? (s : Scalar) : Option Settled :=
  match s.tag with
  | none => if s.style == .plain then Word.settled? s.text else some (.text s.text)
  | some tag =>
    if (tag.keyword?).isSome then none
    else if tag.isCore "bool" then (Word.truth? s.text).map .truth
    else if tag.isCore "int" then (Word.whole? s.text).join
    else if tag.isCore "float" then (Word.real? s.text).map .real
    else if tag.isCore "null" then (if Word.isNull s.text then some .null else none)
    else some (.text s.text)

end Scalar

end Yaml

end Admission
