import Admission.Document.Basic
import Admission.Document.Loose.Lexer
import Admission.Document.Yaml.Node

/-!
# What a loose text says

* **words** — a plain word is decided without knowing what is wanted: a whole number, nothing, a
  truth value, another number, or a text;
* **tags** — a tag of the core family decides what a plain word stands for; a word that does not fit
  it is unusable, and so is an alias inside the node that it names;
* **unusable values** — as a value such a thing says nothing; in the place of a key it is passed
  over, so that what follows it is the key;
* **records** — a part is named by a text or by a whole number, and no key comes twice.
-/

namespace Admission

namespace Loose

open Yaml (Node Scalar Grammar)

/-! ## Words -/

/-- A whole number with an optional sign, in digits to a base, of sixty-four bits. -/
def signed64? (base : Nat) (cs : List Char) : Option Int :=
  let n := match cs with
    | '+' :: cs => (Numeral.natural? base cs).map Int.ofNat
    | '-' :: cs => (Numeral.natural? base cs).map fun n => -(n : Int)
    | cs => (Numeral.natural? base cs).map Int.ofNat
  n.filter (Numeral.isSigned 64)

/-- The whole number that a word stands for by what it begins with: a mark for its base, or a plus
in front of what may have a sign itself. -/
def markedWhole? : List Char → Option Int
  | '0' :: 'x' :: cs => signed64? 16 cs
  | '0' :: 'o' :: cs => signed64? 8 cs
  | '+' :: cs => signed64? 10 cs
  | _ => none

/-- Whether a word is a dotted one for infinity or for what is not a number.  There is no value for
them. -/
def isDotted (word : String) : Bool :=
  [".inf", ".Inf", ".INF", "+.inf", "+.Inf", "+.INF", "-.inf", "-.Inf", "-.INF", ".nan",
    ".NAN"].contains word

/-- The truth value that a word stands for. -/
def truthWord? : String → Option Bool
  | "true" => some true
  | "false" => some false
  | _ => none

/-- Whether a word stands for nothing. -/
def isNullWord (word : String) : Bool := word == "~" || word == "null"

/-- The number that a word stands for. -/
def realWord? (word : String) : Option Float := Numeral.real? word.toList

/-- What a plain word stands for; none for a dotted word. -/
def word? (word : String) : Option Document :=
  match markedWhole? word.toList with
  | some n => some (.whole n)
  | none =>
    if isNullWord word then some .null
    else match truthWord? word with
      | some b => some (.truth b)
      | none =>
        match signed64? 10 word.toList with
        | some n => some (.whole n)
        | none =>
          if isDotted word then none else some (((realWord? word).map .real).getD (.text word))

/-! ## Values -/

/-- What a node says: a document, or nothing of use. -/
abbrev Value := Option Document

/-- What a plain word with the name of a core tag says; none for a dotted word. -/
def tagged? (name word : String) : Option Value :=
  match name with
  | "bool" => some ((truthWord? word).map .truth)
  | "int" => some ((signed64? 10 word.toList).map .whole)
  | "float" => if isDotted word then none else some ((realWord? word).map .real)
  | "null" => some (if isNullWord word then some .null else none)
  | _ => some (some (.text word))

/-- What a scalar says; none for a dotted word. -/
def ofScalar? (s : Scalar) : Option Value :=
  if s.style != .plain then some (some (.text s.text))
  else match s.tag with
    | none => (word? s.text).map some
    | some tag =>
      if tag.family == Yaml.coreFamily then tagged? tag.name s.text else some (some (.text s.text))

/-- The keys and values among the nodes of a record, which come by turns.  A key that is unusable is
passed over, and what is left at the end as well. -/
def pair : Value → List Value → List (Document × Value)
  | _, [] => []
  | none, v :: vs => pair v vs
  | some key, v :: vs => (key, v) :: pair none vs

/-- The name that a key gives to a part. -/
def partName? : Document → Option String
  | .text name => some name
  | .whole n => some (toString n)
  | _ => none

/-- The part of a key and a value. -/
def part? : Document × Value → Option (String × Document)
  | (key, value) => (partName? key).map (·, value.getD .null)

/-- Whether a key comes twice. -/
def hasTwice : List Document → Bool
  | [] => false
  | key :: keys => keys.contains key || hasTwice keys

/-- A record from what its nodes say, keys and values by turns. -/
def record? (values : List Value) : Option Document := do
  let entries := pair none values
  let parts ← entries.mapM part?
  if hasTwice (entries.map Prod.fst) then none else pure (.record parts)

/-- Reading, with what the numbered nodes before here say. -/
abbrev Reading := StateT (List (Nat × Value)) Option

/-- Keep what a numbered node says. -/
def keep (number : Option Nat) (v : Value) : Reading Value := do
  if let some number := number then modify ((number, v) :: ·)
  pure v

mutual

/-- What a node says. -/
def value : Node → Reading Value
  | .aliasOf number => do pure ((← get).lookup number).join
  | .scalar number s => do keep number (← ofScalar? s)
  | .list number _ items => do
    let values ← valuesOf items
    keep number (some (.list (values.map (·.getD .null))))
  | .record number _ entries => do
    let d ← record? (← valuesOfEntries entries)
    keep number (some d)

/-- What each item says. -/
def valuesOf : List Node → Reading (List Value)
  | [] => pure []
  | n :: ns => do
    let v ← value n
    pure (v :: (← valuesOf ns))

/-- What the keys and the values of some entries say, by turns. -/
def valuesOfEntries : List (Node × Node) → Reading (List Value)
  | [] => pure []
  | (k, v) :: es => do
    let k ← value k
    let v ← value v
    pure (k :: v :: (← valuesOfEntries es))

end

/-! ## Texts -/

/-- The families of some directives: those of the last one alone.  A version is asked for once, and
may be any. -/
def families? (directives : List Yaml.Lexeme) : Option (List (String × String)) :=
  let versions := directives.filterMap fun
    | .version major minor => some (major, minor)
    | _ => none
  if 1 < versions.length then none
  else match directives.getLast? with
    | some (.shorthand handle family) => some [(handle, family)]
    | _ => some []

/-- The grammar of loose texts: what is left out is nothing, a value may stand without a key, and
each name has a number of its own. -/
def grammar : Grammar := { gapText := "~", loneValues := true, freshNumbers := true, families? }

/-- What the only document of a text says, if there is one at all. -/
def read? (s : String) : Option (Option Document) := do
  let xs := (← lex? s.toList).dropWhile (· == .documentEnd)
  match ← grammar.document? xs with
  | none => pure none
  | some n =>
    let (v, _) ← (value n).run []
    pure (some (v.getD .null))

end Loose

end Admission
