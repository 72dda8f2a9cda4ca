import Admission.Document.Loose.Value
import Admission.Setup.Settings

/-!
# Settings in layers

Settings may come from a file and from the environment, whose variables take the place of what the
file says.

* **the file** — a record, in the looser form of YAML; letters are the same in both cases;
* **the environment** — a variable sets the part whose name follows a given mark, in any case;
  `layerText` decides what its text stands for;
* **paths** — a name may be a path into the settings: `algorithm.type` is a part of a part, and
  `algorithm[0]` an item of a list;
* **reading** — a layered value is taken for what is wanted if that makes any sense: numbers and
  words such as `on` and `no` are truth values, truth values and texts are numbers, and all of them
  are texts.  Only the inside of an algorithm is read as strictly as elsewhere.
-/

namespace Admission

namespace Layers

/-- What the text of a variable stands for: a truth value in any case, a number, or itself. -/
def layerText (s : String) : Document :=
  match s.toLower with
  | "true" => .truth true
  | "false" => .truth false
  | _ =>
    match Loose.signed64? 10 s.toList with
    | some n => .whole n
    | none =>
      match Numeral.real? s.toList with
      | some x => .real x
      | none => .text s

/-! ## Paths -/

/-- A step into a value. -/
inductive Step where
  /-- To the part of a name. -/
  | part (name : String)
  /-- To the item of an index; one below zero counts from the end. -/
  | item (index : Int)
  deriving DecidableEq, Repr

/-- Whether a character can stand in a name on a path. -/
def isNameChar (c : Char) : Bool := c.isAlphanum || c == ' ' || c == '_' || c == '-'

/-- A name, and what follows it. -/
def name? (cs : List Char) : Option (Step × List Char) :=
  let name := cs.takeWhile isNameChar
  if name.isEmpty then none else some (.part (String.ofList name), cs.drop name.length)

/-- Past spaces and tabs. -/
def skipBlanks (cs : List Char) : List Char := cs.dropWhile fun c => c == ' ' || c == '\t'

/-- An index behind its opening bracket, and what follows its closing one. -/
def index? (cs : List Char) : Option (Step × List Char) := do
  let (minus, cs) := match skipBlanks cs with
    | '-' :: cs => (true, cs)
    | cs => (false, cs)
  let n ← Numeral.natural? 10 (cs.takeWhile Char.isDigit)
  let index : Int := if minus then -(n : Int) else n
  match skipBlanks (cs.dropWhile Char.isDigit) with
  | ']' :: cs => if Numeral.isSigned 64 index then pure (.item index, cs) else none
  | _ => none

/-- The further steps of a path. -/
def steps? : Nat → List Char → Option (List Step)
  | _, [] => some []
  | 0, _ => none
  | fuel + 1, c :: cs => do
    let (step, cs) ← if c == '.' then name? cs else if c == '[' then index? cs else none
    pure (step :: (← steps? fuel cs))

/-- The path that a name stands for; a name that makes no path is a single step. -/
def path (name : String) : List Step :=
  let steps := do
    let (step, cs) ← name? name.toList
    pure (step :: (← steps? cs.length cs))
  steps.getD [.part name]

/-! ## Layers -/

/-- The part that a variable of some name sets: what follows the mark, in lower case. -/
def partOf? (mark name : String) : Option String :=
  let cs := name.toLower.toList
  let mark := mark.toLower.toList
  if mark.isPrefixOf cs then some (String.ofList (cs.drop mark.length)) else none

/-- The parts that the environment sets. -/
def ofEnvironment (mark : String) (environment : List (String × String)) :
    List (String × Document) :=
  environment.filterMap fun (name, value) => (partOf? mark name).map (·, layerText value)

/-- The parts that a file sets.  A text without a document sets none; anything but a record is
refused. -/
def ofYaml? (s : String) : Option (List (String × Document)) := do
  match ← Loose.read? s with
  | none => pure []
  | some (.record parts) => pure parts
  | some _ => none

/-- The parts of a record; anything else has none. -/
def partsOf : Document → List (String × Document)
  | .record parts => parts
  | _ => []

/-- The items of a list; anything else has none. -/
def itemsOf : Document → List Document
  | .list items => items
  | _ => []

/-- Put a value in place of whatever some parts have under a name. -/
def putPart (name : String) (value : Document) (parts : List (String × Document)) :
    List (String × Document) :=
  parts.filter (·.1 != name) ++ [(name, value)]

/-- The place of an index in a list of some length. -/
def placeOf (index : Int) (length : Nat) : Nat :=
  if index < 0 then length - index.natAbs else index.toNat

/-- Put a value at a place of some items; nothing fills the places before it. -/
def putItem (place : Nat) (value : Document) (items : List Document) : List Document :=
  items.take place ++ List.replicate (place - items.length) .null ++ [value] ++
    items.drop (place + 1)

mutual

/-- A value set under a name, whose letters become small.  Of a record the parts are set one by one
in what is there; it makes a record of anything else as soon as it has parts. -/
def assign (name : String) (into : Document) : Document → Document
  | .record parts =>
    let key := name.toLower
    let there := ((partsOf into).lookup key).getD (.record [])
    .record (putPart key (assignAll there parts) (partsOf into))
  | value => .record (putPart name.toLower value (partsOf into))

/-- Several parts set one by one. -/
def assignAll (into : Document) : List (String × Document) → Document
  | [] => into
  | (name, value) :: parts => assignAll (assign name into value) parts

end

/-- A value set at the end of a path.  On the way, what is not a record or a list but has to be one
makes room for it. -/
def place (value : Document) : List Step → Document → Document
  | [], d => d
  | [.part name], d => assign name d value
  | [.item index], d =>
    let items := itemsOf d
    .list (putItem (placeOf index items.length) value items)
  | .part name :: steps, d =>
    let parts := partsOf d
    .record (putPart name (place value steps ((parts.lookup name).getD .null)) parts)
  | .item index :: steps, d =>
    let items := itemsOf d
    let i := placeOf index items.length
    .list (putItem i (place value steps (items[i]?.getD .null)) items)

/-- All parts that some layers set, the later ones in place of the earlier ones. -/
def merge (parts : List (String × Document)) : List (String × Document) :=
  partsOf (parts.foldl (fun merged (name, value) => place value (path name) merged) (.record []))

/-! ## Reading -/

/-- The truth value that a word stands for, in any case. -/
def truthOfText? (s : String) : Option Bool :=
  match s.toLower with
  | "true" | "on" | "yes" => some true
  | "false" | "off" | "no" => some false
  | _ => none

/-- A layered value as a truth value. -/
def truth? : Document → Option Bool
  | .truth b => some b
  | .whole n => some (n != 0)
  | .real x => some (x != 0.0)
  | .text s =>
    match s with
    | "1" => some true
    | "0" => some false
    | _ => truthOfText? s
  | _ => none

/-- A layered value as a whole number of sixty-four bits. -/
def word64? : Document → Option UInt64
  | .truth b => some (if b then 1 else 0)
  | .whole n => (Document.whole n).asWord64?
  | .real x => some x.round.toUInt64
  | .text s =>
    match truthOfText? s with
    | some b => some (if b then 1 else 0)
    | none => ((Numeral.unsigned? s.toList).filter (· < UInt64.size)).map UInt64.ofNat
  | _ => none

/-- A layered value as a text. -/
def text? : Document → Option String
  | .truth b => some (if b then "true" else "false")
  | .whole n => some (toString n)
  | .real x => some (Decimal.plain x)
  | .text s => some s
  | _ => none

end Layers

namespace Settings

/-- The settings of a file, if there is one, with those of the environment in their place.  `file`
is the contents of the file; settings from a file that is missing are refused. -/
def ofLayers (file : Option (Option String)) (mark : String)
    (environment : List (String × String)) : Except Fault Settings :=
  let settings? : Option Settings := do
    let base ← match file with
      | none => some []
      | some contents => contents.bind Layers.ofYaml?
    let parts := Layers.merge (base ++ Layers.ofEnvironment mark environment)
    let algorithm ← Document.defaulted? parts "default_algorithm" standard.algorithm
      Algorithm.ofDocument?
    let firstMatchOnly ← Document.defaulted? parts "first_match_only" standard.firstMatchOnly
      Layers.truth?
    let timeoutMillis ← Document.defaulted? parts "default_timeout_ms" standard.timeoutMillis
      Layers.word64?
    let limitsPath ← Document.defaulted? parts "limits_path" standard.limitsPath
      (Document.asOptional? Layers.text?)
    pure ⟨algorithm, firstMatchOnly, timeoutMillis, limitsPath⟩
  match settings? with
  | some settings => .ok settings
  | none => .error (.setup .unreadableSettings)

end Settings

end Admission
