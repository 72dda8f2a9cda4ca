import Admission.Document.Yaml.Lexeme

/-!
# Nodes

What the lexemes of a text say before it is known what any word stands for: scalars, lists and
records, in brackets or in blocks, with their tags, and aliases for nodes that were given a name.

* **names** — every name is given a number, and an alias keeps the number of its name; `Named` finds
  a node by its number, and of several nodes with one number the one that starts last;
* **gaps** — a key or an entry may be left empty, which reads as a plain scalar;
* **one document** — `Grammar.document?` takes lexemes that hold at most one document;
* **grammars** — dialects differ in a few rules, which a `Grammar` lays down.

The readers go through the lexemes with a budget of steps.  No step comes back to a lexeme more than
a few times, so four steps for each lexeme suffice.
-/

namespace Admission

namespace Yaml

/-- What kind of thing a node is said to be: a family of tags and a name in it. -/
structure Tag where
  /-- The family. -/
  family : String
  /-- The name. -/
  name : String
  deriving DecidableEq, Repr

/-- The family of the tags that say what a word stands for. -/
def coreFamily : String := "tag:yaml.org,2002:"

/-- The tag written out. -/
def Tag.full (tag : Tag) : String := tag.family ++ tag.name

/-- A word or a text, and how it is written. -/
structure Scalar where
  /-- The tag, where there is one. -/
  tag : Option Tag
  /-- How it is written. -/
  style : Style
  /-- What it says. -/
  text : String
  deriving DecidableEq, Repr

/-- What some lexemes say. -/
inductive Node where
  /-- The node of a number again. -/
  | aliasOf (number : Nat)
  /-- A scalar. -/
  | scalar (number : Option Nat) (scalar : Scalar)
  /-- A list. -/
  | list (number : Option Nat) (tag : Option Tag) (items : List Node)
  /-- A record: keys and values. -/
  | record (number : Option Nat) (tag : Option Tag) (entries : List (Node × Node))
  deriving Repr, Inhabited

namespace Node

mutual

/-- How many things a node consists of: a list or a record has a beginning and an end, and all else
counts once. -/
def extent : Node → Nat
  | aliasOf _ => 1
  | scalar _ _ => 1
  | list _ _ items => extentOfItems items + 2
  | record _ _ entries => extentOfEntries entries + 2

/-- The extent of all items. -/
def extentOfItems : List Node → Nat
  | [] => 0
  | n :: ns => n.extent + extentOfItems ns

/-- The extent of all entries. -/
def extentOfEntries : List (Node × Node) → Nat
  | [] => 0
  | (k, v) :: es => k.extent + v.extent + extentOfEntries es

end

/-- The number of a node, where it was given a name. -/
def number? : Node → Option Nat
  | aliasOf _ => none
  | scalar number _ => number
  | list number _ _ => number
  | record number _ _ => number

end Node

/-- The nodes that were given a number, those that start last in front. -/
abbrev Named := List (Nat × Node)

namespace Named

/-- A node besides others, if it has a number. -/
def add (named : Named) (n : Node) : Named :=
  match n.number? with
  | some number => (number, n) :: named
  | none => named

mutual

/-- The numbered nodes inside a node, itself included, besides others. -/
def collect (named : Named) : Node → Named
  | .aliasOf _ => named
  | .scalar number s => named.add (.scalar number s)
  | .list number tag items => collectItems (named.add (.list number tag items)) items
  | .record number tag entries => collectEntries (named.add (.record number tag entries)) entries

/-- The numbered nodes inside some items, besides others. -/
def collectItems (named : Named) : List Node → Named
  | [] => named
  | n :: ns => collectItems (collect named n) ns

/-- The numbered nodes inside some entries, besides others. -/
def collectEntries (named : Named) : List (Node × Node) → Named
  | [] => named
  | (k, v) :: es => collectEntries (collect (collect named k) v) es

end

/-- The numbered nodes of a document. -/
def ofNode (n : Node) : Named := collect [] n

end Named

/-! ## Grammars -/

/-- The handles that need no directive. -/
def standardFamilies : List (String × String) := [("", ""), ("!", "!"), ("!!", coreFamily)]

/-- The rules in which dialects differ. -/
structure Grammar where
  /-- What an empty key or entry says. -/
  gapText : String
  /-- Whether a value may stand without a key. -/
  loneValues : Bool
  /-- Whether a name that is given again gets a number of its own.  Otherwise the numbers count the
  different names, so that one that is given again may share its number with the next one. -/
  freshNumbers : Bool
  /-- The handles and their families that some directives give; none where the directives cannot be
  followed. -/
  families? : List Lexeme → Option (List (String × String))
  /-- The families that handles stand for. -/
  families : List (String × String) := standardFamilies

/-- What is known of names, and the lexemes that follow. -/
structure Parsing where
  /-- The numbers of the names, the latest first. -/
  numbers : List (String × Nat)
  /-- The number of the next name. -/
  next : Nat
  /-- The lexemes that follow. -/
  rest : List Lexeme

/-- Reading from lexemes. -/
abbrev Parse := StateT Parsing Option

namespace Parse

/-- The next lexeme; the text is over behind the last one. -/
def peek : Parse Lexeme := do pure ((← get).rest.headD .streamEnd)

/-- Past the next lexeme. -/
def skip : Parse Unit := modify fun p => { p with rest := p.rest.tail }

end Parse

open Parse

/-- Whether the entry of a block is left out. -/
def isBlockGap : Lexeme → Bool
  | .blockEntry => true
  | .blockEnd => true
  | _ => false

/-- Whether the key or the value of a block is left out. -/
def isRecordGap : Lexeme → Bool
  | .key => true
  | .value => true
  | .blockEnd => true
  | _ => false

/-- Whether an entry of a list without indentation of its own is left out. -/
def isFlatGap (x : Lexeme) : Bool := isRecordGap x || x == .blockEntry

/-- Whether a key or a value in braces is left out. -/
def isBraceGap : Lexeme → Bool
  | .value => true
  | .flowEntry => true
  | .flowRecordEnd => true
  | _ => false

/-- Whether a key or a value in brackets is left out. -/
def isBracketGap : Lexeme → Bool
  | .value => true
  | .flowEntry => true
  | .flowListEnd => true
  | _ => false

namespace Grammar

/-- What is left out. -/
def gap (g : Grammar) : Node := .scalar none ⟨none, .plain, g.gapText⟩

/-- The tag that a handle and a name stand for. -/
def tag? (g : Grammar) (handle name : String) : Option Tag :=
  (g.families.lookup handle).map (⟨·, name⟩)

/-- Give a name to the next node. -/
def register (g : Grammar) (name : String) : Parse Nat := do
  let p ← get
  let known := p.numbers.any (·.1 == name)
  set
    { p with
      numbers := (name, p.next) :: p.numbers
      next := if known && !g.freshNumbers then p.next else p.next + 1 }
  pure p.next

/-- The name and the tag before a node, in either order. -/
def properties (g : Grammar) : Parse (Option Nat × Option Tag) := do
  match ← peek with
  | .anchor name =>
    skip
    let number ← g.register name
    match ← peek with
    | .tag handle name =>
      skip
      pure (some number, some (← g.tag? handle name))
    | _ => pure (some number, none)
  | .tag handle name =>
    skip
    let tag ← g.tag? handle name
    match ← peek with
    | .anchor name =>
      skip
      pure (some (← g.register name), some tag)
    | _ => pure (none, some tag)
  | _ => pure (none, none)

mutual

/-- A node.  `block` allows blocks, and `flat` a list whose dashes are not indented any further.
Behind a name or a tag everything may be left out. -/
def node (g : Grammar) : Nat → (block flat : Bool) → Parse Node
  | 0, _, _ => failure
  | fuel + 1, block, flat => do
    match ← peek with
    | .aliasOf name =>
      skip
      match (← get).numbers.lookup name with
      | some number => pure (.aliasOf number)
      | none => failure
    | _ =>
      let (number, tag) ← g.properties
      match ← peek, block with
      | .scalar style text, _ =>
        skip
        pure (.scalar number ⟨tag, style, text⟩)
      | .flowListStart, _ =>
        skip
        pure (.list number tag (← g.bracketItems fuel [] true))
      | .flowRecordStart, _ =>
        skip
        pure (.record number tag (← g.braceEntries fuel [] true))
      | .blockListStart, true =>
        skip
        pure (.list number tag (← g.blockItems fuel []))
      | .blockRecordStart, true =>
        skip
        pure (.record number tag (← g.blockEntries fuel []))
      | x, _ =>
        if flat && x == .blockEntry then pure (.list number tag (← g.flatItems fuel []))
        else if number.isSome || tag.isSome then pure (.scalar number ⟨tag, .plain, ""⟩)
        else failure

/-- A node, or a gap where one is left out. -/
def nodeOr (g : Grammar) : Nat → (isGap : Lexeme → Bool) → (block flat : Bool) → Parse Node
  | 0, _, _, _ => failure
  | fuel + 1, isGap, block, flat => do
    if isGap (← peek) then pure g.gap else g.node fuel block flat

/-- The items of an indented list, after those already read, in reverse. -/
def blockItems (g : Grammar) : Nat → List Node → Parse (List Node)
  | 0, _ => failure
  | fuel + 1, done => do
    match ← peek with
    | .blockEnd =>
      skip
      pure done.reverse
    | .blockEntry =>
      skip
      let n ← g.nodeOr fuel isBlockGap true false
      g.blockItems fuel (n :: done)
    | _ => failure

/-- The items of a list without indentation of its own. -/
def flatItems (g : Grammar) : Nat → List Node → Parse (List Node)
  | 0, _ => failure
  | fuel + 1, done => do
    match ← peek with
    | .blockEntry =>
      skip
      let n ← g.nodeOr fuel isFlatGap true false
      g.flatItems fuel (n :: done)
    | _ => pure done.reverse

/-- The entries of an indented record. -/
def blockEntries (g : Grammar) : Nat → List (Node × Node) → Parse (List (Node × Node))
  | 0, _ => failure
  | fuel + 1, done => do
    match ← peek with
    | .blockEnd =>
      skip
      pure done.reverse
    | .key =>
      skip
      let k ← g.nodeOr fuel isRecordGap true true
      let v ← g.blockValue fuel
      g.blockEntries fuel ((k, v) :: done)
    | .value =>
      if g.loneValues then
        let v ← g.blockValue fuel
        g.blockEntries fuel ((g.gap, v) :: done)
      else failure
    | _ => failure

/-- The value of a key of an indented record, if there is one. -/
def blockValue (g : Grammar) : Nat → Parse Node
  | 0 => failure
  | fuel + 1 => do
    match ← peek with
    | .value =>
      skip
      g.nodeOr fuel isRecordGap true true
    | _ => pure g.gap

/-- The value of a key inside brackets or braces, if there is one. -/
def flowValue (g : Grammar) : Nat → (isGap : Lexeme → Bool) → Parse Node
  | 0, _ => failure
  | fuel + 1, isGap => do
    match ← peek with
    | .value =>
      skip
      match ← peek with
      | .value => failure
      | _ => g.nodeOr fuel isGap false false
    | _ => pure g.gap

/-- The items of a list in brackets.  A key makes an item a record of one entry; where the key is
left out, what follows it is passed over. -/
def bracketItems (g : Grammar) : Nat → List Node → (first : Bool) → Parse (List Node)
  | 0, _, _ => failure
  | fuel + 1, done, first => do
    match ← peek, first with
    | .flowListEnd, _ =>
      skip
      pure done.reverse
    | .flowEntry, false =>
      skip
      g.bracketItem fuel done
    | _, true => g.bracketItem fuel done
    | _, false => failure

/-- The next item of a list in brackets, and those behind it. -/
def bracketItem (g : Grammar) : Nat → List Node → Parse (List Node)
  | 0, _ => failure
  | fuel + 1, done => do
    match ← peek with
    | .flowListEnd =>
      skip
      pure done.reverse
    | .key =>
      skip
      let gapped := isBracketGap (← peek)
      let k ← if gapped then pure g.gap else g.node fuel false false
      if gapped then skip
      let v ← g.flowValue fuel isBracketGap
      g.bracketItems fuel (.record none none [(k, v)] :: done) false
    | _ =>
      let n ← g.node fuel false false
      g.bracketItems fuel (n :: done) false

/-- The entries of a record in braces. -/
def braceEntries (g : Grammar) : Nat → List (Node × Node) → (first : Bool) →
    Parse (List (Node × Node))
  | 0, _, _ => failure
  | fuel + 1, done, first => do
    match ← peek, first with
    | .flowRecordEnd, _ =>
      skip
      pure done.reverse
    | .flowEntry, false =>
      skip
      g.braceEntry fuel done
    | _, true => g.braceEntry fuel done
    | _, false => failure

/-- The next entry of a record in braces, and those behind it. -/
def braceEntry (g : Grammar) : Nat → List (Node × Node) → Parse (List (Node × Node))
  | 0, _ => failure
  | fuel + 1, done => do
    match ← peek with
    | .flowRecordEnd =>
      skip
      pure done.reverse
    | .key =>
      skip
      let k ← g.nodeOr fuel isBraceGap false false
      let v ← g.flowValue fuel isBraceGap
      g.braceEntries fuel ((k, v) :: done) false
    | x =>
      if g.loneValues && x == .value then
        let v ← g.flowValue fuel isBraceGap
        g.braceEntries fuel ((g.gap, v) :: done) false
      else
        let k ← g.node fuel false false
        g.braceEntries fuel ((k, g.gap) :: done) false

end

/-! ## Documents -/

/-- Whether a document is over before it has said anything. -/
def isDocumentGap : Lexeme → Bool
  | .version _ _ => true
  | .shorthand _ _ => true
  | .documentStart => true
  | .documentEnd => true
  | .streamEnd => true
  | _ => false

/-- Whether nothing follows a document but marks of its end. -/
def isRest (xs : List Lexeme) : Bool := xs.dropWhile (· == .documentEnd) == [.streamEnd]

/-- The only document of some lexemes behind their directives. -/
def content? (g : Grammar) (xs : List Lexeme) : Option Node := do
  let budget := 4 * xs.length + 4
  let read : Parse Node := do
    match ← peek with
    | .documentStart =>
      skip
      if isDocumentGap (← peek) then pure g.gap else g.node budget true false
    | _ => g.node budget true false
  let (n, p) ← read.run ⟨[], 0, xs⟩
  if isRest p.rest then pure n else none

/-- Whether a lexeme is a directive. -/
def isDirective : Lexeme → Bool
  | .version _ _ => true
  | .shorthand _ _ => true
  | _ => false

/-- The only document of some lexemes, if they hold one at all.  Behind directives there has to be
the mark before a document. -/
def document? (g : Grammar) (xs : List Lexeme) : Option (Option Node) :=
  if xs == [.streamEnd] then some none
  else do
    let directives := xs.takeWhile isDirective
    let xs := xs.drop directives.length
    if !directives.isEmpty && xs.head? != some .documentStart then none
    else
      let families ← g.families? directives
      let n ← { g with families := families ++ g.families }.content? xs
      pure (some n)

end Grammar

end Yaml

end Admission
