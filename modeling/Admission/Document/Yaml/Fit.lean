import Admission.Document.Shape
import Admission.Document.Yaml.Lexer
import Admission.Document.Yaml.Settled

/-!
# Reading towards a shape

`fit?` reads a node as a value of a shape, and `read?` a whole text.

* **aliases** — an alias is followed wherever a value is wanted, a hundred times for everything that
  a text consists of and no more; so a text cannot grow out of bounds by naming itself;
* **nesting** — lists and records lie in one another to a depth of 128;
* **what is not wanted** — the other parts of a record are passed over, whatever they hold.  Only
  the parts of a choice are all looked at, since its kind may come last.
-/

namespace Admission

namespace Yaml

/-- Reading, with the number of aliases that may still be followed. -/
abbrev Reading := StateT Nat Option

/-- The node that an alias stands for. -/
def Named.follow (named : Named) : Node → Reading Node
  | .aliasOf number => do
    match ← get with
    | 0 => failure
    | left + 1 =>
      set left
      named.lookup number
  | n => pure n

/-- What a scalar says, if anything does. -/
def Node.text? : Node → Option String
  | .scalar _ s => some s.text
  | _ => none

/-- Whether a node stands for nothing. -/
def Node.isNull? : Node → Option Bool
  | .scalar _ s => s.isNull?
  | _ => some false

/-- A text, behind an alias or not. -/
def Named.text (named : Named) (n : Node) : Reading String := do (← named.follow n).text?

/-- A node of which it is not known what is wanted, within so many levels of nesting. -/
def Named.settled (named : Named) : Nat → Node → Reading Settled
  | 0, _ => failure
  | levels + 1, n => do
    match ← named.follow n with
    | .scalar _ s => s.settled?
    | .list _ tag items =>
      if levels == 0 || (tag.bind Tag.keyword?).isSome then failure
      else
        for n in items do
          let _ ← named.settled levels n
        pure .group
    | .record _ tag entries =>
      if levels == 0 || (tag.bind Tag.keyword?).isSome then failure
      else
        for (k, v) in entries do
          let _ ← named.settled levels k
          let _ ← named.settled levels v
        pure .group
    | .aliasOf _ => failure

/-- What a key of a choice says. -/
inductive ChoiceKey where
  /-- The kind comes next. -/
  | kind
  /-- A part comes next. -/
  | part (key : Settled)

/-- An entry of a choice: its kind, or another part. -/
inductive ChoiceEntry where
  /-- The kind. -/
  | kind (name : String)
  /-- Another part. -/
  | part (key value : Settled)

/-- An entry of a choice. -/
def Named.choiceEntry (named : Named) (levels : Nat) (entry : Node × Node) :
    Reading ChoiceEntry := do
  match ← named.settled levels entry.1 with
  | .text "type" => pure (.kind (← named.text entry.2))
  | key => pure (.part key (← named.settled levels entry.2))

/-- The name of a part of a choice: its name, or its place among the names from zero on.  A part of
no name is passed over. -/
def partName? (names : List String) : Settled → Option (Option String)
  | .text name => some (if names.contains name then some name else none)
  | .natural place => some names[place]?
  | _ => none

/-- The parts of a choice of some kind.  A kind without parts passes everything over. -/
def choiceParts? (names : List String) (parts : List (Settled × Settled)) :
    Option (List (String × Document)) :=
  if names.isEmpty then some []
  else do
    let named ← parts.mapM fun (key, value) => do
      pure ((← partName? names key).map (·, value.toDocument))
    pure (named.filterMap id)

/-- The entries of a choice as a document. -/
def choice? (kinds : List (String × List String)) (entries : List ChoiceEntry) :
    Option Document := do
  let named := entries.filterMap fun | .kind name => some name | .part _ _ => none
  let parts := entries.filterMap fun | .kind _ => none | .part key value => some (key, value)
  match named with
  | [name] =>
    let parts ← choiceParts? (← kinds.lookup name) parts
    pure (.record (("type", .text name) :: parts))
  | _ => none

/-- The document of a scalar of a shape. -/
def Scalar.fit? (s : Scalar) : Shape → Option Document
  | .text => some (.text s.text)
  | .truth => s.truth?.map .truth
  | .natural most => (s.natural? most).map fun n => .whole n
  | .keyword => s.keyword?.map .text
  | .list _ => if s.isLeftOut then some (.list []) else none
  | .record _ => if s.isLeftOut then some (.record []) else none
  | .choice _ => none
  | .optional _ => none

/-- A node of a shape, within so many levels of nesting. -/
def Named.fit (named : Named) : Nat → Shape → Node → Reading Document
  | 0, _, _ => failure
  | levels + 1, shape, n => do
    let n ← named.follow n
    let (optional, shape) := shape.peeled
    let isNull ← if optional then n.isNull? else some false
    if isNull then pure .null
    else
      match shape, n with
      | _, .scalar _ s => s.fit? shape
      | _, .aliasOf _ => failure
      | .list item, .list _ _ items =>
        if levels == 0 then failure else pure (.list (← items.mapM (named.fit levels item)))
      | .record parts, .record _ _ entries =>
        if levels == 0 then failure
        else
          let fitted ← entries.mapM fun (k, v) => do
            let name ← named.text k
            match parts.lookup name with
            | some shape => pure (some (name, ← named.fit levels shape v))
            | none => pure none
          let fitted := fitted.filterMap id
          if (fitted.map Prod.fst).Nodup then pure (.record fitted) else failure
      | .choice kinds, .record _ tag entries =>
        if levels == 0 || (tag.bind Tag.keyword?).isSome then failure
        else choice? kinds (← entries.mapM (named.choiceEntry levels))
      | .choice _, .list _ tag (kind :: items) =>
        if levels == 0 || (tag.bind Tag.keyword?).isSome then failure
        else
          let kind ← named.text kind
          let items ← items.mapM (named.settled levels)
          pure (.list (.text kind :: items.map Settled.toDocument))
      | _, _ => failure

/-! ## Texts -/

/-- The families of some directives.  A text may ask once for version 1.1 or 1.2 of the notation,
and give each handle once. -/
def families? (directives : List Lexeme) : Option (List (String × String)) :=
  let versions := directives.filterMap fun
    | .version major minor => some (major, minor)
    | _ => none
  let families := directives.filterMap fun
    | .shorthand handle family => some (handle, family)
    | _ => none
  if versions.length ≤ 1 && versions.all (fun v => v.1 == 1 && (v.2 == 1 || v.2 == 2)) &&
      (families.map Prod.fst).Nodup then
    some families
  else none

/-- The grammar of texts that are read strictly: what is left out says nothing, a value has a key,
and the numbers of nodes count their different names. -/
def grammar : Grammar :=
  { gapText := "", loneValues := false, freshNumbers := false, families? }

/-- How many lists and records may lie around a value. -/
def deepest : Nat := 128

/-- How often an alias may be followed for everything that a text consists of. -/
def aliasRate : Nat := 100

/-- The only document of a text, as a value of a shape.  A text without a document is one that
leaves everything out. -/
def read? (shape : Shape) (s : String) : Option Document := do
  let n := (← grammar.document? (← lex? s.toList)).getD grammar.gap
  let (d, _) ← ((Named.ofNode n).fit (deepest + 1) shape n).run (aliasRate * n.extent)
  pure d

end Yaml

end Admission
