import Admission.Document.Loose.Scalar
import Admission.Document.Yaml.Lexer

/-!
# Cutting a loose text into lexemes

* **keys after the fact** — as elsewhere a colon makes a key of what stands before it, at most 1024
  characters back on its line; inside brackets a key may start anywhere;
* **margins** — what follows a key or a dash has to be indented by one column at least, even where
  no block begins, and so has what stands between brackets;
* **pairs** — a list in brackets may hold a pair without braces, which ends at the next comma or
  bracket.
-/

namespace Admission

namespace Loose

open Yaml (Lexeme KeyPlace TagRules isFlowIndicator)

/-- A column that what follows may not be to the left of. -/
structure Margin where
  /-- The column. -/
  column : Int
  /-- Whether a block begins at it. -/
  block : Bool
  deriving Repr

/-- How far a text has been cut up. -/
structure Lexer where
  /-- Where the text goes on. -/
  cursor : Cursor
  /-- The lexemes so far. -/
  lexemes : Array Lexeme
  /-- The margins, the innermost first. -/
  margins : List Margin
  /-- The places at which a key may have started, the innermost bracket first. -/
  places : List (Option KeyPlace)
  /-- Whether a key may start here. -/
  keyAllowed : Bool
  /-- The offset at which a value may follow its colon at once. -/
  adjacent : Nat
  /-- Whether keys between brackets are those of a record in braces. -/
  braced : Bool
  /-- Whether a pair without braces is open. -/
  paired : Bool
  /-- Whether the text is over. -/
  ended : Bool

namespace Lexer

/-- Nothing has been cut up yet. -/
def start (cs : List Char) : Lexer :=
  { cursor := .start cs, lexemes := #[], margins := [], places := [none], keyAllowed := true,
    adjacent := 0, braced := false, paired := false, ended := false }

/-- Whether the text goes on inside brackets. -/
def inFlow (l : Lexer) : Bool := 1 < l.places.length

/-- The column of the innermost margin; one before the first column outside all of them. -/
def indent (l : Lexer) : Int := (l.margins.head?.map Margin.column).getD (-1)

/-- Whether a block begins at the innermost margin. -/
def inBlock (l : Lexer) : Bool := l.margins.head?.any Margin.block

/-- Append a lexeme. -/
def emit (l : Lexer) (x : Lexeme) : Lexer := { l with lexemes := l.lexemes.push x }

/-- Put a lexeme in before others. -/
def emitAt (l : Lexer) (position : Nat) (x : Lexeme) : Lexer :=
  { l with lexemes := l.lexemes.insertIdxIfInBounds position x }

/-- Past what a cursor has passed. -/
def moveTo (l : Lexer) (c : Cursor) : Lexer := { l with cursor := c }

/-! ## Margins -/

/-- Drop the margins that a column is to the left of, and close their blocks. -/
def unroll (l : Lexer) (column : Int) : Lexer :=
  if l.inFlow then l
  else
    let dropped := l.margins.takeWhile (column < ·.column)
    { l with
      lexemes := l.lexemes ++ (dropped.filter Margin.block).map fun _ => Lexeme.blockEnd
      margins := l.margins.drop dropped.length }

/-- Drop the innermost margins at which no block begins. -/
def unrollBare (l : Lexer) : Lexer := { l with margins := l.margins.dropWhile (!·.block) }

/-- Open a block at a column, if it is to the right of the innermost margin.  The block takes the
place of a margin without one. -/
def roll (l : Lexer) (column : Nat) (position : Nat) (x : Lexeme) : Lexer :=
  if l.inFlow then l
  else
    let bare := l.indent ≤ column && !l.margins.isEmpty && !l.inBlock
    let l := if bare then { l with margins := l.margins.tail } else l
    if (column : Int) ≤ l.indent then l
    else { l.emitAt position x with margins := ⟨column, true⟩ :: l.margins }

/-- Put a margin behind that of a block. -/
def rollBare (l : Lexer) : Lexer :=
  if !l.inFlow && l.inBlock then { l with margins := ⟨l.indent + 1, false⟩ :: l.margins } else l

/-! ## Places of keys -/

/-- Forget the place at which a key may have started; it may not have been needed. -/
def dropPlace? (l : Lexer) : Option Lexer :=
  match l.places with
  | some place :: rest => if place.needed then none else some { l with places := none :: rest }
  | _ => some l

/-- Remember this place as one at which a key may start. -/
def savePlace (l : Lexer) : Lexer :=
  if !l.keyAllowed then l
  else
    let place : KeyPlace :=
      { position := l.lexemes.size
        offset := l.cursor.offset
        line := l.cursor.line
        column := l.cursor.column
        needed := !l.inFlow && l.indent == l.cursor.column && l.inBlock }
    { l with places := some place :: l.places.tail }

/-- Whether a place is still on this line and not too far back. -/
def isFresh (l : Lexer) (place : KeyPlace) : Bool :=
  place.line == l.cursor.line && l.cursor.offset ≤ place.offset + 1024

/-- Outside brackets, forget the places that are no longer on this line; none of them may have been
needed. -/
def dropStale? (l : Lexer) : Option Lexer :=
  if l.inFlow then some l
  else do
    let places ← l.places.mapM fun place? =>
      match place? with
      | none => some none
      | some place =>
        if l.isFresh place then some (some place) else if place.needed then none else some none
    pure { l with places }

/-! ## Between lexemes -/

/-- Past blanks, comments and line ends.  A tab may not stand in for the indentation of a block
unless its line is empty. -/
def skipSpace? : Nat → Lexer → Option Lexer
  | 0, l => some l
  | fuel + 1, l =>
    match l.cursor.rest with
    | '\t' :: _ =>
      if !l.margins.isEmpty && l.cursor.onMargin && l.cursor.isLeftOf l.indent then do
        skipSpace? fuel (l.moveTo (← skipToLineEnd? l.cursor))
      else skipSpace? fuel (l.moveTo l.cursor.next)
    | ' ' :: _ => skipSpace? fuel (l.moveTo l.cursor.next)
    | '\n' :: _ =>
      skipSpace? fuel
        { l with cursor := l.cursor.next, keyAllowed := l.keyAllowed || !l.inFlow }
    | '#' :: _ => skipSpace? fuel (l.moveTo l.cursor.skipLine)
    | _ => some l

/-- Past blanks, comments and line ends behind a question mark; a blank or a line end has to
come. -/
def skipBehindMark? : Nat → (seen : Bool) → Lexer → Option Lexer
  | 0, _, _ => none
  | fuel + 1, seen, l =>
    match l.cursor.rest with
    | ' ' :: _ => skipBehindMark? fuel true (l.moveTo l.cursor.next)
    | '\n' :: _ =>
      skipBehindMark? fuel true
        { l with cursor := l.cursor.next, keyAllowed := l.keyAllowed || !l.inFlow }
    | '#' :: _ => skipBehindMark? fuel seen (l.moveTo l.cursor.skipLine)
    | _ => if seen then some l else none

/-! ## One lexeme -/

/-- The text is over: all blocks are. -/
def fetchEnd? (l : Lexer) : Option Lexer :=
  if l.places.any fun place? => place?.any (·.needed) then none
  else some { (l.unroll (-1)).emit .streamEnd with ended := true }

/-- The characters of the names of directives. -/
def isNameChar (c : Char) : Bool := c.isAlphanum || c == '_' || c == '-'

/-- The characters between the exclamation marks of a handle. -/
def isHandleChar (c : Char) : Bool := c.isAlphanum || c == '-'

/-- The characters of a family of tags. -/
def isFamilyChar (c : Char) : Bool :=
  isHandleChar c || "#;/?:@&=+$,_.!~*'()[]%".toList.contains c

/-- The characters of a name behind a handle. -/
def isTagChar (c : Char) : Bool := isFamilyChar c && !isFlowIndicator c && c != '!'

/-- What may stand in a tag.  The octets of a character are put together as they are. -/
def tagRules : TagRules :=
  { inHandle := isHandleChar
    inName := isTagChar
    inFamily := isFamilyChar
    startsFamily := fun c => c == '!' || isTagChar c
    needsGap := false
    ofOctets := fun octets => Yaml.charOfCode? (octets.foldl (· * 256 + ·) 0) }

/-- A directive, behind its percent sign, and the rest of its line; one that is not known stands for
a short form of nothing. -/
def directive? (line : List Char) : Option (Lexeme × List Char) := do
  let name := line.takeWhile isNameChar
  let line := line.drop name.length
  if name.isEmpty || !endsWord line then none
  else
    match String.ofList name with
    | "YAML" => Yaml.version? line
    | "TAG" =>
      let (x, line) ← tagRules.shorthand? line
      if endsWord line then pure (x, line) else none
    | _ => pure (.shorthand "" "", [])

/-- A directive takes its line. -/
def fetchDirective? (l : Lexer) : Option Lexer := do
  let l ← (l.unroll (-1)).dropPlace?
  let line := (l.cursor.rest.takeWhile (· != '\n')).tail
  let (x, rest) ← directive? line
  let c ← skipToLineEnd? (l.cursor.skip (1 + line.length - rest.length))
  pure { l.emit x with cursor := c.next, keyAllowed := false }

/-- A mark before or behind a document ends all blocks. -/
def fetchDocumentMark? (l : Lexer) (x : Lexeme) : Option Lexer := do
  let l ← (l.unroll (-1)).dropPlace?
  pure { l.emit x with cursor := l.cursor.skip 3, keyAllowed := false }

/-- Behind the mark of an end nothing else may stand on its line. -/
def fetchDocumentEnd? (l : Lexer) : Option Lexer := do
  let l ← l.fetchDocumentMark? .documentEnd
  pure (l.moveTo (← skipToLineEnd? l.cursor))

/-- How many brackets may be open. -/
def deepest : Nat := 255

/-- An opening bracket may itself be a key. -/
def fetchFlowStart? (l : Lexer) (x : Lexeme) : Option Lexer := do
  let l := l.savePlace.rollBare
  let filler ← filler? true l.cursor.next
  if deepest < l.places.length then none
  else
    pure
      { l.emit x with
        cursor := filler.cursor, places := none :: l.places, keyAllowed := true
        braced := l.braced || x == .flowRecordStart }

/-- End a pair without braces. -/
def endPair (l : Lexer) : Lexer :=
  if l.paired then { l.emit .flowRecordEnd with paired := false, braced := false } else l

/-- A closing bracket; one too many is left to the reader of lexemes.  A value may follow it at
once. -/
def fetchFlowEnd? (l : Lexer) (x : Lexeme) : Option Lexer := do
  let l ← l.dropPlace?
  let places := if l.inFlow then l.places.tail else l.places
  let l := { l with places, keyAllowed := false }.endPair
  let c := (← filler? true l.cursor.next).cursor
  pure { l.emit x with cursor := c, adjacent := if l.inFlow then c.offset else l.adjacent }

/-- A comma between brackets. -/
def fetchFlowEntry? (l : Lexer) : Option Lexer := do
  let l := (← l.dropPlace?).endPair
  let filler ← filler? true l.cursor.next
  pure { l.emit .flowEntry with cursor := filler.cursor, keyAllowed := true }

/-- The dash before a list entry opens a list unless one is open. -/
def fetchBlockEntry? (l : Lexer) : Option Lexer :=
  if l.inFlow || !l.keyAllowed then none
  else do
    let column := l.cursor.column
    let filler ← filler? true l.cursor.next
    let rest := filler.cursor.rest
    if filler.tab && rest.head? == some '-' && endsWord rest.tail then none
    else
      let l := (l.roll column l.lexemes.size .blockListStart).moveTo filler.cursor
      let opens := rest.head?.any fun c => c == '\n' || isFlowIndicator c
      let l ← (if opens then l.rollBare else l).dropPlace?
      pure { l.emit .blockEntry with keyAllowed := true }

/-- A question mark before a key of its own line. -/
def fetchKey? (l : Lexer) : Option Lexer :=
  if !l.inFlow && !l.keyAllowed then none
  else do
    let l := l.roll l.cursor.column l.lexemes.size .blockRecordStart
    let l ← { l with braced := l.braced || l.inFlow }.dropPlace?
    let l := { l with cursor := l.cursor.next, keyAllowed := !l.inFlow }
    let l ← skipBehindMark? (l.cursor.rest.length + 1) false l
    if l.cursor.rest.head? == some '\t' then none else pure (l.emit .key)

/-- Whether a tab alone stands between a colon and a word. -/
def abusesTab (filler : Filler) : Bool :=
  filler.tab && !filler.space && filler.cursor.rest.head?.any isNameChar

/-- Past a colon, and past the blanks behind it if the first one is a tab. -/
def skipColon? (c : Cursor) : Option Cursor :=
  if c.next.rest.head? != some '\t' then some c.next
  else do
    let filler ← filler? true c.next
    if abusesTab filler then none else pure filler.cursor

/-- A colon makes a key of what started at the place remembered, if there is one.  Between brackets
it begins a pair unless a record in braces is open. -/
def fetchValue? (l : Lexer) : Option Lexer := do
  let paired := l.inFlow && !l.braced
  let l := { l with paired }
  let c ← skipColon? l.cursor
  match l.places with
  | some place :: rest =>
    if paired && place.line < l.cursor.line then none
    else
      let l := { l with places := none :: rest }.emitAt place.position .key
      let l := if paired then l.emitAt place.position .flowRecordStart else l
      let l := (l.roll place.column place.position .blockRecordStart).rollBare
      pure { l.emit .value with cursor := c, keyAllowed := false }
  | _ =>
    if !l.inFlow && !l.keyAllowed then none
    else
      let column := l.cursor.column
      let l := if paired then l.emit .flowRecordStart else l
      let l := (l.roll column l.lexemes.size .blockRecordStart).rollBare
      pure { l.emit .value with cursor := c, keyAllowed := !l.inFlow }

/-- Whether a character can stand in the name of a node. -/
def isAnchorChar (c : Char) : Bool :=
  !isBlank c && c != '\n' && !isFlowIndicator c && c != '\ufeff'

/-- The name of a node, behind its mark. -/
def fetchName? (l : Lexer) (make : String → Lexeme) : Option Lexer :=
  let l := l.savePlace
  let name := l.cursor.next.rest.takeWhile isAnchorChar
  if name.isEmpty then none
  else
    some
      { l.emit (make (String.ofList name)) with
        cursor := l.cursor.skip (name.length + 1), keyAllowed := false }

/-- The tag of a node; inside brackets an indicator may follow it at once. -/
def fetchTag? (l : Lexer) : Option Lexer := do
  let l := l.savePlace
  let (handle, name, rest) ← tagRules.tag? l.cursor.rest
  if endsWord rest || (l.inFlow && rest.head?.any isFlowIndicator) then
    pure
      { l.emit (.tag handle name) with
        cursor := l.cursor.skip (l.cursor.rest.length - rest.length), keyAllowed := false }
  else none

/-- A scalar as an indented block. -/
def fetchBlockScalar? (l : Lexer) (folded : Bool) : Option Lexer := do
  let l := l.savePlace.unrollBare
  let s ← blockScalar? folded l.indent l.cursor
  let style := if folded then Yaml.Style.folded else .literal
  pure { l.emit (.scalar style (String.ofList s.text)) with cursor := s.cursor, keyAllowed := true }

/-- A scalar between quotes.  A value may follow it at once. -/
def fetchQuoted? (l : Lexer) (quote : Char) : Option Lexer := do
  let l := { l.savePlace with keyAllowed := false }
  let s ← quotedScalar? quote l.inFlow l.indent l.cursor
  let l ← skipSpace? (s.cursor.rest.length + 1) (l.moveTo s.cursor)
  pure { l.emit (.scalar .quoted (String.ofList s.text)) with adjacent := l.cursor.offset }

/-- A plain scalar.  Behind a line end a key may start again. -/
def fetchPlain? (l : Lexer) : Option Lexer := do
  let l := l.savePlace.unrollBare
  let s ← plainScalar? l.inFlow l.indent l.cursor
  pure
    { l.emit (.scalar .plain (String.ofList s.text)) with
      cursor := s.cursor, keyAllowed := s.cursor.onMargin }

/-- Whether a colon here is followed by a value. -/
def startsValue (l : Lexer) (rest : List Char) : Bool :=
  endsWord rest ||
    (l.inFlow && (rest.head?.any isFlowIndicator || l.cursor.offset == l.adjacent))

/-- The next lexeme. -/
def step? (l : Lexer) : Option Lexer := do
  let l ← (← skipSpace? (l.cursor.rest.length + 1) l).dropStale?
  let l := l.unroll l.cursor.column
  let c := l.cursor
  match c.rest with
  | [] => l.fetchEnd?
  | x :: rest =>
    if c.column == 0 && x == '%' then l.fetchDirective?
    else if c.startsMark '-' then l.fetchDocumentMark? .documentStart
    else if c.startsMark '.' then l.fetchDocumentEnd?
    else if c.isLeftOf l.indent then none
    else if x == '[' then l.fetchFlowStart? .flowListStart
    else if x == '\x7b' then l.fetchFlowStart? .flowRecordStart
    else if x == ']' then l.fetchFlowEnd? .flowListEnd
    else if x == '\x7d' then l.fetchFlowEnd? .flowRecordEnd
    else if x == ',' then l.fetchFlowEntry?
    else if x == '-' && endsWord rest then l.fetchBlockEntry?
    else if x == '?' && endsWord rest then l.fetchKey?
    else if x == ':' && l.startsValue rest then l.fetchValue?
    else if x == '*' then l.fetchName? .aliasOf
    else if x == '&' then l.fetchName? .anchor
    else if x == '!' then l.fetchTag?
    else if x == '|' && !l.inFlow then l.fetchBlockScalar? false
    else if x == '>' && !l.inFlow then l.fetchBlockScalar? true
    else if x == '\'' || x == '"' then l.fetchQuoted? x
    else if x == '%' || x == '@' || x == '\x60' then none
    else l.fetchPlain?

/-- All lexemes, in at most so many steps. -/
def run? : Nat → Lexer → Option (List Lexeme)
  | 0, _ => none
  | fuel + 1, l => if l.ended then some l.lexemes.toList else l.step?.bind (run? fuel)

end Lexer

/-- The lexemes of a text. -/
def lex? (cs : List Char) : Option (List Lexeme) := Lexer.run? (cs.length + 3) (.start cs)

end Loose

end Admission
