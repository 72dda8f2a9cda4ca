import Admission.Document.Yaml.Tag

/-!
# Cutting a text into lexemes

* **keys after the fact** — that a word is a key shows only at the colon behind it.  So the place
  at which a key may start is remembered, one for each depth of brackets, and when a colon comes on
  the same line the key lexeme is put in before the word;
* **indentation** — a list entry or a key further to the right than its surroundings opens a block,
  and a line further to the left closes the blocks that it leaves;
* **refusal** — `lex?` answers `none` for a text that cannot be cut up.
-/

namespace Admission

namespace Yaml

/-- A place at which a key may have started. -/
structure KeyPlace where
  /-- The number of lexemes before it. -/
  position : Nat
  /-- Its offset in the text. -/
  offset : Nat
  /-- Its line. -/
  line : Nat
  /-- Its column. -/
  column : Nat
  /-- Whether nothing but a key may stand there. -/
  needed : Bool
  deriving Repr

/-- How far a text has been cut up. -/
structure Lexer where
  /-- Where the text goes on. -/
  cursor : Cursor
  /-- The lexemes so far. -/
  lexemes : Array Lexeme
  /-- The column of the present block; one before the first column outside all blocks. -/
  indent : Int
  /-- The columns of the blocks around it. -/
  outer : List Int
  /-- The places at which a key may have started, the innermost bracket first. -/
  places : List (Option KeyPlace)
  /-- Whether a key may start here. -/
  keyAllowed : Bool
  /-- Whether the text is over. -/
  ended : Bool

namespace Lexer

/-- Nothing has been cut up yet. -/
def start (cs : List Char) : Lexer := ⟨.start cs, #[], -1, [], [none], true, false⟩

/-- Whether the text goes on inside brackets. -/
def inFlow (l : Lexer) : Bool := 1 < l.places.length

/-- Append a lexeme. -/
def emit (l : Lexer) (x : Lexeme) : Lexer := { l with lexemes := l.lexemes.push x }

/-- Put a lexeme in before others. -/
def emitAt (l : Lexer) (position : Nat) (x : Lexeme) : Lexer :=
  { l with lexemes := l.lexemes.insertIdxIfInBounds position x }

/-- Close the blocks that a column is to the left of. -/
def unroll (l : Lexer) (column : Int) : Lexer :=
  if l.inFlow then l
  else
    let closed := (l.indent :: l.outer).takeWhile (column < ·)
    let left := (l.indent :: l.outer).drop closed.length
    { l with
      lexemes := l.lexemes ++ List.replicate closed.length Lexeme.blockEnd
      indent := left.headD (-1)
      outer := left.tail }

/-- Open a block at a column, if it is to the right of the present one. -/
def roll (l : Lexer) (column : Nat) (position : Nat) (x : Lexeme) : Lexer :=
  if l.inFlow || (column : Int) ≤ l.indent then l
  else { l.emitAt position x with indent := column, outer := l.indent :: l.outer }

/-- Forget the place at which a key may have started; it may not have been needed. -/
def dropPlace? (l : Lexer) : Option Lexer :=
  match l.places with
  | some place :: rest => if place.needed then none else some { l with places := none :: rest }
  | _ => some l

/-- Remember this place as one at which a key may start. -/
def savePlace? (l : Lexer) : Option Lexer :=
  if !l.keyAllowed then some l
  else do
    let l ← l.dropPlace?
    let place : KeyPlace :=
      { position := l.lexemes.size
        offset := l.cursor.offset
        line := l.cursor.line
        column := l.cursor.column
        needed := !l.inFlow && l.indent == l.cursor.column }
    pure { l with places := some place :: l.places.tail }

/-- Whether a place is still on this line and not too far back. -/
def isFresh (l : Lexer) (place : KeyPlace) : Bool :=
  place.line == l.cursor.line && l.cursor.offset ≤ place.offset + 1024

/-- Forget the places that are no longer on this line; none of them may have been needed. -/
def dropStale? (l : Lexer) : Option Lexer := do
  let places ← l.places.mapM fun place? =>
    match place? with
    | none => some none
    | some place =>
      if l.isFresh place then some (some place) else if place.needed then none else some none
  pure { l with places }

/-- Past blanks, comments and line ends.  A tab counts as a blank where no key may start, and the
first column of a line may hold a byte order mark. -/
def skipSpace : Nat → Lexer → Lexer
  | 0, l => l
  | fuel + 1, l =>
    match l.cursor.rest with
    | '\ufeff' :: _ =>
      if l.cursor.column == 0 then skipSpace fuel { l with cursor := l.cursor.next } else l
    | ' ' :: _ => skipSpace fuel { l with cursor := l.cursor.next }
    | '\t' :: _ =>
      if l.inFlow || !l.keyAllowed then skipSpace fuel { l with cursor := l.cursor.next } else l
    | '#' :: _ => skipSpace fuel { l with cursor := l.cursor.skipLine }
    | c :: _ =>
      if isBreak c then
        skipSpace fuel
          { l with cursor := l.cursor.next, keyAllowed := l.keyAllowed || !l.inFlow }
      else l
    | [] => l

/-! ## One lexeme -/

/-- The text is over: all blocks are. -/
def fetchEnd? (l : Lexer) : Option Lexer := do
  let l ← (l.unroll (-1)).dropPlace?
  pure { l.emit .streamEnd with ended := true, keyAllowed := false }

/-- Whether nothing follows on a line but a comment. -/
def endsDirective (line : List Char) : Bool :=
  (line.dropWhile isBlank).head?.all (· == '#')

/-- The characters of the names of directives, anchors and aliases, and of handles. -/
def isNameChar (c : Char) : Bool := c.isAlphanum || c == '_' || c == '-'

/-- The characters of a name behind a handle. -/
def isTagChar (c : Char) : Bool := isNameChar c || ";/?:@&=+$.!~*'()".toList.contains c

/-- The characters of a family of tags. -/
def isFamilyChar (c : Char) : Bool := isTagChar c || c == ',' || c == '[' || c == ']'

/-- What may stand in a tag. -/
def tagRules : TagRules :=
  { inHandle := isNameChar
    inName := isTagChar
    inFamily := isFamilyChar
    startsFamily := fun c => isFamilyChar c || c == '%'
    needsGap := true
    ofOctets := charOfOctets? }

/-- A directive, behind its percent sign: a version or a short form, and a comment. -/
def directive? (line : List Char) : Option Lexeme := do
  let name := line.takeWhile isNameChar
  let line := line.drop name.length
  if !endsWord line then none
  else
    match String.ofList name with
    | "YAML" =>
      let (x, line) ← version? line
      if endsDirective line then pure x else none
    | "TAG" =>
      let (x, line) ← tagRules.shorthand? line
      if endsWord line && endsDirective line then pure x else none
    | _ => none

/-- A directive takes its line. -/
def fetchDirective? (l : Lexer) : Option Lexer := do
  let l ← (l.unroll (-1)).dropPlace?
  let x ← directive? (l.cursor.rest.takeWhile (!isBreak ·)).tail
  pure { l.emit x with cursor := l.cursor.skipLine.next, keyAllowed := false }

/-- A mark before or behind a document ends all blocks. -/
def fetchDocumentMark? (l : Lexer) (x : Lexeme) : Option Lexer := do
  let l ← (l.unroll (-1)).dropPlace?
  pure { l.emit x with cursor := l.cursor.skip 3, keyAllowed := false }

/-- An opening bracket may itself be a key. -/
def fetchFlowStart? (l : Lexer) (x : Lexeme) : Option Lexer := do
  let l ← l.savePlace?
  pure
    { l.emit x with cursor := l.cursor.next, places := none :: l.places, keyAllowed := true }

/-- A closing bracket; one too many is left to the reader of lexemes. -/
def fetchFlowEnd? (l : Lexer) (x : Lexeme) : Option Lexer := do
  let l ← l.dropPlace?
  let places := if l.inFlow then l.places.tail else l.places
  pure { l.emit x with cursor := l.cursor.next, places, keyAllowed := false }

/-- A comma between brackets. -/
def fetchFlowEntry? (l : Lexer) : Option Lexer := do
  let l ← l.dropPlace?
  pure { l.emit .flowEntry with cursor := l.cursor.next, keyAllowed := true }

/-- The dash before a list entry opens a list unless one is open. -/
def fetchBlockEntry? (l : Lexer) : Option Lexer :=
  if !l.inFlow && !l.keyAllowed then none
  else do
    let l ← (l.roll l.cursor.column l.lexemes.size .blockListStart).dropPlace?
    pure { l.emit .blockEntry with cursor := l.cursor.next, keyAllowed := true }

/-- A question mark before a key of its own line. -/
def fetchKey? (l : Lexer) : Option Lexer :=
  if !l.inFlow && !l.keyAllowed then none
  else do
    let l ← (l.roll l.cursor.column l.lexemes.size .blockRecordStart).dropPlace?
    pure { l.emit .key with cursor := l.cursor.next, keyAllowed := !l.inFlow }

/-- A colon makes a key of what started at the place remembered, if there is one. -/
def fetchValue? (l : Lexer) : Option Lexer :=
  match l.places with
  | some place :: rest =>
    let l := { l with places := none :: rest }
    let l := l.emitAt place.position .key
    let l := l.roll place.column place.position .blockRecordStart
    some { l.emit .value with cursor := l.cursor.next, keyAllowed := false }
  | _ =>
    if !l.inFlow && !l.keyAllowed then none
    else
      let l := l.roll l.cursor.column l.lexemes.size .blockRecordStart
      some { l.emit .value with cursor := l.cursor.next, keyAllowed := !l.inFlow }

/-- Whether a name may end before these characters. -/
def endsName (cs : List Char) : Bool :=
  endsWord cs || cs.head?.any fun c =>
    c == '?' || c == ':' || c == ',' || c == ']' || c == '\x7d' || c == '%' || c == '@' ||
      c == '\x60'

/-- The name of a node, behind its mark. -/
def fetchName? (l : Lexer) (make : String → Lexeme) : Option Lexer := do
  let l ← l.savePlace?
  let c := l.cursor.next
  let name := c.rest.takeWhile isNameChar
  let c := c.skip name.length
  if name.isEmpty || !endsName c.rest then none
  else
    pure { l.emit (make (String.ofList name)) with cursor := c, keyAllowed := false }

/-- The tag of a node; inside brackets a comma may follow it at once. -/
def fetchTag? (l : Lexer) : Option Lexer := do
  let l ← l.savePlace?
  let (handle, name, rest) ← tagRules.tag? l.cursor.rest
  if name.isEmpty || !(endsWord rest || (l.inFlow && rest.head? == some ',')) then none
  else
    pure
      { l.emit (.tag handle name) with
        cursor := l.cursor.skip (l.cursor.rest.length - rest.length), keyAllowed := false }

/-- A scalar as an indented block. -/
def fetchBlockScalar? (l : Lexer) (folded : Bool) : Option Lexer := do
  let l ← l.dropPlace?
  let s ← blockScalar? folded l.indent l.cursor
  let style := if folded then Style.folded else .literal
  pure { l.emit (.scalar style (String.ofList s.text)) with cursor := s.cursor, keyAllowed := true }

/-- A scalar between quotes. -/
def fetchQuoted? (l : Lexer) (quote : Char) : Option Lexer := do
  let l ← l.savePlace?
  let s ← quotedScalar? quote l.cursor
  pure
    { l.emit (.scalar .quoted (String.ofList s.text)) with
      cursor := s.cursor, keyAllowed := false }

/-- A plain scalar.  Behind a line end a key may start again. -/
def fetchPlain? (l : Lexer) : Option Lexer := do
  let l ← l.savePlace?
  let s ← plainScalar? l.inFlow (l.indent + 1).toNat l.cursor
  pure
    { l.emit (.scalar .plain (String.ofList s.text)) with
      cursor := s.cursor, keyAllowed := s.endedLine }

/-- Whether a character always means something of its own at the start of a word. -/
def isIndicator (c : Char) : Bool :=
  isFlowIndicator c || "-?:#&*!|>'\"%@\x60".toList.contains c

/-- Whether a plain scalar may start with these characters. -/
def startsPlain (inFlow : Bool) : List Char → Bool
  | [] => false
  | c :: rest =>
    !(isBlank c || isIndicator c) || (c == '-' && !(rest.head?.any isBlank)) ||
      (!inFlow && (c == '?' || c == ':') && !endsWord rest)

/-- The next lexeme. -/
def step? (l : Lexer) : Option Lexer := do
  let l ← (skipSpace (l.cursor.rest.length + 1) l).dropStale?
  let l := l.unroll l.cursor.column
  let c := l.cursor
  match c.rest with
  | [] => l.fetchEnd?
  | x :: rest =>
    if c.column == 0 && x == '%' then l.fetchDirective?
    else if c.startsMark '-' then l.fetchDocumentMark? .documentStart
    else if c.startsMark '.' then l.fetchDocumentMark? .documentEnd
    else if x == '[' then l.fetchFlowStart? .flowListStart
    else if x == '\x7b' then l.fetchFlowStart? .flowRecordStart
    else if x == ']' then l.fetchFlowEnd? .flowListEnd
    else if x == '\x7d' then l.fetchFlowEnd? .flowRecordEnd
    else if x == ',' then l.fetchFlowEntry?
    else if x == '-' && endsWord rest then l.fetchBlockEntry?
    else if x == '?' && (l.inFlow || endsWord rest) then l.fetchKey?
    else if x == ':' && (l.inFlow || endsWord rest) then l.fetchValue?
    else if x == '*' then l.fetchName? .aliasOf
    else if x == '&' then l.fetchName? .anchor
    else if x == '!' then l.fetchTag?
    else if x == '|' && !l.inFlow then l.fetchBlockScalar? false
    else if x == '>' && !l.inFlow then l.fetchBlockScalar? true
    else if x == '\'' || x == '"' then l.fetchQuoted? x
    else if startsPlain l.inFlow c.rest then l.fetchPlain?
    else none

/-- All lexemes, in at most so many steps. -/
def run? : Nat → Lexer → Option (List Lexeme)
  | 0, _ => none
  | fuel + 1, l => if l.ended then some l.lexemes.toList else l.step?.bind (run? fuel)

end Lexer

/-- The lexemes of a text. -/
def lex? (cs : List Char) : Option (List Lexeme) :=
  if cs.all isAllowed then
    let cs := unifyLineEnds cs
    Lexer.run? (cs.length + 3) (.start cs)
  else none

end Yaml

end Admission
