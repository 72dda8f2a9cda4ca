import Admission.Document.Yaml.Cursor

/-!
# Places in a loose text

Layered files are written in a looser form of YAML.  It knows one kind of line end, takes every
other character for what it is, and cares about the blanks in front of a comment and about whether a
line has said anything yet.

A `Cursor` is what is left of a text, where it starts, and whether it stands on the margin: behind
nothing but blanks on its line.
-/

namespace Admission

namespace Loose

/-- What is left of a text, and where it starts. -/
structure Cursor where
  /-- The characters left. -/
  rest : List Char
  /-- The number of characters before them. -/
  offset : Nat
  /-- The number of line ends before them. -/
  line : Nat
  /-- The number of characters before them on their line. -/
  column : Nat
  /-- Whether only blanks stand before them on their line. -/
  onMargin : Bool
  deriving Repr

/-- A blank inside a line. -/
def isBlank (c : Char) : Bool := Yaml.isBlank c

/-- Whether a text ends here or goes on with a line end. -/
def endsLine : List Char → Bool
  | [] => true
  | c :: _ => c == '\n'

/-- Whether a text ends here or goes on with a blank or a line end. -/
def endsWord : List Char → Bool
  | [] => true
  | c :: _ => isBlank c || c == '\n'

/-- Every line end as a line feed. -/
def unifyLineEnds : List Char → List Char
  | '\r' :: '\n' :: cs => '\n' :: unifyLineEnds cs
  | '\r' :: cs => '\n' :: unifyLineEnds cs
  | c :: cs => c :: unifyLineEnds cs
  | [] => []

namespace Cursor

/-- The start of a text.  A text ends before its first NUL. -/
def start (cs : List Char) : Cursor := ⟨unifyLineEnds (cs.takeWhile (· != '\x00')), 0, 0, 0, true⟩

/-- One character further. -/
def next (c : Cursor) : Cursor :=
  match c.rest with
  | [] => c
  | '\n' :: cs => ⟨cs, c.offset + 1, c.line + 1, 0, true⟩
  | x :: cs => ⟨cs, c.offset + 1, c.line, c.column + 1, c.onMargin && isBlank x⟩

/-- So many characters further. -/
def skip (c : Cursor) : Nat → Cursor
  | 0 => c
  | n + 1 => c.next.skip n

/-- Past the rest of the line, but not its end. -/
def skipLine (c : Cursor) : Cursor := c.skip (c.rest.takeWhile (· != '\n')).length

/-- Whether a line starts here with three given characters that stand alone. -/
def startsMark (c : Cursor) (mark : Char) : Bool :=
  c.column == 0 &&
    match c.rest with
    | x :: y :: z :: rest => x == mark && y == mark && z == mark && endsWord rest
    | _ => false

/-- Whether a line starts here that begins or ends a document. -/
def startsDocumentMark (c : Cursor) : Bool := c.startsMark '-' || c.startsMark '.'

/-- Whether a cursor stands to the left of a column. -/
def isLeftOf (c : Cursor) (column : Int) : Bool := c.column < column

end Cursor

/-- Blanks and a comment on one line, and where the text goes on. -/
structure Filler where
  /-- Whether there is a space among the blanks. -/
  space : Bool
  /-- Whether there is a tab among the blanks. -/
  tab : Bool
  /-- Where the text goes on. -/
  cursor : Cursor

/-- The blanks and the comment from here on.  Blanks have to stand before a comment. -/
def filler? (tabs : Bool) (c : Cursor) : Option Filler :=
  let blanks := c.rest.takeWhile fun x => x == ' ' || (tabs && x == '\t')
  let filler := fun c => some ⟨blanks.contains ' ', blanks.contains '\t', c⟩
  let c := c.skip blanks.length
  if c.rest.head? != some '#' then filler c
  else if blanks.isEmpty then none
  else filler c.skipLine

/-- Past the blanks and the comment that a line ends with, up to its end. -/
def skipToLineEnd? (c : Cursor) : Option Cursor := do
  let filler ← filler? true c
  if endsLine filler.cursor.rest then pure filler.cursor else none

end Loose

end Admission
