/-!
# Places in a text

Indentation carries meaning in YAML, so a reader has to know where it is.  A `Cursor` is what is
left of a text together with the line and column at which it starts.

Texts are brought to one kind of line end first, and characters that a text may not hold are looked
for once, before anything is read.
-/

namespace Admission

namespace Yaml

/-- What is left of a text, and where it starts. -/
structure Cursor where
  /-- The characters left. -/
  rest : List Char
  /-- The number of characters before them. -/
  offset : Nat
  /-- The number of line ends before them. -/
  line : Nat
  /-- The number of characters before them on their line. -/
  column : Nat
  deriving Repr

/-- A blank inside a line. -/
def isBlank (c : Char) : Bool := c == ' ' || c == '\t'

/-- A line end: a line feed, or one of the two separators, which stay what they are. -/
def isBreak (c : Char) : Bool := c == '\n' || c == '\u2028' || c == '\u2029'

/-- Whether a text ends here or goes on with a blank or a line end. -/
def endsWord : List Char → Bool
  | [] => true
  | c :: _ => isBlank c || isBreak c

/-- Every line end as a line feed, the two separators apart. -/
def unifyLineEnds : List Char → List Char
  | '\r' :: '\n' :: cs => '\n' :: unifyLineEnds cs
  | '\r' :: cs => '\n' :: unifyLineEnds cs
  | '\x85' :: cs => '\n' :: unifyLineEnds cs
  | c :: cs => c :: unifyLineEnds cs
  | [] => []

/-- Whether a text may hold the character. -/
def isAllowed (c : Char) : Bool :=
  let n := c.toNat
  n == 0x09 || n == 0x0a || n == 0x0d || (0x20 ≤ n && n ≤ 0x7e) || n == 0x85 ||
    (0xa0 ≤ n && n ≤ 0xfffd) || 0x10000 ≤ n

namespace Cursor

/-- The start of a text. -/
def start (cs : List Char) : Cursor := ⟨cs, 0, 0, 0⟩

/-- One character further. -/
def next (c : Cursor) : Cursor :=
  match c.rest with
  | [] => c
  | x :: cs =>
    if isBreak x then ⟨cs, c.offset + 1, c.line + 1, 0⟩
    else ⟨cs, c.offset + 1, c.line, c.column + 1⟩

/-- So many characters further. -/
def skip (c : Cursor) : Nat → Cursor
  | 0 => c
  | n + 1 => c.next.skip n

/-- Past the rest of the line, but not its end. -/
def skipLine (c : Cursor) : Cursor := c.skip (c.rest.takeWhile (!isBreak ·)).length

/-- Past the blanks inside the line. -/
def skipBlanks (c : Cursor) : Cursor := c.skip (c.rest.takeWhile isBlank).length

/-- Whether a line starts here with three given characters that stand alone. -/
def startsMark (c : Cursor) (mark : Char) : Bool :=
  c.column == 0 &&
    match c.rest with
    | x :: y :: z :: rest => x == mark && y == mark && z == mark && endsWord rest
    | _ => false

/-- Whether a line starts here that begins or ends a document. -/
def startsDocumentMark (c : Cursor) : Bool := c.startsMark '-' || c.startsMark '.'

end Cursor

end Yaml

end Admission
