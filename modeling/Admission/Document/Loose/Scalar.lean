import Admission.Document.Loose.Cursor
import Admission.Document.Yaml.Scalar

/-!
# Scalars of a loose text

* **indentation** — each line of a scalar has to reach the indentation of its surroundings, and a
  tab may not stand in for it unless its line is empty;
* **plain** — inside brackets a colon may stand before anything but an indicator;
* **quoted** — behind the closing quote only a comment, a colon or an indicator may follow;
* **block** — a block scalar whose text ends without a line end is given one.

Each of them goes through the text with a budget of steps, one for each character that is left.
-/

namespace Admission

namespace Loose

open Yaml (isFlowIndicator fold)

/-- A scalar and where the text goes on. -/
structure Scanned where
  /-- What the scalar says. -/
  text : List Char
  /-- Where the text goes on. -/
  cursor : Cursor

/-! ## Gaps between words -/

/-- Blanks and line ends between words. -/
structure Gap where
  /-- The blanks on the line of the word before. -/
  blanks : List Char
  /-- The line ends. -/
  lineEnds : List Char
  /-- Where the text goes on. -/
  cursor : Cursor

/-- The gap before a word of a plain scalar. -/
def plainGap? (indent : Int) : Nat → Gap → Option Gap
  | 0, g => some g
  | fuel + 1, g =>
    match g.cursor.rest with
    | '\n' :: _ => plainGap? indent fuel ⟨[], g.lineEnds ++ ['\n'], g.cursor.next⟩
    | c :: _ =>
      if !isBlank c then some g
      else if g.lineEnds.isEmpty then
        plainGap? indent fuel ⟨g.blanks ++ [c], [], g.cursor.next⟩
      else if c == '\t' && g.cursor.isLeftOf indent then do
        let c ← skipToLineEnd? g.cursor
        plainGap? indent fuel ⟨[], g.lineEnds, c⟩
      else plainGap? indent fuel ⟨[], g.lineEnds, g.cursor.next⟩
    | [] => some g

/-- The gap before a word of a quoted scalar; `joined` if it began with an escaped line end. -/
def quotedGap? (joined : Bool) (indent : Int) : Nat → Gap → Option Gap
  | 0, g => some g
  | fuel + 1, g =>
    match g.cursor.rest with
    | '\n' :: _ => quotedGap? joined indent fuel ⟨[], g.lineEnds ++ ['\n'], g.cursor.next⟩
    | c :: _ =>
      if !isBlank c then some g
      else if !joined && g.lineEnds.isEmpty then
        quotedGap? joined indent fuel ⟨g.blanks ++ [c], [], g.cursor.next⟩
      else if c == '\t' && g.cursor.isLeftOf indent then none
      else quotedGap? joined indent fuel ⟨[], g.lineEnds, g.cursor.next⟩
    | [] => some g

/-! ## Plain scalars -/

/-- Whether a plain scalar may go on with these characters, the first of which is no blank. -/
def continuesPlain (inFlow : Bool) : List Char → Bool
  | [] => false
  | ':' :: rest => !endsWord rest && !(inFlow && rest.head?.any isFlowIndicator)
  | c :: _ => !(inFlow && isFlowIndicator c)

/-- The characters of a plain word, in reverse, and where it ends. -/
def plainWord (inFlow : Bool) : Nat → List Char → Cursor → List Char × Cursor
  | 0, done, c => (done, c)
  | fuel + 1, done, c =>
    match c.rest with
    | x :: _ =>
      if endsWord c.rest || !continuesPlain inFlow c.rest then (done, c)
      else plainWord inFlow fuel (x :: done) c.next
    | [] => (done, c)

/-- Whether a dash stands directly before an indicator. -/
def startsBareDash : List Char → Bool
  | '-' :: c :: _ => isFlowIndicator c
  | _ => false

/-- A plain scalar after what has been read of it, in reverse, and the gap before here. -/
def plainFrom? (inFlow : Bool) (indent : Int) : Nat → List Char → Gap → Option Scanned
  | 0, done, g => some ⟨done.reverse, g.cursor⟩
  | fuel + 1, done, g =>
    if g.cursor.startsDocumentMark || g.cursor.rest.head? == some '#' then
      some ⟨done.reverse, g.cursor⟩
    else if inFlow && startsBareDash g.cursor.rest then none
    else do
      let (word, c) := plainWord inFlow g.cursor.rest.length [] g.cursor
      let done := if word.isEmpty then done else word ++ (fold g.blanks g.lineEnds).reverse ++ done
      if c.rest.isEmpty || !endsWord c.rest then pure ⟨done.reverse, c⟩
      else
        let next ← plainGap? indent c.rest.length ⟨[], [], c⟩
        if !inFlow && next.cursor.isLeftOf indent then pure ⟨done.reverse, next.cursor⟩
        else plainFrom? inFlow indent fuel done next

/-- A plain scalar that starts here, inside surroundings indented to `outer`. -/
def plainScalar? (inFlow : Bool) (outer : Int) (c : Cursor) : Option Scanned :=
  if inFlow && c.isLeftOf (outer + 1) then none
  else plainFrom? inFlow (outer + 1) (c.rest.length + 1) [] ⟨[], [], c⟩

/-! ## Quoted scalars -/

/-- The character that an escape stands for, and where the text goes on behind it. -/
def escaped? (letter : Char) (c : Cursor) : Option (Char × Cursor) :=
  match Yaml.escapeDigits? letter with
  | some n => do
    let code ← Numeral.natural? 16 (c.rest.take n)
    if (c.rest.take n).length = n then pure (← Yaml.charOfCode? code, c.skip n) else none
  | none => (Yaml.escape? letter).map (·, c)

/-- How far a run of characters between quotes goes. -/
structure QuotedRun where
  /-- What has been read, in reverse. -/
  done : List Char
  /-- Where the run ends. -/
  cursor : Cursor
  /-- Whether it ends with an escaped line end. -/
  joined : Bool

/-- The characters up to the next blank, line end or closing quote. -/
def quotedRun? (quote : Char) : Nat → List Char → Cursor → Option QuotedRun
  | 0, done, c => some ⟨done, c, false⟩
  | fuel + 1, done, c =>
    if endsWord c.rest then some ⟨done, c, false⟩
    else
      match c.rest with
      | '\'' :: '\'' :: _ =>
        if quote == '\'' then quotedRun? quote fuel ('\'' :: done) (c.skip 2)
        else quotedRun? quote fuel ('\'' :: done) c.next
      | '\\' :: '\n' :: _ =>
        if quote != '"' then quotedRun? quote fuel ('\\' :: done) c.next
        else some ⟨done, c.skip 2, true⟩
      | '\\' :: letter :: _ =>
        if quote != '"' then quotedRun? quote fuel ('\\' :: done) c.next
        else do
          let (x, c) ← escaped? letter (c.skip 2)
          quotedRun? quote fuel (x :: done) c
      | x :: _ =>
        if x == quote then some ⟨done, c, false⟩
        else if x == '\\' && quote == '"' then none
        else quotedRun? quote fuel (x :: done) c.next
      | [] => some ⟨done, c, false⟩

/-- The rest of a quoted scalar after what has been read of it, in reverse. -/
def quotedFrom? (quote : Char) (indent : Int) : Nat → List Char → Cursor → Option Scanned
  | 0, _, _ => none
  | fuel + 1, done, c =>
    if c.startsDocumentMark || c.rest.isEmpty || c.isLeftOf indent then none
    else do
      let run ← quotedRun? quote c.rest.length done c
      if run.cursor.rest.head? == some quote then pure ⟨run.done.reverse, run.cursor.next⟩
      else
        let g ← quotedGap? run.joined indent run.cursor.rest.length ⟨[], [], run.cursor⟩
        let filler := if run.joined then g.lineEnds else fold g.blanks g.lineEnds
        quotedFrom? quote indent fuel (filler.reverse ++ run.done) g.cursor

/-- Whether a quoted scalar may end before these characters.  Outside brackets a colon has to follow
on the line on which the scalar starts. -/
def mayFollowQuoted (inFlow sameLine : Bool) (cs : List Char) : Bool :=
  endsLine cs || cs.head?.any fun c =>
    (c == ':' && (inFlow || sameLine)) ||
      (inFlow && (c == ',' || c == ']' || c == '\x7d'))

/-- A quoted scalar whose opening quote is here, in surroundings indented to `indent`. -/
def quotedScalar? (quote : Char) (inFlow : Bool) (indent : Int) (c : Cursor) : Option Scanned := do
  let s ← quotedFrom? quote indent (c.rest.length + 1) [] c.next
  let filler ← filler? true s.cursor
  if mayFollowQuoted inFlow (filler.cursor.line == c.line) filler.cursor.rest then
    pure ⟨s.text, filler.cursor⟩
  else none

/-! ## Block scalars -/

/-- Skip the spaces before a line of a block, and the empty lines before it; how many there
are. -/
def blockBreaks (indent : Nat) : Nat → (ends : Nat) → Cursor → Nat × Cursor
  | 0, ends, c => (ends, c)
  | fuel + 1, ends, c =>
    match c.rest with
    | ' ' :: _ => if c.column < indent then blockBreaks indent fuel ends c.next else (ends, c)
    | '\n' :: _ => blockBreaks indent fuel (ends + 1) c.next
    | _ => (ends, c)

/-- Skip all spaces and empty lines before the first line of a block: the number of empty lines, the
widest indentation seen, and where the line starts. -/
def firstBreaks : Nat → (ends widest : Nat) → Cursor → Nat × Nat × Cursor
  | 0, ends, widest, c => (ends, widest, c)
  | fuel + 1, ends, widest, c =>
    let widest := max widest c.column
    match c.rest with
    | ' ' :: _ => firstBreaks fuel ends widest c.next
    | '\n' :: _ => firstBreaks fuel (ends + 1) widest c.next
    | _ => (ends, widest, c)

/-- So many line ends. -/
def lineFeeds (n : Nat) : List Char := List.replicate n '\n'

/-- How far the lines of a block have been read. -/
structure BlockRun where
  /-- What has been read, in reverse. -/
  done : List Char
  /-- Whether a line end is still to be written. -/
  lineEnd : Bool
  /-- The number of empty lines after it. -/
  ends : Nat
  /-- Whether the line before started with a blank. -/
  lastBlank : Bool
  /-- Where the text goes on. -/
  cursor : Cursor

/-- The lines of a block from here on, after what has been read. -/
def blockLines (folded : Bool) (indent : Nat) : Nat → BlockRun → BlockRun
  | 0, run => run
  | fuel + 1, run =>
    let c := run.cursor
    if c.column != indent || c.rest.isEmpty || (indent == 0 && c.startsMark '.') then run
    else
      let startsBlank := c.rest.head?.any isBlank
      let filler :=
        if folded && run.lineEnd && !run.lastBlank && !startsBlank then
          (if run.ends == 0 then [' '] else lineFeeds run.ends)
        else lineFeeds ((if run.lineEnd then 1 else 0) + run.ends)
      let line := c.rest.takeWhile (· != '\n')
      let done := line.reverse ++ filler ++ run.done
      let c := c.skip line.length
      if c.rest.isEmpty then ⟨done, false, 0, startsBlank, c⟩
      else
        let (ends, next) := blockBreaks indent c.rest.length 0 c.next
        blockLines folded indent fuel ⟨done, true, ends, startsBlank, next⟩

/-- What a block scalar says that ends before its first line. -/
def emptyBlock (chomping : Yaml.Chomping) (onHeader : Bool) (ends : Nat) : List Char :=
  if chomping == .strip || onHeader then []
  else if chomping == .keep then lineFeeds (max ends 1)
  else lineFeeds 1

/-- A block scalar whose indicator is here, inside surroundings indented to `outer`. -/
def blockScalar? (folded : Bool) (outer : Int) (c : Cursor) : Option Scanned := do
  let (chomping, further, marks) ← Yaml.blockMarks? c.next.rest
  let c ← skipToLineEnd? (c.skip (marks + 1))
  let onHeader := c.rest.isEmpty
  let c := c.next
  if c.rest.head? == some '\t' then none
  else
    let (indent, ends, c) := match further with
      | some n =>
        let indent := (max outer 0).toNat + n
        (indent, blockBreaks indent (c.rest.length + 1) 0 c)
      | none =>
        let (ends, widest, c) := firstBreaks (c.rest.length + 1) 0 0 c
        (max widest (outer + 1).toNat, ends, c)
    if c.rest.isEmpty then pure ⟨emptyBlock chomping onHeader ends, c⟩
    else if c.column < indent && outer < c.column then none
    else
      let run := blockLines folded indent (c.rest.length + 1) ⟨[], false, ends, false, c⟩
      let c := run.cursor
      let clipped := run.lineEnd.toNat + (c.rest.isEmpty && max indent 1 ≤ c.column).toNat
      let ends := match chomping with
        | .strip => 0
        | .clip => clipped
        | .keep => clipped + run.ends
      pure ⟨run.done.reverse ++ lineFeeds ends, c⟩

end Loose

end Admission
