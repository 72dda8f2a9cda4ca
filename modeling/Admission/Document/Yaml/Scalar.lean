import Admission.Document.Numeral
import Admission.Document.Yaml.Cursor

/-!
# Scalars

A scalar may be written plainly, between quotes, or as an indented block, and may go over several
lines.

* **folding** — `fold` states the rule that plain and quoted scalars share: a single line feed reads
  as one blank, and of several line ends a line feed in front is dropped;
* **plain** — `plainScalar?` ends before a comment, before a colon that ends a word, before a line
  that is not indented enough, and inside brackets before the next bracket or comma;
* **quoted** — `quotedScalar?` ends at its quote;
* **block** — `blockScalar?` takes the lines that are indented at least as far as the first one.

Each of them goes through the text with a budget of steps, one for each character that is left.
-/

namespace Admission

namespace Yaml

/-- A scalar and where the text goes on. -/
structure Scanned where
  /-- What the scalar says. -/
  text : List Char
  /-- Where the text goes on. -/
  cursor : Cursor
  /-- Whether a line ended on the way to the cursor after the last word. -/
  endedLine : Bool

/-! ## Gaps between words -/

/-- Blanks and line ends between words. -/
structure Gap where
  /-- The blanks on the line of the word before. -/
  blanks : List Char
  /-- The line ends. -/
  lineEnds : List Char
  /-- Where the text goes on. -/
  cursor : Cursor

/-- Whether a gap goes over a line end. -/
def Gap.endsLine (g : Gap) : Bool := !g.lineEnds.isEmpty

/-- What a gap stands for: its blanks within a line, one blank for a single line feed, and otherwise
its line ends, less a line feed in front. -/
def fold (blanks : List Char) : List Char → List Char
  | [] => blanks
  | ['\n'] => [' ']
  | '\n' :: ends => ends
  | ends => ends

/-- The gap from here on.  A tab may not stand in for indentation: behind a line end it has to come
at column `indent` or later. -/
def gap? (indent : Nat) : Nat → Gap → Option Gap
  | 0, g => some g
  | fuel + 1, g =>
    match g.cursor.rest with
    | [] => some g
    | c :: _ =>
      if isBreak c then gap? indent fuel ⟨[], g.lineEnds ++ [c], g.cursor.next⟩
      else if !isBlank c then some g
      else if c == '\t' && g.endsLine && g.cursor.column < indent then none
      else
        gap? indent fuel
          ⟨if g.endsLine then g.blanks else g.blanks ++ [c], g.lineEnds, g.cursor.next⟩

/-! ## Plain scalars -/

/-- The characters with a meaning of their own inside brackets. -/
def isFlowIndicator (c : Char) : Bool :=
  c == ',' || c == '[' || c == ']' || c == '\x7b' || c == '\x7d'

/-- The characters of a plain word, in reverse, and where it ends.  Inside brackets a colon may not
stand directly before an indicator. -/
def plainWord? (inFlow : Bool) : Nat → List Char → Cursor → Option (List Char × Cursor)
  | 0, done, c => some (done, c)
  | fuel + 1, done, c =>
    if endsWord c.rest then some (done, c)
    else
      match c.rest with
      | ':' :: after =>
        if endsWord after then some (done, c)
        else if inFlow && after.head?.any (fun x => isFlowIndicator x || x == '?') then none
        else plainWord? inFlow fuel (':' :: done) c.next
      | x :: _ =>
        if inFlow && isFlowIndicator x then some (done, c)
        else plainWord? inFlow fuel (x :: done) c.next
      | [] => some (done, c)

/-- A plain scalar after what has been read of it, in reverse, and the gap before here. -/
def plainFrom? (inFlow : Bool) (indent : Nat) : Nat → List Char → Gap → Option Scanned
  | 0, done, g => some ⟨done.reverse, g.cursor, g.endsLine⟩
  | fuel + 1, done, g =>
    let ended : Scanned := ⟨done.reverse, g.cursor, g.endsLine⟩
    if g.cursor.startsDocumentMark || g.cursor.rest.head? == some '#' then some ended
    else do
      let (word, c) ← plainWord? inFlow g.cursor.rest.length [] g.cursor
      if word.isEmpty then pure ended
      else
        let done := word ++ (fold g.blanks g.lineEnds).reverse ++ done
        let next ← gap? indent c.rest.length ⟨[], [], c⟩
        let stopped : Scanned := ⟨done.reverse, next.cursor, next.endsLine⟩
        if next.cursor.offset == c.offset then pure stopped
        else if !inFlow && next.cursor.column < indent then pure stopped
        else plainFrom? inFlow indent fuel done next

/-- A plain scalar that starts here.  Outside brackets its further lines have to be indented to
column `indent` or more. -/
def plainScalar? (inFlow : Bool) (indent : Nat) (c : Cursor) : Option Scanned :=
  plainFrom? inFlow indent (c.rest.length + 1) [] ⟨[], [], c⟩

/-! ## Quoted scalars -/

/-- What a backslash and a letter stand for. -/
def escape? : Char → Option Char
  | '0' => some '\x00'
  | 'a' => some '\x07'
  | 'b' => some '\x08'
  | 't' => some '\t'
  | '\t' => some '\t'
  | 'n' => some '\n'
  | 'v' => some '\x0b'
  | 'f' => some '\x0c'
  | 'r' => some '\r'
  | 'e' => some '\x1b'
  | ' ' => some ' '
  | '"' => some '"'
  | '/' => some '/'
  | '\\' => some '\\'
  | 'N' => some '\x85'
  | '_' => some '\xa0'
  | 'L' => some '\u2028'
  | 'P' => some '\u2029'
  | _ => none

/-- How many hexadecimal digits follow a backslash and a letter. -/
def escapeDigits? : Char → Option Nat
  | 'x' => some 2
  | 'u' => some 4
  | 'U' => some 8
  | _ => none

/-- The character of a code point, if there is one. -/
def charOfCode? (code : Nat) : Option Char :=
  if code < 0xd800 ∨ (0xdfff < code ∧ code < 0x110000) then some (Char.ofNat code) else none

/-- The character that an escape stands for, and where the text goes on behind it. -/
def escaped? (letter : Char) (c : Cursor) : Option (Char × Cursor) :=
  match escapeDigits? letter with
  | some n => do
    let code ← Numeral.natural? 16 (c.rest.take n)
    if (c.rest.take n).length = n then pure (← charOfCode? code, c.skip n) else none
  | none => (escape? letter).map (·, c)

/-- How far a run of characters between quotes goes. -/
structure QuotedRun where
  /-- What has been read, in reverse. -/
  done : List Char
  /-- Where the run ends. -/
  cursor : Cursor
  /-- Whether it ends with an escaped line end. -/
  joined : Bool

/-- The characters up to the next blank, line end or closing quote. -/
def quotedRun? (quote : Char) : Nat → List Char → Cursor → Option QuotedRun
  | 0, done, c => some ⟨done, c, false⟩
  | fuel + 1, done, c =>
    if endsWord c.rest then some ⟨done, c, false⟩
    else
      match c.rest with
      | '\'' :: '\'' :: _ =>
        if quote == '\'' then quotedRun? quote fuel ('\'' :: done) (c.skip 2)
        else quotedRun? quote fuel ('\'' :: done) c.next
      | '\\' :: letter :: _ =>
        if quote != '"' then quotedRun? quote fuel ('\\' :: done) c.next
        else if isBreak letter then some ⟨done, c.skip 2, true⟩
        else do
          let (x, c) ← escaped? letter (c.skip 2)
          quotedRun? quote fuel (x :: done) c
      | x :: _ =>
        if x == quote then some ⟨done, c, false⟩
        else if x == '\\' && quote == '"' then none
        else quotedRun? quote fuel (x :: done) c.next
      | [] => some ⟨done, c, false⟩

/-- The rest of a quoted scalar after what has been read of it, in reverse. -/
def quotedFrom? (quote : Char) : Nat → List Char → Cursor → Option Scanned
  | 0, _, _ => none
  | fuel + 1, done, c =>
    if c.startsDocumentMark then none
    else do
      let run ← quotedRun? quote c.rest.length done c
      match run.cursor.rest with
      | [] => none
      | x :: _ =>
        if x == quote && !run.joined then pure ⟨run.done.reverse, run.cursor.next, false⟩
        else
          let g ← gap? 0 run.cursor.rest.length ⟨[], [], run.cursor⟩
          let filler := if run.joined then g.lineEnds else fold g.blanks g.lineEnds
          quotedFrom? quote fuel (filler.reverse ++ run.done) g.cursor

/-- A quoted scalar whose opening quote is here. -/
def quotedScalar? (quote : Char) (c : Cursor) : Option Scanned :=
  quotedFrom? quote (c.rest.length + 1) [] c.next

/-! ## Block scalars -/

/-- What becomes of the line ends behind a block scalar. -/
inductive Chomping where
  /-- All are dropped. -/
  | strip
  /-- One is kept. -/
  | clip
  /-- All are kept. -/
  | keep
  deriving DecidableEq, Repr

/-- What a sign says of the last line ends. -/
def chomping? : List Char → Option Chomping
  | '+' :: _ => some .keep
  | '-' :: _ => some .strip
  | _ => none

/-- What a digit says of the indentation. -/
def further? : List Char → Option Nat
  | c :: _ => if c.isDigit then some (c.toNat - '0'.toNat) else none
  | [] => none

/-- The marks behind the indicator of a block scalar, in either order: what becomes of its last line
ends, how much further it is indented than its surroundings, and how many marks there are. -/
def blockMarks? (cs : List Char) : Option (Chomping × Option Nat × Nat) :=
  let (chomping, further) := match chomping? cs, further? cs with
    | some chomping, _ => (some chomping, further? cs.tail)
    | none, some n => (chomping? cs.tail, some n)
    | none, none => (none, none)
  if further == some 0 then none
  else some (chomping.getD .clip, further, chomping.isSome.toNat + further.isSome.toNat)

/-- Skip the line ends and the indentation before a line of a block: the line ends, the widest
indentation seen, and where the line starts.  A tab may not stand in for indentation. -/
def blockBreaks? (indent : Option Nat) :
    Nat → (ends : List Char) → (widest : Nat) → Cursor → Option (List Char × Nat × Cursor)
  | 0, ends, widest, c => some (ends, widest, c)
  | fuel + 1, ends, widest, c =>
    let inIndent := indent.all (c.column < ·)
    let widest := max widest c.column
    match c.rest with
    | ' ' :: _ => if inIndent then blockBreaks? indent fuel ends widest c.next
      else some (ends, widest, c)
    | '\t' :: _ => if inIndent then none else some (ends, widest, c)
    | x :: _ =>
      if isBreak x then blockBreaks? indent fuel (ends ++ [x]) widest c.next
      else some (ends, widest, c)
    | [] => some (ends, widest, c)

/-- The lines of a block from here on, after what has been read, in reverse.  `lastEnd` is the line
end that is still to be written, if there is one, `ends` are those of the empty lines after it, and
`lastBlank` says whether the line before started with a blank. -/
def blockLines? (folded : Bool) (indent : Nat) :
    Nat → List Char → (lastEnd : Option Char) → (ends : List Char) → (lastBlank : Bool) → Cursor →
      Option (List Char × Option Char × List Char × Cursor)
  | 0, done, lastEnd, ends, _, c => some (done, lastEnd, ends, c)
  | fuel + 1, done, lastEnd, ends, lastBlank, c =>
    if c.column != indent || c.rest.isEmpty then some (done, lastEnd, ends, c)
    else
      let startsBlank := c.rest.head?.any isBlank
      let done :=
        if folded && lastEnd == some '\n' && !lastBlank && !startsBlank then
          (if ends.isEmpty then ' ' :: done else done)
        else lastEnd.toList ++ done
      let done := ends.reverse ++ done
      let line := c.rest.takeWhile (!isBreak ·)
      let done := line.reverse ++ done
      let c := c.skip line.length
      match blockBreaks? (some indent) (c.rest.length + 1) [] 0 c.next with
      | none => none
      | some (ends, _, next) =>
        blockLines? folded indent fuel done c.rest.head? ends startsBlank next

/-- A block scalar whose indicator is here, inside surroundings indented to `outer`. -/
def blockScalar? (folded : Bool) (outer : Int) (c : Cursor) : Option Scanned := do
  let (chomping, further, marks) ← blockMarks? c.next.rest
  let c := (c.skip (marks + 1)).skipBlanks
  let c := if c.rest.head? == some '#' then c.skipLine else c
  match c.rest with
  | [] => pure ⟨[], c, true⟩
  | x :: _ =>
    if !isBreak x then none
    else
      let c := c.next
      let given := further.map fun n => (max outer 0).toNat + n
      let (ends, widest, c) ← blockBreaks? given (c.rest.length + 1) [] 0 c
      let indent := given.getD (max (max widest (outer + 1).toNat) 1)
      let (done, lastEnd, ends, c) ←
        blockLines? folded indent (c.rest.length + 1) [] none ends false c
      let done := if chomping != .strip then lastEnd.toList ++ done else done
      let done := if chomping == .keep then ends.reverse ++ done else done
      pure ⟨done.reverse, c, true⟩

end Yaml

end Admission
