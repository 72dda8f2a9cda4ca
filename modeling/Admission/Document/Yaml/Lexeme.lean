/-!
# Lexemes

The pieces into which a text is cut before anything is known of what it says.  Indentation becomes
opening and closing lexemes of its own, and a key is announced by a lexeme in front of it.
-/

namespace Admission

namespace Yaml

/-- How a scalar is written. -/
inductive Style where
  /-- As it is. -/
  | plain
  /-- Between quotes. -/
  | quoted
  /-- As an indented block that keeps its line ends. -/
  | literal
  /-- As an indented block whose line ends are folded. -/
  | folded
  deriving DecidableEq, Repr

/-- A piece of a text. -/
inductive Lexeme where
  /-- The version of the notation that a text asks for. -/
  | version (major minor : Nat)
  /-- A short form for the names of a family of tags. -/
  | shorthand (handle family : String)
  /-- The mark before a document. -/
  | documentStart
  /-- The mark behind a document. -/
  | documentEnd
  /-- A list begins with its indentation. -/
  | blockListStart
  /-- A record begins with its indentation. -/
  | blockRecordStart
  /-- What an indentation began is over. -/
  | blockEnd
  /-- An opening bracket. -/
  | flowListStart
  /-- A closing bracket. -/
  | flowListEnd
  /-- An opening brace. -/
  | flowRecordStart
  /-- A closing brace. -/
  | flowRecordEnd
  /-- A comma between brackets. -/
  | flowEntry
  /-- The dash before a list entry. -/
  | blockEntry
  /-- A key follows. -/
  | key
  /-- The value of the key follows. -/
  | value
  /-- The next node gets a name. -/
  | anchor (name : String)
  /-- The node of that name again. -/
  | aliasOf (name : String)
  /-- The next node gets a tag, by the short form of its family and its name there. -/
  | tag (handle name : String)
  /-- A scalar. -/
  | scalar (style : Style) (text : String)
  /-- The text is over. -/
  | streamEnd
  deriving DecidableEq, Repr

end Yaml

end Admission
