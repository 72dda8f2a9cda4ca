import Admission.Text.Hidden

/-!
# Quoted text

How a text is shown inside a description: between double quotes, with the quote, the backslash and
the common control characters escaped by a letter, and every other hidden character by its code
point in hexadecimal.  `described`, `bracketed` and `optional` put such texts together.
-/

namespace Admission

namespace Text

/-- The digits of `n` to base sixteen, in lower case. -/
def hexDigits (n : Nat) : List Char := Nat.toDigits 16 n

/-- A character as it stands between the quotes. -/
def quotedChar (c : Char) : List Char :=
  match c with
  | '"' => ['\\', '"']
  | '\\' => ['\\', '\\']
  | '\n' => ['\\', 'n']
  | '\r' => ['\\', 'r']
  | '\t' => ['\\', 't']
  | '\x00' => ['\\', '0']
  | c => if isHidden c then ['\\', 'u', '\x7b'] ++ hexDigits c.toNat ++ ['\x7d'] else [c]

/-- A text between double quotes. -/
def quoted (s : String) : String :=
  String.ofList ('"' :: s.toList.flatMap quotedChar ++ ['"'])

/-- A value described by its kind and its parts: `Kind { part: value, part: value }`. -/
def described (kind : String) (parts : List (String × String)) : String :=
  kind ++ " \x7b " ++ ", ".intercalate (parts.map fun (part, value) => part ++ ": " ++ value) ++
    " \x7d"

/-- Several values in square brackets. -/
def bracketed (values : List String) : String := "[" ++ ", ".intercalate values ++ "]"

/-- A value that may be absent. -/
def optional : Option String → String
  | none => "None"
  | some value => "Some(" ++ value ++ ")"

end Text

end Admission
