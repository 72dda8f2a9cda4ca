/-!
# Requests and matchers

A request asks for a resource, named by a dotted path, on behalf of a caller.  A matcher decides
whether a request concerns it, and under which key the caller's use is counted.

* **`Matcher.underPath`** — accepts the resource at a path and all that lies below it, under the
  caller's own key;
* **`Matcher.andThen`** — passes the key of one matcher on to another.
-/

namespace Admission

/-- A request for a resource on behalf of a caller. -/
structure Request where
  /-- The dotted path of the resource. -/
  resource : String
  /-- The caller. -/
  key : String
  deriving DecidableEq, Repr

/-- Decides whether, and under which key, something is counted. -/
abbrev Matcher (ρ κ : Type) := ρ → Option κ

namespace Matcher

/-- Accepts everything, under itself. -/
def all {ρ : Type} : Matcher ρ ρ := some

/-- Accepts nothing. -/
def none {ρ κ : Type} : Matcher ρ κ := fun _ => Option.none

/-- Match, and match the key in turn. -/
def andThen {ρ κ η : Type} (first : Matcher ρ κ) (next : Matcher κ η) : Matcher ρ η :=
  fun r => (first r).bind next

/-- What follows `front` in `cs`, if `cs` starts with it. -/
def after? : (front cs : List Char) → Option (List Char)
  | [], cs => some cs
  | _ :: _, [] => Option.none
  | p :: ps, c :: cs => if p = c then after? ps cs else Option.none

theorem after?_eq_some_iff {front cs rest : List Char} :
    after? front cs = some rest ↔ cs = front ++ rest := by
  induction front generalizing cs with
  | nil => simp [after?, eq_comm]
  | cons p ps ih =>
    cases cs with
    | nil => simp [after?]
    | cons c cs =>
      by_cases h : p = c
      · simp [after?, h, ih]
      · simp [after?, h, Ne.symm h]

/-- Whether a resource is the one at a path or lies below it: it starts with the path, and goes on
with a dot or not at all. -/
def isUnder (path resource : List Char) : Bool :=
  match after? path resource with
  | Option.none => false
  | some [] => true
  | some (c :: _) => c == '.'

/-- Accepts the resource at a path and all that lies below it, under the caller's key. -/
def underPath (path : String) : Matcher Request String :=
  fun r => if isUnder path.toList r.resource.toList then some r.key else Option.none

/-- Accepts the texts that start with `front`, under the rest. -/
def strip (front : String) : Matcher String String :=
  fun s => (after? front.toList s.toList).map String.ofList

/-- Accepts every text, under the text with `back` appended. -/
def append (back : String) : Matcher String String := fun s => some (s ++ back)

/-- Accepts one text. -/
def equals (text : String) : Matcher String String :=
  fun s => if s = text then some s else Option.none

end Matcher

end Admission
