import Admission.Document.Numeral

/-!
# Documents

A document is what a structured text says once its brackets, quotes and indentation are gone.

* **values** — nothing, a truth value, a number, a text, a list, or a record of named parts;
* **records** — a record may also be given as the list of its parts in their order of definition.
  `Document.parts?` brings both forms to one.

The readers answer `none` for a document that does not fit.
-/

namespace Admission

/-- What a structured text says. -/
inductive Document where
  /-- Nothing. -/
  | null
  /-- A truth value. -/
  | truth (value : Bool)
  /-- A whole number. -/
  | whole (value : Int)
  /-- A number that is not written as a whole one. -/
  | real (value : Float)
  /-- A text. -/
  | text (value : String)
  /-- A list. -/
  | list (items : List Document)
  /-- Named parts, in the order in which they are written. -/
  | record (parts : List (String × Document))
  deriving Repr, Inhabited, BEq

namespace Document

/-! ## Nesting -/

mutual

/-- How many lists and records lie around the innermost value of a document. -/
def nesting : Document → Nat
  | list items => nestingOfItems items + 1
  | record parts => nestingOfParts parts + 1
  | _ => 0

/-- The nesting of the most deeply nested of some items. -/
def nestingOfItems : List Document → Nat
  | [] => 0
  | d :: ds => max d.nesting (nestingOfItems ds)

/-- The nesting of the most deeply nested of some parts. -/
def nestingOfParts : List (String × Document) → Nat
  | [] => 0
  | (_, d) :: ps => max d.nesting (nestingOfParts ps)

end

/-- The least and the largest whole number that a document holds. -/
def isWord64 (n : Int) : Bool := Numeral.isSigned 64 n || Numeral.isUnsigned 64 n

/-! ## Readers -/

/-- A text. -/
def asText? : Document → Option String
  | text s => some s
  | _ => none

/-- A truth value. -/
def asTruth? : Document → Option Bool
  | truth b => some b
  | _ => none

/-- A whole number from zero up to a bound. -/
def asNat? (most : Nat) : Document → Option Nat
  | whole n => if 0 ≤ n ∧ n ≤ most then some n.toNat else none
  | _ => none

/-- A whole number of sixty-four bits. -/
def asWord64? (d : Document) : Option UInt64 := (d.asNat? (UInt64.size - 1)).map UInt64.ofNat

/-- A whole number of thirty-two bits. -/
def asWord32? (d : Document) : Option UInt32 := (d.asNat? (UInt32.size - 1)).map UInt32.ofNat

/-- A number. -/
def asReal? : Document → Option Float
  | whole n => some (Numeral.ofInt n)
  | real x => some x
  | _ => none

/-- Something, or nothing at all. -/
def asOptional? {α : Type} (read : Document → Option α) : Document → Option (Option α)
  | null => some none
  | d => (read d).map some

/-- The items of a list. -/
def items? : Document → Option (List Document)
  | list items => some items
  | _ => none

/-- A keyword: a text, or a record whose only part has that name and says nothing. -/
def keyword? : Document → Option String
  | text s => some s
  | record [(name, null)] => some name
  | _ => none

/-- The named parts that are present.  A list gives the parts in the order of the names, and may
stop early; a record may hold other parts, but none of these twice. -/
def parts? (names : List String) : Document → Option (List (String × Document))
  | record parts =>
    let known := parts.filter fun part => names.contains part.1
    if (known.map Prod.fst).Nodup then some known else none
  | list items => if items.length ≤ names.length then some (names.zip items) else none
  | _ => none

/-- A part that has to be present. -/
def required? {α : Type} (parts : List (String × Document)) (name : String)
    (read : Document → Option α) : Option α :=
  (parts.lookup name).bind read

/-- A part that has a value of its own when it is absent. -/
def defaulted? {α : Type} (parts : List (String × Document)) (name : String) (absent : α)
    (read : Document → Option α) : Option α :=
  match parts.lookup name with
  | none => some absent
  | some d => read d

/-! ## Writing -/

/-- A number as documents keep it: nothing in place of infinities and of what is not a number. -/
def ofReal (x : Float) : Document := if x.isFinite then real x else null

/-- A word of sixty-four bits. -/
def ofWord64 (n : UInt64) : Document := whole n.toNat

theorem asNat?_whole {most n : Nat} (h : n ≤ most) : (whole n).asNat? most = some n := by
  rw [asNat?, if_pos ⟨by omega, by omega⟩, Int.toNat_natCast]

theorem asWord64?_ofWord64 (n : UInt64) : (ofWord64 n).asWord64? = some n := by
  have hn := n.toNat_lt_size
  rw [ofWord64, asWord64?, asNat?_whole (by omega), Option.map_some, UInt64.ofNat_toNat]

/-- Something, or nothing at all. -/
def ofOptional {α : Type} (write : α → Document) : Option α → Document
  | none => null
  | some a => write a

end Document

end Admission
