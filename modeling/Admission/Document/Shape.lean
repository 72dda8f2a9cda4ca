/-!
# Shapes

A shape says what kind of value is wanted in a place.  Some notations leave it open what an unquoted
word stands for: `5` is a number where a number is wanted and a text where a text is wanted.  Their
readers are guided by a shape, and what they read is a document that leaves nothing open.

A **choice** is a record whose part `type` names one of several kinds and whose other parts depend
on the kind.  The kind may come last, so these parts are read before it is known what is wanted of
them.
-/

namespace Admission

/-- What kind of value is wanted. -/
inductive Shape where
  /-- A text. -/
  | text
  /-- A truth value. -/
  | truth
  /-- A whole number from zero up to a bound. -/
  | natural (most : Nat)
  /-- One of several fixed words. -/
  | keyword
  /-- A record of one of several kinds, each with the names of its other parts. -/
  | choice (kinds : List (String × List String))
  /-- Something, or nothing at all. -/
  | optional (shape : Shape)
  /-- A list. -/
  | list (item : Shape)
  /-- A record; what else it holds does not matter. -/
  | record (parts : List (String × Shape))
  deriving Repr

namespace Shape

/-- Whether nothing at all will do as well, and what is wanted otherwise. -/
def peeled : Shape → Bool × Shape
  | optional shape => (true, shape.peeled.2)
  | shape => (false, shape)

end Shape

end Admission
