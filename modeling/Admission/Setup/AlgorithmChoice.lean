import Admission.Document.Basic
import Admission.Document.Shape
import Admission.Rate

/-!
# Algorithms in documents

A document chooses an algorithm by a record whose `type` names it and whose other parts are its
parameters: `all_or_nothing`, `bursty` with `max_burst_seconds`, `warming_up` with
`warmup_period_ms` and `cold_factor`, or `custom` with `name`.  The burst and the cold factor have
values of their own when they are absent.

The record is read as it stands, before anything is known of what it means, so a number is no name
and a text no number.  Like every record it may be given as a list, the type in front.
-/

namespace Admission

namespace Algorithm

/-- The types, each with the names of its parameters. -/
def kinds : List (String × List String) :=
  [("all_or_nothing", []), ("bursty", ["max_burst_seconds"]),
    ("warming_up", ["warmup_period_ms", "cold_factor"]), ("custom", ["name"])]

/-- A record that chooses an algorithm. -/
def shape : Shape := .choice kinds

/-- The algorithm of a type, from the document of its parameters. -/
def ofParameters? (kind : String) (body : Document) : Option Algorithm :=
  match kind with
  | "all_or_nothing" => (body.parts? []).map fun _ => allOrNothing
  | "bursty" => do
    let parts ← body.parts? ["max_burst_seconds"]
    let burst ← Document.defaulted? parts "max_burst_seconds" 1.0 Document.asReal?
    pure (bursty burst)
  | "warming_up" => do
    let parts ← body.parts? ["warmup_period_ms", "cold_factor"]
    let millis ← Document.required? parts "warmup_period_ms" Document.asWord64?
    let cold ← Document.defaulted? parts "cold_factor" 3.0 Document.asReal?
    pure (warmingUp (.ofMillis millis.toNat) cold)
  | "custom" => do
    let parts ← body.parts? ["name"]
    let name ← Document.required? parts "name" Document.asText?
    pure (custom name)
  | _ => none

/-- The algorithm that a document chooses. -/
def ofDocument? : Document → Option Algorithm
  | .list (.text kind :: parameters) => ofParameters? kind (.list parameters)
  | .record parts =>
    match parts.filter (·.1 == "type") with
    | [(_, .text kind)] => ofParameters? kind (.record (parts.filter (·.1 != "type")))
    | _ => none
  | _ => none

/-- The document that chooses an algorithm. -/
def toDocument : Algorithm → Document
  | allOrNothing => .record [("type", .text "all_or_nothing")]
  | bursty burst => .record [("type", .text "bursty"), ("max_burst_seconds", .ofReal burst)]
  | warmingUp period cold =>
    .record
      [("type", .text "warming_up"), ("warmup_period_ms", .whole (period.nanos / 1000000 : Nat)),
        ("cold_factor", .ofReal cold)]
  | custom name => .record [("type", .text "custom"), ("name", .text name)]

end Algorithm

end Admission
