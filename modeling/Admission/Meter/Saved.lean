import Admission.Document.Basic
import Admission.Meter.Group

/-!
# Saved meters

Live state as a document, so that a cache outside the program can keep it.

* **saving** — `MeterGroup.save?` fails exactly when a member is a custom meter, whose state only
  the embedding application knows;
* **infinite intervals** — the interval of a bucket at a zero rate is saved as nothing at all, and
  nothing is read back as an infinite interval.  No other number of a bucket may be infinite: it is
  saved as nothing too, but that does not read back;
* **restoring** — `MeterGroup.restore?` takes records or lists of their parts, ignores parts it does
  not know, and takes whole numbers where real ones are wanted.
-/

namespace Admission

namespace Window

/-- The names of the saved parts. -/
def savedNames : List String := ["permits", "window_micros", "remaining", "window_start"]

/-- The window as a document. -/
def save (w : Window) : Document :=
  .record
    [("permits", .ofWord64 w.permits), ("window_micros", .ofWord64 w.length),
      ("remaining", .ofWord64 w.remaining), ("window_start", .ofWord64 w.start)]

/-- The window that a document describes. -/
def restore? (d : Document) : Option Window := do
  let parts ← d.parts? savedNames
  let permits ← Document.required? parts "permits" Document.asWord64?
  let length ← Document.required? parts "window_micros" Document.asWord64?
  let remaining ← Document.required? parts "remaining" Document.asWord64?
  let start ← Document.required? parts "window_start" Document.asWord64?
  pure ⟨permits, length, remaining, start⟩

end Window

namespace Ramp

/-- The names of the saved parts of a rising ramp. -/
def savedNames : List String := ["warmup_period_micros", "threshold_permits", "slope"]

/-- The ramp as a document. -/
def save : Ramp Float → Document
  | flat => .text "bursty"
  | rising warmUp threshold slope =>
    .record [("warming_up", .record
      [("warmup_period_micros", .ofReal warmUp), ("threshold_permits", .ofReal threshold),
        ("slope", .ofReal slope)])]

/-- The ramp that a document describes. -/
def restore? (d : Document) : Option (Ramp Float) :=
  match d with
  | .record [("warming_up", body)] => do
    let parts ← body.parts? savedNames
    let warmUp ← Document.required? parts "warmup_period_micros" Document.asReal?
    let threshold ← Document.required? parts "threshold_permits" Document.asReal?
    let slope ← Document.required? parts "slope" Document.asReal?
    pure (rising warmUp threshold slope)
  | _ => if d.keyword? = some "bursty" then some flat else none

end Ramp

namespace Bucket

/-- The names of the saved parts. -/
def savedNames : List String :=
  ["stored_permits", "max_permits", "stable_interval_micros", "next_free_micros", "ramp"]

/-- The bucket as a document. -/
def save (b : Bucket Float) : Document :=
  .record
    [("stored_permits", .ofReal b.stored), ("max_permits", .ofReal b.capacity),
      ("stable_interval_micros", .ofReal b.interval), ("next_free_micros", .ofWord64 b.nextFree),
      ("ramp", b.ramp.save)]

/-- An interval: nothing at all stands for an infinite one. -/
def restoreInterval? (d : Document) : Option Float :=
  (d.asOptional? Document.asReal?).map fun x => x.getD (1.0 / 0.0)

/-- The bucket that a document describes. -/
def restore? (d : Document) : Option (Bucket Float) := do
  let parts ← d.parts? savedNames
  let stored ← Document.required? parts "stored_permits" Document.asReal?
  let capacity ← Document.required? parts "max_permits" Document.asReal?
  let interval ← Document.required? parts "stable_interval_micros" restoreInterval?
  let nextFree ← Document.required? parts "next_free_micros" Document.asWord64?
  let ramp ← Document.required? parts "ramp" Ramp.restore?
  pure ⟨stored, capacity, interval, nextFree, ramp⟩

end Bucket

namespace Meter

variable {κ : Type}

/-- The meter as a document; a custom meter has none. -/
def save? : Meter κ → Option Document
  | window w => some (.record [("fixed_window", w.save)])
  | bucket b => some (.record [("smooth", b.save)])
  | custom _ => none

/-- The meter that a document describes. -/
def restore? : Document → Option (Meter κ)
  | .record [("fixed_window", body)] => (Window.restore? body).map window
  | .record [("smooth", body)] => (Bucket.restore? body).map bucket
  | _ => none

end Meter

namespace MeterGroup

variable {κ : Type}

/-- The group as a document; there is none when a member is a custom meter. -/
def save? (g : MeterGroup κ) : Option Document := do
  let members ← g.members.mapM Meter.save?
  pure (.record [("operator", .text g.operator.keyword), ("members", .list members)])

/-- The group that a document describes. -/
def restore? (d : Document) : Option (MeterGroup κ) := do
  let parts ← d.parts? ["operator", "members"]
  let operator ← Document.required? parts "operator" fun d =>
    d.keyword?.bind Operator.ofKeyword?
  let members ← Document.required? parts "members" fun d => do
    (← d.items?).mapM Meter.restore?
  pure ⟨operator, members⟩

end MeterGroup

end Admission
