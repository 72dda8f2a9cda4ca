import Admission.Duration
import Admission.Meter.PermitArith

/-!
# Bucket meters

A bucket stores permits that accrue while nobody asks.  A request first spends stored permits and
then waits for the rest to accrue at the steady rate; what it takes ahead of time moves the instant
from which the next request may start.

* **flat** — stored permits cost nothing: bursts up to the capacity pass at once;
* **rising** — stored permits above a threshold cost more the fuller, that is the colder, the bucket
  is.  `Bucket.cost` is the area under that ramp, and it is charged to whoever comes next;
* **room for one** — the capacity is at least one permit, so a slow rate still grants a single
  request at once; only a zero rate has no capacity.

`Bucket.reserve` is the only operation that takes permits.  A rejection brings the stored permits up
to date and changes nothing else.
-/

namespace Admission

open PermitArith

/-- What spending stored permits costs. -/
inductive Ramp (α : Type) where
  /-- Nothing. -/
  | flat
  /-- The steady interval per permit below the threshold, and above it an interval that rises by
  `slope` with each permit stored; `warmUp` is the time it takes to fill the bucket. -/
  | rising (warmUp threshold slope : α)
  deriving DecidableEq, Repr

/-- The live state of a quota that stores permits. -/
structure Bucket (α : Type) where
  /-- The permits stored at `nextFree`. -/
  stored : α
  /-- The permits that can be stored. -/
  capacity : α
  /-- The time between permits at the steady rate, in microseconds; infinite for a zero rate. -/
  interval : α
  /-- The earliest instant at which a new reservation may start. -/
  nextFree : Micros
  /-- What spending stored permits costs. -/
  ramp : Ramp α
  deriving DecidableEq, Repr

namespace Bucket

variable {α : Type} [PermitArith α]

/-- The microseconds of a second. -/
def microsPerSecond : α := ofNat 1000000

/-- The time between permits at so many permits per second. -/
def steadyInterval (perSecond : α) : α :=
  if isPositive perSecond then microsPerSecond / perSecond else infinity

/-- Room for at least one permit, and none at a zero rate. -/
def room (permits interval : α) : α :=
  if isFinite interval then most permits one else zero

/-- A full bucket that holds what accrues in `burst` seconds. -/
def flat (perSecond burst : α) (now : Micros) : Bucket α :=
  let interval := steadyInterval perSecond
  let capacity := room (perSecond * burst) interval
  ⟨capacity, capacity, interval, now, .flat⟩

/-- A full and therefore cold bucket, whose first permits take `cold` times the steady interval and
which warms up over `period`. -/
def warmingUp (perSecond : α) (period : Duration) (cold : α) (now : Micros) : Bucket α :=
  let interval := steadyInterval perSecond
  let warmUp : α := ofNat period.wholeMicros
  if isFinite interval then
    let coldInterval := interval * cold
    let threshold := half * warmUp / interval
    let capacity := room (threshold + ofNat 2 * warmUp / (interval + coldInterval)) interval
    let slope :=
      if below threshold capacity then (coldInterval - interval) / (capacity - threshold) else zero
    ⟨capacity, capacity, interval, now, .rising warmUp threshold slope⟩
  else ⟨zero, zero, interval, now, .rising warmUp zero zero⟩

/-- Whether stored permits cost anything. -/
def isWarmingUp (b : Bucket α) : Bool :=
  match b.ramp with
  | .flat => false
  | .rising .. => true

/-- The time in which one permit comes back while nobody asks. -/
def refillInterval (b : Bucket α) : α :=
  match b.ramp with
  | .flat => b.interval
  | .rising warmUp _ _ => if isPositive b.capacity then warmUp / b.capacity else infinity

/-- The permits stored at the present instant. -/
def storedAt (b : Bucket α) (now : Micros) : α :=
  if b.nextFree < now then
    least b.capacity (b.stored + ofNat (now - b.nextFree).toNat / b.refillInterval)
  else b.stored

/-- The bucket with its stored permits brought up to date. -/
def settle (b : Bucket α) (now : Micros) : Bucket α :=
  if b.nextFree < now then { b with stored := b.storedAt now, nextFree := now } else b

/-- The microseconds owed for taking `taken` out of `stored` permits: the area under the ramp
between the two levels. -/
def cost (b : Bucket α) (stored taken : α) : α :=
  match b.ramp with
  | .flat => zero
  | .rising _ threshold slope =>
    let above := stored - threshold
    let intervalAt (p : α) : α := b.interval + p * slope
    if isPositive above then
      let takenAbove := least above taken
      let sloping := takenAbove * (intervalAt above + intervalAt (above - takenAbove)) / ofNat 2
      sloping + b.interval * (taken - takenAbove)
    else zero + b.interval * taken

/-- Take `permits` if they can be had within `timeout`; the answer is how long to wait for them. -/
def reserve (b : Bucket α) (permits : UInt64) (timeout now : Micros) :
    Option Micros × Bucket α :=
  let b := b.settle now
  let requested : α := ofNat permits.toNat
  let spent := least requested b.stored
  let fresh := requested - spent
  let freshTime := if isPositive fresh then fresh * b.interval else zero
  if !isFinite freshTime then (none, b)
  else
    let moment := Micros.later b.nextFree (wholePart freshTime)
    let wait := moment - now
    if timeout < wait then (none, b)
    else
      let nextFree := Micros.later moment (wholePart (b.cost b.stored spent))
      (some wait, { b with nextFree, stored := b.stored - spent })

/-- The earliest instant at which a reservation may start, whatever the present instant. -/
def earliest (b : Bucket α) (_now : Micros) : Micros := b.nextFree

/-- The permits that accrue in a second at the steady rate. -/
def pace (b : Bucket α) : α :=
  if isFinite b.interval then microsPerSecond / b.interval else zero

theorem stored_settle (b : Bucket α) (now : Micros) : (b.settle now).stored = b.storedAt now := by
  unfold settle storedAt
  split <;> rfl

theorem nextFree_settle (b : Bucket α) (now : Micros) :
    (b.settle now).nextFree = if b.nextFree < now then now else b.nextFree := by
  unfold settle
  split <;> rfl

@[simp] theorem capacity_settle (b : Bucket α) (now : Micros) :
    (b.settle now).capacity = b.capacity := by
  unfold settle
  split <;> rfl

@[simp] theorem interval_settle (b : Bucket α) (now : Micros) :
    (b.settle now).interval = b.interval := by
  unfold settle
  split <;> rfl

@[simp] theorem ramp_settle (b : Bucket α) (now : Micros) : (b.settle now).ramp = b.ramp := by
  unfold settle
  split <;> rfl

@[simp] theorem refillInterval_settle (b : Bucket α) (now : Micros) :
    (b.settle now).refillInterval = b.refillInterval := by
  unfold settle
  split <;> rfl

@[simp] theorem capacity_reserve (b : Bucket α) (permits : UInt64) (timeout now : Micros) :
    (b.reserve permits timeout now).2.capacity = b.capacity := by
  unfold reserve
  dsimp only
  repeat' split
  all_goals exact capacity_settle b now

@[simp] theorem interval_reserve (b : Bucket α) (permits : UInt64) (timeout now : Micros) :
    (b.reserve permits timeout now).2.interval = b.interval := by
  unfold reserve
  dsimp only
  repeat' split
  all_goals exact interval_settle b now

@[simp] theorem ramp_reserve (b : Bucket α) (permits : UInt64) (timeout now : Micros) :
    (b.reserve permits timeout now).2.ramp = b.ramp := by
  unfold reserve
  dsimp only
  repeat' split
  all_goals exact ramp_settle b now

end Bucket

end Admission
