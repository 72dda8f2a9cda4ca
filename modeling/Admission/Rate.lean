import Admission.Duration
import Admission.Fault
import Admission.Text.Quoted

/-!
# Quotas

What may be asked for: so many permits per period, by which algorithm, and how several such rates
combine.  These are settings; they hold nothing of what has been granted so far.

* **`Algorithm`** — how a rate is enforced, with `Algorithm.validate`;
* **`Rate`** — permits per period; `Rate.new` refuses an empty period and `Rate.withAlgorithm` a
  senseless algorithm;
* **`Quota`** — all rates of one resource and the operator that combines them;
* **`NodeLimit`** — the quota of a named resource, as the nodes of a resource tree carry it.
-/

namespace Admission

/-- How the answers to several rates combine into one. -/
inductive Operator where
  /-- Exceeded as soon as one rate is. -/
  | and
  /-- Exceeded only when every rate is. -/
  | or
  /-- Never exceeded. -/
  | none
  deriving DecidableEq, Repr, Inhabited

/-- How a rate is enforced. -/
inductive Algorithm where
  /-- So many permits in each window of time, and no waiting. -/
  | allOrNothing
  /-- A bucket that holds what accrues in `burst` seconds. -/
  | bursty (burst : Float)
  /-- A bucket that starts slow, `cold` times as slow as the rate, and reaches the rate over
  `period`. -/
  | warmingUp (period : Duration) (cold : Float)
  /-- An algorithm registered under a name. -/
  | custom (name : String)
  deriving BEq, Repr

/-- So many permits per period. -/
structure Rate where
  /-- The permits of one period. -/
  permits : UInt64
  /-- The length of a period. -/
  period : Duration
  /-- The algorithm, where the rate names one. -/
  algorithm : Option Algorithm
  deriving BEq, Repr

/-- All rates of one resource; an empty list means that nothing is limited. -/
structure Quota where
  /-- How the rates combine. -/
  operator : Operator
  /-- The rates, in the order of their definition. -/
  rates : List Rate
  deriving BEq, Repr

/-- The quota of a named resource. -/
structure NodeLimit where
  /-- The resource, usually the dotted path of its node. -/
  resource : String
  /-- What may be asked of it. -/
  quota : Quota
  /-- A condition for the embedding application to evaluate. -/
  condition : Option String
  deriving BEq, Repr

namespace Operator

/-- The operator in capitals. -/
def text : Operator → String
  | and => "AND"
  | or => "OR"
  | none => "NONE"

/-- The operator as documents name it. -/
def keyword : Operator → String
  | and => "and"
  | or => "or"
  | none => "none"

/-- The operator as descriptions name it. -/
def description : Operator → String
  | and => "And"
  | or => "Or"
  | none => "None"

/-- The operator that a document names. -/
def ofKeyword? : String → Option Operator
  | "and" => some and
  | "or" => some or
  | "none" => some none
  | _ => Option.none

theorem ofKeyword?_keyword (o : Operator) : ofKeyword? o.keyword = some o := by
  cases o <;> rfl

end Operator

namespace Algorithm

/-- A bucket that holds one second's permits; the algorithm of rates that name none. -/
def standard : Algorithm := bursty 1.0

/-- A bucket that warms up from a third of its rate. -/
def warmingUpFromThird (period : Duration) : Algorithm := warmingUp period 3.0

/-- Refuse senseless parameters: a burst must be positive and finite, a warm-up must take time, and
a cold factor must be finite and at least one. -/
def validate : Algorithm → Except RateFault Unit
  | allOrNothing => pure ()
  | custom _ => pure ()
  | bursty burst =>
    if !burst.isFinite || burst <= 0.0 then throw (.burstNotPositive burst) else pure ()
  | warmingUp period cold =>
    if period.isZero then throw .emptyWarmUp
    else if !cold.isFinite || cold < 1.0 then throw (.coldFactorBelowOne cold)
    else pure ()

/-- The algorithm with its parameters. -/
def description : Algorithm → String
  | allOrNothing => "AllOrNothing"
  | bursty burst => Text.described "Bursty" [("max_burst_seconds", Decimal.marked burst)]
  | warmingUp period cold =>
    Text.described "WarmingUp"
      [("warmup_period", period.text), ("cold_factor", Decimal.marked cold)]
  | custom name => "Custom(" ++ Text.quoted name ++ ")"

end Algorithm

namespace Rate

/-- `permits` per `period`; an empty period is refused. -/
def new (permits : UInt64) (period : Duration) : Except RateFault Rate :=
  if period.isZero then throw (.emptyPeriod permits) else pure ⟨permits, period, none⟩

/-- `permits` per second. -/
def perSecond (permits : UInt64) : Rate := ⟨permits, .ofSeconds 1, none⟩

/-- `permits` per minute. -/
def perMinute (permits : UInt64) : Rate := ⟨permits, .ofSeconds 60, none⟩

/-- The same rate by the given algorithm; senseless parameters are refused. -/
def withAlgorithm (r : Rate) (algorithm : Algorithm) : Except RateFault Rate := do
  algorithm.validate
  pure { r with algorithm := some algorithm }

/-- The permits that accrue in a second. -/
def permitsPerSecond (r : Rate) : Float :=
  r.permits.toFloat * 1000000000.0 / Float.ofNat r.period.nanos

/-- The permits and the period. -/
def text (r : Rate) : String := toString r.permits.toNat ++ "/" ++ r.period.text

/-- The rate with its parts. -/
def description (r : Rate) : String :=
  Text.described "Rate"
    [("permits", toString r.permits.toNat), ("duration", r.period.text),
      ("algorithm", Text.optional (r.algorithm.map Algorithm.description))]

end Rate

namespace Quota

/-- No limits at all. -/
def unlimited : Quota := ⟨.and, []⟩

/-- A single rate. -/
def of (r : Rate) : Quota := ⟨.and, [r]⟩

/-- Every rate must grant. -/
def all (rates : List Rate) : Quota := ⟨.and, rates⟩

/-- At least one rate must grant. -/
def any (rates : List Rate) : Quota := ⟨.or, rates⟩

/-- Whether anything is limited. -/
def hasLimits (q : Quota) : Bool := !q.rates.isEmpty

/-- The operator and the rates. -/
def text (q : Quota) : String := q.operator.text ++ Text.bracketed (q.rates.map Rate.text)

/-- The quota with its parts. -/
def description (q : Quota) : String :=
  Text.described "Rates"
    [("operator", q.operator.description),
      ("limits", Text.bracketed (q.rates.map Rate.description))]

end Quota

end Admission
