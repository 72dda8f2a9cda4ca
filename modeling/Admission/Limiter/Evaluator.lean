import Admission.Limiter.Binding
import Admission.Tree.Walk

/-!
# Evaluators

An evaluator decides requests against a whole tree of resources.

* **per leaf** — each leaf is looked at on its own.  `Evaluator.climb` goes from the leaf towards
  the root and takes permits at every node on the way, until it comes to the root, to a node without
  a value, to a node that does not concern the request, or to one that rejects it;
* **all together** — `Evaluator.decide` grants a request if no node rejected it.  Nothing is
  given back: permits taken elsewhere stay taken;
* **one budget** — time spent waiting at one node is no longer there for the next;
* **first match only** — an evaluator may stop after the first leaf at which anything was granted;
* **faults** — when the limiter or the matcher of a node cannot be provided, the evaluation ends
  there, and what has been taken by then stays taken.
-/

namespace Admission

/-- Decides requests against a tree of resources. -/
structure Evaluator (V ρ η κ : Type) where
  /-- The tree. -/
  tree : Tree V
  /-- The leaves, in the order in which they are looked at. -/
  leaves : List Nat
  /-- The matcher of each node. -/
  matcherOf : Nat → Except Fault (Matcher ρ η)
  /-- The limiter of each node. -/
  limiterOf : Nat → Except Fault (NodeLimiter κ)
  /-- Stop after the first leaf at which anything was granted. -/
  firstMatchOnly : Bool

/-- How far an evaluation has come. -/
structure Progress (σ η : Type) where
  /-- The store and the clock. -/
  world : World σ
  /-- The time that may still be spent waiting. -/
  remaining : Duration
  /-- What has been reported, in order. -/
  events : List (UsageEvent η)

/-- The outcome of one node. -/
inductive Attempt where
  /-- The permits were taken. -/
  | granted
  /-- The permits could not be had. -/
  | rejected
  /-- The request does not concern the node. -/
  | noMatch
  deriving DecidableEq, Repr

/-- How often a climb was granted permits and how often it was rejected. -/
structure Tally where
  /-- The nodes that granted. -/
  granted : Nat
  /-- The nodes that rejected. -/
  rejected : Nat
  deriving DecidableEq, Repr

/-- What one request comes to. -/
structure Outcome (σ η : Type) where
  /-- Whether it is granted. -/
  answer : Except Fault Bool
  /-- The store and the clock afterwards. -/
  world : World σ
  /-- What was reported, in order. -/
  events : List (UsageEvent η)

namespace Evaluator

variable {V ρ η κ σ : Type} [CustomMeter κ] [MeterStore σ η κ]

/-- An evaluator that takes its matchers and limiters from elsewhere. -/
def new (tree : Tree V) (matcherOf : Nat → Except Fault (Matcher ρ η))
    (limiterOf : Nat → Except Fault (NodeLimiter κ)) : Evaluator V ρ η κ :=
  ⟨tree, tree.leaves, matcherOf, limiterOf, false⟩

/-- An evaluator that matches requests by path and takes its limits from the tree's values. -/
def ofTree [QuotaSource V] (tree : Tree V) (catalog : Catalog κ) :
    Evaluator V Request String κ :=
  new tree (fun i => .ok (matcherAt tree i)) (limiterAt catalog tree)

/-- Take permits at one node, if the request concerns it. -/
def attempt (e : Evaluator V ρ η κ) (request : ρ) (permits : UInt64) (i : Nat)
    (p : Progress σ η) : Except Fault Attempt × Progress σ η :=
  match e.limiterOf i with
  | .error fault => (.error fault, p)
  | .ok .idle => (.ok .noMatch, p)
  | .ok (.limiting l) =>
    match e.matcherOf i with
    | .error fault => (.error fault, p)
    | .ok matcher =>
      match matcher request with
      | none => (.ok .noMatch, p)
      | some key =>
        match l.reserve p.world key permits p.remaining with
        | (.error fault, world) => (.error fault, { p with world })
        | (.ok (some wait), world) =>
          (.ok .granted,
            ⟨world, p.remaining.minus (.ofMicros wait),
              p.events ++ [⟨.consumed, key, permits, l.limit⟩]⟩)
        | (.ok none, world) =>
          (.ok .rejected,
            { p with
              world
              events := p.events ++
                [⟨.consumed, key, permits, l.limit⟩, ⟨.rejected, key, permits, l.limit⟩] })

/-- Take permits at the nodes of a way up, one after the other, as long as that goes well. -/
def climb (e : Evaluator V ρ η κ) (request : ρ) (permits : UInt64) :
    List Nat → Progress σ η → Except Fault Tally × Progress σ η
  | [], p => (.ok ⟨0, 0⟩, p)
  | i :: above, p =>
    if e.tree.isRoot i || (e.tree.value? i).isNone then (.ok ⟨0, 0⟩, p)
    else
      match e.attempt request permits i p with
      | (.error fault, p) => (.error fault, p)
      | (.ok .rejected, p) => (.ok ⟨0, 1⟩, p)
      | (.ok .noMatch, p) => (.ok ⟨0, 0⟩, p)
      | (.ok .granted, p) =>
        match e.climb request permits above p with
        | (.error fault, p) => (.error fault, p)
        | (.ok tally, p) => (.ok { tally with granted := tally.granted + 1 }, p)

/-- Climb from each of some leaves in turn, and count the rejections. -/
def climbAll (e : Evaluator V ρ η κ) (request : ρ) (permits : UInt64) :
    List Nat → Progress σ η → Except Fault Nat × Progress σ η
  | [], p => (.ok 0, p)
  | leaf :: leaves, p =>
    match e.climb request permits (leaf :: e.tree.ancestors leaf) p with
    | (.error fault, p) => (.error fault, p)
    | (.ok tally, p) =>
      if e.firstMatchOnly && 0 < tally.granted then (.ok tally.rejected, p)
      else
        match e.climbAll request permits leaves p with
        | (.error fault, p) => (.error fault, p)
        | (.ok rejected, p) => (.ok (tally.rejected + rejected), p)

/-- Take permits for a request, waiting at most `timeout` in all.  The request is granted if no node
rejected it. -/
def decide (e : Evaluator V ρ η κ) (w : World σ) (request : ρ) (permits : UInt64)
    (timeout : Duration) : Outcome σ η :=
  match e.climbAll request permits e.leaves ⟨w, timeout, []⟩ with
  | (.error fault, p) => ⟨.error fault, p.world, p.events⟩
  | (.ok rejected, p) => ⟨.ok (rejected == 0), p.world, p.events⟩

/-- Take one permit for a request without waiting. -/
def decideOne (e : Evaluator V ρ η κ) (w : World σ) (request : ρ) : Outcome σ η :=
  e.decide w request 1 .zero

/-- The evaluator with its parts. -/
def description (e : Evaluator V ρ η κ) : String :=
  Text.described "ResourceLimiterTree"
    [("nodes", toString e.tree.size), ("leaves", toString e.leaves.length),
      ("first_match_only", if e.firstMatchOnly then "true" else "false")]

end Evaluator

end Admission
