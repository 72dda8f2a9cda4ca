import Admission.Document.Yaml.Fit
import Admission.Setup.AlgorithmChoice
import Admission.Tree.Basic

/-!
# Limits documents

A limits document describes resources within resources, each with the rates that are to be enforced
there.

* **reading** — `Limits.ofDocument?` and `Limits.ofYaml`; what a document leaves out has a value of
  its own, down to a document that says nothing at all;
* **writing** — `Limits.toDocument`, with everything filled in;
* **the tree** — `Limits.buildTree` makes a node of each resource.  A resource without rates only
  groups what is below it.  Each value names its resource by the dotted path of the node.

The tree is built node after node, each before what is below it, and its rates before the node
itself.  The first thing that is wrong ends it.
-/

namespace Admission

/-- The unit of a rate's period. -/
inductive TimeUnit where
  /-- A second. -/
  | second
  /-- Sixty seconds. -/
  | minute
  /-- Sixty minutes. -/
  | hour
  /-- Twenty-four hours. -/
  | day
  deriving DecidableEq, Repr

/-- So many permits per so many units. -/
structure RateEntry where
  /-- The permits of one period. -/
  permits : UInt64
  /-- The unit. -/
  unit : TimeUnit
  /-- The number of units in a period. -/
  every : UInt32
  /-- The algorithm, where the entry chooses one. -/
  algorithm : Option Algorithm
  deriving BEq, Repr

/-- A resource and what is below it. -/
structure ResourceEntry where
  /-- The name, unique among its siblings. -/
  name : String
  /-- How the rates combine. -/
  operator : Operator
  /-- The rates to enforce. -/
  rates : List RateEntry
  /-- A condition for the embedding application. -/
  condition : Option String
  /-- The resources below it. -/
  resources : List ResourceEntry
  deriving Repr

/-- A whole limits document. -/
structure Limits where
  /-- The name of the root, which is never limited itself. -/
  name : String
  /-- The resources at the top level. -/
  resources : List ResourceEntry
  deriving Repr

namespace TimeUnit

/-- The length of a unit. -/
def duration : TimeUnit → Duration
  | second => .ofSeconds 1
  | minute => .ofSeconds 60
  | hour => .ofSeconds 3600
  | day => .ofSeconds 86400

/-- The unit as documents name it. -/
def keyword : TimeUnit → String
  | second => "second"
  | minute => "minute"
  | hour => "hour"
  | day => "day"

/-- The unit that a document names. -/
def ofDocument? (d : Document) : Option TimeUnit :=
  match d.keyword? with
  | some "second" => some second
  | some "minute" => some minute
  | some "hour" => some hour
  | some "day" => some day
  | _ => none

end TimeUnit

namespace RateEntry

/-- A record of the parts of an entry. -/
def shape : Shape :=
  .record
    [("permits", .natural (UInt64.size - 1)), ("unit", .keyword),
      ("every", .natural (UInt32.size - 1)), ("algorithm", .optional Algorithm.shape)]

/-- The entry that a document describes; a period is one unit unless it says otherwise. -/
def ofDocument? (d : Document) : Option RateEntry := do
  let parts ← d.parts? ["permits", "unit", "every", "algorithm"]
  let permits ← Document.required? parts "permits" Document.asWord64?
  let unit ← Document.required? parts "unit" TimeUnit.ofDocument?
  let every ← Document.defaulted? parts "every" 1 Document.asWord32?
  let algorithm ←
    Document.defaulted? parts "algorithm" none (Document.asOptional? Algorithm.ofDocument?)
  pure ⟨permits, unit, every, algorithm⟩

/-- The entry as a document. -/
def toDocument (r : RateEntry) : Document :=
  .record
    [("permits", .ofWord64 r.permits), ("unit", .text r.unit.keyword),
      ("every", .whole r.every.toNat),
      ("algorithm", .ofOptional Algorithm.toDocument r.algorithm)]

/-- The rate of the entry; an empty period and a senseless algorithm are refused. -/
def toRate (r : RateEntry) : Except RateFault Rate := do
  let rate ← Rate.new r.permits (r.unit.duration.times r.every.toNat)
  match r.algorithm with
  | some algorithm => rate.withAlgorithm algorithm
  | none => pure rate

end RateEntry

namespace ResourceEntry

/-- The names of the parts of a resource. -/
def partNames : List String := ["name", "operator", "rates", "condition", "resources"]

/-- A record of the parts of a resource, down to so many levels of resources below it. -/
def shape : Nat → Shape
  | 0 => .record []
  | levels + 1 =>
    .record
      [("name", .text), ("operator", .keyword), ("rates", .list RateEntry.shape),
        ("condition", .optional .text), ("resources", .list (shape levels))]

/-- The resource that a document describes, down to so many levels of nesting. -/
def within? : Nat → Document → Option ResourceEntry
  | 0, _ => none
  | levels + 1, d => do
    let parts ← d.parts? partNames
    let name ← Document.required? parts "name" Document.asText?
    let operator ← Document.defaulted? parts "operator" .and
      fun d => d.keyword?.bind Operator.ofKeyword?
    let rates ← Document.defaulted? parts "rates" []
      fun d => d.items?.bind fun ds => ds.mapM RateEntry.ofDocument?
    let condition ←
      Document.defaulted? parts "condition" none (Document.asOptional? Document.asText?)
    let resources ← Document.defaulted? parts "resources" []
      fun d => d.items?.bind fun ds => ds.mapM (within? levels)
    pure ⟨name, operator, rates, condition, resources⟩

/-- The resource that a document describes. -/
def ofDocument? (d : Document) : Option ResourceEntry := within? (d.nesting + 1) d

mutual

/-- The resource as a document. -/
def toDocument : ResourceEntry → Document
  | ⟨name, operator, rates, condition, resources⟩ =>
    .record
      [("name", .text name), ("operator", .text operator.keyword),
        ("rates", .list (rates.map RateEntry.toDocument)),
        ("condition", .ofOptional .text condition), ("resources", .list (toDocuments resources))]

/-- Each resource as a document. -/
def toDocuments : List ResourceEntry → List Document
  | [] => []
  | r :: rs => toDocument r :: toDocuments rs

end

/-- The dotted path of a resource of a given name, below a resource of a given path. -/
def pathUnder (above : Option String) (name : String) : String :=
  match above with
  | none => name
  | some path => path ++ "." ++ name

/-- The value of a resource's node; none when it has no rates. -/
def limit? (path : String) (operator : Operator) (rates : List RateEntry)
    (condition : Option String) : Except Fault (Option NodeLimit) :=
  if rates.isEmpty then pure none
  else
    match rates.mapM RateEntry.toRate with
    | .error cause => .error (.setup (.badRate path cause))
    | .ok rates => pure (some ⟨path, ⟨operator, rates⟩, condition⟩)

mutual

/-- Add a resource and all below it under a node. -/
def addTo (tree : Tree NodeLimit) (parent : NodeId) (above : Option String) :
    ResourceEntry → Except Fault (Tree NodeLimit)
  | ⟨name, operator, rates, condition, resources⟩ =>
    match limit? (pathUnder above name) operator rates condition with
    | .error fault => .error fault
    | .ok value =>
      match tree.addChild parent name value with
      | (.error cause, _) => .error (.structural cause)
      | (.ok node, tree) => addAllTo tree node (some (pathUnder above name)) resources

/-- Add several resources under a node, one after the other. -/
def addAllTo (tree : Tree NodeLimit) (parent : NodeId) (above : Option String) :
    List ResourceEntry → Except Fault (Tree NodeLimit)
  | [] => .ok tree
  | r :: rs =>
    match addTo tree parent above r with
    | .error fault => .error fault
    | .ok tree => addAllTo tree parent above rs

end

end ResourceEntry

namespace Limits

/-- The limits that a document describes. -/
def ofDocument? (d : Document) : Option Limits := do
  let parts ← d.parts? ["name", "resources"]
  let name ← Document.defaulted? parts "name" "root" Document.asText?
  let resources ← Document.defaulted? parts "resources" []
    fun d => d.items?.bind fun ds => ds.mapM ResourceEntry.ofDocument?
  pure ⟨name, resources⟩

/-- A record of the parts of a limits document.  A resource takes two levels of nesting, its record
and the list that it is in, so there are no more levels of resources than can be read. -/
def shape : Shape :=
  .record [("name", .text), ("resources", .list (ResourceEntry.shape Yaml.deepest))]

/-- The limits that a text describes; an empty text describes none. -/
def ofYaml (s : String) : Except Fault Limits :=
  match (Yaml.read? shape s).bind ofDocument? with
  | some limits => .ok limits
  | none => .error (.setup .unreadableLimits)

/-- The limits that the contents of a file describe, if there is such a file. -/
def ofFile : Option String → Except Fault Limits
  | some contents => ofYaml contents
  | none => .error .missingFile

/-- The limits as a document. -/
def toDocument (l : Limits) : Document :=
  .record [("name", .text l.name), ("resources", .list (ResourceEntry.toDocuments l.resources))]

/-- The tree of the resources. -/
def buildTree (l : Limits) (id : Nat) : Except Fault (Tree NodeLimit) :=
  let tree := Tree.new id l.name none
  ResourceEntry.addAllTo tree (tree.idOf 0) none l.resources

end Limits

end Admission
