import Admission.Decimal.Layout
import Admission.Text.Quoted

/-!
# Faults

What can go wrong when quotas are described, arranged or looked up.  That a request is turned away
is never a fault.

* **causes** — `RateFault`, `TreeFault` and `SetupFault` say what was wrong;
* **`Fault`** — any of them, with `Fault.message` as its text.
-/

namespace Admission

/-- Why a quota or an algorithm makes no sense. -/
inductive RateFault where
  /-- A quota of `permits` per no time at all. -/
  | emptyPeriod (permits : UInt64)
  /-- A burst that is not a positive finite number of seconds. -/
  | burstNotPositive (seconds : Float)
  /-- A warm-up that takes no time at all. -/
  | emptyWarmUp
  /-- A cold factor that is not a finite number from one on. -/
  | coldFactorBelowOne (factor : Float)
  /-- What a registered algorithm objects to. -/
  | refused (reason : String)
  deriving DecidableEq, Repr

/-- A node of one particular tree. -/
structure NodeId where
  /-- The tree. -/
  tree : Nat
  /-- The position in the tree's array. -/
  index : Nat
  deriving DecidableEq, Repr

/-- Why an operation on a tree of resources was not carried out. -/
inductive TreeFault where
  /-- The node already has a child of that name. -/
  | nameTaken (node child : String)
  /-- The node belongs to another tree. -/
  | foreignNode (node : NodeId)
  deriving DecidableEq, Repr

/-- Why a document of limits or settings could not be used. -/
inductive SetupFault where
  /-- The limits document does not read as one. -/
  | unreadableLimits
  /-- The settings do not read as such. -/
  | unreadableSettings
  /-- A rate of the named resource makes no sense. -/
  | badRate (resource : String) (cause : RateFault)
  deriving DecidableEq, Repr

/-- Anything that can go wrong apart from a rejection. -/
inductive Fault where
  /-- A quota or an algorithm makes no sense. -/
  | invalidRate (cause : RateFault)
  /-- The tree of resources was used inconsistently. -/
  | structural (cause : TreeFault)
  /-- No algorithm is registered under the name. -/
  | unknownAlgorithm (name : String)
  /-- What a node needs for its decisions could not be provided. -/
  | provider (node reason : String)
  /-- A document could not be used. -/
  | setup (cause : SetupFault)
  /-- A file is missing. -/
  | missingFile
  deriving DecidableEq, Repr

/-- The text of a senseless quota. -/
def RateFault.message : RateFault → String
  | emptyPeriod permits => "duration must be positive for " ++ toString permits.toNat ++ " permits"
  | burstNotPositive seconds => "max_burst_seconds must be positive, got " ++ Decimal.plain seconds
  | emptyWarmUp => "warmup_period must be positive"
  | coldFactorBelowOne factor => "cold_factor must be at least 1.0, got " ++ Decimal.plain factor
  | refused reason => reason

/-- The node with its parts. -/
def NodeId.description (n : NodeId) : String :=
  Text.described "NodeId" [("tree", toString n.tree), ("index", toString n.index)]

/-- The text of an inconsistent use of a tree. -/
def TreeFault.message : TreeFault → String
  | nameTaken node child => "node '" ++ node ++ "' already has a child named '" ++ child ++ "'"
  | foreignNode node => "node id " ++ node.description ++ " does not belong to this tree"

/-- The text of an unusable document. -/
def SetupFault.message : SetupFault → String
  | unreadableLimits => "Failed to parse limits config"
  | unreadableSettings => "Failed to parse engine config"
  | badRate resource cause => "resource '" ++ resource ++ "': Invalid rate: " ++ cause.message

/-- The text of a fault. -/
def Fault.message : Fault → String
  | invalidRate cause => "Invalid rate: " ++ cause.message
  | structural cause => "Tree structure error: " ++ cause.message
  | unknownAlgorithm name => "Unknown bandwidth algorithm: " ++ name
  | provider node reason => "Provider failed for node '" ++ node ++ "': " ++ reason
  | setup cause => "Configuration error: " ++ cause.message
  | missingFile => "I/O error: No such file or directory (os error 2)"

end Admission
