import Admission.Limiter.Limiter
import Admission.Limiter.Request
import Admission.Tree.Basic

/-!
# Binding limiters to nodes

What a node of a resource tree has to do with requests.

* **`QuotaSource`** — what a node's value says about quotas;
* **`limiterAt`** — the limiter of a node: none in effect when the value carries no limits, and
  otherwise one under the resource that the value names, or else under the node's dotted path;
* **`matcherAt`** — accepts the requests for a node's dotted path and for all below it.
-/

namespace Admission

/-- What a node's value says about quotas. -/
class QuotaSource (V : Type) where
  /-- The quota, where the value carries one. -/
  quota? : V → Option Quota
  /-- The resource, where the value names one. -/
  resource? : V → Option String

instance : QuotaSource NodeLimit := ⟨fun n => some n.quota, fun n => some n.resource⟩

instance : QuotaSource Quota := ⟨some, fun _ => none⟩

/-- A value may be there without a quota. -/
instance {V : Type} [QuotaSource V] : QuotaSource (Option V) :=
  ⟨fun v => v.bind QuotaSource.quota?, fun v => v.bind QuotaSource.resource?⟩

/-- A value may be of either of two kinds. -/
instance {V W : Type} [QuotaSource V] [QuotaSource W] : QuotaSource (V ⊕ W) where
  quota?
    | .inl v => QuotaSource.quota? v
    | .inr w => QuotaSource.quota? w
  resource?
    | .inl v => QuotaSource.resource? v
    | .inr w => QuotaSource.resource? w

/-- The resource of a node whose value names none: the dotted path, and the name for the root. -/
def Tree.resourceAt {V : Type} (t : Tree V) (i : Nat) : String :=
  if t.isRoot i then t.name i else t.path "." i

/-- The limit that a node's value sets, if it sets one. -/
def limitAt {V : Type} [QuotaSource V] (t : Tree V) (i : Nat) : Option Limit := do
  let value ← t.value? i
  let quota ← QuotaSource.quota? value
  if quota.hasLimits then
    pure ⟨(QuotaSource.resource? value).getD (t.resourceAt i), quota⟩
  else none

/-- The limiter of a node.  A fault in building it names the node. -/
def limiterAt {V κ : Type} [QuotaSource V] (catalog : Catalog κ) (t : Tree V) (i : Nat) :
    Except Fault (NodeLimiter κ) :=
  match limitAt t i with
  | none => .ok .idle
  | some limit =>
    match Limiter.new catalog limit with
    | .error fault => .error (.provider (t.name i) fault.message)
    | .ok l => .ok (.limiting l)

/-- Accepts the requests for a node's dotted path and for all below it. -/
def matcherAt {V : Type} (t : Tree V) (i : Nat) : Matcher Request String :=
  Matcher.underPath (t.path "." i)

end Admission
