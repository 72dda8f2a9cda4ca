import Admission.Tree.Basic

/-!
# Trees built from trees

None of these operations changes the tree that it reads.

* **mapping** — `Tree.transform` maps the names and values of a branch into a new tree, and
  `Tree.transformInto` under a node of another tree.  Both add node after node, each before what is
  below it, and stop when two siblings come to have one name; what has been added by then stays;
* **copying** — `Tree.copy` keeps names and values.  Siblings differ already, so it appends without
  looking;
* **filtering** — `Tree.filter` keeps the nodes that pass and attaches each to the nearest kept node
  above it.
-/

namespace Admission

namespace Tree

variable {V U : Type}

/-! ## Mapping -/

mutual

/-- Add the image of a branch under a node of the target: the new node, or why there is none, and
the target as far as it has been built. -/
def graft (target : Tree U) (parent : NodeId) (names : Nat → String) (values : Nat → Option U) :
    Branch → Except TreeFault NodeId × Tree U
  | .mk i below =>
    match target.addChild parent (names i) (values i) with
    | (.error fault, target) => (.error fault, target)
    | (.ok id, target) =>
      match graftAll target id names values below with
      | (.error fault, target) => (.error fault, target)
      | (.ok (), target) => (.ok id, target)

/-- Add the images of several branches, one after the other, until one fails. -/
def graftAll (target : Tree U) (parent : NodeId) (names : Nat → String)
    (values : Nat → Option U) : List Branch → Except TreeFault Unit × Tree U
  | [] => (.ok (), target)
  | b :: bs =>
    match graft target parent names values b with
    | (.error fault, target) => (.error fault, target)
    | (.ok _, target) => graftAll target parent names values bs

end

/-- The image of the branch at `start` under a node of another tree: the new node, or why there is
none, and the other tree as far as it has been built. -/
def transformInto (t : Tree V) (start : Nat) (target : Tree U) (parent : NodeId)
    (names : Nat → String) (values : Nat → Option U) : Except TreeFault NodeId × Tree U :=
  graft target parent names values (t.branch start)

/-- The image of the branch at `start` as a tree of its own. -/
def transform (t : Tree V) (start id : Nat) (names : Nat → String) (values : Nat → Option U) :
    Except TreeFault (Tree U) :=
  let target := Tree.new id (names start) (values start)
  match graftAll target (target.idOf 0) names values (t.branch start).children with
  | (.error fault, _) => .error fault
  | (.ok (), target) => .ok target

/-! ## Copying -/

/-- Append the pending nodes, each with the parent it gets, and what is below them, in at most so
many steps. -/
def copyPending (t : Tree V) : Nat → List (Nat × Nat) → Tree V → Tree V
  | 0, _, target => target
  | _, [], target => target
  | steps + 1, (i, parent) :: pending, target =>
    t.copyPending steps ((t.childrenOf i).map (·, target.size) ++ pending)
      (target.append parent (t.name i) (t.value? i))

/-- The branch at `start` as a tree of its own. -/
def copy (t : Tree V) (start id : Nat) : Tree V :=
  t.copyPending t.size ((t.childrenOf start).map (·, 0))
    (Tree.new id (t.name start) (t.value? start))

/-! ## Filtering -/

mutual

/-- Add the nodes of a branch that pass, the topmost ones under `parent`. -/
def sift (t : Tree V) (keep : Nat → Bool) (target : Tree V) (parent : NodeId) :
    Branch → Except TreeFault (Tree V)
  | .mk i below =>
    if keep i then
      match target.addChild parent (t.name i) (t.value? i) with
      | (.error fault, _) => .error fault
      | (.ok id, target) => siftAll t keep target id below
    else siftAll t keep target parent below

/-- Add the nodes of several branches that pass, one branch after the other. -/
def siftAll (t : Tree V) (keep : Nat → Bool) (target : Tree V) (parent : NodeId) :
    List Branch → Except TreeFault (Tree V)
  | [] => .ok target
  | b :: bs =>
    match sift t keep target parent b with
    | .error fault => .error fault
    | .ok target => siftAll t keep target parent bs

end

/-- The nodes below `start` that pass, under `start` itself, each attached to the nearest kept node
above it. -/
def filter (t : Tree V) (start id : Nat) (keep : Nat → Bool) : Except TreeFault (Tree V) :=
  let target := Tree.new id (t.name start) (t.value? start)
  siftAll t keep target (target.idOf 0) (t.branch start).children

end Tree

end Admission
