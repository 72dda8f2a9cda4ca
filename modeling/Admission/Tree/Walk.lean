import Admission.Tree.Basic

/-!
# Walks through a tree

* **depth first** — `Tree.walkDepthFirst` goes down the first child before it turns to the second;
* **breadth first** — `Tree.walkBreadthFirst` goes through one level after the other;
* **searching** — `Tree.findFirst` stops a depth-first walk at the first hit, and
  `Tree.findByValues` follows a path of values downwards.

A walk keeps the nodes that are still to come in a list, the next one in front.  Each step takes one
of them off and puts its children in: at the front for a depth-first walk, at the back for a
breadth-first one.  No node is put in twice, so a walk has at most as many steps as the tree has
nodes.

A filter decides which nodes are reported.  It does not keep the walk from going below a node.
-/

namespace Admission

namespace Tree

variable {V : Type}

/-- The children of a node with their distance from the start, if the walk may go that deep. -/
def nextDown (t : Tree V) (maxDepth : Option Nat) (i depth : Nat) : List (Nat × Nat) :=
  if maxDepth.all (depth < ·) then (t.childrenOf i).map (·, depth + 1) else []

/-- Depth first through the pending nodes, in at most so many steps. -/
def depthFirst (t : Tree V) (keep : Nat → Bool) (maxDepth : Option Nat) :
    Nat → List (Nat × Nat) → List Nat
  | 0, _ => []
  | _, [] => []
  | steps + 1, (i, depth) :: pending =>
    let further := t.depthFirst keep maxDepth steps (t.nextDown maxDepth i depth ++ pending)
    if keep i then i :: further else further

/-- The nodes at or below `start` that pass the filter, each before what is below it, down to a
distance. -/
def walkDepthFirst (t : Tree V) (start : Nat) (keep : Nat → Bool) (maxDepth : Option Nat) :
    List Nat :=
  t.depthFirst keep maxDepth t.size [(start, 0)]

/-- Breadth first through the pending nodes, in at most so many steps. -/
def breadthFirst (t : Tree V) (keep : Nat → Bool) (maxDepth : Option Nat) :
    Nat → List (Nat × Nat) → List Nat
  | 0, _ => []
  | _, [] => []
  | steps + 1, (i, depth) :: pending =>
    let further := t.breadthFirst keep maxDepth steps (pending ++ t.nextDown maxDepth i depth)
    if keep i then i :: further else further

/-- The nodes at or below `start` that pass the filter, level by level, down to a distance. -/
def walkBreadthFirst (t : Tree V) (start : Nat) (keep : Nat → Bool) (maxDepth : Option Nat) :
    List Nat :=
  t.breadthFirst keep maxDepth t.size [(start, 0)]

/-- The first hit among the pending nodes and what is below them, in at most so many steps. -/
def search (t : Tree V) (hit : Nat → Bool) : Nat → List Nat → Option Nat
  | 0, _ => none
  | _, [] => none
  | steps + 1, i :: pending =>
    if hit i then some i else t.search hit steps (t.childrenOf i ++ pending)

/-- The first hit at or below `start`, depth first. -/
def findFirst (t : Tree V) (start : Nat) (hit : Nat → Bool) : Option Nat :=
  t.search hit t.size [start]

/-- The first node of a name at or below `start`. -/
def findByName (t : Tree V) (start : Nat) (name : String) : Option Nat :=
  t.findFirst start fun i => t.name i == name

/-- Follow values downwards, each strictly below the node found before. -/
def followValues [BEq V] (t : Tree V) (i : Nat) : List V → Option Nat
  | [] => some i
  | v :: vs => do
    let next ← (t.childrenOf i).findSome? fun c => t.findFirst c fun j => t.value? j == some v
    t.followValues next vs

/-- Follow a path of values: the first at or below `start`, each later one strictly below the node
found before. -/
def findByValues [BEq V] (t : Tree V) (start : Nat) : List V → Option Nat
  | [] => none
  | v :: vs => do
    let first ← t.findFirst start fun j => t.value? j == some v
    t.followValues first vs

/-- The nodes without children, in the order of a depth-first walk. -/
def leaves (t : Tree V) : List Nat := t.walkDepthFirst 0 t.isLeaf none

end Tree

end Admission
