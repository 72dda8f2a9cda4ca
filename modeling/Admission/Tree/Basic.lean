import Admission.Fault
import Admission.Text.Quoted

/-!
# Resource trees

A tree of named nodes, some of which carry a value.  The nodes stand in one array, in the order in
which they were added; the root is at index zero, and links to the parent and to the children are
indices into the array.

* **growth** — nodes are only ever appended: `Tree.addChild` refuses a name that a sibling has and a
  parent of another tree, and `Tree.append` is the same without these checks;
* **reading** — `Tree.name`, `Tree.value?`, `Tree.parent?` and `Tree.childrenOf` look at one node,
  `Tree.ancestors`, `Tree.level` and `Tree.path` at the way up from it, and `Tree.branch` at all
  that is below it.

A child comes after its parent in the array, so the way up from index `i` has at most `i` steps, and
nothing below a node is deeper than the array is long.
-/

namespace Admission

/-- A named place in a tree. -/
structure Node (V : Type) where
  /-- The name, unique among siblings. -/
  name : String
  /-- The value, where there is one. -/
  value : Option V
  /-- The index of the parent; the root has none. -/
  parent : Option Nat
  /-- The indices of the children, in the order in which they were added. -/
  children : List Nat
  deriving DecidableEq, Repr

/-- Named nodes under one root. -/
structure Tree (V : Type) where
  /-- What tells this tree from others. -/
  id : Nat
  /-- The nodes, the root first. -/
  nodes : Array (Node V)
  deriving Repr

/-- A node and all that is below it, by index. -/
inductive Branch where
  /-- The node's index and the branches at its children. -/
  | mk (index : Nat) (children : List Branch)
  deriving Repr

namespace Branch

/-- The node at which the branch starts. -/
def index : Branch → Nat
  | mk i _ => i

/-- The branches at the children. -/
def children : Branch → List Branch
  | mk _ bs => bs

end Branch

namespace Tree

variable {V : Type}

/-! ## One node -/

/-- A tree that holds only its root. -/
def new (id : Nat) (name : String) (value : Option V) : Tree V :=
  ⟨id, #[⟨name, value, none, []⟩]⟩

/-- The number of nodes. -/
def size (t : Tree V) : Nat := t.nodes.size

/-- The name at an index. -/
def name (t : Tree V) (i : Nat) : String := (t.nodes[i]?.map Node.name).getD ""

/-- The value at an index. -/
def value? (t : Tree V) (i : Nat) : Option V := t.nodes[i]?.bind Node.value

/-- The parent of an index. -/
def parent? (t : Tree V) (i : Nat) : Option Nat := t.nodes[i]?.bind Node.parent

/-- The children of an index. -/
def childrenOf (t : Tree V) (i : Nat) : List Nat := (t.nodes[i]?.map Node.children).getD []

/-- Whether there is no parent. -/
def isRoot (t : Tree V) (i : Nat) : Bool := (t.parent? i).isNone

/-- Whether there are no children. -/
def isLeaf (t : Tree V) (i : Nat) : Bool := (t.childrenOf i).isEmpty

/-- The node at an index, as other trees see it. -/
def idOf (t : Tree V) (i : Nat) : NodeId := ⟨t.id, i⟩

/-- The index of a node; a node of another tree has none here. -/
def index? (t : Tree V) (n : NodeId) : Option Nat :=
  if n.tree = t.id ∧ n.index < t.size then some n.index else none

/-! ## Growth -/

/-- Append a child, whatever its name. -/
def append (t : Tree V) (parent : Nat) (name : String) (value : Option V) : Tree V :=
  { t with
    nodes := (t.nodes.modify parent fun n => { n with children := n.children ++ [t.size] }).push
      ⟨name, value, some parent, []⟩ }

/-- Append a child: the new node, or why there is none, and the tree afterwards.  The parent has to
be a node of this tree, and none of its children may have the name. -/
def addChild (t : Tree V) (parent : NodeId) (name : String) (value : Option V) :
    Except TreeFault NodeId × Tree V :=
  match t.index? parent with
  | none => (.error (.foreignNode parent), t)
  | some p =>
    if (t.childrenOf p).any fun c => t.name c == name then (.error (.nameTaken (t.name p) name), t)
    else (.ok (t.idOf t.size), t.append p name value)

/-! ## The way up -/

/-- The way up in at most so many steps. -/
def ancestorsWithin (t : Tree V) : Nat → Nat → List Nat
  | 0, _ => []
  | steps + 1, i =>
    match t.parent? i with
    | none => []
    | some p => p :: t.ancestorsWithin steps p

/-- Parent, grandparent and so on up to the root. -/
def ancestors (t : Tree V) (i : Nat) : List Nat := t.ancestorsWithin i i

/-- The distance from the root. -/
def level (t : Tree V) (i : Nat) : Nat := (t.ancestors i).length

/-- The names from below the root down to the node, joined by a separator.  The root itself
contributes nothing. -/
def path (t : Tree V) (separator : String) (i : Nat) : String :=
  let way := ((i :: t.ancestors i).filter fun j => !t.isRoot j).reverse
  separator.intercalate (way.map t.name)

/-- The names and values from the node up to the root. -/
def lineage (t : Tree V) (i : Nat) : List (String × Option V) :=
  (i :: t.ancestors i).map fun j => (t.name j, t.value? j)

/-! ## All that is below -/

/-- The branch at a node down to so many levels. -/
def branchWithin (t : Tree V) : Nat → Nat → Branch
  | 0, i => .mk i []
  | levels + 1, i => .mk i ((t.childrenOf i).map (t.branchWithin levels))

/-- The branch at a node. -/
def branch (t : Tree V) (i : Nat) : Branch := t.branchWithin t.size i

/-- The node with its parts. -/
def describe (t : Tree V) (showValue : V → String) (i : Nat) : String :=
  Text.described "Node"
    [("name", Text.quoted (t.name i)), ("level", toString (t.level i)),
      ("value", Text.optional ((t.value? i).map showValue)),
      ("children", toString (t.childrenOf i).length)]

end Tree

end Admission
