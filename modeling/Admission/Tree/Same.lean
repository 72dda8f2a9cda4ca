import Admission.Tree.Basic

/-!
# Equal trees and equal nodes

* **trees** — `Tree.same` compares two trees from their roots down: names, values and the children
  in their order.  It does not matter in which order the nodes were added otherwise;
* **nodes** — `Tree.sameNode` compares two nodes from themselves up to their roots: names and
  values.  What is below them does not count.
-/

namespace Admission

namespace Tree

variable {V : Type} [BEq V]

mutual

/-- Whether two branches have the same names, values and shape. -/
def sameBranch (a b : Tree V) : Branch → Branch → Bool
  | .mk i below, .mk j below' =>
    a.name i == b.name j && a.value? i == b.value? j && below.length == below'.length &&
      sameBranches a b below below'

/-- Whether branches agree one by one, as far as both lists go. -/
def sameBranches (a b : Tree V) : List Branch → List Branch → Bool
  | x :: xs, y :: ys => sameBranch a b x y && sameBranches a b xs ys
  | _, _ => true

end

/-- Whether two trees have the same names, values and shape. -/
def same (a b : Tree V) : Bool := sameBranch a b (a.branch 0) (b.branch 0)

/-- Whether two nodes agree on the way up, in at most so many steps. -/
def sameWayUp (a b : Tree V) : Nat → Nat → Nat → Bool
  | 0, _, _ => false
  | steps + 1, i, j =>
    a.name i == b.name j && a.value? i == b.value? j &&
      match a.parent? i, b.parent? j with
      | none, none => true
      | some p, some q => a.sameWayUp b steps p q
      | _, _ => false

/-- Whether two nodes have the same name and value, and their parents too, up to the roots. -/
def sameNode (a : Tree V) (i : Nat) (b : Tree V) (j : Nat) : Bool := a.sameWayUp b (i + 1) i j

end Tree

end Admission
