import Admission.Proofs.Building
import Admission.Proofs.PreOrder

/-!
# Trees in pre-order

A tree whose nodes were added depth first stands in its array in pre-order, so that to walk through
it depth first is to go through the array.

* **the order** — `Tree.InOrder` says that each node was put below the node before it, or below one
  that is above that node.  `Tree.InOrder.append` is one step of such growth;
* **the walk** — all nodes between a node and one that is below it are below it, too
  (`Tree.InOrder.under_of_le`), so a pre-order increases (`Tree.InOrder.sorted_preOrder`), and
  `Tree.InOrder.walk_eq_range` is the walk through the whole tree.
-/

namespace Admission

namespace Tree

variable {V : Type} {t u : Tree V}

theorem Extends.under (h : t.Extends u) (ht : t.WellFormed) {top i : Nat} (hunder : t.Under top i) :
    u.Under top i := by
  induction hunder with
  | refl => exact .refl
  | child _ hc ih => exact .child ih ((h.parent _ (ht.parent_lt hc).2).trans hc)

/-- Each node has been put below the node before it, or below one that is above that node. -/
def InOrder (t : Tree V) : Prop := ∀ i p, t.parent? (i + 1) = some p → t.Under p i

theorem inOrder_new (id : Nat) (name : String) (value : Option V) :
    (Tree.new id name value).InOrder := by
  intro i p hp
  rw [parent?_of_le _ (by rw [size_new]; omega)] at hp
  cases hp

namespace InOrder

/-- A child of the last node, or of one above it, comes in order. -/
theorem append (h : t.InOrder) (hwf : t.WellFormed) {p : Nat} (hlast : t.Under p (t.size - 1))
    (name : String) (value : Option V) : (t.append p name value).InOrder := by
  have hgrown := Extends.append t p name value
  intro i q hq
  rcases Nat.lt_trichotomy (i + 1) t.size with hlt | heq | hgt
  · rw [hgrown.parent _ hlt] at hq
    exact hgrown.under hwf (h i q hq)
  · rw [heq, parent?_append_size] at hq
    cases hq
    obtain rfl : i = t.size - 1 := by omega
    exact hgrown.under hwf hlast
  · rw [parent?_of_le _ (by rw [size_append]; omega)] at hq
    cases hq

/-- What stands between a node and one below it is below it, too. -/
theorem under_of_le (h : t.InOrder) {top i j : Nat} (hi : t.Under top i)
    (htop : top ≤ j) (hj : j ≤ i) : t.Under top j := by
  induction i with
  | zero =>
    obtain rfl : j = 0 := by omega
    exact hi
  | succ i ih =>
    rcases Nat.eq_or_lt_of_le hj with rfl | hlt
    · exact hi
    · cases hi with
      | refl => omega
      | child hp hparent => exact ih (hp.trans (h i _ hparent)) (by omega)

/-- A pre-order goes through the array from the front to the back. -/
theorem sorted_preOrder (h : t.InOrder) (hwf : t.WellFormed) (top : Nat) :
    (t.preOrder top).Pairwise (· < ·) := by
  have hwithin : ∀ levels top, (t.preOrderWithin levels top).Pairwise (· < ·) := by
    intro levels
    induction levels with
    | zero => exact fun top => List.pairwise_singleton _ _
    | succ levels ih =>
      intro top
      refine List.pairwise_cons.2 ⟨?_, List.pairwise_flatMap.2 ⟨fun c _ => ih c, ?_⟩⟩
      · intro j hj
        obtain ⟨c, hc, hj⟩ := List.mem_flatMap.1 hj
        have hlt := (hwf.parent_lt (hwf.mem_children.1 hc)).1
        have hle := (mem_preOrderWithin hwf hj).le hwf
        omega
      · have hsorted : (t.childrenOf top).Pairwise (· < ·) := by
          rw [hwf.children]
          exact List.pairwise_lt_range.filter _
        refine hsorted.imp_of_mem fun {c d} hc hd hcd i hi j hj => ?_
        -- a node from `d` on that was below `c` would have `d` below `c`
        have hle := (mem_preOrderWithin hwf hj).le hwf
        by_contra hge
        refine not_under_of_siblings hwf (hwf.mem_children.1 hc) (hwf.mem_children.1 hd)
          (Nat.ne_of_lt hcd) ?_
        exact h.under_of_le (mem_preOrderWithin hwf hi) (Nat.le_of_lt hcd) (by omega)
  exact hwithin t.size top

/-- To walk depth first through the whole tree is to go through the array. -/
theorem walk_eq_range (h : t.InOrder) (hwf : t.WellFormed) :
    t.walkDepthFirst 0 (fun _ => true) none = List.range t.size := by
  rw [walkDepthFirst_eq hwf hwf.nonempty, List.filter_true]
  exact (perm_preOrder_root hwf).eq_of_pairwise
    (fun _ _ _ _ hij hji => absurd hij (Nat.lt_asymm hji)) (h.sorted_preOrder hwf 0)
    List.pairwise_lt_range

end InOrder

end Tree

end Admission
