import Admission.Proofs.Arena
import Admission.Tree.Walk
import Mathlib.Data.List.Nodup
import Mathlib.Data.List.Perm.Subperm

/-!
# Depth first is pre-order

A depth-first walk works on a list of nodes that are still to come, in a number of steps.  What it
reports is told without either: a node, and then what its children report, one child after the
other.

* **pre-order** — `Tree.preOrder` lists a node and all that is below it; `Tree.preOrder_eq` is its
  equation, `Tree.mem_preOrder` and `Tree.nodup_preOrder` say that it holds each of these nodes
  once;
* **the walk** — `Tree.depthFirst_eq` carries the pending list through a walk down to any depth,
  `Tree.walkDepthFirst_eq` states the result without a limit, and `Tree.leaves_eq` draws it for the
  leaves.
-/

namespace Admission

namespace Tree

variable {V : Type}

/-- A node, and then the nodes below each of its children in turn, down to so many levels. -/
def preOrderWithin (t : Tree V) : Nat → Nat → List Nat
  | 0, i => [i]
  | levels + 1, i => i :: (t.childrenOf i).flatMap (t.preOrderWithin levels)

/-- A node, and then the nodes below each of its children in turn. -/
def preOrder (t : Tree V) (i : Nat) : List Nat := t.preOrderWithin t.size i

variable {t : Tree V}

/-! ## Pre-order -/

/-- Levels below the last node add nothing. -/
theorem preOrderWithin_succ (hwf : t.WellFormed) :
    ∀ (levels i : Nat), t.size ≤ i + levels →
      t.preOrderWithin (levels + 1) i = t.preOrderWithin levels i := by
  intro levels
  induction levels with
  | zero =>
    intro i hle
    rw [preOrderWithin, preOrderWithin, t.childrenOf_of_le (by omega)]
    rfl
  | succ levels ih =>
    intro i hle
    rw [preOrderWithin, preOrderWithin]
    congr 1
    refine List.flatMap_congr fun c hc => ?_
    have hlt := (hwf.parent_lt (hwf.mem_children.1 hc)).1
    exact ih c (by omega)

/-- A node, and then what is below its children. -/
theorem preOrder_eq (hwf : t.WellFormed) (i : Nat) :
    t.preOrder i = i :: (t.childrenOf i).flatMap t.preOrder := by
  calc t.preOrder i = t.preOrderWithin (t.size + 1) i :=
        (preOrderWithin_succ hwf t.size i (by omega)).symm
    _ = i :: (t.childrenOf i).flatMap t.preOrder := rfl

theorem mem_preOrderWithin (hwf : t.WellFormed) {levels top i : Nat}
    (h : i ∈ t.preOrderWithin levels top) : t.Under top i := by
  induction levels generalizing top with
  | zero =>
    rw [List.mem_singleton.1 h]
    exact .refl
  | succ levels ih =>
    rcases List.mem_cons.1 h with rfl | h
    · exact .refl
    · obtain ⟨c, hc, hi⟩ := List.mem_flatMap.1 h
      exact Under.trans (.child .refl (hwf.mem_children.1 hc)) (ih hi)

/-- The pre-order holds the node and all that is below it, and nothing else. -/
theorem mem_preOrder (hwf : t.WellFormed) {top i : Nat} :
    i ∈ t.preOrder top ↔ t.Under top i := by
  constructor
  · exact fun h => mem_preOrderWithin hwf h
  · intro h
    induction h with
    | refl =>
      rw [preOrder_eq hwf]
      exact List.mem_cons_self
    | @child j c hj hc ih =>
      -- where `j` stands, its children follow
      have hstep : ∀ levels top, j ∈ t.preOrderWithin levels top →
          c ∈ t.preOrderWithin (levels + 1) top := by
        intro levels
        induction levels with
        | zero =>
          intro top hmem
          cases List.mem_singleton.1 hmem
          refine List.mem_cons_of_mem _ (List.mem_flatMap.2 ⟨c, hwf.mem_children.2 hc, ?_⟩)
          exact List.mem_singleton_self c
        | succ levels ihl =>
          intro top hmem
          rcases List.mem_cons.1 hmem with rfl | hmem
          · refine List.mem_cons_of_mem _ (List.mem_flatMap.2 ⟨c, hwf.mem_children.2 hc, ?_⟩)
            exact List.mem_cons_self
          · obtain ⟨d, hd, hjd⟩ := List.mem_flatMap.1 hmem
            exact List.mem_cons_of_mem _ (List.mem_flatMap.2 ⟨d, hd, ihl d hjd⟩)
      have hnext := hstep t.size top ih
      rwa [preOrderWithin_succ hwf t.size top (by omega)] at hnext

/-- A sibling is not below a sibling, since its only parent comes before both. -/
theorem not_under_of_siblings (hwf : t.WellFormed) {i c d : Nat} (hc : t.parent? c = some i)
    (hd : t.parent? d = some i) (hne : c ≠ d) : ¬ t.Under c d := by
  intro hunder
  cases hunder with
  | refl => exact hne rfl
  | child hunder hd' =>
    rw [hd] at hd'
    cases hd'
    have hle := hunder.le hwf
    have hlt := (hwf.parent_lt hc).1
    omega

/-- What is below two children of a node has nothing in common. -/
theorem disjoint_preOrderWithin (hwf : t.WellFormed) {levels i c d : Nat}
    (hc : t.parent? c = some i) (hd : t.parent? d = some i) (hne : c ≠ d) :
    List.Disjoint (t.preOrderWithin levels c) (t.preOrderWithin levels d) := by
  intro j hjc hjd
  rcases (mem_preOrderWithin hwf hjc).total (mem_preOrderWithin hwf hjd) with hcd | hdc
  · exact not_under_of_siblings hwf hc hd hne hcd
  · exact not_under_of_siblings hwf hd hc hne.symm hdc

theorem nodup_preOrderWithin (hwf : t.WellFormed) :
    ∀ levels i, (t.preOrderWithin levels i).Nodup := by
  intro levels
  induction levels with
  | zero => exact fun i => List.nodup_singleton i
  | succ levels ih =>
    intro i
    have hparent : ∀ c ∈ t.childrenOf i, t.parent? c = some i := fun c => hwf.mem_children.1
    have hnodup := hwf.nodup_children i
    refine List.nodup_cons.2 ⟨?_, List.nodup_flatMap.2 ⟨fun c _ => ih c, ?_⟩⟩
    · intro hmem
      obtain ⟨c, hc, hi⟩ := List.mem_flatMap.1 hmem
      have hle := (mem_preOrderWithin hwf hi).le hwf
      have hlt := (hwf.parent_lt (hparent c hc)).1
      omega
    · refine hnodup.imp_of_mem fun hc hd hne => ?_
      exact disjoint_preOrderWithin hwf (hparent _ hc) (hparent _ hd) hne

/-- No node stands twice in a pre-order. -/
theorem nodup_preOrder (hwf : t.WellFormed) (i : Nat) : (t.preOrder i).Nodup :=
  nodup_preOrderWithin hwf t.size i

/-- A pre-order, down to whatever level, is not longer than the tree is large. -/
theorem length_preOrderWithin_le (hwf : t.WellFormed) {i : Nat} (hi : i < t.size) (levels : Nat) :
    (t.preOrderWithin levels i).length ≤ t.size := by
  have hsub : t.preOrderWithin levels i ⊆ List.range t.size := by
    intro j hj
    exact List.mem_range.2 ((mem_preOrderWithin hwf hj).lt_size hwf hi)
  calc (t.preOrderWithin levels i).length ≤ (List.range t.size).length :=
        ((nodup_preOrderWithin hwf levels i).subperm hsub).length_le
    _ = t.size := List.length_range

/-- The pre-order from the root holds every node once. -/
theorem perm_preOrder_root (hwf : t.WellFormed) : (t.preOrder 0).Perm (List.range t.size) := by
  refine (List.perm_ext_iff_of_nodup (nodup_preOrder hwf 0) List.nodup_range).2 fun i => ?_
  rw [mem_preOrder hwf, List.mem_range]
  exact ⟨fun hunder => hunder.lt_size hwf hwf.nonempty, Under.root hwf i⟩

/-! ## The walk -/

/-- What a walk has before it at a node that is so far from the start: the node and what is below
it, as far down as the walk may go. -/
def ahead (t : Tree V) (maxDepth : Option Nat) (n : Nat × Nat) : List Nat :=
  match maxDepth with
  | none => t.preOrder n.1
  | some d => t.preOrderWithin (d - n.2) n.1

theorem nextDown_of_all {maxDepth : Option Nat} {depth : Nat} (h : maxDepth.all (depth < ·) = true)
    (i : Nat) : t.nextDown maxDepth i depth = (t.childrenOf i).map (·, depth + 1) := if_pos h

theorem nextDown_of_le {d depth : Nat} (h : d ≤ depth) (i : Nat) :
    t.nextDown (some d) i depth = [] := if_neg (by simpa using h)

theorem ahead_eq (hwf : t.WellFormed) (maxDepth : Option Nat) (i depth : Nat) :
    t.ahead maxDepth (i, depth) =
      i :: (t.nextDown maxDepth i depth).flatMap (t.ahead maxDepth) := by
  cases maxDepth with
  | none =>
    rw [nextDown_of_all rfl, List.flatMap_map]
    exact preOrder_eq hwf i
  | some d =>
    rcases Nat.lt_or_ge depth d with hlt | hge
    · have hmay : (some d).all (depth < ·) = true := decide_eq_true hlt
      obtain ⟨levels, hlevels⟩ : ∃ levels, d - depth = levels + 1 := ⟨d - depth - 1, by omega⟩
      have hbelow : d - (depth + 1) = levels := by omega
      rw [nextDown_of_all hmay, List.flatMap_map, ahead, hlevels, preOrderWithin]
      simp only [ahead, hbelow]
    · have hlevels : d - depth = 0 := by omega
      rw [nextDown_of_le hge, ahead, hlevels]
      rfl

/-- A walk reports what it has before it at its pending nodes, if it has the steps. -/
theorem depthFirst_eq (hwf : t.WellFormed) (keep : Nat → Bool) (maxDepth : Option Nat) :
    ∀ (steps : Nat) (pending : List (Nat × Nat)),
      (pending.flatMap (t.ahead maxDepth)).length ≤ steps →
        t.depthFirst keep maxDepth steps pending =
          (pending.flatMap (t.ahead maxDepth)).filter keep := by
  intro steps
  induction steps with
  | zero =>
    intro pending hle
    have hnil : pending.flatMap (t.ahead maxDepth) = [] :=
      List.eq_nil_of_length_eq_zero (by omega)
    rw [hnil, depthFirst]
    rfl
  | succ steps ih =>
    intro pending hle
    rcases pending with _ | ⟨⟨i, depth⟩, pending⟩
    · rfl
    · -- the children take the place of the node at the front of the pending list
      have hall : ((i, depth) :: pending).flatMap (t.ahead maxDepth) =
          i :: (t.nextDown maxDepth i depth ++ pending).flatMap (t.ahead maxDepth) := by
        rw [List.flatMap_cons, ahead_eq hwf, List.flatMap_append, List.cons_append]
      rw [hall, List.length_cons] at hle
      rw [depthFirst, hall, List.filter_cons, ih _ (by omega)]

/-- What a walk has before it at its start is not more than the tree. -/
theorem length_ahead_start_le (hwf : t.WellFormed) {start : Nat} (hstart : start < t.size)
    (maxDepth : Option Nat) : (t.ahead maxDepth (start, 0)).length ≤ t.size := by
  cases maxDepth <;> exact length_preOrderWithin_le hwf hstart _

/-- As many steps as there are nodes bring a walk to its end, and more make no difference. -/
theorem depthFirst_start (hwf : t.WellFormed) {start : Nat} (hstart : start < t.size)
    (keep : Nat → Bool) (maxDepth : Option Nat) {steps : Nat} (hsteps : t.size ≤ steps) :
    t.depthFirst keep maxDepth steps [(start, 0)] =
      (t.ahead maxDepth (start, 0)).filter keep := by
  have hlength := (length_ahead_start_le hwf hstart maxDepth).trans hsteps
  rw [← List.flatMap_singleton (t.ahead maxDepth)] at hlength ⊢
  exact depthFirst_eq hwf keep maxDepth steps [(start, 0)] hlength

/-- **A depth-first walk reports the pre-order**, less what its filter keeps back. -/
theorem walkDepthFirst_eq (hwf : t.WellFormed) {start : Nat} (hstart : start < t.size)
    (keep : Nat → Bool) :
    t.walkDepthFirst start keep none = (t.preOrder start).filter keep :=
  depthFirst_start hwf hstart keep none le_rfl

/-- The leaves are the childless nodes in pre-order. -/
theorem leaves_eq (hwf : t.WellFormed) : t.leaves = (t.preOrder 0).filter t.isLeaf :=
  walkDepthFirst_eq hwf hwf.nonempty t.isLeaf

/-- The leaves are all nodes without children. -/
theorem mem_leaves (hwf : t.WellFormed) {i : Nat} :
    i ∈ t.leaves ↔ i < t.size ∧ t.childrenOf i = [] := by
  rw [leaves_eq hwf, List.mem_filter, mem_preOrder hwf, isLeaf, List.isEmpty_iff]
  constructor
  · rintro ⟨hunder, hleaf⟩
    exact ⟨hunder.lt_size hwf hwf.nonempty, hleaf⟩
  · rintro ⟨hlt, hleaf⟩
    exact ⟨Under.root hwf i hlt, hleaf⟩

end Tree

end Admission
