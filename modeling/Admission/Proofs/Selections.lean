import Admission.Proofs.Outlines
import Admission.Proofs.PreOrder

/-!
# Selections

Of a node and all below it some are selected.  Each of them has a nearest selected node above it,
and in pre-order it comes after that node: selected nodes are an outline.

* **induction** — `Tree.WellFormed.induction_below` proves a fact of a node from the same fact of
  its children, `Tree.branch_eq` is the equation of a branch for it, and
  `Tree.pairwise_preOrder` says that a pre-order goes downwards;
* **selections** — `Tree.selection` lists the selected nodes, `Tree.anchor?` is the nearest one
  above, `Tree.anchor?_of_parent` goes one node down, and `Tree.isOutline_selection` is the
  outline;
* **whole branches** — where all nodes are selected, the nearest one above is the parent
  (`Tree.anchor?_all`), and `Tree.filter_parent?_preOrder` finds the children of a node in their
  order.
-/

namespace Admission

namespace Tree

variable {V : Type} {t : Tree V}

/-! ## Induction -/

/-- What holds of each node of whose children it holds, holds of all nodes. -/
theorem WellFormed.induction_below (hwf : t.WellFormed) {motive : Nat → Prop}
    (h : ∀ i, (∀ c ∈ t.childrenOf i, motive c) → motive i) (i : Nat) : motive i := by
  induction hleft : t.size - i using Nat.strong_induction_on generalizing i with
  | _ left ih =>
    refine h i fun c hc => ih (t.size - c) ?_ c rfl
    have := hwf.parent_lt (hwf.mem_children.1 hc)
    omega

/-- Levels below the last node add nothing. -/
theorem branchWithin_succ (hwf : t.WellFormed) :
    ∀ (levels i : Nat), t.size ≤ i + levels →
      t.branchWithin (levels + 1) i = t.branchWithin levels i := by
  intro levels
  induction levels with
  | zero =>
    intro i hle
    rw [branchWithin, branchWithin, t.childrenOf_of_le (by omega)]
    rfl
  | succ levels ih =>
    intro i hle
    rw [branchWithin, branchWithin]
    congr 1
    refine List.map_congr_left fun c hc => ?_
    have hlt := (hwf.parent_lt (hwf.mem_children.1 hc)).1
    exact ih c (by omega)

/-- A branch starts at its node and goes on with those at the children. -/
theorem branch_eq (hwf : t.WellFormed) (i : Nat) :
    t.branch i = .mk i ((t.childrenOf i).map t.branch) := by
  calc t.branch i = t.branchWithin (t.size + 1) i :=
        (branchWithin_succ hwf t.size i (by omega)).symm
    _ = .mk i ((t.childrenOf i).map t.branch) := rfl

/-- In a pre-order no node is above one before it. -/
theorem pairwise_preOrder (hwf : t.WellFormed) (top : Nat) :
    (t.preOrder top).Pairwise fun i j => ¬ t.Under j i := by
  induction top using hwf.induction_below with
  | _ top ih =>
    rw [preOrder_eq hwf]
    refine List.pairwise_cons.2 ⟨?_, List.pairwise_flatMap.2 ⟨ih, ?_⟩⟩
    · intro j hj hunder
      obtain ⟨c, hc, hj⟩ := List.mem_flatMap.1 hj
      have hlt := (hwf.parent_lt (hwf.mem_children.1 hc)).1
      have hle := ((mem_preOrder hwf).1 hj).le hwf
      have hle' := hunder.le hwf
      omega
    · refine (hwf.nodup_children top).imp_of_mem fun {c d} hc hd hne i hi j hj hunder => ?_
      -- a node above one below `c` would have `d`, too, above that one
      have hd' := ((mem_preOrder hwf).1 hj).trans hunder
      have hsibling := not_under_of_siblings hwf (hwf.mem_children.1 hc) (hwf.mem_children.1 hd)
      have hsibling' := not_under_of_siblings hwf (hwf.mem_children.1 hd) (hwf.mem_children.1 hc)
      exact (((mem_preOrder hwf).1 hi).total hd').elim (hsibling hne) (hsibling' hne.symm)

/-! ## Selections -/

/-- Whether a node is selected: the start is, and any other one that passes. -/
def stays (start : Nat) (keep : Nat → Bool) (i : Nat) : Bool := i == start || keep i

/-- The selected nodes at or below `start`, in pre-order. -/
def selection (t : Tree V) (start : Nat) (keep : Nat → Bool) : List Nat :=
  (t.preOrder start).filter (stays start keep)

/-- The nearest selected node above a node; there is none above the start. -/
def anchor? (t : Tree V) (start : Nat) (keep : Nat → Bool) (i : Nat) : Option Nat :=
  if i = start then none else (t.ancestors i).find? (stays start keep)

/-- The selected nodes below `start`. -/
def selectionBelow (t : Tree V) (start : Nat) (keep : Nat → Bool) : List Nat :=
  ((t.childrenOf start).flatMap t.preOrder).filter keep

section

variable {start i c : Nat} {keep : Nat → Bool}

theorem stays_start (start : Nat) (keep : Nat → Bool) : stays start keep start = true := by
  rw [stays, beq_self_eq_true, Bool.true_or]

theorem stays_of_ne (h : i ≠ start) : stays start keep i = keep i := by
  rw [stays, beq_false_of_ne h, Bool.false_or]

/-- What is below a child of the start is not the start. -/
theorem ne_of_under_child (hwf : t.WellFormed) (hc : c ∈ t.childrenOf start) (h : t.Under c i) :
    i ≠ start := by
  have hlt := (hwf.parent_lt (hwf.mem_children.1 hc)).1
  have hle := h.le hwf
  omega

theorem selection_eq (hwf : t.WellFormed) (start : Nat) (keep : Nat → Bool) :
    t.selection start keep = start :: t.selectionBelow start keep := by
  rw [selection, preOrder_eq hwf, List.filter_cons_of_pos (stays_start start keep), selectionBelow]
  refine congrArg (start :: ·) (List.filter_congr fun i hi => ?_)
  obtain ⟨c, hc, hi⟩ := List.mem_flatMap.1 hi
  exact stays_of_ne (ne_of_under_child hwf hc ((mem_preOrder hwf).1 hi))

theorem mem_selection (hwf : t.WellFormed) :
    i ∈ t.selection start keep ↔ t.Under start i ∧ stays start keep i = true := by
  rw [selection, List.mem_filter, mem_preOrder hwf]

theorem anchor?_start (t : Tree V) (start : Nat) (keep : Nat → Bool) :
    t.anchor? start keep start = none := if_pos rfl

/-- A node is anchored at its parent if that is selected, and otherwise where its parent is. -/
theorem anchor?_of_parent (hwf : t.WellFormed) (hi : t.Under start i) (hc : t.parent? c = some i) :
    t.anchor? start keep c =
      if stays start keep i then some i else t.anchor? start keep i := by
  have hne : c ≠ start := by
    have hle := hi.le hwf
    have hlt := (hwf.parent_lt hc).1
    omega
  rw [anchor?, if_neg hne, hwf.ancestors_of_parent hc, List.find?_cons]
  cases hstays : stays start keep i with
  | true => rfl
  | false =>
    have hi : i ≠ start := by
      rintro rfl
      rw [stays_start] at hstays
      cases hstays
    rw [if_neg Bool.false_ne_true, anchor?, if_neg hi]

/-- Every node below the start has a selected node above it. -/
theorem exists_anchor? (hwf : t.WellFormed) (hi : t.Under start i) (hne : i ≠ start) :
    ∃ a ∈ t.selection start keep, t.anchor? start keep i = some a ∧ t.Under a i ∧ a ≠ i := by
  induction hi with
  | refl => exact absurd rfl hne
  | @child i c hi hc ih =>
    have hlt := (hwf.parent_lt hc).1
    rw [anchor?_of_parent hwf hi hc]
    cases hstays : stays start keep i with
    | true =>
      exact ⟨i, (mem_selection hwf).2 ⟨hi, hstays⟩, rfl, .child .refl hc, Nat.ne_of_lt hlt⟩
    | false =>
      have hi : i ≠ start := by
        rintro rfl
        rw [stays_start] at hstays
        cases hstays
      obtain ⟨a, ha, hanchor, hunder, -⟩ := ih hi
      refine ⟨a, ha, hanchor, .child hunder hc, ?_⟩
      have hle := hunder.le hwf
      omega

/-- **Selected nodes are an outline**: each comes after the nearest selected node above it. -/
theorem isOutline_selection (hwf : t.WellFormed) (start : Nat) (keep : Nat → Bool) :
    IsOutline start (t.selectionBelow start keep) (t.anchor? start keep) := by
  have hnodup : (t.selection start keep).Nodup := (nodup_preOrder hwf start).filter _
  have hdown : (t.selection start keep).Pairwise fun i j => ¬ t.Under j i :=
    (pairwise_preOrder hwf start).filter _
  refine ⟨selection_eq hwf start keep ▸ hnodup, t.anchor?_start start keep, fun c hc => ?_⟩
  rw [← selection_eq hwf]
  have hmem : c ∈ t.selection start keep := by
    rw [selection_eq hwf]
    exact List.mem_cons_of_mem _ hc
  have hne : c ≠ start := by
    rw [selection_eq hwf] at hnodup
    rintro rfl
    exact (List.nodup_cons.1 hnodup).1 hc
  obtain ⟨a, ha, hanchor, hunder, hac⟩ :=
    exists_anchor? hwf ((mem_selection hwf).1 hmem).1 hne
  refine ⟨a, ha, hanchor, ?_⟩
  rcases Nat.lt_trichotomy ((t.selection start keep).idxOf a) ((t.selection start keep).idxOf c)
    with hlt | heq | hgt
  · exact hlt
  · exact absurd ((List.idxOf_inj ha).1 heq) hac
  · have hpair := List.pairwise_iff_getElem.1 hdown _ _ (List.idxOf_lt_length_of_mem hmem)
      (List.idxOf_lt_length_of_mem ha) hgt
    rw [List.getElem_idxOf, List.getElem_idxOf] at hpair
    exact absurd hunder hpair

end

/-! ## Whole branches -/

theorem stays_all (start i : Nat) : stays start (fun _ => true) i = true := Bool.or_true _

/-- The parent of a node at or below `start`; that of the start itself does not count. -/
def parentWithin (t : Tree V) (start i : Nat) : Option Nat :=
  if i = start then none else t.parent? i

theorem parentWithin_eq_some_iff {start i c : Nat} :
    t.parentWithin start c = some i ↔ c ≠ start ∧ t.parent? c = some i := by
  rw [parentWithin]
  split
  · next h => simp [h]
  · next h => simp [h]

theorem parentWithin_of_parent (hwf : t.WellFormed) {start i c : Nat} (hi : t.Under start i)
    (hc : t.parent? c = some i) : t.parentWithin start c = some i := by
  have hle := hi.le hwf
  have hlt := (hwf.parent_lt hc).1
  exact parentWithin_eq_some_iff.2 ⟨by omega, hc⟩

/-- Every node below the start has its parent at or below the start. -/
theorem under_of_parentWithin {start i c : Nat} (hc : t.Under start c)
    (h : t.parentWithin start c = some i) : t.Under start i := by
  obtain ⟨hne, hp⟩ := parentWithin_eq_some_iff.1 h
  cases hc with
  | refl => exact absurd rfl hne
  | child hunder hp' =>
    rw [hp'] at hp
    cases hp
    exact hunder

theorem eq_start_of_parentWithin {start c : Nat} (hc : t.Under start c)
    (h : t.parentWithin start c = none) : c = start := by
  by_contra hne
  rw [parentWithin, if_neg hne] at h
  cases hc with
  | refl => exact hne rfl
  | child _ hp =>
    rw [h] at hp
    cases hp

/-- Two nodes of a branch with one parent and one name are two children of a node in it. -/
theorem exists_siblings_iff (hwf : t.WellFormed) {start : Nat} {names : Nat → String} :
    (∃ c ∈ t.preOrder start, ∃ d ∈ t.preOrder start,
        c ≠ d ∧ t.parentWithin start c = t.parentWithin start d ∧ names c = names d) ↔
      ∃ i c d, t.Under start i ∧ c ∈ t.childrenOf i ∧ d ∈ t.childrenOf i ∧ c ≠ d ∧
        names c = names d := by
  constructor
  · rintro ⟨c, hc, d, hd, hne, hsame, hname⟩
    have hc := (mem_preOrder hwf).1 hc
    have hd := (mem_preOrder hwf).1 hd
    cases hparent : t.parentWithin start c with
    | none =>
      -- only the start is under nothing
      rw [hparent] at hsame
      rw [eq_start_of_parentWithin hc hparent, eq_start_of_parentWithin hd hsame.symm] at hne
      exact absurd rfl hne
    | some i =>
      have hcp := (parentWithin_eq_some_iff.1 hparent).2
      have hdp := (parentWithin_eq_some_iff.1 (hsame.symm.trans hparent)).2
      exact ⟨i, c, d, under_of_parentWithin hc hparent, hwf.mem_children.2 hcp,
        hwf.mem_children.2 hdp, hne, hname⟩
  · rintro ⟨i, c, d, hi, hc, hd, hne, hname⟩
    have hcp := hwf.mem_children.1 hc
    have hdp := hwf.mem_children.1 hd
    refine ⟨c, (mem_preOrder hwf).2 (.child hi hcp), d, (mem_preOrder hwf).2 (.child hi hdp), hne,
      ?_, hname⟩
    rw [parentWithin_of_parent hwf hi hcp, parentWithin_of_parent hwf hi hdp]

/-- Where all nodes are selected, a node is anchored at its parent. -/
theorem anchor?_all (hwf : t.WellFormed) (start : Nat) :
    t.anchor? start (fun _ => true) = t.parentWithin start := by
  funext i
  rw [anchor?, parentWithin]
  split
  · rfl
  · cases hp : t.parent? i with
    | none => rw [ancestors_of_isRoot (isRoot_iff.2 hp), List.find?_nil]
    | some p =>
      rw [hwf.ancestors_of_parent hp, List.find?_cons_of_pos (stays_all start p)]

/-- A whole branch is an outline: its node, and then the nodes below each child, under their
parents. -/
theorem isOutline_preOrder (hwf : t.WellFormed) (start : Nat) :
    IsOutline start ((t.childrenOf start).flatMap t.preOrder) (t.parentWithin start) := by
  have h := isOutline_selection hwf start fun _ => true
  rwa [anchor?_all hwf, selectionBelow, List.filter_true] at h

/-- The pre-order of a node below another one is a part of the other's. -/
theorem infix_preOrder (hwf : t.WellFormed) {top i : Nat} (h : t.Under top i) :
    t.preOrder i <:+: t.preOrder top := by
  induction h with
  | refl => exact List.infix_rfl
  | @child i c _ hc ih =>
    refine List.IsInfix.trans ?_ ih
    rw [preOrder_eq hwf i]
    exact (List.infix_flatMap_of_mem (hwf.mem_children.2 hc) t.preOrder).trans
      (List.suffix_cons i _).isInfix

/-- In its own pre-order, the nodes with a node for their parent are its children. -/
theorem filter_parent?_preOrder_self (hwf : t.WellFormed) (i : Nat) :
    (t.preOrder i).filter (t.parent? · = some i) = t.childrenOf i := by
  have hself : ¬ t.parent? i = some i := fun hp => Nat.lt_irrefl i (hwf.parent_lt hp).1
  have hchild : ∀ c ∈ t.childrenOf i, (t.preOrder c).filter (t.parent? · = some i) = [c] := by
    intro c hc
    have hp := hwf.mem_children.1 hc
    rw [preOrder_eq hwf, List.filter_cons_of_pos (by simpa using hp), List.filter_eq_nil_iff.2]
    intro j hj hij
    obtain ⟨d, hd, hj⟩ := List.mem_flatMap.1 hj
    -- `i` comes before `c`, and what is below `d` has a parent that does not
    have hlt := (hwf.parent_lt hp).1
    have hdp := hwf.mem_children.1 hd
    have hlt' := (hwf.parent_lt hdp).1
    have hij : t.parent? j = some i := by simpa using hij
    cases (mem_preOrder hwf).1 hj with
    | refl =>
      rw [hdp] at hij
      cases hij
      omega
    | child hunder hparent =>
      rw [hparent] at hij
      cases hij
      have hle := hunder.le hwf
      omega
  rw [preOrder_eq hwf, List.filter_cons_of_neg (by simpa using hself), List.filter_flatMap,
    List.flatMap_congr hchild, List.flatMap_singleton']

/-- In a pre-order, the nodes with a node of it for their parent are the children of that node, in
their order. -/
theorem filter_parent?_preOrder (hwf : t.WellFormed) {top i : Nat} (h : t.Under top i) :
    (t.preOrder top).filter (t.parent? · = some i) = t.childrenOf i := by
  obtain ⟨before, after, hsplit⟩ := infix_preOrder hwf h
  have hnodup := nodup_preOrder hwf top
  rw [← hsplit, List.nodup_append, List.nodup_append] at hnodup
  obtain ⟨⟨-, -, hbefore⟩, -, hafter⟩ := hnodup
  have hin : ∀ c, t.parent? c = some i → c ∈ t.preOrder i :=
    fun c hc => (mem_preOrder hwf).2 (.child .refl hc)
  have hfirst : before.filter (t.parent? · = some i) = [] := by
    refine List.filter_eq_nil_iff.2 fun c hc hp => ?_
    exact hbefore c hc c (hin c (by simpa using hp)) rfl
  have hlast : after.filter (t.parent? · = some i) = [] := by
    refine List.filter_eq_nil_iff.2 fun c hc hp => ?_
    exact hafter c (List.mem_append_right _ (hin c (by simpa using hp))) c hc rfl
  rw [← hsplit, List.filter_append, List.filter_append, hfirst, hlast, List.nil_append,
    List.append_nil, filter_parent?_preOrder_self hwf]

theorem filter_parentWithin (hwf : t.WellFormed) {start i : Nat} (h : t.Under start i) :
    (t.preOrder start).filter (t.parentWithin start · = some i) = t.childrenOf i := by
  rw [← filter_parent?_preOrder hwf h]
  refine List.filter_congr fun c hc => decide_eq_decide.2 ?_
  rw [parentWithin_eq_some_iff, and_iff_right_iff_imp]
  rintro hp rfl
  have hle := h.le hwf
  have hlt := (hwf.parent_lt hp).1
  omega

end Tree

end Admission
