import Admission.Proofs.Copies

/-!
# Filters

A filter goes down through the nodes that do not pass, and takes with it the place where the next
one that does is to be attached.  The selection says where that is: every selected node goes under
the nearest selected one above it.

* **the recursion unrolled** — `Tree.sift_eq` and `Tree.siftAll_eq`: what goes through a branch
  child by child adds those of its nodes that pass, in pre-order;
* **filtered trees** — `Tree.filter_eq_regrow`: the tree is made of the outline of the selection,
  and `Tree.filter_reattaches` says when there is one and what it shows.
-/

namespace Admission

namespace Tree

variable {V : Type} {t : Tree V} {keep : Nat → Bool} {above place : Nat → Nat}

/-! ## The recursion unrolled -/

/-- To sift several branches under a node is to add the nodes that pass, if it is so for each
branch. -/
theorem siftAll_eq {cs : List Nat} (target : Tree V) (parent : Nat)
    (hparent : ∀ c ∈ cs, above c = parent)
    (hnumbered : Numbered target.size ((cs.flatMap t.preOrder).filter keep) place)
    (heach : ∀ c ∈ cs, ∀ target : Tree V,
      Numbered target.size ((t.preOrder c).filter keep) place →
      sift t keep target (target.idOf (above c)) (t.branch c) =
        target.addWhole (((t.preOrder c).filter keep).map (t.cutting above))) :
    siftAll t keep target (target.idOf parent) (cs.map t.branch) =
      target.addWhole (((cs.flatMap t.preOrder).filter keep).map (t.cutting above)) := by
  induction cs generalizing target with
  | nil => rfl
  | cons c cs ih =>
    obtain ⟨hfirst, hparents⟩ := List.forall_mem_cons.1 hparent
    obtain ⟨hc, hcs⟩ := List.forall_mem_cons.1 heach
    rw [List.flatMap_cons, List.filter_append, numbered_append_iff] at hnumbered
    have hsift := hc target hnumbered.1
    rw [hfirst] at hsift
    rw [List.map_cons, siftAll, hsift, List.flatMap_cons, List.filter_append, List.map_append,
      addWhole_append]
    cases hadd : target.addWhole (((t.preOrder c).filter keep).map (t.cutting above)) with
    | error fault => rfl
    | ok u =>
      -- the next branch goes under the same node of what the tree has grown into
      obtain rfl := eq_appendAll_of_addWhole hadd
      have hsize := target.size_appendAll (((t.preOrder c).filter keep).map (t.cutting above))
      rw [List.length_map] at hsize
      have hrest := ih _ hparents (hsize ▸ hnumbered.2) hcs
      rw [idOf_appendAll] at hrest
      exact hrest

/-- To sift a branch is to add its nodes that pass, if each node goes where its parent stands, or
where its parent would have gone if that does not pass. -/
theorem sift_eq (hwf : t.WellFormed) (i : Nat)
    (habove : ∀ j c, t.Under i j → t.parent? c = some j →
      above c = if keep j then place j else above j)
    (target : Tree V) (hnumbered : Numbered target.size ((t.preOrder i).filter keep) place) :
    sift t keep target (target.idOf (above i)) (t.branch i) =
      target.addWhole (((t.preOrder i).filter keep).map (t.cutting above)) := by
  induction i using hwf.induction_below generalizing target with
  | _ i ih =>
    have hunder : ∀ c ∈ t.childrenOf i, t.Under i c :=
      fun c hc => .child .refl (hwf.mem_children.1 hc)
    have hbranches : ∀ (target : Tree V) (parent : Nat),
        (∀ c ∈ t.childrenOf i, above c = parent) →
        Numbered target.size (((t.childrenOf i).flatMap t.preOrder).filter keep) place →
        siftAll t keep target (target.idOf parent) ((t.childrenOf i).map t.branch) =
          target.addWhole
            ((((t.childrenOf i).flatMap t.preOrder).filter keep).map (t.cutting above)) :=
      fun target parent hparent hnumbered => siftAll_eq target parent hparent hnumbered
        fun c hc => ih c hc fun j d hj => habove j d ((hunder c hc).trans hj)
    have hchild : ∀ c ∈ t.childrenOf i, above c = if keep i then place i else above i :=
      fun c hc => habove i c .refl (hwf.mem_children.1 hc)
    rw [preOrder_eq hwf] at hnumbered ⊢
    rw [branch_eq hwf, sift]
    cases hkeep : keep i with
    | false =>
      -- the children go where the node would have gone
      rw [List.filter_cons_of_neg (by simp [hkeep])] at hnumbered ⊢
      rw [hkeep] at hchild
      exact hbranches target _ hchild hnumbered
    | true =>
      rw [List.filter_cons_of_pos hkeep] at hnumbered ⊢
      obtain ⟨hplace, hbelow⟩ := numbered_cons_iff.1 hnumbered
      rw [hkeep, if_pos rfl, hplace] at hchild
      rw [if_pos rfl, List.map_cons, addWhole_cons, cutting]
      dsimp only
      rcases hadd : target.addChild (target.idOf (above i)) (t.name i) (t.value? i)
        with ⟨fault | id, grown⟩
      · rfl
      · obtain ⟨p, -, -, rfl, rfl⟩ := target.addChild_eq_ok_iff.1 hadd
        rw [← size_append target p (t.name i) (t.value? i)] at hbelow
        exact hbranches _ _ hchild hbelow

/-! ## Filtered trees -/

/-- To filter a branch is to make a tree of the outline of its selection. -/
theorem filter_eq_regrow (hwf : t.WellFormed) (start id : Nat) (keep : Nat → Bool) :
    t.filter start id keep =
      regrow id start (t.selectionBelow start keep) (t.anchor? start keep) t.name t.value? := by
  have houtline := isOutline_selection hwf start keep
  let place := (start :: t.selectionBelow start keep).idxOf
  let above : Nat → Nat := fun i => ((t.anchor? start keep i).map place).getD 0
  have hchild : ∀ c ∈ t.childrenOf start, above c = 0 := by
    intro c hc
    change ((t.anchor? start keep c).map place).getD 0 = 0
    rw [anchor?_of_parent hwf .refl (hwf.mem_children.1 hc), stays_start, if_pos rfl]
    exact List.idxOf_cons_self
  have habove : ∀ c ∈ t.childrenOf start, ∀ j d, t.Under c j → t.parent? d = some j →
      above d = if keep j then place j else above j := by
    intro c hc j d hj hd
    have hunder := (Under.child .refl (hwf.mem_children.1 hc)).trans hj
    change ((t.anchor? start keep d).map place).getD 0 = _
    rw [anchor?_of_parent hwf hunder hd, stays_of_ne (ne_of_under_child hwf hc hj)]
    cases keep j <;> rfl
  have hbranches := siftAll_eq (Tree.new id (t.name start) (t.value? start)) 0 hchild
    (houtline.numbered (List.append_nil _).symm) fun c hc => sift_eq hwf c (habove c hc)
  rw [filter, branch_eq hwf]
  exact hbranches

/-- Where all nodes pass, a filter plants the branch again. -/
theorem filter_all (hwf : t.WellFormed) (start id : Nat) :
    t.filter start id (fun _ => true) = .ok (t.replant start id) := by
  rw [filter_eq_regrow hwf, anchor?_all hwf, selectionBelow, List.filter_true, regrow_own hwf]

/-- Only the start is anchored nowhere. -/
theorem eq_start_of_anchor? (hwf : t.WellFormed) {start c : Nat} (hc : t.Under start c)
    (h : t.anchor? start keep c = none) : c = start := by
  by_contra hne
  obtain ⟨a, -, hanchor, -⟩ := @exists_anchor? _ _ _ _ keep hwf hc hne
  rw [h] at hanchor
  cases hanchor

/-- **A filter attaches each node to the nearest one above it that is kept.**  Take any tree that
operations have made, a node of it to start from, and any condition.  The selection has the start
and, in pre-order, the nodes below it that pass; a node's anchor is the nearest node above it that
belongs to the selection.  The filter fails if and only if two selected nodes have one anchor and
one name; the fault then names the first one in pre-order that has the anchor and the name of one
before it, and this anchor.  Otherwise the nodes of the new tree are those of the selection, in
their order: each with its name and value and under its anchor, the start under nothing, and below
each node those that are anchored there.  Where all nodes pass, these are the nodes of a copy. -/
theorem filter_reattaches {V : Type} (t : Tree V) (h : t.Made) (start id id' : Nat)
    (keep : Nat → Bool) :
    ((∃ fault, t.filter start id keep = .error fault) ↔
        ∃ a, ∃ c ∈ t.selection start keep, ∃ d ∈ t.selection start keep, c ≠ d ∧
          t.anchor? start keep c = some a ∧ t.anchor? start keep d = some a ∧
          t.name c = t.name d) ∧
      (∀ fault, t.filter start id keep = .error fault →
        ∃ before c after a, t.selection start keep = before ++ c :: after ∧
          (∀ d ∈ before,
            ¬ Repeats (t.selection start keep) (t.anchor? start keep) t.name d) ∧
          Repeats (t.selection start keep) (t.anchor? start keep) t.name c ∧
          t.anchor? start keep c = some a ∧ fault = .nameTaken (t.name a) (t.name c)) ∧
      (∀ u, t.filter start id keep = .ok u →
        u.listing = (t.selection start keep).map (fun i =>
          ⟨t.name i, t.value? i,
            (t.anchor? start keep i).map (t.selection start keep).idxOf⟩) ∧
        ∀ i ∈ t.selection start keep,
          u.childrenOf ((t.selection start keep).idxOf i) =
            ((t.selection start keep).filter (t.anchor? start keep · = some i)).map
              (t.selection start keep).idxOf) ∧
      ∃ u, t.filter start id (fun _ => true) = .ok u ∧ u.nodes = (t.copy start id').nodes := by
  have hwf := h.wellFormed
  have houtline := isOutline_selection hwf start keep
  rw [filter_eq_regrow hwf start id keep, houtline.regrow_fails_iff, selection_eq hwf]
  refine ⟨?_, fun fault hfault => houtline.of_regrow_eq_error hfault, fun u hu => ?_, ?_⟩
  · constructor
    · rintro ⟨c, hc, d, hd, hne, hsame, hname⟩
      cases hanchor : t.anchor? start keep c with
      | some a => exact ⟨a, c, hc, d, hd, hne, hanchor, hsame.symm.trans hanchor, hname⟩
      | none =>
        -- only the start is anchored nowhere
        rw [← selection_eq hwf, mem_selection hwf] at hc hd
        rw [eq_start_of_anchor? hwf hc.1 hanchor,
          eq_start_of_anchor? hwf hd.1 (hsame.symm.trans hanchor)] at hne
        exact absurd rfl hne
    · rintro ⟨a, c, hc, d, hd, hne, hca, hda, hname⟩
      exact ⟨c, hc, d, hd, hne, hca.trans hda.symm, hname⟩
  · obtain ⟨hlisting, hchildren⟩ := houtline.of_regrow_eq_ok hu
    exact ⟨hlisting, fun i _ => hchildren i⟩
  · refine ⟨t.replant start id, filter_all hwf start id, ?_⟩
    rw [copy_eq_replant hwf, nodes_replant]

/-- Without the beds, the two white plants would both come under the garden; without the lilies,
theirs comes there alone. -/
theorem filter_reattaches_garden :
    garden.Made ∧
      (∃ fault, garden.filter 0 1 (fun i => i == 4 || i == 5) = .error fault) ∧
      ∃ u, garden.filter 0 1 (· != 2) = .ok u ∧
        u.listing = [⟨"garden", none, none⟩, ⟨"roses", some 7, some 0⟩, ⟨"red", some 7, some 1⟩,
          ⟨"white", some 5, some 1⟩, ⟨"white", some 7, some 0⟩] ∧
        u.childrenOf 0 = [1, 4] := by
  obtain ⟨hfails, -, -, -⟩ :=
    filter_reattaches garden made_garden 0 1 2 (fun i => i == 4 || i == 5)
  obtain ⟨-, -, hok, -⟩ := filter_reattaches garden made_garden 0 1 2 (· != 2)
  obtain ⟨hlisting, hchildren⟩ := hok _ rfl
  refine ⟨made_garden, hfails.2 ⟨0, 4, by decide, 5, by decide, by decide, by decide, by decide,
    by decide⟩, _, rfl, hlisting.trans rfl, ?_⟩
  exact (hchildren 0 (by decide)).trans (by decide)

end Tree

end Admission
