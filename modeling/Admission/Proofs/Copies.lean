import Admission.Proofs.Images
import Admission.Tree.Same

/-!
# Copies

A copy appends the nodes of a branch from a list of those that wait, and looks at no name.  A
mapping goes through the branch child by child and looks at every name.  With the own names and
values of the nodes both come to the same.

* **the loop** — `Tree.replant` appends the images of a pre-order under their own names, and
  `Tree.copyPending_eq` says that the waiting nodes are worked off in this order;
* **the mapping** — `Tree.transform_own`: no name is taken, because siblings differ already;
* **equal trees** — `Tree.sameBranch_branch_iff` says when two branches are equal.  `Tree.Mirrors`
  says that a tree has the nodes of another one at other places, and `Tree.sameBranch_iff` that it
  is equal to this one as far as values are equal to themselves.
-/

namespace Admission

namespace Tree

variable {V : Type} {t : Tree V} {start : Nat}

/-! ## The loop -/

/-- What is added for a node when it keeps its name and value. -/
def cutting (t : Tree V) (above : Nat → Nat) (i : Nat) : Shoot V := ⟨above i, t.name i, t.value? i⟩

/-- The branch at `start` as a tree of its own, node after node in pre-order. -/
def replant (t : Tree V) (start id : Nat) : Tree V :=
  (Tree.new id (t.name start) (t.value? start)).appendAll
    (((t.childrenOf start).flatMap t.preOrder).map
      (image (t.preOrder start).idxOf (t.parentWithin start) t.name t.value?))

/-- With enough steps, all waiting nodes are appended, each followed by what is below it. -/
theorem copyPending_eq (hwf : t.WellFormed) {above place : Nat → Nat}
    (habove : ∀ i c, t.Under start i → t.parent? c = some i → above c = place i) :
    ∀ (steps : Nat) {pending : List (Nat × Nat)} {target : Tree V},
      (pending.flatMap fun n => t.preOrder n.1).length ≤ steps →
      Numbered target.size (pending.flatMap fun n => t.preOrder n.1) place →
      (∀ n ∈ pending, t.Under start n.1 ∧ above n.1 = n.2) →
      t.copyPending steps pending target =
        target.appendAll ((pending.flatMap fun n => t.preOrder n.1).map (t.cutting above)) := by
  intro steps
  induction steps with
  | zero =>
    intro pending target hsteps _ _
    rw [List.eq_nil_of_length_eq_zero (Nat.le_zero.1 hsteps), copyPending]
    rfl
  | succ steps ih =>
    intro pending target hsteps hnumbered hpending
    cases pending with
    | nil => rfl
    | cons n pending =>
      obtain ⟨i, parent⟩ := n
      obtain ⟨⟨hi, hparent⟩, hlater⟩ := List.forall_mem_cons.1 hpending
      obtain rfl : above i = parent := hparent
      -- what waits next: the children, and then what has waited behind the node
      have hnext : ((t.childrenOf i).map (·, target.size) ++ pending).flatMap
          (fun n => t.preOrder n.1) =
            (t.childrenOf i).flatMap t.preOrder ++ pending.flatMap fun n => t.preOrder n.1 := by
        rw [List.flatMap_append, List.flatMap_map]
      rw [List.flatMap_cons, preOrder_eq hwf, List.cons_append, ← hnext] at hsteps hnumbered ⊢
      obtain ⟨hplace, hrest⟩ := numbered_cons_iff.1 hnumbered
      rw [← size_append target (above i) (t.name i) (t.value? i)] at hrest
      rw [copyPending, List.map_cons, appendAll_cons]
      refine ih (Nat.le_of_succ_le_succ hsteps) hrest fun m hm => ?_
      rcases List.mem_append.1 hm with hm | hm
      · obtain ⟨c, hc, rfl⟩ := List.mem_map.1 hm
        have hc := hwf.mem_children.1 hc
        exact ⟨.child hi hc, (habove i c hi hc).trans hplace⟩
      · exact hlater m hm

/-- A copy is the branch planted again. -/
theorem copy_eq_replant (hwf : t.WellFormed) (start id : Nat) :
    t.copy start id = t.replant start id := by
  have hpending : ((t.childrenOf start).map (·, 0)).flatMap (fun n => t.preOrder n.1) =
      (t.childrenOf start).flatMap t.preOrder := by
    rw [List.flatMap_map]
  have hsteps : ((t.childrenOf start).flatMap t.preOrder).length ≤ t.size := by
    rcases Nat.lt_or_ge start t.size with hlt | hge
    · have hlength : (t.preOrder start).length ≤ t.size := length_preOrderWithin_le hwf hlt _
      rw [preOrder_eq hwf, List.length_cons] at hlength
      omega
    · rw [t.childrenOf_of_le hge]
      exact Nat.zero_le _
  have hnumbered : Numbered (Tree.new id (t.name start) (t.value? start)).size
      ((t.childrenOf start).flatMap t.preOrder) (t.preOrder start).idxOf := by
    have h := (isOutline_preOrder hwf start).numbered (List.append_nil _).symm
    rwa [← preOrder_eq hwf] at h
  have habove : ∀ i c, t.Under start i → t.parent? c = some i →
      ((t.parentWithin start c).map (t.preOrder start).idxOf).getD 0 =
        (t.preOrder start).idxOf i := by
    intro i c hi hc
    rw [parentWithin_of_parent hwf hi hc]
    rfl
  rw [← hpending] at hsteps hnumbered
  rw [copy, replant, copyPending_eq hwf habove t.size hsteps hnumbered, hpending]
  · rfl
  · intro n hn
    obtain ⟨c, hc, rfl⟩ := List.mem_map.1 hn
    have hc := hwf.mem_children.1 hc
    refine ⟨.child .refl hc, (habove start c .refl hc).trans ?_⟩
    rw [preOrder_eq hwf, List.idxOf_cons_self]

/-! ## The mapping -/

/-- With its own name, no node has the name and the parent of one before it. -/
theorem not_repeats_own (hwf : t.WellFormed) {c : Nat} (hc : c ∈ t.preOrder start) :
    ¬ Repeats (t.preOrder start) (t.parentWithin start) t.name c := by
  intro hrepeats
  obtain ⟨i, c, d, -, hc, hd, hne, hname⟩ :=
    (exists_siblings_iff hwf).1 (exists_repeats_iff.1 ⟨c, hc, hrepeats⟩)
  exact hne (hwf.names i c d (hwf.mem_children.1 hc) (hwf.mem_children.1 hd) hname)

/-- What becomes of the outline of a branch under its own names. -/
theorem regrow_own (hwf : t.WellFormed) (start id : Nat) :
    regrow id start ((t.childrenOf start).flatMap t.preOrder) (t.parentWithin start) t.name
      t.value? = .ok (t.replant start id) := by
  rcases @IsOutline.regrow_cases _ _ _ _ t.name t.value? (isOutline_preOrder hwf start) id with
    ⟨-, hok⟩ | ⟨done, c, rest, a, hsplit, -, hrepeats, -⟩
  · rw [hok, ← preOrder_eq hwf, replant]
  · rw [← preOrder_eq hwf] at hrepeats
    have hc : c ∈ t.preOrder start := by
      rw [preOrder_eq hwf, hsplit]
      exact List.mem_cons_of_mem _ (List.mem_append_right _ List.mem_cons_self)
    exact absurd hrepeats (not_repeats_own hwf hc)

/-- To map a branch to its own names and values is to plant it again. -/
theorem transform_own (hwf : t.WellFormed) (start id : Nat) :
    t.transform start id t.name t.value? = .ok (t.replant start id) := by
  rw [transform_eq_regrow hwf, regrow_own hwf]

/-- Apart from its number, what is planted again is always the same. -/
theorem nodes_replant (t : Tree V) (start id id' : Nat) :
    (t.replant start id).nodes = (t.replant start id').nodes := by
  refine nodes_appendAll ?_ _
  rfl

/-! ## Equal trees -/

/-- The nodes of a tree at or below `start` stand in another one, at other places. -/
structure Mirrors (t u : Tree V) (start : Nat) (place : Nat → Nat) : Prop where
  /-- They have the same names there. -/
  name : ∀ i, t.Under start i → u.name (place i) = t.name i
  /-- They have the same values there. -/
  value : ∀ i, t.Under start i → u.value? (place i) = t.value? i
  /-- They have the same children there, in their order. -/
  children : ∀ i, t.Under start i → u.childrenOf (place i) = (t.childrenOf i).map place

theorem Mirrors.refl (t : Tree V) (start : Nat) : t.Mirrors t start fun i => i where
  name := fun _ _ => rfl
  value := fun _ _ => rfl
  children := fun _ _ => (List.map_id' _).symm

theorem mirrors_replant (hwf : t.WellFormed) (start id : Nat) :
    t.Mirrors (t.replant start id) start (t.preOrder start).idxOf := by
  obtain ⟨hlisting, hchildren⟩ :=
    (isOutline_preOrder hwf start).of_regrow_eq_ok (regrow_own hwf start id)
  rw [← preOrder_eq hwf] at hlisting hchildren
  have hline : ∀ i, t.Under start i → (t.replant start id).line ((t.preOrder start).idxOf i) =
      ⟨t.name i, t.value? i, (t.parentWithin start i).map (t.preOrder start).idxOf⟩ :=
    fun i hi => line_idxOf hlisting ((mem_preOrder hwf).2 hi)
  refine ⟨fun i hi => congrArg Line.name (hline i hi), fun i hi => congrArg Line.value (hline i hi),
    fun i hi => ?_⟩
  rw [hchildren, filter_parentWithin hwf hi]

section

variable [BEq V] {a b s : Tree V} {f g : Nat → Nat}

/-- Branches agree one by one, and there are equally many, if each agrees with its counterpart. -/
theorem sameBranches_iff (cs ds : List Nat) :
    cs.length = ds.length ∧ sameBranches a b (cs.map a.branch) (ds.map b.branch) = true ↔
      List.Forall₂ (fun c d => sameBranch a b (a.branch c) (b.branch d) = true) cs ds := by
  induction cs generalizing ds with
  | nil => cases ds <;> simp [sameBranches]
  | cons c cs ih =>
    cases ds with
    | nil => simp
    | cons d ds =>
      rw [List.forall₂_cons, ← ih]
      simp [sameBranches, and_left_comm]

/-- Two branches are equal if their nodes have the same name and equal values, and their children
are equal in their order. -/
theorem sameBranch_branch_iff (ha : a.WellFormed) (hb : b.WellFormed) (i j : Nat) :
    sameBranch a b (a.branch i) (b.branch j) = true ↔
      (a.name i = b.name j ∧ (a.value? i == b.value? j) = true) ∧
        List.Forall₂ (fun c d => sameBranch a b (a.branch c) (b.branch d) = true) (a.childrenOf i)
          (b.childrenOf j) := by
  rw [branch_eq ha, branch_eq hb, sameBranch, ← sameBranches_iff]
  simp [and_assoc]

/-- Where two trees have the nodes of a third one, they are equal as far as its values are equal to
themselves. -/
theorem sameBranch_iff (hs : s.WellFormed) (ha : a.WellFormed) (hb : b.WellFormed)
    (hf : s.Mirrors a start f) (hg : s.Mirrors b start g) {i : Nat} (hi : s.Under start i) :
    sameBranch a b (a.branch (f i)) (b.branch (g i)) = true ↔
      ∀ j ∈ s.preOrder i, (s.value? j == s.value? j) = true := by
  induction i using hs.induction_below with
  | _ i ih =>
    have hbelow : ∀ c ∈ s.childrenOf i,
        (sameBranch a b (a.branch (f c)) (b.branch (g c)) = true ↔
          ∀ j ∈ s.preOrder c, (s.value? j == s.value? j) = true) :=
      fun c hc => ih c hc (.child hi (hs.mem_children.1 hc))
    rw [sameBranch_branch_iff ha hb, hf.name i hi, hg.name i hi, hf.value i hi, hg.value i hi,
      hf.children i hi, hg.children i hi, preOrder_eq hs, List.forall_mem_cons,
      List.forall_mem_flatMap, ← forall₂_congr hbelow, List.forall₂_map_left_iff,
      List.forall₂_map_right_iff, List.forall₂_same]
    simp

/-- A tree is equal to one that mirrors all of it, if its values are equal to themselves. -/
theorem same_iff (hs : s.WellFormed) (ha : a.WellFormed) (hb : b.WellFormed)
    (hf : s.Mirrors a 0 f) (hg : s.Mirrors b 0 g) (hfirst : f 0 = 0) (hfirst' : g 0 = 0) :
    a.same b = true ↔ ∀ i v, s.value? i = some v → (v == v) = true := by
  have h := sameBranch_iff hs ha hb hf hg .refl
  rw [hfirst, hfirst'] at h
  rw [same, h]
  constructor
  · intro hall i v hv
    have hi : i < s.size := by
      by_contra hge
      rw [s.value?_of_le (Nat.le_of_not_lt hge)] at hv
      cases hv
    have hself := hall i ((mem_preOrder hs).2 (.root hs i hi))
    rwa [hv] at hself
  · intro hall i _
    cases hv : s.value? i with
    | none => rfl
    | some v => exact hall i v hv

end

/-- **A copy is the mapping to the own names and values.**  Take any tree that operations have made
and a node of it.  To map the branch there to its own names and values succeeds, and copying it
builds the same array of nodes, with the same names, values, parents and children throughout.  If
the node is the root, the tree is equal to what either of them builds, and this to the tree, if and
only if every value in it is equal to itself, as all values are where equality is reflexive. -/
theorem copy_agrees_with_transform {V : Type} [BEq V] (t : Tree V) (h : t.Made)
    (start id id' : Nat) :
    (∃ u, t.transform start id t.name t.value? = .ok u ∧ u.nodes = (t.copy start id').nodes) ∧
      ∀ u, u = t.copy 0 id' ∨ t.transform 0 id t.name t.value? = .ok u →
        (t.same u = true ↔ ∀ i v, t.value? i = some v → (v == v) = true) ∧
          (u.same t = true ↔ ∀ i v, t.value? i = some v → (v == v) = true) := by
  have hwf := h.wellFormed
  constructor
  · refine ⟨t.replant start id, transform_own hwf start id, ?_⟩
    rw [copy_eq_replant hwf, nodes_replant]
  · intro u hu
    obtain ⟨n, rfl⟩ : ∃ n, u = t.replant 0 n := by
      rcases hu with rfl | hu
      · exact ⟨id', copy_eq_replant hwf 0 id'⟩
      · rw [transform_own hwf] at hu
        cases hu
        exact ⟨id, rfl⟩
    have hreplanted : (t.replant 0 n).WellFormed := by
      rw [← copy_eq_replant hwf]
      exact (Made.copy 0 n h).wellFormed
    have hmirrors := mirrors_replant hwf 0 n
    have hfirst : (t.preOrder 0).idxOf 0 = 0 := by
      rw [preOrder_eq hwf, List.idxOf_cons_self]
    exact ⟨same_iff hwf hwf hreplanted (.refl t 0) hmirrors rfl hfirst,
      same_iff hwf hreplanted hwf hmirrors (.refl t 0) hfirst rfl⟩

/-- A garden that is copied is equal to itself. -/
theorem copy_agrees_with_transform_garden :
    garden.Made ∧ garden.same (garden.copy 0 1) = true ∧
      ∃ u, garden.transform 1 2 garden.name garden.value? = .ok u ∧
        u.nodes = (garden.copy 1 1).nodes ∧ u.size = 3 := by
  obtain ⟨-, hsame⟩ := copy_agrees_with_transform garden made_garden 0 2 1
  obtain ⟨u, hok, hnodes⟩ := (copy_agrees_with_transform garden made_garden 1 2 1).1
  refine ⟨made_garden, (hsame _ (.inl rfl)).1.2 fun _ v _ => beq_self_eq_true v, u, hok, hnodes, ?_⟩
  exact (congrArg Array.size hnodes).trans rfl

end Tree

end Admission
