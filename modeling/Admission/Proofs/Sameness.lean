import Admission.Proofs.Copies
import Mathlib.Data.List.Forall2
import Mathlib.Data.List.GetD

/-!
# Equal trees and equal nodes

Two trees are compared from their roots down, child by child, and two nodes from themselves up to
their roots.  What either comparison finds can be told by lists that need no second tree.

* **likeness** — `SameLabel` nodes have the same name and equal values, `SameLine` ones are at the
  same level as well.  Where values are equal only to themselves, lists of them are alike if they
  are the same list;
* **sketches** — `Tree.sketch` is what a depth-first walk from the root shows: level, name and value
  of one node after the other.  A level tells where the nodes below a child end and the next child
  begins, so the sketches of branches fall into those of their children
  (`Tree.forall₂_sketches_iff`), and branches are equal if their sketches are alike
  (`Tree.sameBranch_iff_sketches`);
* **rearrangements** — `Tree.Rearranged` says that one tree has the nodes of another at other
  indices.  In an equal tree the `Tree.counterpart` of a node is found by the places of the nodes
  above it among their siblings, and `Tree.rearranged_counterpart` says that these are a
  rearrangement;
* **lineages** — `Tree.sameWayUp_iff` compares the names and values on the way up, and
  `Tree.eq_of_forall₂_lineage` tells the nodes of one tree apart by them.

The laws are `Tree.same_iff_same_shape` and `Tree.nodes_known_by_lineage`.
-/

namespace Admission

/-! ## Likeness -/

section

variable {V : Type} [BEq V]

/-- Two nodes look alike: they have the same name and equal values. -/
def SameLabel (x y : String × Option V) : Prop := x.1 = y.1 ∧ (x.2 == y.2) = true

/-- Two nodes look alike and are at the same level. -/
def SameLine (x y : Nat × String × Option V) : Prop := x.1 = y.1 ∧ SameLabel x.2 y.2

theorem sameLabel_eq_eq [LawfulBEq V] :
    (SameLabel : String × Option V → String × Option V → Prop) = Eq := by
  funext x y
  rw [SameLabel, beq_iff_eq, ← Prod.ext_iff]

theorem sameLine_eq_eq [LawfulBEq V] :
    (SameLine : Nat × String × Option V → Nat × String × Option V → Prop) = Eq := by
  funext x y
  rw [SameLine, sameLabel_eq_eq, ← Prod.ext_iff]

variable [EquivBEq V]

theorem SameLabel.refl (x : String × Option V) : SameLabel x x := ⟨rfl, BEq.refl x.2⟩

theorem SameLabel.symm {x y : String × Option V} (h : SameLabel x y) : SameLabel y x := by
  obtain ⟨name, v⟩ := x
  obtain ⟨name', w⟩ := y
  obtain ⟨rfl, hvalue⟩ := h
  refine ⟨rfl, ?_⟩
  cases v <;> cases w <;> simp_all [BEq.comm]

theorem SameLabel.trans {x y z : String × Option V} (h : SameLabel x y) (h' : SameLabel y z) :
    SameLabel x z := by
  obtain ⟨name, u⟩ := x
  obtain ⟨name', v⟩ := y
  obtain ⟨name'', w⟩ := z
  obtain ⟨rfl, hvalue⟩ := h
  obtain ⟨rfl, hvalue'⟩ := h'
  refine ⟨rfl, ?_⟩
  cases u <;> cases v <;> cases w <;> simp_all
  exact BEq.trans hvalue hvalue'

theorem forall₂_sameLine_refl (xs : List (Nat × String × Option V)) : List.Forall₂ SameLine xs xs :=
  List.forall₂_same.2 fun x _ => ⟨rfl, .refl x.2⟩

theorem forall₂_sameLine_symm {xs ys : List (Nat × String × Option V)}
    (h : List.Forall₂ SameLine xs ys) : List.Forall₂ SameLine ys xs :=
  (h.imp fun _ _ hxy => ⟨hxy.1.symm, hxy.2.symm⟩).flip

theorem forall₂_sameLine_trans {xs ys zs : List (Nat × String × Option V)}
    (h : List.Forall₂ SameLine xs ys) (h' : List.Forall₂ SameLine ys zs) :
    List.Forall₂ SameLine xs zs := by
  induction h generalizing zs with
  | nil => exact h'
  | cons hxy _ ih =>
    cases h' with
    | cons hyz h' => exact .cons ⟨hxy.1.trans hyz.1, hxy.2.trans hyz.2⟩ (ih h')

end

namespace Tree

variable {V : Type} {t a b : Tree V}

/-! ## Sketches -/

/-- What a walk shows of a node: its level, its name and its value. -/
def entry (t : Tree V) (i : Nat) : Nat × String × Option V := (t.level i, t.name i, t.value? i)

/-- What a pre-order shows of a node and all that is below it. -/
def sketchFrom (t : Tree V) (i : Nat) : List (Nat × String × Option V) :=
  (t.preOrder i).map t.entry

/-- What a depth-first walk from the root shows of a tree. -/
def sketch (t : Tree V) : List (Nat × String × Option V) :=
  (t.walkDepthFirst 0 (fun _ => true) none).map t.entry

theorem sketch_eq (hwf : t.WellFormed) : t.sketch = t.sketchFrom 0 := by
  rw [sketch, walkDepthFirst_eq hwf hwf.nonempty, List.filter_true, sketchFrom]

theorem sketchFrom_eq (hwf : t.WellFormed) (i : Nat) :
    t.sketchFrom i = t.entry i :: (t.childrenOf i).flatMap t.sketchFrom := by
  rw [sketchFrom, preOrder_eq hwf, List.map_cons, List.map_flatMap]
  rfl

/-- What is below a node is at deeper levels. -/
theorem level_lt_of_mem_sketches (hwf : t.WellFormed) {i : Nat} {x : Nat × String × Option V}
    (h : x ∈ (t.childrenOf i).flatMap t.sketchFrom) : t.level i < x.1 := by
  obtain ⟨c, hc, hx⟩ := List.mem_flatMap.1 h
  obtain ⟨j, hj, rfl⟩ := List.mem_map.1 hx
  have hchild := level_of_parent hwf (hwf.mem_children.1 hc)
  have hbelow := ((mem_preOrder hwf).1 hj).level_le hwf
  show t.level i < t.level j
  omega

/-- The sketches of siblings start at their level. -/
theorem level_of_mem_head?_sketches (hwf : t.WellFormed) {cs : List Nat} {level : Nat}
    (hcs : ∀ c ∈ cs, t.level c = level) :
    ∀ x ∈ (cs.flatMap t.sketchFrom).head?, x.1 = level := by
  intro x hx
  cases cs with
  | nil => cases hx
  | cons c cs =>
    rw [List.flatMap_cons, sketchFrom_eq hwf] at hx
    cases hx
    exact hcs c List.mem_cons_self

/-- Where two lists agree one by one, and each has a first part of deep members that goes up to one
that is not deep, these parts agree, and so does what follows them. -/
theorem forall₂_of_append {α β : Type} {R : α → β → Prop} (deep : α → Prop) (deep' : β → Prop)
    (hR : ∀ x y, R x y → (deep x ↔ deep' y)) {xs rest : List α} {ys rest' : List β}
    (hxs : ∀ x ∈ xs, deep x) (hys : ∀ y ∈ ys, deep' y) (hrest : ∀ x ∈ rest.head?, ¬ deep x)
    (hrest' : ∀ y ∈ rest'.head?, ¬ deep' y) (h : List.Forall₂ R (xs ++ rest) (ys ++ rest')) :
    List.Forall₂ R xs ys ∧ List.Forall₂ R rest rest' := by
  induction xs generalizing ys with
  | nil =>
    cases ys with
    | nil => exact ⟨.nil, h⟩
    | cons y ys =>
      obtain ⟨x, xs, hxy, -, rfl⟩ := List.forall₂_cons_right_iff.1 h
      exact absurd ((hR x y hxy).2 (hys y List.mem_cons_self)) (hrest x rfl)
  | cons x xs ih =>
    cases ys with
    | nil =>
      obtain ⟨y, ys, hxy, -, rfl⟩ := List.forall₂_cons_left_iff.1 h
      exact absurd ((hR x y hxy).1 (hxs x List.mem_cons_self)) (hrest' y rfl)
    | cons y ys =>
      obtain ⟨hxy, htail⟩ := List.forall₂_cons.1 h
      obtain ⟨hfirst, hlast⟩ := ih (fun x hx => hxs x (List.mem_cons_of_mem _ hx))
        (fun y hy => hys y (List.mem_cons_of_mem _ hy)) htail
      exact ⟨.cons hxy hfirst, hlast⟩

section

variable [BEq V]

/-- **Sketches of siblings fall into those of each.**  The next sibling begins where a level is no
deeper than that of the siblings. -/
theorem forall₂_sketches_iff (ha : a.WellFormed) (hb : b.WellFormed) {cs ds : List Nat}
    {level : Nat} (hcs : ∀ c ∈ cs, a.level c = level) (hds : ∀ d ∈ ds, b.level d = level) :
    List.Forall₂ SameLine (cs.flatMap a.sketchFrom) (ds.flatMap b.sketchFrom) ↔
      List.Forall₂ (fun c d => List.Forall₂ SameLine (a.sketchFrom c) (b.sketchFrom d)) cs ds := by
  refine ⟨fun h => ?_, fun h => List.rel_flatMap h fun _ _ hsketches => hsketches⟩
  induction cs generalizing ds with
  | nil =>
    cases ds with
    | nil => exact .nil
    | cons d ds =>
      rw [List.flatMap_cons, sketchFrom_eq hb] at h
      cases h
  | cons c cs ih =>
    cases ds with
    | nil =>
      rw [List.flatMap_cons, sketchFrom_eq ha] at h
      cases h
    | cons d ds =>
      obtain ⟨hc, hcs⟩ := List.forall_mem_cons.1 hcs
      obtain ⟨hd, hds⟩ := List.forall_mem_cons.1 hds
      rw [List.flatMap_cons, List.flatMap_cons, sketchFrom_eq ha, sketchFrom_eq hb,
        List.cons_append, List.cons_append, List.forall₂_cons] at h
      obtain ⟨hhead, htail⟩ := h
      -- what is below the first sibling is deeper than the siblings, and the next one is not
      obtain ⟨hbelow, hrest⟩ := forall₂_of_append (fun x => level < x.1) (fun y => level < y.1)
        (fun x y hxy => by rw [hxy.1])
        (fun x hx => hc ▸ level_lt_of_mem_sketches ha hx)
        (fun y hy => hd ▸ level_lt_of_mem_sketches hb hy)
        (fun x hx => by rw [level_of_mem_head?_sketches ha hcs x hx]; exact Nat.lt_irrefl level)
        (fun y hy => by rw [level_of_mem_head?_sketches hb hds y hy]; exact Nat.lt_irrefl level)
        htail
      refine .cons ?_ (ih hcs hds hrest)
      rw [sketchFrom_eq ha, sketchFrom_eq hb]
      exact .cons hhead hbelow

/-- Branches that start at the same level are equal if their sketches are alike. -/
theorem sameBranch_iff_sketches (ha : a.WellFormed) (hb : b.WellFormed) {i j : Nat}
    (hlevel : a.level i = b.level j) :
    sameBranch a b (a.branch i) (b.branch j) = true ↔
      List.Forall₂ SameLine (a.sketchFrom i) (b.sketchFrom j) := by
  induction i using ha.induction_below generalizing j with
  | _ i ih =>
    have hcs : ∀ c ∈ a.childrenOf i, a.level c = a.level i + 1 :=
      fun c hc => level_of_parent ha (ha.mem_children.1 hc)
    have hds : ∀ d ∈ b.childrenOf j, b.level d = a.level i + 1 :=
      fun d hd => hlevel ▸ level_of_parent hb (hb.mem_children.1 hd)
    have hchildren : ∀ {c d : Nat}, (c, d) ∈ (a.childrenOf i).zip (b.childrenOf j) →
        (sameBranch a b (a.branch c) (b.branch d) = true ↔
          List.Forall₂ SameLine (a.sketchFrom c) (b.sketchFrom d)) := by
      intro c d hzip
      obtain ⟨hc, hd⟩ := List.of_mem_zip hzip
      exact ih c hc ((hcs c hc).trans (hds d hd).symm)
    rw [sameBranch_branch_iff ha hb, sketchFrom_eq ha, sketchFrom_eq hb, List.forall₂_cons,
      forall₂_sketches_iff ha hb hcs hds, List.forall₂_iff_zip, List.forall₂_iff_zip]
    refine and_congr ⟨fun h => ⟨hlevel, h⟩, fun h => h.2⟩ (and_congr_right fun _ => ?_)
    exact ⟨fun h _ _ hzip => (hchildren hzip).1 (h hzip),
      fun h _ _ hzip => (hchildren hzip).2 (h hzip)⟩

/-- Trees are equal if their sketches are alike. -/
theorem same_iff_sketches (ha : a.WellFormed) (hb : b.WellFormed) :
    a.same b = true ↔ List.Forall₂ SameLine a.sketch b.sketch := by
  rw [sketch_eq ha, sketch_eq hb]
  exact sameBranch_iff_sketches ha hb rfl

end

/-! ## Rearrangements -/

/-- The nodes of `t` stand in `u` at other indices, as they do when they are added in another order:
with their names and values, and each with its children in their order. -/
structure Rearranged [BEq V] (t u : Tree V) (place : Nat → Nat) : Prop where
  /-- The root stays the root. -/
  root : place 0 = 0
  /-- Every node keeps its name. -/
  name : ∀ i < t.size, u.name (place i) = t.name i
  /-- Every node keeps its value. -/
  value : ∀ i < t.size, (t.value? i == u.value? (place i)) = true
  /-- Every node keeps its children in their order. -/
  children : ∀ i < t.size, u.childrenOf (place i) = (t.childrenOf i).map place

/-- Where a node of `a` is found in an equal tree `b`: on the way down from the root that takes the
same places among siblings. -/
def counterpart (a b : Tree V) (i : Nat) : Nat :=
  (i :: a.ancestors i).foldr
    (fun k above =>
      match a.parent? k with
      | none => 0
      | some p => (b.childrenOf above).getD ((a.childrenOf p).idxOf k) 0)
    0

theorem counterpart_root (ha : a.WellFormed) (b : Tree V) : a.counterpart b 0 = 0 := by
  have hnil : a.ancestors 0 = [] := rfl
  rw [counterpart, hnil, List.foldr_cons, ha.root]

theorem counterpart_of_parent (ha : a.WellFormed) (b : Tree V) {c p : Nat}
    (hp : a.parent? c = some p) :
    a.counterpart b c = (b.childrenOf (a.counterpart b p)).getD ((a.childrenOf p).idxOf c) 0 := by
  rw [counterpart, ha.ancestors_of_parent hp, List.foldr_cons, hp]
  rfl

/-- The counterparts of children are children of the counterpart, in their order. -/
theorem childrenOf_counterpart (ha : a.WellFormed) {i : Nat}
    (hlength : (a.childrenOf i).length = (b.childrenOf (a.counterpart b i)).length) :
    b.childrenOf (a.counterpart b i) = (a.childrenOf i).map (a.counterpart b) := by
  refine List.ext_getElem (by rw [List.length_map, hlength]) fun n hn hn' => ?_
  rw [List.length_map] at hn'
  have hp : a.parent? (a.childrenOf i)[n] = some i := ha.mem_children.1 (List.getElem_mem hn')
  rw [List.getElem_map, counterpart_of_parent ha b hp, (ha.nodup_children i).idxOf_getElem n hn',
    List.getD_eq_getElem _ _ hn]

section

variable [BEq V]

/-- In equal trees the branches at a node and its counterpart are equal. -/
theorem sameBranch_counterpart (ha : a.WellFormed) (hb : b.WellFormed) (h : a.same b = true)
    {i : Nat} (hi : a.Under 0 i) :
    sameBranch a b (a.branch i) (b.branch (a.counterpart b i)) = true := by
  induction hi with
  | refl => rwa [counterpart_root ha]
  | @child i c _ hc ih =>
    have hbelow := ((sameBranch_branch_iff ha hb _ _).1 ih).2
    rw [childrenOf_counterpart ha hbelow.length_eq, List.forall₂_map_right_iff,
      List.forall₂_same] at hbelow
    exact hbelow c (ha.mem_children.2 hc)

/-- **Equal trees are rearrangements of each other.** -/
theorem rearranged_counterpart (ha : a.WellFormed) (hb : b.WellFormed) (h : a.same b = true) :
    a.Rearranged b (a.counterpart b) := by
  have hsame : ∀ i < a.size, _ := fun i hi =>
    (sameBranch_branch_iff ha hb i (a.counterpart b i)).1
      (sameBranch_counterpart ha hb h (.root ha i hi))
  exact
    { root := counterpart_root ha b
      name := fun i hi => (hsame i hi).1.1.symm
      value := fun i hi => (hsame i hi).1.2
      children := fun i hi => childrenOf_counterpart ha (hsame i hi).2.length_eq }

namespace Rearranged

variable {place : Nat → Nat}

/-- A rearrangement is equal to what it rearranges. -/
theorem same (h : a.Rearranged b place) (ha : a.WellFormed) (hb : b.WellFormed) :
    a.same b = true := by
  have hbranch : ∀ i, i < a.size →
      sameBranch a b (a.branch i) (b.branch (place i)) = true := by
    intro i
    induction i using ha.induction_below with
    | _ i ih =>
      intro hi
      rw [sameBranch_branch_iff ha hb, h.name i hi, h.children i hi, List.forall₂_map_right_iff,
        List.forall₂_same]
      exact ⟨⟨rfl, h.value i hi⟩,
        fun c hc => ih c hc (ha.parent_lt (ha.mem_children.1 hc)).2⟩
  have hroot := hbranch 0 ha.nonempty
  rwa [h.root] at hroot

/-- A rearrangement has its nodes in the same pre-order. -/
theorem preOrder_place (h : a.Rearranged b place) (ha : a.WellFormed) (hb : b.WellFormed) {i : Nat}
    (hi : i < a.size) : b.preOrder (place i) = (a.preOrder i).map place := by
  induction i using ha.induction_below with
  | _ i ih =>
    have hchildren : ∀ c ∈ a.childrenOf i, b.preOrder (place c) = (a.preOrder c).map place :=
      fun c hc => ih c hc (ha.parent_lt (ha.mem_children.1 hc)).2
    rw [preOrder_eq ha, preOrder_eq hb, h.children i hi, List.map_cons, List.flatMap_map,
      List.map_flatMap, List.flatMap_congr hchildren]

/-- A rearrangement uses every index of the other tree once. -/
theorem perm (h : a.Rearranged b place) (ha : a.WellFormed) (hb : b.WellFormed) :
    ((List.range a.size).map place).Perm (List.range b.size) := by
  have hroot := h.preOrder_place ha hb ha.nonempty
  rw [h.root] at hroot
  refine ((perm_preOrder_root ha).symm.map place).trans ?_
  rw [← hroot]
  exact perm_preOrder_root hb

end Rearranged

end

/-! ## The law of trees -/

/-- **Trees are equal if they have the same shape.**  Take any two trees that operations have made,
over values whose equality is reflexive, symmetric and transitive.  They are equal if and only if
depth-first walks from their roots show the same levels, names and values in the same order: the
same list, where values are equal only to themselves.  This holds if and only if one of them is the
other with its nodes at other indices, each with its children in their order; so it makes no
difference to the answer in which order nodes were added to either tree, as long as siblings keep
theirs.  Every tree is equal to itself, equality goes both ways, and trees that are equal to a third
one in between are equal. -/
theorem same_iff_same_shape {V : Type} [BEq V] [EquivBEq V] (a b : Tree V) (ha : a.Made)
    (hb : b.Made) :
    (a.same b = true ↔ List.Forall₂ SameLine a.sketch b.sketch) ∧
      (LawfulBEq V → (a.same b = true ↔ a.sketch = b.sketch)) ∧
      (a.same b = true ↔ ∃ place, a.Rearranged b place ∧
        ((List.range a.size).map place).Perm (List.range b.size)) ∧
      (∀ (a' b' : Tree V) (f g : Nat → Nat), a'.Made → b'.Made → a.Rearranged a' f →
        b.Rearranged b' g → a'.same b' = a.same b) ∧
      a.same a = true ∧ b.same a = a.same b ∧
      ∀ c : Tree V, c.Made → a.same b = true → b.same c = true → a.same c = true := by
  have hsketches : ∀ {a b : Tree V}, a.Made → b.Made →
      (a.same b = true ↔ List.Forall₂ SameLine a.sketch b.sketch) :=
    fun ha hb => same_iff_sketches ha.wellFormed hb.wellFormed
  have hsymm : ∀ {a b : Tree V}, a.Made → b.Made → a.same b = true → b.same a = true := by
    intro a b ha hb h
    exact (hsketches hb ha).2 (forall₂_sameLine_symm ((hsketches ha hb).1 h))
  have htrans : ∀ {a b c : Tree V}, a.Made → b.Made → c.Made → a.same b = true →
      b.same c = true → a.same c = true := by
    intro a b c ha hb hc h h'
    exact (hsketches ha hc).2
      (forall₂_sameLine_trans ((hsketches ha hb).1 h) ((hsketches hb hc).1 h'))
  refine ⟨hsketches ha hb, ?_, ⟨?_, ?_⟩, ?_, (hsketches ha ha).2 (forall₂_sameLine_refl _), ?_,
    fun c hc => htrans ha hb hc⟩
  · intro hlawful
    rw [hsketches ha hb, sameLine_eq_eq, List.forall₂_eq_eq_eq]
  · intro h
    have hplace := rearranged_counterpart ha.wellFormed hb.wellFormed h
    exact ⟨_, hplace, hplace.perm ha.wellFormed hb.wellFormed⟩
  · rintro ⟨place, hplace, -⟩
    exact hplace.same ha.wellFormed hb.wellFormed
  · intro a' b' f g ha' hb' hf hg
    have haa' := hf.same ha.wellFormed ha'.wellFormed
    have hbb' := hg.same hb.wellFormed hb'.wellFormed
    rw [Bool.eq_iff_iff]
    constructor
    · intro h
      exact htrans ha ha' hb haa' (htrans ha' hb' hb h (hsymm hb hb' hbb'))
    · intro h
      exact htrans ha' ha hb' (hsymm ha ha' haa') (htrans ha hb hb' h hbb')
  · rw [Bool.eq_iff_iff]
    exact ⟨hsymm hb ha, hsymm ha hb⟩

/-- The garden, planted bed after bed. -/
def gardenByBeds : Tree Nat :=
  (((((Tree.new 1 "garden" none).append 0 "roses" (some 7)).append 1 "red" (some 7)).append 1
    "white" (some 5)).append 0 "lilies" (some 5)).append 4 "white" (some 7)

theorem made_gardenByBeds : gardenByBeds.Made := by
  have hroses : ((Tree.new 1 "garden" none).append 0 "roses" (some 7)).Made :=
    (Made.new 1 "garden" none).addChild (show Tree.addChild _ ⟨1, 0⟩ "roses" (some 7) = _ from rfl)
  have hred := hroses.addChild (show Tree.addChild _ ⟨1, 1⟩ "red" (some 7) = _ from rfl)
  have hwhite := hred.addChild (show Tree.addChild _ ⟨1, 1⟩ "white" (some 5) = _ from rfl)
  have hlilies := hwhite.addChild (show Tree.addChild _ ⟨1, 0⟩ "lilies" (some 5) = _ from rfl)
  exact hlilies.addChild (show Tree.addChild _ ⟨1, 4⟩ "white" (some 7) = _ from rfl)

/-- It is the same garden as before. -/
theorem same_iff_same_shape_garden :
    garden.Made ∧ gardenByBeds.Made ∧
      garden.Rearranged gardenByBeds (fun i => [0, 1, 4, 2, 5, 3].getD i 0) ∧
      garden.Rearranged garden (fun i => i) ∧
      garden.same gardenByBeds = true ∧ garden.sketch = gardenByBeds.sketch ∧
      gardenByBeds.same garden = garden.same garden ∧ garden.same garden = true := by
  have hplace : garden.Rearranged gardenByBeds (fun i => [0, 1, 4, 2, 5, 3].getD i 0) :=
    ⟨rfl, by decide, by decide, by decide⟩
  have hself : garden.Rearranged garden (fun i => i) := ⟨rfl, by decide, by decide, by decide⟩
  obtain ⟨-, hlist, hrearranged, -, -, -, htrans⟩ :=
    same_iff_same_shape garden gardenByBeds made_garden made_gardenByBeds
  obtain ⟨-, -, -, hanswer, -⟩ := same_iff_same_shape garden garden made_garden made_garden
  have hsame : garden.same gardenByBeds = true := hrearranged.2 ⟨_, hplace, by decide⟩
  exact ⟨made_garden, made_gardenByBeds, hplace, hself, hsame, (hlist inferInstance).1 hsame,
    hanswer _ _ _ _ made_gardenByBeds made_garden hplace hself,
    htrans garden made_garden hsame (by decide)⟩

/-- Siblings in another order make another tree. -/
example :
    (((Tree.new 0 "bed" none).append 0 "red" (some 7)).append 0 "white" (some 5)).same
      (((Tree.new 0 "bed" none).append 0 "white" (some 5)).append 0 "red" (some 7)) = false := by
  decide

/-! ## Lineages -/

section

/-- A lineage starts with the node itself. -/
theorem lineage_eq (t : Tree V) (i : Nat) :
    t.lineage i =
      (t.name i, t.value? i) :: (t.ancestors i).map fun j => (t.name j, t.value? j) := rfl

theorem lineage_of_isRoot {i : Nat} (h : t.parent? i = none) :
    t.lineage i = [(t.name i, t.value? i)] := by
  rw [lineage_eq, ancestors_of_isRoot (isRoot_iff.2 h), List.map_nil]

theorem lineage_of_parent (hwf : t.WellFormed) {i p : Nat} (hp : t.parent? i = some p) :
    t.lineage i = (t.name i, t.value? i) :: t.lineage p := by
  rw [lineage_eq, hwf.ancestors_of_parent hp, lineage_eq, List.map_cons]

variable [BEq V]

/-- With enough steps, two nodes agree on the way up if their lineages do. -/
theorem sameWayUp_iff (ha : a.WellFormed) (hb : b.WellFormed) :
    ∀ {steps i j : Nat}, i < steps →
      (a.sameWayUp b steps i j = true ↔ List.Forall₂ SameLabel (a.lineage i) (b.lineage j)) := by
  intro steps
  induction steps with
  | zero => intro i j hi; exact absurd hi (Nat.not_lt_zero i)
  | succ steps ih =>
    intro i j hi
    have hlabel : SameLabel (a.name i, a.value? i) (b.name j, b.value? j) ↔
        (a.name i == b.name j && a.value? i == b.value? j) = true := by
      simp [SameLabel]
    rw [sameWayUp, Bool.and_eq_true, ← hlabel]
    cases hp : a.parent? i with
    | none =>
      rw [lineage_of_isRoot hp]
      cases hq : b.parent? j with
      | none => rw [lineage_of_isRoot hq]; simp
      | some q => rw [lineage_of_parent hb hq, lineage_eq b q]; simp
    | some p =>
      rw [lineage_of_parent ha hp]
      cases hq : b.parent? j with
      | none => rw [lineage_of_isRoot hq, lineage_eq a p]; simp
      | some q =>
        have hlt := (ha.parent_lt hp).1
        rw [lineage_of_parent hb hq, List.forall₂_cons, ih (by omega)]

/-- Nodes are equal if their lineages are alike. -/
theorem sameNode_iff_lineages (ha : a.WellFormed) (hb : b.WellFormed) (i j : Nat) :
    a.sameNode i b j = true ↔ List.Forall₂ SameLabel (a.lineage i) (b.lineage j) :=
  sameWayUp_iff ha hb (Nat.lt_succ_self i)

/-- **Lineages tell the nodes of a tree apart**: nodes on one level below the same parent differ by
name. -/
theorem eq_of_forall₂_lineage (hwf : t.WellFormed) {i j : Nat} (hi : i < t.size) (hj : j < t.size)
    (h : List.Forall₂ SameLabel (t.lineage i) (t.lineage j)) : i = j := by
  induction i using Nat.strong_induction_on generalizing j with
  | _ i ih =>
    cases hp : t.parent? i with
    | none =>
      cases hq : t.parent? j with
      | none =>
        rw [hwf.eq_zero_of_isRoot hi (isRoot_iff.2 hp), hwf.eq_zero_of_isRoot hj (isRoot_iff.2 hq)]
      | some q =>
        rw [lineage_of_isRoot hp, lineage_of_parent hwf hq, lineage_eq t q] at h
        simp at h
    | some p =>
      cases hq : t.parent? j with
      | none =>
        rw [lineage_of_isRoot hq, lineage_of_parent hwf hp, lineage_eq t p] at h
        simp at h
      | some q =>
        rw [lineage_of_parent hwf hp, lineage_of_parent hwf hq, List.forall₂_cons] at h
        obtain ⟨⟨hname, -⟩, habove⟩ := h
        have hpi := (hwf.parent_lt hp).1
        have hqj := (hwf.parent_lt hq).1
        obtain rfl := ih p hpi (by omega) (by omega) habove
        exact hwf.names p i j hp hq hname

end

/-! ## The law of nodes -/

/-- What a hasher has come to when it was fed with the names and values from a node up to its
root. -/
def digest {σ : Type} (feed : σ → String × Option V → σ) (start : σ) (t : Tree V) (i : Nat) : σ :=
  (t.lineage i).foldl feed start

/-- **Equality identifies nodes.**  Take nodes of any two trees that operations have made, over
values whose equality is reflexive, symmetric and transitive.  They are equal if and only if the
names and values from them up to their roots are, one by one: the same list, where values are equal
only to themselves.  So equal nodes have the same hash, whatever the hasher, as long as it cannot
tell equal values apart.  Two nodes of one tree are equal if and only if they are the same node. -/
theorem nodes_known_by_lineage {V : Type} [BEq V] [EquivBEq V] (a b : Tree V) (ha : a.Made)
    (hb : b.Made) (i j : Nat) :
    (a.sameNode i b j = true ↔ List.Forall₂ SameLabel (a.lineage i) (b.lineage j)) ∧
      (LawfulBEq V → (a.sameNode i b j = true ↔ a.lineage i = b.lineage j)) ∧
      (a.sameNode i b j = true → ∀ {σ : Type} (feed : σ → String × Option V → σ),
        (∀ s x y, SameLabel x y → feed s x = feed s y) →
          ∀ start, digest feed start a i = digest feed start b j) ∧
      (i < a.size → ∀ k < a.size, a.sameNode i a k = true ↔ a.idOf i = a.idOf k) := by
  have hlineages := sameNode_iff_lineages ha.wellFormed hb.wellFormed i j
  refine ⟨hlineages, ?_, ?_, ?_⟩
  · intro hlawful
    rw [hlineages, sameLabel_eq_eq, List.forall₂_eq_eq_eq]
  · intro h σ feed hfeed start
    refine List.rel_foldl (P := Eq) (R := SameLabel) ?_ rfl (hlineages.1 h)
    rintro s _ rfl x y hxy
    exact hfeed s x y hxy
  · intro hi k hk
    rw [sameNode_iff_lineages ha.wellFormed ha.wellFormed]
    constructor
    · intro h
      rw [eq_of_forall₂_lineage ha.wellFormed hi hk h]
    · intro h
      obtain rfl : i = k := congrArg NodeId.index h
      exact List.forall₂_same.2 fun x _ => .refl x

/-- The white plants of the two beds differ by their beds, and the white lily is known in both
gardens. -/
theorem nodes_known_by_lineage_garden :
    garden.Made ∧ gardenByBeds.Made ∧ 4 < garden.size ∧ 5 < garden.size ∧
      garden.lineage 4 = gardenByBeds.lineage 5 ∧
      garden.sameNode 4 gardenByBeds 5 = true ∧
      digest (fun s x => s + x.1.length) 0 garden 4 =
        digest (fun s x => s + x.1.length) 0 gardenByBeds 5 ∧
      garden.sameNode 4 garden 5 = false := by
  obtain ⟨-, hlist, hhash, hself⟩ := nodes_known_by_lineage garden gardenByBeds made_garden
    made_gardenByBeds 4 5
  have hlineage : garden.lineage 4 = gardenByBeds.lineage 5 := by decide
  have hsame := (hlist inferInstance).2 hlineage
  refine ⟨made_garden, made_gardenByBeds, by decide, by decide, hlineage, hsame,
    hhash hsame _ (fun s x y hxy => by rw [hxy.1]) 0, ?_⟩
  rw [Bool.eq_false_iff, ne_eq, hself (by decide) 5 (by decide)]
  decide

end Tree

end Admission
