import Admission.Proofs.Building
import Admission.Tree.Rebuild

/-!
# Trees and how they are made

Trees come from a single root by adding children, by mapping, copying and filtering other trees, and
from limits documents.  Whatever the order of these operations, and whether or not the last of them
came to its end, what they leave behind is a tree.

* **one invariant for all that adds** — `Tree.Kept` is a property that no accepted child destroys.
  `Tree.Kept.graft` and `Tree.Kept.sift` carry such a property through a mapping, as far as it gets,
  and through a filter;
* **copies** — a copy appends without looking at names.  `Tree.Awaited` says what makes that safe:
  nodes that wait for one parent have different names, and none of them is there already.
  `Tree.Awaited.next` is one step, `Tree.Awaited.copyPending` the whole copy;
* **histories** — `Tree.Made` holds of all trees that operations make, `Tree.Made.wellFormed` says
  that they are well-formed, and `Tree.made_arena` spells out what that means for their indices.
-/

namespace Admission

namespace Tree

variable {V U : Type}

/-! ## What every accepted child keeps -/

/-- A property of trees that no accepted child destroys. -/
def Kept (keeps : Tree V → Prop) : Prop :=
  ∀ (t : Tree V) (parent node : NodeId) (name : String) (value : Option V) (grown : Tree V),
    keeps t → t.addChild parent name value = (.ok node, grown) → keeps grown

theorem kept_wellFormed : Kept (WellFormed (V := V)) :=
  fun _ _ _ _ _ _ h hadd => h.addChild hadd

namespace Kept

variable {keeps : Tree U → Prop} {names : Nat → String} {values : Nat → Option U}

mutual

/-- A mapping keeps it, however far it gets. -/
theorem graft (h : Kept keeps) {target : Tree U} (ht : keeps target) (parent : NodeId) :
    ∀ b : Branch, keeps (Tree.graft target parent names values b).2
  | .mk i below => by
    rw [Tree.graft]
    split
    · next hrefused =>
      obtain ⟨rfl, -⟩ := target.addChild_eq_error_iff.1 hrefused
      exact ht
    · next id grown hadd =>
      have hall := graftAll h (h _ _ _ _ _ _ ht hadd) id below
      split <;> next hgraft => rw [hgraft] at hall; exact hall

/-- A mapping of several branches keeps it, too. -/
theorem graftAll (h : Kept keeps) {target : Tree U} (ht : keeps target) (parent : NodeId) :
    ∀ bs : List Branch, keeps (Tree.graftAll target parent names values bs).2
  | [] => by
    rw [Tree.graftAll]
    exact ht
  | b :: bs => by
    have hfirst := graft h ht parent b
    rw [Tree.graftAll]
    split
    · next hgraft => rw [hgraft] at hfirst; exact hfirst
    · next hgraft => rw [hgraft] at hfirst; exact graftAll h hfirst parent bs

end

mutual

/-- A filter keeps it. -/
theorem sift (h : Kept keeps) {t target sifted : Tree U} {keep : Nat → Bool} (ht : keeps target)
    {parent : NodeId} :
    ∀ b : Branch, Tree.sift t keep target parent b = .ok sifted → keeps sifted
  | .mk i below, hsift => by
    rw [Tree.sift] at hsift
    split at hsift
    · split at hsift
      · cases hsift
      · next hadd => exact siftAll h (h _ _ _ _ _ _ ht hadd) below hsift
    · exact siftAll h ht below hsift

/-- A filter of several branches keeps it, too. -/
theorem siftAll (h : Kept keeps) {t target sifted : Tree U} {keep : Nat → Bool} (ht : keeps target)
    {parent : NodeId} :
    ∀ bs : List Branch, Tree.siftAll t keep target parent bs = .ok sifted → keeps sifted
  | [], hsift => by
    rw [Tree.siftAll] at hsift
    cases hsift
    exact ht
  | b :: bs, hsift => by
    rw [Tree.siftAll] at hsift
    split at hsift
    · cases hsift
    · next hfirst => exact siftAll h (sift h ht b hfirst) bs hsift

end

end Kept

/-! ## Copies -/

/-- Nodes of `t` that are still to be copied, each with the parent that it gets in `target`. -/
structure Awaited (t : Tree V) (pending : List (Nat × Nat)) (target : Tree V) : Prop where
  /-- What has been copied so far is a tree. -/
  wellFormed : target.WellFormed
  /-- The parents have been copied. -/
  parent : ∀ n ∈ pending, n.2 < target.size
  /-- No child that has been copied has the name of one that is still to come. -/
  free : ∀ n ∈ pending, ∀ c ∈ target.childrenOf n.2, target.name c ≠ t.name n.1
  /-- Nodes that get the same parent have different names. -/
  apart : pending.Pairwise fun m n => m.2 = n.2 → t.name m.1 ≠ t.name n.1

namespace Awaited

variable {t target : Tree V} {pending : List (Nat × Nat)}

/-- The children of a node may follow it wherever nothing has been copied under their new parent. -/
theorem apart_children (ht : t.WellFormed) (i parent : Nat) :
    ((t.childrenOf i).map (·, parent)).Pairwise
      fun m n => m.2 = n.2 → t.name m.1 ≠ t.name n.1 := by
  rw [List.pairwise_map]
  refine (ht.nodup_children i).imp_of_mem fun hc hd hne _ hname => hne ?_
  exact ht.names i _ _ (ht.mem_children.1 hc) (ht.mem_children.1 hd) hname

theorem start (ht : t.WellFormed) (i id : Nat) :
    t.Awaited ((t.childrenOf i).map (·, 0)) (Tree.new id (t.name i) (t.value? i)) where
  wellFormed := wellFormed_new id _ _
  parent := by
    intro n hn
    obtain ⟨c, -, rfl⟩ := List.mem_map.1 hn
    exact Nat.one_pos
  free := by
    intro n hn c hc
    obtain ⟨_, _, rfl⟩ := List.mem_map.1 hn
    exact absurd hc List.not_mem_nil
  apart := apart_children ht i 0

/-- The first node that waits is appended, and its children wait in its place. -/
theorem next (ht : t.WellFormed) {i parent : Nat} (h : t.Awaited ((i, parent) :: pending) target) :
    t.Awaited ((t.childrenOf i).map (·, target.size) ++ pending)
      (target.append parent (t.name i) (t.value? i)) := by
  obtain ⟨hfirst, hrest⟩ := List.pairwise_cons.1 h.apart
  have hparent : parent < target.size := h.parent (i, parent) List.mem_cons_self
  have hlater : ∀ n ∈ pending, n.2 < target.size :=
    fun n hn => h.parent n (List.mem_cons_of_mem _ hn)
  have hnew : ∀ n ∈ (t.childrenOf i).map (·, target.size), n.2 = target.size := by
    intro n hn
    obtain ⟨-, -, rfl⟩ := List.mem_map.1 hn
    rfl
  refine
    { wellFormed := h.wellFormed.append hparent (h.free _ List.mem_cons_self) _
      parent := ?_
      free := ?_
      apart := ?_ }
  · intro n hn
    rw [size_append]
    rcases List.mem_append.1 hn with hn | hn
    · have := hnew n hn
      omega
    · have := hlater n hn
      omega
  · intro n hn c hc
    rcases List.mem_append.1 hn with hn | hn
    · -- nothing has been copied under the new node
      rw [hnew n hn, childrenOf_append_size] at hc
      exact absurd hc List.not_mem_nil
    · have hfree := h.free n (List.mem_cons_of_mem _ hn)
      rw [childrenOf_append_of_lt _ _ _ _ (hlater n hn)] at hc
      have hold : ∀ c ∈ target.childrenOf n.2,
          (target.append parent (t.name i) (t.value? i)).name c ≠ t.name n.1 := by
        intro c hc
        rw [name_append_of_lt _ _ _ _ (h.wellFormed.parent_lt (h.wellFormed.mem_children.1 hc)).2]
        exact hfree c hc
      split at hc
      · next hsame =>
        rcases List.mem_append.1 hc with hc | hc
        · exact hold c hc
        · rw [List.mem_singleton.1 hc, name_append_size]
          exact hfirst n hn hsame.symm
      · exact hold c hc
  · refine List.pairwise_append.2 ⟨apart_children ht i target.size, hrest, ?_⟩
    intro m hm n hn hsame
    have := hnew m hm
    have := hlater n hn
    omega

/-- What a copy leaves behind is a tree, however many steps it has. -/
theorem copyPending (ht : t.WellFormed) :
    ∀ (steps : Nat) {pending : List (Nat × Nat)} {target : Tree V},
      t.Awaited pending target → (t.copyPending steps pending target).WellFormed := by
  intro steps
  induction steps with
  | zero =>
    intro pending target h
    exact h.wellFormed
  | succ steps ih =>
    intro pending target h
    cases pending with
    | nil => exact h.wellFormed
    | cons n pending => exact ih (h.next ht)

end Awaited

/-! ## Histories -/

/-- `t.Made` — operations on trees and limits documents, in some order, have come to `t`. -/
inductive Made : {V : Type} → Tree V → Prop where
  /-- A single root. -/
  | new {V : Type} (id : Nat) (name : String) (value : Option V) : Made (Tree.new id name value)
  /-- One more child. -/
  | addChild {V : Type} {t grown : Tree V} {parent node : NodeId} {name : String}
    {value : Option V} :
    Made t → t.addChild parent name value = (.ok node, grown) → Made grown
  /-- The image of a branch as a tree of its own. -/
  | transform {V U : Type} {t : Tree V} {image : Tree U} {start id : Nat} {names : Nat → String}
    {values : Nat → Option U} :
    Made t → t.transform start id names values = .ok image → Made image
  /-- A tree into which the image of a branch was put, to the end or as far as that went. -/
  | transformInto {V U : Type} {t : Tree V} {target : Tree U} (start : Nat) (parent : NodeId)
    (names : Nat → String) (values : Nat → Option U) :
    Made t → Made target → Made (t.transformInto start target parent names values).2
  /-- A copy of a branch. -/
  | copy {V : Type} {t : Tree V} (start id : Nat) : Made t → Made (t.copy start id)
  /-- The nodes of a branch that pass a filter. -/
  | filter {V : Type} {t sifted : Tree V} {start id : Nat} {keep : Nat → Bool} :
    Made t → t.filter start id keep = .ok sifted → Made sifted
  /-- The tree of a limits document. -/
  | document {l : Limits} {id : Nat} {t : Tree NodeLimit} : l.buildTree id = .ok t → Made t

/-- What operations make is well-formed. -/
theorem Made.wellFormed {V : Type} {t : Tree V} (h : t.Made) : t.WellFormed := by
  induction h with
  | new id name value => exact wellFormed_new id name value
  | addChild _ hadd ih => exact ih.addChild hadd
  | @transform _ _ t image start id names values _ himage _ =>
    have hall : (graftAll _ _ names values (t.branch start).children).2.WellFormed :=
      kept_wellFormed.graftAll (wellFormed_new id (names start) (values start))
        ((Tree.new id (names start) (values start)).idOf 0) _
    unfold Tree.transform at himage
    dsimp only at himage
    split at himage
    · cases himage
    · next hgraft =>
      cases himage
      rw [hgraft] at hall
      exact hall
  | transformInto start parent names values _ _ _ ih => exact kept_wellFormed.graft ih parent _
  | copy start id _ ih => exact (Awaited.start ih start id).copyPending ih _
  | filter _ hsift _ => exact kept_wellFormed.siftAll (wellFormed_new _ _ _) _ hsift
  | document hbuild => exact (Limits.labelled_buildTree hbuild).wellFormed

/-- A mapping whose first node is refused leaves its target as it was. -/
theorem transformInto_of_refused {t : Tree V} {target left : Tree U} {start : Nat}
    {parent : NodeId} {names : Nat → String} {values : Nat → Option U} {fault : TreeFault}
    (h : target.addChild parent (names start) (values start) = (.error fault, left)) :
    t.transformInto start target parent names values = (.error fault, left) := by
  obtain ⟨below, hbranch⟩ : ∃ below, t.branch start = .mk start below := by
    rw [branch]
    cases t.size <;> exact ⟨_, rfl⟩
  rw [transformInto, hbranch, graft, h]

/-- **Whatever operations make is a tree.**  Take any tree that has come from single roots and limits
documents by adding children, mapping, copying and filtering, in any order, mappings into another
tree included that stopped half-way.  Its first node is the only one without a parent; every other
node comes after its parent; the children of a node are, in increasing order, just the nodes that
name it as their parent; and they have different names.  A child is refused exactly if its parent is
no node of the tree or if a sibling has its name, and then the tree stays as it was.  The way up from
a node goes from child to parent, comes to no node twice, and ends at the first node. -/
theorem made_arena {V : Type} (t : Tree V) (h : t.Made) :
    0 < t.size ∧
      (∀ i, i < t.size → (t.parent? i = none ↔ i = 0)) ∧
      (∀ i p, t.parent? i = some p → p < i) ∧
      (∀ i, (t.childrenOf i).Pairwise (· < ·) ∧
        ∀ c, c ∈ t.childrenOf i ↔ t.parent? c = some i) ∧
      (∀ i, ((t.childrenOf i).map t.name).Nodup) ∧
      (∀ (parent : NodeId) (name : String) (value : Option V) (fault : TreeFault) (left : Tree V),
        t.addChild parent name value = (.error fault, left) ↔
          left = t ∧
            ((¬ (parent.tree = t.id ∧ parent.index < t.size) ∧ fault = .foreignNode parent) ∨
              ∃ p, parent = t.idOf p ∧ p < t.size ∧ (∃ c ∈ t.childrenOf p, t.name c = name) ∧
                fault = .nameTaken (t.name p) name)) ∧
      (∀ {U : Type} (source : Tree U) (start : Nat) (parent : NodeId) (names : Nat → String)
          (values : Nat → Option V) (fault : TreeFault) (left : Tree V),
        t.addChild parent (names start) (values start) = (.error fault, left) →
          source.transformInto start t parent names values = (.error fault, t)) ∧
      ∀ i, i < t.size →
        List.IsChain (fun child parent => t.parent? child = some parent) (i :: t.ancestors i) ∧
          (i :: t.ancestors i).getLast? = some 0 ∧ (i :: t.ancestors i).Nodup := by
  have hwf := h.wellFormed
  refine ⟨hwf.nonempty, ?_, fun i p hp => (hwf.parent_lt hp).1, ?_, ?_,
    fun _ _ _ _ _ => t.addChild_eq_error_iff, fun _ _ _ _ _ _ _ hrefused => ?_,
    fun i hi => ⟨hwf.isChain_ancestors i, hwf.getLast_ancestors i hi, hwf.nodup_way i⟩⟩
  · intro i hi
    constructor
    · exact fun hnone => hwf.eq_zero_of_isRoot hi (isRoot_iff.2 hnone)
    · rintro rfl
      exact hwf.root
  · intro i
    refine ⟨?_, fun c => hwf.mem_children⟩
    rw [hwf.children]
    exact List.pairwise_lt_range.filter _
  · intro i
    rw [List.Nodup, List.pairwise_map]
    have hnodup : (t.childrenOf i).Nodup := by
      rw [hwf.children]
      exact List.nodup_range.filter _
    refine hnodup.imp_of_mem fun hc hd hne hname => hne ?_
    exact hwf.names i _ _ (hwf.mem_children.1 hc) (hwf.mem_children.1 hd) hname
  · obtain ⟨rfl, -⟩ := t.addChild_eq_error_iff.1 hrefused
    exact transformInto_of_refused hrefused

/-- A house with one floor, and two doors to it. -/
def cottage : Tree Unit :=
  (((Tree.new 0 "cottage" none).append 0 "floor" none).append 1 "left" (some ())).append 1 "right"
    (some ())

/-- A yard into which the floor was to go with its two doors, all of them under the name of rooms.
The second door is refused, and the first one stays. -/
def yard : Tree Unit :=
  (cottage.transformInto 1 (Tree.new 1 "yard" none) ⟨1, 0⟩ (fun _ => "room") cottage.value?).2

/-- The yard is a tree nevertheless. -/
theorem made_arena_yard :
    yard.Made ∧
      (cottage.transformInto 1 (Tree.new 1 "yard" none) ⟨1, 0⟩ (fun _ => "room")
        cottage.value?).1 = .error (.nameTaken "room" "room") ∧
      (yard.childrenOf 0, yard.childrenOf 1, yard.childrenOf 2) = ([1], [2], []) ∧
      (2 :: yard.ancestors 2).getLast? = some 0 ∧ (2 :: yard.ancestors 2).Nodup := by
  let house : Tree Unit := Tree.new 0 "cottage" none
  have hfloor : (house.append 0 "floor" none).Made :=
    (Made.new 0 "cottage" none).addChild (show house.addChild ⟨0, 0⟩ "floor" none = _ from rfl)
  have hleft : ((house.append 0 "floor" none).append 1 "left" (some ())).Made :=
    hfloor.addChild (show Tree.addChild _ ⟨0, 1⟩ "left" (some ()) = _ from rfl)
  have hcottage : cottage.Made :=
    hleft.addChild (show Tree.addChild _ ⟨0, 1⟩ "right" (some ()) = _ from rfl)
  have hyard : yard.Made := .transformInto 1 ⟨1, 0⟩ _ _ hcottage (.new 1 "yard" none)
  obtain ⟨-, -, -, -, -, -, -, hway⟩ := made_arena yard hyard
  obtain ⟨-, hlast, hnodup⟩ := hway 2 (by decide)
  exact ⟨hyard, rfl, rfl, hlast, hnodup⟩

end Tree

end Admission
