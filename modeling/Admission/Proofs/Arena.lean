import Admission.Tree.Growth
import Mathlib.Data.List.Chain
import Mathlib.Data.Nat.Basic

/-!
# Well-formed trees

The nodes of a tree stand in one array and point at each other by index.  `Tree.WellFormed` says
what makes such an array a tree: the root comes first, every other node comes after its parent, the
children of a node are the nodes that name it as their parent, in order, and siblings differ by
name.

* **growth** — `Tree.wellFormed_new` and `Tree.WellFormed.addChild`: a tree starts well-formed and
  stays so;
* **the way up** — `Tree.WellFormed.ancestors_of_parent`: the way up from a node is its parent
  followed by the parent's own way up, and `Tree.WellFormed.isChain_ancestors` and
  `Tree.WellFormed.getLast_ancestors`: it goes from child to parent and ends at the root;
* **below** — `Tree.Under` holds of a node and all that is below it; of two nodes above a third one,
  one is above the other (`Tree.Under.total`).
-/

namespace Admission

namespace Tree

variable {V : Type}

/-- What makes an array of nodes a tree. -/
structure WellFormed (t : Tree V) : Prop where
  /-- There is a root. -/
  nonempty : 0 < t.size
  /-- The root has no parent. -/
  root : t.parent? 0 = none
  /-- Every other node comes after its parent. -/
  parent : ∀ i, 0 < i → i < t.size → ∃ p, p < i ∧ t.parent? i = some p
  /-- The children of a node are the nodes that name it as their parent, in order. -/
  children : ∀ i, t.childrenOf i = (List.range t.size).filter fun c => t.parent? c = some i
  /-- No two children of a node have the same name. -/
  names : ∀ i c d, t.parent? c = some i → t.parent? d = some i → t.name c = t.name d → c = d

/-! ## Growth -/

theorem parent?_of_le (t : Tree V) {i : Nat} (h : t.size ≤ i) : t.parent? i = none := by
  rw [parent?, Array.getElem?_eq_none h]
  rfl

theorem value?_of_le (t : Tree V) {i : Nat} (h : t.size ≤ i) : t.value? i = none := by
  rw [value?, Array.getElem?_eq_none h]
  rfl

theorem childrenOf_of_le (t : Tree V) {i : Nat} (h : t.size ≤ i) : t.childrenOf i = [] := by
  rw [childrenOf, Array.getElem?_eq_none h]
  rfl

theorem wellFormed_new (id : Nat) (name : String) (value : Option V) :
    (new id name value).WellFormed where
  nonempty := Nat.one_pos
  root := rfl
  parent := fun i hpos hlt => absurd hlt (by rw [size_new]; omega)
  children := by
    intro i
    rcases i with _ | i
    · rfl
    · rw [childrenOf_of_le _ (by rw [size_new]; omega)]
      rfl
  names := by
    intro i c d hc
    rcases c with _ | c
    · cases hc
    · rw [parent?_of_le _ (by rw [size_new]; omega)] at hc
      cases hc

namespace WellFormed

variable {t : Tree V}

/-- A parent comes before its child, and both are nodes. -/
theorem parent_lt (h : t.WellFormed) {i p : Nat} (hp : t.parent? i = some p) :
    p < i ∧ i < t.size := by
  have hlt : i < t.size := by
    by_contra hge
    rw [t.parent?_of_le (by omega)] at hp
    cases hp
  rcases Nat.eq_zero_or_pos i with rfl | hpos
  · rw [h.root] at hp
    cases hp
  · obtain ⟨q, hq, hparent⟩ := h.parent i hpos hlt
    rw [hparent] at hp
    cases hp
    exact ⟨hq, hlt⟩

theorem mem_children (h : t.WellFormed) {i c : Nat} :
    c ∈ t.childrenOf i ↔ t.parent? c = some i := by
  rw [h.children, List.mem_filter, decide_eq_true_eq, List.mem_range]
  exact ⟨fun hc => hc.2, fun hc => ⟨(h.parent_lt hc).2, hc⟩⟩

theorem nodup_children (h : t.WellFormed) (i : Nat) : (t.childrenOf i).Nodup := by
  rw [h.children]
  exact List.nodup_range.filter _

/-- Appending a child under a node keeps a tree well-formed, if no sibling has its name. -/
theorem append (h : t.WellFormed) {p : Nat} (hp : p < t.size) {name : String}
    (hfree : ∀ c ∈ t.childrenOf p, t.name c ≠ name) (value : Option V) :
    (t.append p name value).WellFormed := by
  -- a node with a given parent is the new one, or was there before
  have hparent : ∀ c i, (t.append p name value).parent? c = some i →
      (c = t.size ∧ i = p) ∨ (c < t.size ∧ t.parent? c = some i) := by
    intro c i hc
    rcases Nat.lt_trichotomy c t.size with hlt | rfl | hgt
    · rw [parent?_append_of_lt t p name value hlt] at hc
      exact .inr ⟨hlt, hc⟩
    · rw [parent?_append_size] at hc
      cases hc
      exact .inl ⟨rfl, rfl⟩
    · rw [parent?_of_le _ (by rw [size_append]; omega)] at hc
      cases hc
  have hold : (List.range t.size).filter
      (fun c => (t.append p name value).parent? c = some p) = t.childrenOf p := by
    rw [h.children]
    refine List.filter_congr fun c hc => ?_
    rw [parent?_append_of_lt t p name value (List.mem_range.1 hc)]
  refine
    { nonempty := by rw [size_append]; omega
      root := by rw [parent?_append_of_lt t p name value h.nonempty]; exact h.root
      parent := ?_
      children := ?_
      names := ?_ }
  · intro i hpos hlt
    rw [size_append] at hlt
    rcases Nat.lt_or_ge i t.size with hi | hi
    · rw [parent?_append_of_lt t p name value hi]
      exact h.parent i hpos hi
    · obtain rfl : i = t.size := by omega
      exact ⟨p, hp, parent?_append_size ..⟩
  · intro i
    rw [size_append, List.range_succ, List.filter_append]
    rcases Nat.lt_or_ge i t.size with hi | hi
    · rw [childrenOf_append_of_lt t p name value hi]
      by_cases hip : i = p
      · subst hip
        rw [if_pos rfl, hold, List.filter_cons_of_pos (by simp [parent?_append_size])]
        rfl
      · have hsize : ¬ (t.append p name value).parent? t.size = some i := by
          rw [parent?_append_size]
          exact fun hsame => hip (Option.some.inj hsame).symm
        rw [if_neg hip, h.children, List.filter_cons_of_neg (by simpa using hsize),
          List.filter_nil, List.append_nil]
        refine List.filter_congr fun c hc => ?_
        rw [parent?_append_of_lt t p name value (List.mem_range.1 hc)]
    · -- nobody has a node past the old ones for a parent
      have hnone : (t.append p name value).childrenOf i = [] := by
        rcases Nat.eq_or_lt_of_le hi with rfl | hgt
        · exact childrenOf_append_size ..
        · exact childrenOf_of_le _ (by rw [size_append]; omega)
      rw [hnone, ← List.filter_append, eq_comm, List.filter_eq_nil_iff]
      intro c _ hc
      rcases hparent c i (by simpa using hc) with ⟨-, rfl⟩ | ⟨hlt, hc⟩
      · omega
      · have := h.parent_lt hc
        omega
  · intro i c d hc hd hname
    rcases hparent c i hc with ⟨rfl, rfl⟩ | ⟨hclt, hcold⟩
    · rcases hparent d i hd with ⟨rfl, -⟩ | ⟨hdlt, hdold⟩
      · rfl
      · rw [name_append_size, name_append_of_lt t _ name value hdlt] at hname
        exact absurd hname.symm (hfree d (h.mem_children.2 hdold))
    · rcases hparent d i hd with ⟨rfl, rfl⟩ | ⟨hdlt, hdold⟩
      · rw [name_append_size, name_append_of_lt t _ name value hclt] at hname
        exact absurd hname (hfree c (h.mem_children.2 hcold))
      · rw [name_append_of_lt t p name value hclt, name_append_of_lt t p name value hdlt] at hname
        exact h.names i c d hcold hdold hname

/-- A tree that accepts a child stays well-formed. -/
theorem addChild (h : t.WellFormed) {parent id : NodeId} {name : String} {value : Option V}
    {grown : Tree V} (hadd : t.addChild parent name value = (.ok id, grown)) :
    grown.WellFormed := by
  obtain ⟨p, hp, hfree, -, rfl⟩ := (addChild_eq_ok_iff t).1 hadd
  exact h.append ((t.index?_eq_some_iff).1 hp).2 hfree value

/-! ## The way up -/

/-- More steps than there are nodes above do not lead further up. -/
theorem ancestorsWithin_of_le (h : t.WellFormed) :
    ∀ (i steps : Nat), i ≤ steps → t.ancestorsWithin steps i = t.ancestorsWithin i i := by
  intro i
  induction i using Nat.strong_induction_on with
  | _ i ih =>
    intro steps hle
    rcases i with _ | i
    · rcases steps with _ | steps
      · rfl
      · rw [ancestorsWithin, ancestorsWithin, h.root]
    · obtain ⟨steps, rfl⟩ : ∃ s, steps = s + 1 := ⟨steps - 1, by omega⟩
      rw [ancestorsWithin, ancestorsWithin]
      cases hp : t.parent? (i + 1) with
      | none => rfl
      | some p =>
        have hlt := (h.parent_lt hp).1
        dsimp only
        rw [ih p hlt steps (by omega), ih p hlt i (by omega)]

theorem ancestors_of_parent (h : t.WellFormed) {i p : Nat} (hp : t.parent? i = some p) :
    t.ancestors i = p :: t.ancestors p := by
  have hlt := (h.parent_lt hp).1
  obtain ⟨j, rfl⟩ : ∃ j, i = j + 1 := ⟨i - 1, by omega⟩
  rw [ancestors, ancestorsWithin, hp]
  exact congrArg (p :: ·) (h.ancestorsWithin_of_le p j (by omega))

/-- The way up goes from each node to its parent. -/
theorem isChain_ancestors (h : t.WellFormed) :
    ∀ i, List.IsChain (fun child parent => t.parent? child = some parent)
      (i :: t.ancestors i) := by
  intro i
  induction i using Nat.strong_induction_on with
  | _ i ih =>
    cases hp : t.parent? i with
    | none =>
      have hnil : t.ancestors i = [] := by
        rw [ancestors]
        rcases i with _ | i
        · rfl
        · rw [ancestorsWithin, hp]
      rw [hnil]
      exact .singleton i
    | some p =>
      rw [h.ancestors_of_parent hp]
      exact .cons_cons hp (ih p (h.parent_lt hp).1)

/-- The way up comes to no node twice. -/
theorem nodup_way (h : t.WellFormed) (i : Nat) : (i :: t.ancestors i).Nodup := by
  have hdown : List.IsChain (· > ·) (i :: t.ancestors i) :=
    (h.isChain_ancestors i).imp fun _ _ hparent => (h.parent_lt hparent).1
  exact hdown.pairwise.imp Nat.ne_of_gt

/-- The way up ends at the root. -/
theorem getLast_ancestors (h : t.WellFormed) :
    ∀ i, i < t.size → (i :: t.ancestors i).getLast? = some 0 := by
  intro i
  induction i using Nat.strong_induction_on with
  | _ i ih =>
    intro hi
    rcases Nat.eq_zero_or_pos i with rfl | hpos
    · rfl
    · obtain ⟨p, hlt, hp⟩ := h.parent i hpos hi
      rw [h.ancestors_of_parent hp, List.getLast?_cons_cons]
      exact ih p hlt (by omega)

end WellFormed

/-! ## Below a node -/

/-- `t.Under top i` — the node `i` is `top` or below it. -/
inductive Under (t : Tree V) (top : Nat) : Nat → Prop where
  /-- A node is at or below itself. -/
  | refl : Under t top top
  /-- What is below a node has its children below it as well. -/
  | child {i c : Nat} : Under t top i → t.parent? c = some i → Under t top c

namespace Under

variable {t : Tree V} {top i : Nat}

theorem le (hwf : t.WellFormed) (h : t.Under top i) : top ≤ i := by
  induction h with
  | refl => exact le_rfl
  | child _ hc ih => exact le_trans ih (Nat.le_of_lt (hwf.parent_lt hc).1)

/-- What is below a node is a node. -/
theorem lt_size (hwf : t.WellFormed) (h : t.Under top i) (htop : top < t.size) : i < t.size := by
  cases h with
  | refl => exact htop
  | child _ hc => exact (hwf.parent_lt hc).2

theorem trans {low : Nat} (h : t.Under top i) (hlow : t.Under i low) : t.Under top low := by
  induction hlow with
  | refl => exact h
  | child _ hc ih => exact .child ih hc

/-- Of two nodes above a third one, one is above the other. -/
theorem total {other : Nat} (h : t.Under top i) (hother : t.Under other i) :
    t.Under top other ∨ t.Under other top := by
  induction h with
  | refl => exact .inr hother
  | @child i c htop hc ih =>
    cases hother with
    | refl => exact .inl (.child htop hc)
    | child hother hc' =>
      rw [hc] at hc'
      cases hc'
      exact ih hother

/-- Every node is below the root. -/
theorem root (hwf : t.WellFormed) : ∀ i, i < t.size → t.Under 0 i := by
  intro i
  induction i using Nat.strong_induction_on with
  | _ i ih =>
    intro hi
    rcases Nat.eq_zero_or_pos i with rfl | hpos
    · exact .refl
    · obtain ⟨p, hlt, hp⟩ := hwf.parent i hpos hi
      exact .child (ih p hlt (by omega)) hp

end Under

end Tree

end Admission
