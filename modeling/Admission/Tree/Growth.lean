import Admission.Tree.Basic

/-!
# How trees grow

What appending a child does to everything that can be asked of a tree.

* **the new node** — it stands at the end, under its parent, and has no children
  (`Tree.name_append_size` and its neighbours);
* **the others** — names, values and parents stay as they are (`Tree.name_append_of_lt` and its
  neighbours), and only the parent gains a child, its last one (`Tree.childrenOf_append_of_lt`);
* **with checks** — `Tree.addChild_eq_ok_iff` says when a child is accepted, and that the tree is
  then the appended one; `Tree.addChild_eq_error_iff` says when and why it is refused, and that the
  tree then stays as it was.
-/

namespace Admission

namespace Tree

variable {V : Type}

/-! ## Nodes of a tree -/

@[simp] theorem size_new (id : Nat) (name : String) (value : Option V) :
    (new id name value).size = 1 := rfl

theorem index?_idOf (t : Tree V) {i : Nat} (h : i < t.size) : t.index? (t.idOf i) = some i :=
  if_pos ⟨rfl, h⟩

theorem index?_eq_some_iff (t : Tree V) {n : NodeId} {i : Nat} :
    t.index? n = some i ↔ n = t.idOf i ∧ i < t.size := by
  obtain ⟨tree, index⟩ := n
  unfold index? idOf
  constructor
  · intro h
    split at h
    · next hin =>
      obtain ⟨rfl, hlt⟩ := hin
      cases h
      exact ⟨rfl, hlt⟩
    · cases h
  · rintro ⟨h, hlt⟩
    cases h
    exact if_pos ⟨rfl, hlt⟩

/-! ## Appending -/

@[simp] theorem size_append (t : Tree V) (parent : Nat) (name : String) (value : Option V) :
    (t.append parent name value).size = t.size + 1 := by
  simp [append, size]

theorem getElem?_append (t : Tree V) (parent : Nat) (name : String) (value : Option V) (i : Nat) :
    (t.append parent name value).nodes[i]? =
      if i = t.size then some ⟨name, value, some parent, []⟩
      else t.nodes[i]?.map fun n =>
        if i = parent then { n with children := n.children ++ [t.size] } else n := by
  simp only [append, size, Array.getElem?_push, Array.size_modify, Array.getElem?_modify]
  by_cases h : i = t.nodes.size
  · simp [h]
  · by_cases hp : parent = i
    · simp [h, hp]
    · simp [h, hp, Ne.symm hp]

theorem name_append_of_lt (t : Tree V) (parent : Nat) (name : String) (value : Option V) {i : Nat}
    (h : i < t.size) : (t.append parent name value).name i = t.name i := by
  rw [Tree.name, getElem?_append, if_neg (Nat.ne_of_lt h), Option.map_map, Tree.name]
  congr 2
  funext n
  dsimp only [Function.comp_apply]
  split <;> rfl

theorem value?_append_of_lt (t : Tree V) (parent : Nat) (name : String) (value : Option V) {i : Nat}
    (h : i < t.size) : (t.append parent name value).value? i = t.value? i := by
  rw [value?, getElem?_append, if_neg (Nat.ne_of_lt h), value?]
  cases t.nodes[i]? with
  | none => rfl
  | some n =>
    dsimp only [Option.map_some, Option.bind_some]
    split <;> rfl

theorem parent?_append_of_lt (t : Tree V) (parent : Nat) (name : String) (value : Option V)
    {i : Nat} (h : i < t.size) : (t.append parent name value).parent? i = t.parent? i := by
  rw [parent?, getElem?_append, if_neg (Nat.ne_of_lt h), parent?]
  cases t.nodes[i]? with
  | none => rfl
  | some n =>
    dsimp only [Option.map_some, Option.bind_some]
    split <;> rfl

theorem childrenOf_append_of_lt (t : Tree V) (parent : Nat) (name : String) (value : Option V)
    {i : Nat} (h : i < t.size) :
    (t.append parent name value).childrenOf i =
      if i = parent then t.childrenOf i ++ [t.size] else t.childrenOf i := by
  have hi : t.nodes[i]? = some t.nodes[i] := Array.getElem?_eq_getElem h
  rw [childrenOf, getElem?_append, if_neg (Nat.ne_of_lt h), childrenOf, hi]
  dsimp only [Option.map_some, Option.getD_some]
  split <;> rfl

theorem name_append_size (t : Tree V) (parent : Nat) (name : String) (value : Option V) :
    (t.append parent name value).name t.size = name := by
  rw [Tree.name, getElem?_append, if_pos rfl]
  rfl

theorem value?_append_size (t : Tree V) (parent : Nat) (name : String) (value : Option V) :
    (t.append parent name value).value? t.size = value := by
  rw [value?, getElem?_append, if_pos rfl]
  rfl

theorem parent?_append_size (t : Tree V) (parent : Nat) (name : String) (value : Option V) :
    (t.append parent name value).parent? t.size = some parent := by
  rw [parent?, getElem?_append, if_pos rfl]
  rfl

theorem childrenOf_append_size (t : Tree V) (parent : Nat) (name : String) (value : Option V) :
    (t.append parent name value).childrenOf t.size = [] := by
  rw [childrenOf, getElem?_append, if_pos rfl]
  rfl

/-! ## Appending with checks -/

theorem addChild_of_index?_eq_none (t : Tree V) {parent : NodeId} (h : t.index? parent = none)
    (name : String) (value : Option V) :
    t.addChild parent name value = (.error (.foreignNode parent), t) := by
  rw [addChild, h]

/-- A child is refused because its parent is no node of the tree, or because a sibling has its
name.  The tree then stays as it was. -/
theorem addChild_eq_error_iff (t : Tree V) {parent : NodeId} {name : String} {value : Option V}
    {fault : TreeFault} {left : Tree V} :
    t.addChild parent name value = (.error fault, left) ↔
      left = t ∧
        ((¬ (parent.tree = t.id ∧ parent.index < t.size) ∧ fault = .foreignNode parent) ∨
          ∃ p, parent = t.idOf p ∧ p < t.size ∧ (∃ c ∈ t.childrenOf p, t.name c = name) ∧
            fault = .nameTaken (t.name p) name) := by
  rw [addChild, index?]
  by_cases hin : parent.tree = t.id ∧ parent.index < t.size
  · have hparent : parent = t.idOf parent.index := by
      rw [idOf, ← hin.1]
    rw [if_pos hin]
    dsimp only
    by_cases hc : ∃ c ∈ t.childrenOf parent.index, t.name c = name
    · rw [if_pos (by simpa using hc)]
      constructor
      · intro h
        cases h
        exact ⟨rfl, .inr ⟨parent.index, hparent, hin.2, hc, rfl⟩⟩
      · rintro ⟨rfl, ⟨hout, -⟩ | ⟨p, hp, -, -, rfl⟩⟩
        · exact absurd hin hout
        · rw [hp]
          rfl
    · rw [if_neg (by simpa using hc)]
      constructor
      · intro h
        cases h
      · rintro ⟨-, ⟨hout, -⟩ | ⟨p, hp, -, htaken, -⟩⟩
        · exact absurd hin hout
        · rw [hp] at hc
          exact absurd htaken hc
  · rw [if_neg hin]
    constructor
    · intro h
      cases h
      exact ⟨rfl, .inl ⟨hin, rfl⟩⟩
    · rintro ⟨rfl, ⟨-, rfl⟩ | ⟨p, rfl, hp, -⟩⟩
      · rfl
      · exact absurd ⟨rfl, hp⟩ hin

theorem addChild_eq_ok_iff (t : Tree V) {parent id : NodeId} {name : String} {value : Option V}
    {grown : Tree V} :
    t.addChild parent name value = (.ok id, grown) ↔
      ∃ p, t.index? parent = some p ∧ (∀ c ∈ t.childrenOf p, t.name c ≠ name) ∧
        id = t.idOf t.size ∧ grown = t.append p name value := by
  cases hp : t.index? parent with
  | none =>
    rw [addChild_of_index?_eq_none t hp]
    simp
  | some p =>
    rw [addChild, hp]
    dsimp only
    by_cases hc : ∃ c ∈ t.childrenOf p, t.name c = name
    · rw [if_pos (by simpa using hc)]
      obtain ⟨c, hmem, hname⟩ := hc
      constructor
      · intro h
        cases h
      · rintro ⟨q, hq, hfree, -⟩
        cases hq
        exact absurd hname (hfree c hmem)
    · rw [if_neg (by simpa using hc)]
      have hfree : ∀ c ∈ t.childrenOf p, t.name c ≠ name :=
        fun c hmem hname => hc ⟨c, hmem, hname⟩
      constructor
      · intro h
        cases h
        exact ⟨p, rfl, hfree, rfl, rfl⟩
      · rintro ⟨q, hq, -, rfl, rfl⟩
        cases hq
        rfl

end Tree

end Admission
