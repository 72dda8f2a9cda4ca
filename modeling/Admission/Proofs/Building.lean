import Admission.Proofs.Paths
import Admission.Setup.Limits

/-!
# Trees built from documents

A limits document becomes a tree node after node.  What is there already stays as it is, and every
value that is put in names its resource by the path of its node.

* **growth** — `Tree.Extends` relates a tree to what it grows into: `Tree.Extends.append` is one
  more node, and `Tree.Extends.path` keeps the paths of the old ones;
* **labels** — `Tree.Labelled` says that values are labelled with the paths of their nodes, and
  `Tree.HandsDown` that resources are put below a node with the path that they are to continue.
  `Tree.Labelled.addChild` is one step, `ResourceEntry.labelled_addTo` and
  `ResourceEntry.labelled_addAllTo` go through a document, and `Limits.labelled_buildTree` is the
  whole tree.
-/

namespace Admission

namespace Tree

/-! ## Growth -/

section

variable {V : Type} {t u v : Tree V}

/-- A tree and what it has grown into: the nodes that were there have kept their names, values and
parents. -/
structure Extends (t u : Tree V) : Prop where
  /-- It is still the same tree. -/
  id : u.id = t.id
  /-- No node has gone. -/
  size : t.size ≤ u.size
  /-- The old nodes have kept their names. -/
  name : ∀ i, i < t.size → u.name i = t.name i
  /-- The old nodes have kept their values. -/
  value : ∀ i, i < t.size → u.value? i = t.value? i
  /-- The old nodes have kept their parents. -/
  parent : ∀ i, i < t.size → u.parent? i = t.parent? i

namespace Extends

theorem refl (t : Tree V) : t.Extends t where
  id := rfl
  size := le_rfl
  name := fun _ _ => rfl
  value := fun _ _ => rfl
  parent := fun _ _ => rfl

theorem trans (h : t.Extends u) (h' : u.Extends v) : t.Extends v where
  id := h'.id.trans h.id
  size := h.size.trans h'.size
  name := fun i hi => (h'.name i (hi.trans_le h.size)).trans (h.name i hi)
  value := fun i hi => (h'.value i (hi.trans_le h.size)).trans (h.value i hi)
  parent := fun i hi => (h'.parent i (hi.trans_le h.size)).trans (h.parent i hi)

theorem append (t : Tree V) (p : Nat) (name : String) (value : Option V) :
    t.Extends (t.append p name value) where
  id := rfl
  size := by rw [size_append]; omega
  name := fun _ hi => name_append_of_lt t p name value hi
  value := fun _ hi => value?_append_of_lt t p name value hi
  parent := fun _ hi => parent?_append_of_lt t p name value hi

theorem index?_eq_some (h : t.Extends u) {n : NodeId} {i : Nat} (hn : t.index? n = some i) :
    u.index? n = some i := by
  obtain ⟨rfl, hi⟩ := t.index?_eq_some_iff.1 hn
  refine u.index?_eq_some_iff.2 ⟨?_, hi.trans_le h.size⟩
  rw [idOf, idOf, h.id]

theorem isRoot (h : t.Extends u) {i : Nat} (hi : i < t.size) : u.isRoot i = t.isRoot i := by
  rw [Tree.isRoot, h.parent i hi, Tree.isRoot]

/-- The old nodes have kept the names on the way down to them. -/
theorem names (h : t.Extends u) (ht : t.WellFormed) (hu : u.WellFormed) {i : Nat}
    (hi : i < t.size) : u.names i = t.names i := by
  induction i using Nat.strong_induction_on with
  | _ i ih =>
    cases hroot : t.isRoot i with
    | true => rw [names_of_isRoot hroot, names_of_isRoot ((h.isRoot hi).trans hroot)]
    | false =>
      obtain ⟨p, hp⟩ := exists_parent hroot
      have hlt := (ht.parent_lt hp).1
      rw [names_of_parent ht hp, names_of_parent hu ((h.parent i hi).trans hp),
        ih p hlt (hlt.trans hi), h.name i hi]

theorem path (h : t.Extends u) (ht : t.WellFormed) (hu : u.WellFormed) {i : Nat}
    (hi : i < t.size) (separator : String) : u.path separator i = t.path separator i := by
  rw [path_eq, h.names ht hu hi, path_eq]

end Extends

/-- The names on the way down to a new node are those of its parent and its own. -/
theorem names_append_size {p : Nat} {name : String} {value : Option V} (ht : t.WellFormed)
    (hu : (t.append p name value).WellFormed) (hp : p < t.size) :
    (t.append p name value).names t.size = t.names p ++ [name] := by
  rw [names_of_parent hu (parent?_append_size ..), (Extends.append t p name value).names ht hu hp,
    name_append_size]

end

end Tree

/-! ## Labels -/

/-- A value names its resource by the path that it is made for. -/
theorem ResourceEntry.resource_of_limit? {path : String} {operator : Operator}
    {rates : List RateEntry} {condition : Option String} {limit : NodeLimit}
    (h : limit? path operator rates condition = .ok (some limit)) : limit.resource = path := by
  rw [limit?] at h
  split at h
  · cases h
  · split at h
    · cases h
    · cases h
      rfl

namespace Tree

variable {t u : Tree NodeLimit} {parent node : NodeId} {above : Option String}

/-- Every value names its resource by the path of its node, and the root has none. -/
structure Labelled (t : Tree NodeLimit) : Prop where
  /-- The nodes form a tree. -/
  wellFormed : t.WellFormed
  /-- The values are labelled. -/
  label : ∀ i limit, t.value? i = some limit →
    t.isRoot i = false ∧ limit.resource = t.path "." i

/-- Resources are put below a node with the path that they are to continue; below the root there is
none. -/
def HandsDown (t : Tree NodeLimit) (parent : NodeId) (above : Option String) : Prop :=
  ∃ p, t.index? parent = some p ∧
    above = if t.isRoot p then none else some (t.path "." p)

theorem labelled_new (id : Nat) (name : String) : (Tree.new id name none).Labelled where
  wellFormed := wellFormed_new id name none
  label := by
    intro i limit hvalue
    rcases i with _ | i
    · cases hvalue
    · rw [value?_of_le _ (by rw [size_new]; omega)] at hvalue
      cases hvalue

theorem handsDown_new (id : Nat) (name : String) :
    HandsDown (Tree.new id name none) ⟨id, 0⟩ none :=
  ⟨0, index?_idOf (Tree.new id name none) Nat.one_pos, rfl⟩

theorem HandsDown.extends (h : t.HandsDown parent above) (ht : t.WellFormed) (hu : u.WellFormed)
    (hgrown : t.Extends u) : u.HandsDown parent above := by
  obtain ⟨p, hp, rfl⟩ := h
  have hlt := (t.index?_eq_some_iff.1 hp).2
  exact ⟨p, hgrown.index?_eq_some hp, by rw [hgrown.isRoot hlt, hgrown.path ht hu hlt]⟩

/-- A resource is made for the path of its node. -/
theorem pathUnder_eq {p : Nat} {name : String} {value : Option NodeLimit} (ht : t.WellFormed)
    (hu : (t.append p name value).WellFormed) (hp : p < t.size)
    (habove : above = if t.isRoot p then none else some (t.path "." p)) :
    ResourceEntry.pathUnder above name = (t.append p name value).path "." t.size := by
  subst habove
  rw [path_eq (t.append p name value), names_append_size ht hu hp]
  cases hroot : t.isRoot p with
  | true =>
    rw [names_of_isRoot hroot, List.nil_append, String.intercalate_singleton]
    rfl
  | false =>
    rw [String.intercalate_append_of_ne_nil (names_ne_nil hroot) (by simp),
      String.intercalate_singleton]
    rfl

/-- One more resource keeps the values labelled, and hands its own path down. -/
theorem Labelled.addChild (h : t.Labelled) (hdown : t.HandsDown parent above) {name : String}
    {operator : Operator} {rates : List RateEntry} {condition : Option String}
    {value : Option NodeLimit}
    (hvalue : ResourceEntry.limit? (ResourceEntry.pathUnder above name) operator rates condition =
      .ok value)
    (hadd : t.addChild parent name value = (.ok node, u)) :
    u.Labelled ∧ t.Extends u ∧
      u.HandsDown node (some (ResourceEntry.pathUnder above name)) := by
  have hwf := h.wellFormed.addChild hadd
  obtain ⟨p, hp, hfree, rfl, rfl⟩ := (addChild_eq_ok_iff t).1 hadd
  obtain ⟨p', hp', habove⟩ := hdown
  obtain rfl : p = p' := Option.some.inj (hp.symm.trans hp')
  have hlt := (t.index?_eq_some_iff.1 hp).2
  have hgrown := Extends.append t p name value
  have hroot : (t.append p name value).isRoot t.size = false :=
    isRoot_of_parent (parent?_append_size ..)
  have hpath := pathUnder_eq h.wellFormed hwf hlt habove
  refine ⟨⟨hwf, ?_⟩, hgrown, t.size, ?_, by rw [hroot, hpath]; rfl⟩
  · -- an old node has kept its path, and only the new one can have got a value
    intro i limit hi
    rcases Nat.lt_trichotomy i t.size with hold | rfl | hpast
    · rw [hgrown.value i hold] at hi
      rw [hgrown.isRoot hold, hgrown.path h.wellFormed hwf hold]
      exact h.label i limit hi
    · rw [value?_append_size] at hi
      subst hi
      exact ⟨hroot, (ResourceEntry.resource_of_limit? hvalue).trans hpath⟩
    · rw [value?_of_le _ (by rw [size_append]; omega)] at hi
      cases hi
  · exact index?_idOf (t.append p name value) (by rw [size_append]; omega)

end Tree

/-! ## Documents -/

namespace ResourceEntry

mutual

/-- To add a resource, and all below it, keeps the values labelled and the old nodes as they are. -/
theorem labelled_addTo {t u : Tree NodeLimit} {parent : NodeId} {above : Option String}
    (h : t.Labelled) (hdown : t.HandsDown parent above) :
    ∀ r : ResourceEntry, addTo t parent above r = .ok u → u.Labelled ∧ t.Extends u
  | ⟨name, operator, rates, condition, resources⟩, hadd => by
    rw [addTo] at hadd
    split at hadd
    · cases hadd
    · next value hvalue =>
      split at hadd
      · cases hadd
      · next node grown hchild =>
        -- the new node hands its path down to what is below it
        obtain ⟨hlabelled, hgrown, hnext⟩ := h.addChild hdown hvalue hchild
        obtain ⟨hall, hrest⟩ := labelled_addAllTo hlabelled hnext resources hadd
        exact ⟨hall, hgrown.trans hrest⟩

/-- To add several resources does so, too. -/
theorem labelled_addAllTo {t u : Tree NodeLimit} {parent : NodeId} {above : Option String}
    (h : t.Labelled) (hdown : t.HandsDown parent above) :
    ∀ rs : List ResourceEntry, addAllTo t parent above rs = .ok u → u.Labelled ∧ t.Extends u
  | [], hadd => by
    rw [addAllTo] at hadd
    cases hadd
    exact ⟨h, .refl t⟩
  | r :: rs, hadd => by
    rw [addAllTo] at hadd
    split at hadd
    · cases hadd
    · next grown hfirst =>
      obtain ⟨hlabelled, hgrown⟩ := labelled_addTo h hdown r hfirst
      -- the first resource has left the parent and its path as they were
      have hnext := hdown.extends h.wellFormed hlabelled.wellFormed hgrown
      obtain ⟨hall, hrest⟩ := labelled_addAllTo hlabelled hnext rs hadd
      exact ⟨hall, hgrown.trans hrest⟩

end

end ResourceEntry

/-- **A tree built from a document labels its values with the paths of their nodes.** -/
theorem Limits.labelled_buildTree {l : Limits} {id : Nat} {t : Tree NodeLimit}
    (h : l.buildTree id = .ok t) : t.Labelled :=
  (ResourceEntry.labelled_addAllTo (Tree.labelled_new id l.name) (Tree.handsDown_new id l.name)
    l.resources h).1

end Admission
