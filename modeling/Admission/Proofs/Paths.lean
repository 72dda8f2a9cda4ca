import Admission.Limiter.Binding
import Admission.Proofs.Arena
import Mathlib.Data.List.Infix

/-!
# Dotted paths

Nodes are told apart by the names on the way down to them, and requests name resources by the same
names with dots between them.

* **components** — `components` are what stands between the dots of a text, and
  `Matcher.underPath_eq_some_iff` says that a request is accepted at a path if the components of the
  path are the first ones of the requested resource;
* **names** — `Tree.names` are the names on the way down to a node.  Siblings differ by name, so
  they tell nodes apart (`Tree.names_inj`), and one node is above another if its names are the first
  ones of the other's (`Tree.under_of_prefix_names`);
* **matching upwards** — `Tree.matcherAt_of_under`: a request that is accepted at a node is accepted
  at every node above it but the root, whatever their names;
* **components of paths** — `Tree.components_path`: those of a path are those of the names on the
  way down, so names without dots can be read off it (`flatMap_components_of_plain`).
-/

namespace Admission

/-! ## Components -/

/-- What stands between the dots of a text. -/
def components (s : String) : List (List Char) := s.toList.splitOn '.'

theorem components_append_dot (front back : String) :
    components (front ++ "." ++ back) = components front ++ components back := by
  have hlist : (front ++ "." ++ back).toList = front.toList ++ '.' :: back.toList := by simp
  rw [components, hlist, List.splitOn_append_cons_self]
  rfl

theorem components_inj {s s' : String} : components s = components s' ↔ s = s' := by
  constructor
  · intro h
    have hjoined := congrArg (List.intercalate ['.']) h
    rw [components, components, List.intercalate_splitOn, List.intercalate_splitOn] at hjoined
    exact String.toList_injective hjoined
  · exact fun h => congrArg components h

/-- A text without dots is its only component. -/
theorem components_of_plain {s : String} (h : '.' ∉ s.toList) : components s = [s.toList] :=
  List.splitOn_eq_singleton h

/-- The components of joined texts are those of the texts, one after the other. -/
theorem components_intercalate {names : List String} (hne : names ≠ []) :
    components (".".intercalate names) = names.flatMap components := by
  induction names with
  | nil => exact absurd rfl hne
  | cons name names ih =>
    rcases names with _ | ⟨next, names⟩
    · rw [String.intercalate_singleton, List.flatMap_singleton]
    · have hnext : next :: names ≠ [] := List.cons_ne_nil next names
      rw [String.intercalate_cons_of_ne_nil hnext, components_append_dot, ih hnext]
      rfl

theorem flatMap_components_of_plain {names : List String}
    (hplain : ∀ name ∈ names, '.' ∉ name.toList) :
    names.flatMap components = names.map String.toList := by
  rw [List.flatMap_congr fun name hname => components_of_plain (hplain name hname),
    List.map_eq_flatMap]

theorem intercalate_append {α : Type} {separator : List α} {parts further : List (List α)}
    (hparts : parts ≠ []) (hfurther : further ≠ []) :
    separator.intercalate (parts ++ further) =
      separator.intercalate parts ++ separator ++ separator.intercalate further := by
  induction parts with
  | nil => exact absurd rfl hparts
  | cons part parts ih =>
    rcases parts with _ | ⟨next, parts⟩
    · rw [List.singleton_append, List.intercalate_cons_of_ne_nil hfurther,
        List.intercalate_singleton]
    · rw [List.cons_append, List.intercalate_cons_of_ne_nil (by simp), ih (by simp),
        List.intercalate_cons_cons]
      simp only [List.append_assoc]

namespace Matcher

/-- A resource lies at or below a path if the components of the path are its first components. -/
theorem isUnder_iff {path resource : List Char} :
    isUnder path resource = true ↔ path.splitOn '.' <+: resource.splitOn '.' := by
  constructor
  · intro h
    rw [isUnder] at h
    cases hafter : after? path resource with
    | none => rw [hafter] at h; cases h
    | some rest =>
      rw [hafter] at h
      obtain rfl := after?_eq_some_iff.1 hafter
      rcases rest with _ | ⟨c, rest⟩
      · rw [List.append_nil]
      · obtain rfl : c = '.' := beq_iff_eq.1 h
        rw [List.splitOn_append_cons_self]
        exact List.prefix_append _ _
  · rintro ⟨further, hfurther⟩
    have hjoined : resource = ['.'].intercalate (path.splitOn '.' ++ further) := by
      rw [hfurther, List.intercalate_splitOn]
    -- what is joined to the components of the path starts with a dot
    have hrest : ∃ rest, after? path resource = some rest ∧
        (rest = [] ∨ rest.head? = some '.') := by
      rcases further with _ | ⟨next, further⟩
      · rw [List.append_nil, List.intercalate_splitOn] at hjoined
        exact ⟨[], after?_eq_some_iff.2 (by rw [hjoined, List.append_nil]), .inl rfl⟩
      · rw [intercalate_append (List.splitOn_ne_nil '.' path) (List.cons_ne_nil next further),
          List.intercalate_splitOn, List.append_assoc] at hjoined
        exact ⟨_, after?_eq_some_iff.2 hjoined, .inr rfl⟩
    obtain ⟨rest, hafter, hstart⟩ := hrest
    rw [isUnder, hafter]
    rcases rest with _ | ⟨c, rest⟩
    · rfl
    · rcases hstart with hnil | hdot
      · cases hnil
      · exact beq_iff_eq.2 (Option.some.inj hdot)

/-- A request is accepted at a path, under the caller's key, if the components of the path are the
first ones of the resource. -/
theorem underPath_eq_some_iff {path key : String} {request : Request} :
    underPath path request = some key ↔
      components path <+: components request.resource ∧ key = request.key := by
  rw [underPath, components, components, ← isUnder_iff]
  split
  · next h => simp [h, eq_comm]
  · next h => simp [h]

end Matcher

/-! ## Names -/

namespace Tree

variable {V : Type} {t : Tree V}

/-- The names on the way down to a node, without the root's. -/
def names (t : Tree V) (i : Nat) : List String :=
  ((i :: t.ancestors i).filter fun j => !t.isRoot j).reverse.map t.name

theorem path_eq (t : Tree V) (separator : String) (i : Nat) :
    t.path separator i = separator.intercalate (t.names i) := rfl

theorem isRoot_iff {i : Nat} : t.isRoot i = true ↔ t.parent? i = none := Option.isNone_iff_eq_none

theorem isRoot_of_parent {i p : Nat} (h : t.parent? i = some p) : t.isRoot i = false := by
  rw [isRoot, h]
  rfl

theorem exists_parent {i : Nat} (h : t.isRoot i = false) : ∃ p, t.parent? i = some p := by
  rw [isRoot, Option.isNone_eq_false_iff] at h
  exact Option.isSome_iff_exists.1 h

/-- In a tree only the first node is a root. -/
theorem WellFormed.eq_zero_of_isRoot (hwf : t.WellFormed) {i : Nat} (hi : i < t.size)
    (hroot : t.isRoot i = true) : i = 0 := by
  by_contra hne
  obtain ⟨p, -, hp⟩ := hwf.parent i (Nat.pos_of_ne_zero hne) hi
  rw [isRoot_of_parent hp] at hroot
  cases hroot

theorem ancestors_of_isRoot {i : Nat} (h : t.isRoot i = true) : t.ancestors i = [] := by
  rw [ancestors]
  rcases i with _ | i
  · rfl
  · rw [ancestorsWithin, isRoot_iff.1 h]

theorem names_of_isRoot {i : Nat} (h : t.isRoot i = true) : t.names i = [] := by
  rw [names, ancestors_of_isRoot h, List.filter_cons_of_neg (by simp [h])]
  rfl

theorem names_of_parent (hwf : t.WellFormed) {i p : Nat} (hp : t.parent? i = some p) :
    t.names i = t.names p ++ [t.name i] := by
  rw [names, hwf.ancestors_of_parent hp, List.filter_cons_of_pos (by simp [isRoot_of_parent hp]),
    List.reverse_cons, List.map_append]
  rfl

theorem names_ne_nil {i : Nat} (h : t.isRoot i = false) : t.names i ≠ [] := by
  rw [names, List.filter_cons_of_pos (by simp [h])]
  simp

/-- The path of a node is that of its parent and its own name, with a dot between them. -/
theorem path_of_parent (hwf : t.WellFormed) {i p : Nat} (hp : t.parent? i = some p)
    (hroot : t.isRoot p = false) : t.path "." i = t.path "." p ++ "." ++ t.name i := by
  rw [path_eq, names_of_parent hwf hp, String.intercalate_append_of_ne_nil (names_ne_nil hroot)
    (by simp), String.intercalate_singleton, path_eq]

/-- No two nodes have the same names on the way down to them. -/
theorem names_inj (hwf : t.WellFormed) {i j : Nat} (hi : i < t.size) (hj : j < t.size)
    (h : t.names i = t.names j) : i = j := by
  induction j using Nat.strong_induction_on generalizing i with
  | _ j ih =>
    cases hrootj : t.isRoot j with
    | true =>
      rw [names_of_isRoot hrootj] at h
      cases hrooti : t.isRoot i with
      | true => rw [hwf.eq_zero_of_isRoot hi hrooti, hwf.eq_zero_of_isRoot hj hrootj]
      | false => exact absurd h (names_ne_nil hrooti)
    | false =>
      obtain ⟨q, hq⟩ := exists_parent hrootj
      cases hrooti : t.isRoot i with
      | true =>
        rw [names_of_isRoot hrooti] at h
        exact absurd h.symm (names_ne_nil hrootj)
      | false =>
        obtain ⟨p, hp⟩ := exists_parent hrooti
        rw [names_of_parent hwf hp, names_of_parent hwf hq] at h
        obtain ⟨habove, hname⟩ := List.append_inj' h rfl
        have hpi := (hwf.parent_lt hp).1
        have hqj := (hwf.parent_lt hq).1
        obtain rfl := ih q hqj (by omega) (by omega) habove
        exact hwf.names p i j hp hq (List.singleton_inj.1 hname)

/-- A node whose names are the first ones of another node's is that node or above it. -/
theorem under_of_prefix_names (hwf : t.WellFormed) {i j : Nat} (hi : i < t.size) (hj : j < t.size)
    (h : t.names i <+: t.names j) : t.Under i j := by
  induction j using Nat.strong_induction_on with
  | _ j ih =>
    cases hroot : t.isRoot j with
    | true =>
      rw [names_of_isRoot hroot, List.prefix_nil] at h
      rw [names_inj hwf hi hj (h.trans (names_of_isRoot hroot).symm)]
      exact .refl
    | false =>
      obtain ⟨q, hq⟩ := exists_parent hroot
      have hlt := (hwf.parent_lt hq).1
      rw [names_of_parent hwf hq, List.prefix_concat_iff, ← names_of_parent hwf hq] at h
      rcases h with hsame | habove
      · rw [names_inj hwf hi hj hsame]
        exact .refl
      · exact .child (ih q hlt (by omega) habove) hq

/-- Every node on the way up is above the node or the node itself. -/
theorem under_of_mem_ancestors (hwf : t.WellFormed) {i j : Nat} (h : j ∈ i :: t.ancestors i) :
    t.Under j i := by
  induction i using Nat.strong_induction_on with
  | _ i ih =>
    rcases List.mem_cons.1 h with rfl | h
    · exact .refl
    · cases hroot : t.isRoot i with
      | true =>
        rw [ancestors_of_isRoot hroot] at h
        exact absurd h List.not_mem_nil
      | false =>
        obtain ⟨p, hp⟩ := exists_parent hroot
        rw [hwf.ancestors_of_parent hp] at h
        exact .child (ih p (hwf.parent_lt hp).1 h) hp

/-! ## Matching -/

/-- A request that is accepted at a node is accepted, under the same key, at every node above it but
the root. -/
theorem matcherAt_of_under (hwf : t.WellFormed) {i j : Nat} (h : t.Under j i)
    (hroot : t.isRoot j = false) {request : Request} {key : String}
    (hmatch : matcherAt t i request = some key) : matcherAt t j request = some key := by
  induction h with
  | refl => exact hmatch
  | @child i c hunder hc ih =>
    have hrooti : t.isRoot i = false := by
      cases hunder with
      | refl => exact hroot
      | child _ hi => exact isRoot_of_parent hi
    refine ih (Matcher.underPath_eq_some_iff.2 ?_)
    obtain ⟨hfirst, hkey⟩ := Matcher.underPath_eq_some_iff.1 hmatch
    rw [path_of_parent hwf hc hrooti, components_append_dot] at hfirst
    exact ⟨(List.prefix_append _ _).trans hfirst, hkey⟩

/-! ## Components of paths -/

/-- No name but that of the root has a dot in it. -/
def Undotted (t : Tree V) : Prop := ∀ i, t.isRoot i = false → '.' ∉ (t.name i).toList

theorem Undotted.of_mem_names (h : t.Undotted) {i : Nat} {name : String}
    (hname : name ∈ t.names i) : '.' ∉ name.toList := by
  obtain ⟨j, hj, rfl⟩ := List.mem_map.1 hname
  rw [List.mem_reverse, List.mem_filter] at hj
  exact h j (by simpa using hj.2)

/-- The components of a path are those of the names. -/
theorem components_path {i : Nat} (hroot : t.isRoot i = false) :
    components (t.path "." i) = (t.names i).flatMap components :=
  components_intercalate (names_ne_nil hroot)

end Tree

end Admission
