import Admission.Proofs.History

/-!
# Matching by components

A path accepts the resource at it and all that lies below it.  The test for this looks at
characters: the resource starts with the path, and goes on with a dot or not at all.  What it comes
to is an order of lists.

* **components** — `components_eq_iff`: what stands between the dots of a text is the one way to
  write it as parts without dots, and there is always at least one part;
* **paths** — `Matcher.underPath_eq` reads acceptance off components.  One path accepts all that
  another one accepts exactly if its components are the first ones of the other's
  (`Matcher.accepts_all_iff`);
* **trees** — `Tree.components_path_prefix`: the path of a node comes before the paths of all nodes
  below it.

`matches_by_components` puts these together.
-/

namespace Admission

/-! ## Components -/

/-- Nothing that stands between the dots has a dot in it. -/
theorem not_mem_of_mem_splitOn {α : Type} [DecidableEq α] {a : α} {xs part : List α}
    (h : part ∈ xs.splitOn a) : a ∉ part := by
  induction xs generalizing part with
  | nil =>
    rw [List.splitOn_nil, List.mem_singleton] at h
    rw [h]
    exact List.not_mem_nil
  | cons x xs ih =>
    rw [List.splitOn_cons_eq_if_modifyHead] at h
    by_cases hx : x = a
    · rw [if_pos (by simpa using hx)] at h
      rcases List.mem_cons.1 h with rfl | h
      · exact List.not_mem_nil
      · exact ih h
    · rw [if_neg (by simpa using hx)] at h
      -- the first part is one character longer than before
      cases hsplit : xs.splitOn a with
      | nil => exact absurd hsplit (List.splitOn_ne_nil a xs)
      | cons first parts =>
        rw [hsplit] at h ih
        rw [List.modifyHead_cons] at h
        rcases List.mem_cons.1 h with rfl | h
        · intro hmem
          rcases List.mem_cons.1 hmem with rfl | hmem
          · exact hx rfl
          · exact ih List.mem_cons_self hmem
        · exact ih (List.mem_cons_of_mem _ h)

/-- The components of a text are its only parts without dots that it joins by dots. -/
theorem components_eq_iff {s : String} {parts : List (List Char)} :
    components s = parts ↔
      parts ≠ [] ∧ (∀ part ∈ parts, '.' ∉ part) ∧ ['.'].intercalate parts = s.toList := by
  rw [components]
  constructor
  · rintro rfl
    exact ⟨List.splitOn_ne_nil '.' _, fun part hpart => not_mem_of_mem_splitOn hpart,
      List.intercalate_splitOn '.'⟩
  · rintro ⟨hne, hplain, hjoined⟩
    rw [← hjoined, List.splitOn_intercalate '.' hplain hne]

/-! ## Paths -/

namespace Matcher

/-- A path accepts the resources that its components are the first ones of, under the caller's
key, and nothing else. -/
theorem underPath_eq (path : String) (request : Request) :
    underPath path request =
      if components path <+: components request.resource then some request.key
      else Option.none := by
  by_cases h : components path <+: components request.resource
  · rw [if_pos h]
    exact underPath_eq_some_iff.2 ⟨h, rfl⟩
  · rw [if_neg h, Option.eq_none_iff_forall_ne_some]
    intro key hkey
    exact h (underPath_eq_some_iff.1 hkey).1

/-- A path accepts all that another one accepts, under the same keys, exactly if its components are
the first ones of the other's. -/
theorem accepts_all_iff {path other : String} :
    (∀ request key, underPath other request = some key → underPath path request = some key) ↔
      components path <+: components other := by
  constructor
  · intro h
    have hself : underPath other ⟨other, ""⟩ = some "" :=
      underPath_eq_some_iff.2 ⟨List.prefix_rfl, rfl⟩
    exact (underPath_eq_some_iff.1 (h ⟨other, ""⟩ "" hself)).1
  · intro h request key hkey
    obtain ⟨hother, rfl⟩ := underPath_eq_some_iff.1 hkey
    exact underPath_eq_some_iff.2 ⟨h.trans hother, rfl⟩

end Matcher

/-! ## Trees -/

/-- The components of a node's path are the first ones of the paths of all nodes below it. -/
theorem Tree.components_path_prefix {V : Type} {t : Tree V} (hwf : t.WellFormed) {i j : Nat}
    (h : t.Under j i) (hroot : t.isRoot j = false) :
    components (t.path "." j) <+: components (t.path "." i) :=
  Matcher.accepts_all_iff.1 fun _ _ hkey => Tree.matcherAt_of_under hwf h hroot hkey

/-- **Paths match by components.**  The components of a text are what stands between its dots: its
only parts without dots that it joins by dots, the empty text and empty parts included.  A path
accepts a request, under the caller's key, if and only if its components are the first ones of the
requested resource.  So in a tree that operations have made, whatever its names, a request that is
accepted at a node is accepted under the same key at every node above it but the root. -/
theorem matches_by_components :
    (∀ (s : String) (parts : List (List Char)), components s = parts ↔
        parts ≠ [] ∧ (∀ part ∈ parts, '.' ∉ part) ∧ ['.'].intercalate parts = s.toList) ∧
      (∀ (path : String) (request : Request), Matcher.underPath path request =
        if components path <+: components request.resource then some request.key else none) ∧
      ∀ (V : Type) (t : Tree V), t.Made → ∀ (i : Nat) (request : Request) (key : String),
        matcherAt t i request = some key → ∀ j ∈ t.ancestors i, t.isRoot j = false →
          matcherAt t j request = some key := by
  refine ⟨fun _ _ => components_eq_iff, Matcher.underPath_eq, ?_⟩
  intro V t h i request key hkey j hj hroot
  have hunder := Tree.under_of_mem_ancestors h.wellFormed (List.mem_cons_of_mem i hj)
  exact Tree.matcherAt_of_under h.wellFormed hunder hroot hkey

/-- A root, a node without a name, one with a dot in its name, and one without a name again. -/
def oddNames : Tree Unit :=
  (((Tree.new 0 "root" none).append 0 "" none).append 1 "a.b" none).append 2 "" none

/-- A path that ends in a dot, and starts with one, has empty components at both ends. -/
theorem matches_by_components_oddNames :
    oddNames.Made ∧ oddNames.path "." 3 = ".a.b." ∧
      components ".a.b." = [[], ['a'], ['b'], []] ∧
      Matcher.underPath ".a.b." ⟨".a.b..c", "ann"⟩ = some "ann" ∧
      Matcher.underPath ".a.b." ⟨".a.b.c", "ann"⟩ = none ∧
      matcherAt oddNames 3 ⟨".a.b..c", "ann"⟩ = some "ann" ∧
      ∀ j ∈ [2, 1], matcherAt oddNames j ⟨".a.b..c", "ann"⟩ = some "ann" := by
  have hempty : ((Tree.new 0 "root" none : Tree Unit).append 0 "" none).Made :=
    (Tree.Made.new 0 "root" none).addChild (show Tree.addChild _ ⟨0, 0⟩ "" none = _ from rfl)
  have hdot := hempty.addChild (show Tree.addChild _ ⟨0, 1⟩ "a.b" none = _ from rfl)
  have hmade : oddNames.Made :=
    hdot.addChild (show Tree.addChild _ ⟨0, 2⟩ "" none = _ from rfl)
  obtain ⟨hcomponents, hpath, htree⟩ := matches_by_components
  have hparts : components ".a.b." = [[], ['a'], ['b'], []] :=
    (hcomponents _ _).2 (by decide)
  have hkey : matcherAt oddNames 3 ⟨".a.b..c", "ann"⟩ = some "ann" := by decide
  refine ⟨hmade, by decide, hparts, by rw [hpath]; decide, by rw [hpath]; decide, hkey, ?_⟩
  intro j hj
  have hbelow : oddNames.ancestors 3 = [2, 1, 0] := by decide
  have hfound : j ∈ oddNames.ancestors 3 := by
    rw [hbelow]
    exact List.mem_append_left [0] hj
  have hroot : oddNames.isRoot j = false := by
    rcases List.mem_cons.1 hj with rfl | hj
    · rfl
    · rw [List.mem_singleton.1 hj]
      rfl
  exact htree Unit oddNames hmade 3 _ _ hkey j hfound hroot

end Admission
