import Admission.Proofs.Additions
import Mathlib.Data.List.Basic

/-!
# Outlines

A tree that is made of others gets its nodes one after the other, and each of them below one that
is already there.

* **outlines** — `Tree.IsOutline` says that of a list of nodes each but the first one is put under
  one before it.  `Tree.image` is the node that is added for one of them, and `Tree.Repeats` says
  that a node comes to have the name and the parent of one before it;
* **new trees** — `Tree.regrow` makes a tree of an outline.  A name is taken if its node repeats one
  before it (`Tree.IsOutline.taken_iff`), and `Tree.IsOutline.regrow_cases` draws from this when
  there is a tree.  What it shows is in `Tree.IsOutline.of_regrow_eq_ok`, and why there is none in
  `Tree.IsOutline.of_regrow_eq_error`.
-/

namespace Admission

namespace Tree

/-- Of nodes in a row, each but the first one is under one before it, and `above` is that one. -/
structure IsOutline (start : Nat) (below : List Nat) (above : Nat → Option Nat) : Prop where
  /-- No node is there twice. -/
  nodup : (start :: below).Nodup
  /-- The first node is under none. -/
  top : above start = none
  /-- Every other node is under one before it. -/
  under : ∀ c ∈ below, ∃ a ∈ start :: below, above c = some a ∧
    (start :: below).idxOf a < (start :: below).idxOf c

/-- A node gets the name and the parent that one before it gets. -/
def Repeats (nodes : List Nat) (above : Nat → Option Nat) (names : Nat → String) (c : Nat) : Prop :=
  ∃ d ∈ nodes, nodes.idxOf d < nodes.idxOf c ∧ above d = above c ∧ names d = names c

/-- What is added for a node: under the image of the node above it, or else under the root. -/
def image {V : Type} (place : Nat → Nat) (above : Nat → Option Nat) (names : Nat → String)
    (values : Nat → Option V) (i : Nat) : Shoot V :=
  ⟨((above i).map place).getD 0, names i, values i⟩

/-- The tree that an outline becomes. -/
def regrow {V : Type} (id start : Nat) (below : List Nat) (above : Nat → Option Nat)
    (names : Nat → String) (values : Nat → Option V) : Except TreeFault (Tree V) :=
  (Tree.new id (names start) (values start)).addWhole
    (below.map (image (start :: below).idxOf above names values))

/-! ## Positions -/

/-- What stands before a node has smaller positions. -/
theorem mem_iff_idxOf_lt {nodes before after : List Nat} {c : Nat}
    (hsplit : nodes = before ++ c :: after) (hnodup : nodes.Nodup) (d : Nat) :
    d ∈ before ↔ nodes.idxOf d < nodes.idxOf c := by
  subst hsplit
  have hc : c ∉ before := by
    intro hmem
    exact (List.nodup_append.1 hnodup).2.2 c hmem c List.mem_cons_self rfl
  rw [List.idxOf_append_of_notMem hc, List.idxOf_cons_self, Nat.add_zero]
  exact (List.prefix_append before (c :: after)).mem_iff_idxOf_lt_length d

/-- Some node repeats one before it if and only if two nodes get the same name and the same
parent. -/
theorem exists_repeats_iff {nodes : List Nat} {above : Nat → Option Nat} {names : Nat → String} :
    (∃ c ∈ nodes, Repeats nodes above names c) ↔
      ∃ c ∈ nodes, ∃ d ∈ nodes, c ≠ d ∧ above c = above d ∧ names c = names d := by
  constructor
  · rintro ⟨c, hc, d, hd, hlt, habove, hname⟩
    exact ⟨c, hc, d, hd, fun h => Nat.ne_of_gt hlt (h ▸ rfl), habove.symm, hname.symm⟩
  · rintro ⟨c, hc, d, hd, hne, habove, hname⟩
    rcases Nat.lt_trichotomy (nodes.idxOf c) (nodes.idxOf d) with hlt | heq | hgt
    · exact ⟨d, hd, c, hc, hlt, habove, hname⟩
    · exact absurd ((List.idxOf_inj hc).1 heq) hne
    · exact ⟨c, hc, d, hd, hgt, habove.symm, hname.symm⟩

/-! ## New trees -/

namespace IsOutline

variable {V : Type} {start id : Nat} {below done rest : List Nat} {above : Nat → Option Nat}
  {names : Nat → String} {values : Nat → Option V}

/-- The nodes below the first one are numbered by their positions. -/
theorem numbered (h : IsOutline start below above) (hsplit : below = done ++ rest) :
    Numbered 1 done (start :: below).idxOf := by
  have hall := numbered_idxOf 0 h.nodup
  simp only [Nat.zero_add] at hall
  have hbelow := (numbered_cons_iff.1 hall).2
  nth_rewrite 1 [hsplit] at hbelow
  exact (numbered_append_iff.1 hbelow).1

/-- Their images can be added one after the other. -/
theorem rooted (h : IsOutline start below above) (hsplit : below = done ++ rest) :
    Rooted 1 (done.map (image (start :: below).idxOf above names values)) := by
  refine rooted_of_numbered (h.numbered hsplit) fun c hc => ?_
  obtain ⟨a, -, habove, hlt⟩ := h.under c (hsplit ▸ List.mem_append_left rest hc)
  rw [image, habove]
  exact hlt

/-- Images are put under the image of the node above their originals. -/
theorem parent_image_iff (h : IsOutline start below above) {c a : Nat} (hc : c ∈ below) :
    (image (start :: below).idxOf above names values c).parent = (start :: below).idxOf a ↔
      above c = some a := by
  obtain ⟨b, hb, habove, -⟩ := h.under c hc
  rw [image, habove, Option.some_inj]
  exact List.idxOf_inj hb

/-- A name is taken if its node repeats one before it. -/
theorem taken_iff (h : IsOutline start below above) {c : Nat} (hsplit : below = done ++ c :: rest) :
    (Tree.new id (names start) (values start)).Taken
        (done.map (image (start :: below).idxOf above names values))
        (image (start :: below).idxOf above names values c) ↔
      Repeats (start :: below) above names c := by
  have hc : c ∈ below := hsplit ▸ List.mem_append_right done List.mem_cons_self
  have hdone : ∀ d ∈ done, d ∈ below := fun d hd => hsplit ▸ List.mem_append_left _ hd
  obtain ⟨a, -, habove, -⟩ := h.under c hc
  have hparent : (image (start :: below).idxOf above names values c).parent =
      (start :: below).idxOf a := (h.parent_image_iff hc).2 habove
  have hbefore := mem_iff_idxOf_lt
    (show start :: below = (start :: done) ++ c :: rest by rw [hsplit]; rfl) h.nodup
  constructor
  · rintro (⟨x, hx, -⟩ | ⟨s, hs, hsame, hname⟩)
    · rw [childrenOf_new] at hx
      cases hx
    · obtain ⟨d, hd, rfl⟩ := List.mem_map.1 hs
      rw [hparent] at hsame
      refine ⟨d, List.mem_cons_of_mem _ (hdone d hd),
        (hbefore d).1 (List.mem_cons_of_mem _ hd), ?_, hname⟩
      rw [habove, (h.parent_image_iff (hdone d hd)).1 hsame]
  · rintro ⟨d, -, hlt, hsame, hname⟩
    rw [habove] at hsame
    rcases List.mem_cons.1 ((hbefore d).2 hlt) with rfl | hd
    · -- the first node is under none
      rw [h.top] at hsame
      cases hsame
    · refine .inr ⟨_, List.mem_map_of_mem hd, ?_, hname⟩
      rw [hparent, (h.parent_image_iff (hdone d hd)).2 hsame]

/-- The first node repeats none, and neither does any other one that was added when its name was
free. -/
theorem not_repeats_of_free (h : IsOutline start below above) (hsplit : below = done ++ rest)
    (hfree : (Tree.new id (names start) (values start)).Free
      (done.map (image (start :: below).idxOf above names values))) :
    ∀ d ∈ start :: done, ¬ Repeats (start :: below) above names d := by
  intro d hd
  rcases List.mem_cons.1 hd with rfl | hd
  · rintro ⟨b, -, hlt, -⟩
    rw [List.idxOf_cons_self] at hlt
    exact absurd hlt (Nat.not_lt_zero _)
  · intro hrepeats
    obtain ⟨before, after, rfl⟩ := List.append_of_mem hd
    rw [List.append_assoc] at hsplit
    rw [List.map_append, List.map_cons] at hfree
    exact ((h.taken_iff hsplit).2 hrepeats).not_free hfree

/-- The node above stands where its position says. -/
theorem name_parent_image (h : IsOutline start below above) {c a : Nat}
    (hsplit : below = done ++ c :: rest) (habove : above c = some a) :
    ((Tree.new id (names start) (values start)).appendAll
        (done.map (image (start :: below).idxOf above names values))).name
      (image (start :: below).idxOf above names values c).parent = names a := by
  have hc : c ∈ below := hsplit ▸ List.mem_append_right done List.mem_cons_self
  obtain ⟨a', -, habove', hlt⟩ := h.under c hc
  obtain rfl : a = a' := Option.some.inj (habove.symm.trans habove')
  have hbefore := (mem_iff_idxOf_lt
    (show start :: below = (start :: done) ++ c :: rest by rw [hsplit]; rfl) h.nodup a).2 hlt
  rw [(h.parent_image_iff hc).2 habove]
  rcases List.mem_cons.1 hbefore with rfl | ha
  · rw [List.idxOf_cons_self, (extends_appendAll _ _).name _ Nat.one_pos]
    rfl
  · have hnumbered : Numbered (Tree.new id (names start) (values start)).size done
        (start :: below).idxOf := h.numbered hsplit
    exact congrArg Line.name (line_appendAll hnumbered ha)

/-- What the images show. -/
theorem listing_images (h : IsOutline start below above) :
    ((Tree.new id (names start) (values start)).appendAll
        (below.map (image (start :: below).idxOf above names values))).listing =
      (start :: below).map fun i =>
        ⟨names i, values i, (above i).map (start :: below).idxOf⟩ := by
  have hlines : (below.map (image (start :: below).idxOf above names values)).map Shoot.line =
      below.map fun i => ⟨names i, values i, (above i).map (start :: below).idxOf⟩ := by
    rw [List.map_map]
    refine List.map_congr_left fun i hi => ?_
    obtain ⟨a, -, habove, -⟩ := h.under i hi
    simp [Shoot.line, image, habove]
  rw [listing_appendAll, hlines, List.map_cons, h.top]
  rfl

/-- The children of an image are the images of the nodes that are put under its original, in their
order. -/
theorem childrenOf_image (h : IsOutline start below above) (i : Nat) :
    ((Tree.new id (names start) (values start)).appendAll
        (below.map (image (start :: below).idxOf above names values))).childrenOf
        ((start :: below).idxOf i) =
      ((start :: below).filter (above · = some i)).map (start :: below).idxOf := by
  have hsplit : below = below ++ [] := (List.append_nil _).symm
  have hrooted : Rooted (Tree.new id (names start) (values start)).size
      (below.map (image (start :: below).idxOf above names values)) := h.rooted hsplit
  rw [childrenOf_appendAll hrooted (h.numbered hsplit), childrenOf_new, List.nil_append,
    List.filter_cons_of_neg (by simp [h.top])]
  refine congrArg _ (List.filter_congr fun c hc => ?_)
  exact decide_eq_decide.2 (h.parent_image_iff hc)

/-- **An outline becomes a tree, unless a node repeats one before it.**  The first node that does is
the reason why there is none. -/
theorem regrow_cases (h : IsOutline start below above) (id : Nat) :
    ((∀ c ∈ start :: below, ¬ Repeats (start :: below) above names c) ∧
        regrow id start below above names values =
          .ok ((Tree.new id (names start) (values start)).appendAll
            (below.map (image (start :: below).idxOf above names values)))) ∨
      ∃ done c rest a, below = done ++ c :: rest ∧
        (∀ d ∈ start :: done, ¬ Repeats (start :: below) above names d) ∧
        Repeats (start :: below) above names c ∧ above c = some a ∧
        regrow id start below above names values = .error (.nameTaken (names a) (names c)) := by
  have hsplit : below = below ++ [] := (List.append_nil _).symm
  have hrooted : Rooted (Tree.new id (names start) (values start)).size
      (below.map (image (start :: below).idxOf above names values)) := h.rooted hsplit
  rcases addAll_cases (wellFormed_new id (names start) (values start)) hrooted with
    ⟨hfree, hall⟩ | ⟨before, s, after, hmap, hfree, htaken, hall⟩
  · refine .inl ⟨h.not_repeats_of_free hsplit hfree, ?_⟩
    rw [regrow, addWhole, hall]
  · obtain ⟨done, tail, hsplit, rfl, htail⟩ := List.map_eq_append_iff.1 hmap
    obtain ⟨c, rest, rfl, rfl, rfl⟩ := List.map_eq_cons_iff.1 htail
    have hc : c ∈ below := hsplit ▸ List.mem_append_right done List.mem_cons_self
    obtain ⟨a, -, habove, -⟩ := h.under c hc
    refine .inr ⟨done, c, rest, a, hsplit, h.not_repeats_of_free hsplit hfree,
      (h.taken_iff hsplit).1 htaken, habove, ?_⟩
    rw [regrow, addWhole, hall, h.name_parent_image hsplit habove]
    rfl

/-- An outline fails to become a tree if and only if two nodes get the same name and the same
parent. -/
theorem regrow_fails_iff (h : IsOutline start below above) (id : Nat) :
    (∃ fault, regrow id start below above names values = .error fault) ↔
      ∃ c ∈ start :: below, ∃ d ∈ start :: below,
        c ≠ d ∧ above c = above d ∧ names c = names d := by
  rw [← exists_repeats_iff]
  rcases @regrow_cases _ _ _ _ names values h id with
    ⟨hnone, hok⟩ | ⟨done, c, rest, a, hsplit, -, hrepeats, -, hfault⟩
  · rw [hok]
    exact ⟨fun ⟨_, hfault⟩ => (nomatch hfault), fun ⟨c, hc, hrepeats⟩ =>
      absurd hrepeats (hnone c hc)⟩
  · have hc : c ∈ below := hsplit ▸ List.mem_append_right done List.mem_cons_self
    exact ⟨fun _ => ⟨c, List.mem_cons_of_mem _ hc, hrepeats⟩, fun _ => ⟨_, hfault⟩⟩

/-- The fault names the first node that repeats one before it, and the one above it. -/
theorem of_regrow_eq_error (h : IsOutline start below above) {fault : TreeFault}
    (hfault : regrow id start below above names values = .error fault) :
    ∃ before c after a, start :: below = before ++ c :: after ∧
      (∀ d ∈ before, ¬ Repeats (start :: below) above names d) ∧
      Repeats (start :: below) above names c ∧ above c = some a ∧
      fault = .nameTaken (names a) (names c) := by
  rcases @regrow_cases _ _ _ _ names values h id with
    ⟨-, hok⟩ | ⟨done, c, rest, a, hsplit, hnone, hrepeats, habove, hfault'⟩
  · rw [hok] at hfault
    cases hfault
  · rw [hfault'] at hfault
    cases hfault
    exact ⟨start :: done, c, rest, a, congrArg (start :: ·) hsplit, hnone, hrepeats, habove, rfl⟩

/-- The tree of an outline shows its nodes in their order, each under the one above it. -/
theorem of_regrow_eq_ok (h : IsOutline start below above) {u : Tree V}
    (hok : regrow id start below above names values = .ok u) :
    u.listing = (start :: below).map (fun i =>
        ⟨names i, values i, (above i).map (start :: below).idxOf⟩) ∧
      ∀ i, u.childrenOf ((start :: below).idxOf i) =
        ((start :: below).filter (above · = some i)).map (start :: below).idxOf := by
  rcases @regrow_cases _ _ _ _ names values h id with
    ⟨-, hok'⟩ | ⟨_, _, _, _, -, -, -, -, hfault⟩
  · rw [hok'] at hok
    cases hok
    exact ⟨h.listing_images, h.childrenOf_image⟩
  · rw [hfault] at hok
    cases hok

end IsOutline

end Tree

end Admission
