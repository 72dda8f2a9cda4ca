import Admission.Proofs.Selections
import Admission.Proofs.Walks

/-!
# Images of branches

To map a branch, into a new tree or under a node of another one, is to add the images of its nodes
one after the other in pre-order.

* **the recursion unrolled** — `Tree.graft_eq` and `Tree.graftAll_eq`: what goes through a branch
  child by child adds the images of its pre-order;
* **new trees** — `Tree.transform_eq_regrow`, and with it `Tree.transform_mirrors_branch`: the image
  has the shape of the branch, and there is none if and only if two siblings come to have one name;
* **other trees** — `Tree.offshoot` is what is added for a node, under `Tree.landsUnder` and at
  `Tree.landing`.  `Tree.transformInto_cases` says how far it goes, and
  `Tree.transformInto_only_appends` what the other tree shows then.
-/

namespace Admission

namespace Tree

variable {V U : Type} {t : Tree V}

/-! ## The recursion unrolled -/

/-- What a mapping answers: the given node, if everything has been added. -/
def answer (id : NodeId) : Except TreeFault Unit × Tree U → Except TreeFault NodeId × Tree U
  | (.error fault, u) => (.error fault, u)
  | (.ok (), u) => (.ok id, u)

section

variable {shoot : Nat → Shoot U} {place : Nat → Nat}

/-- To graft several branches under a node is to add the shoots of their pre-orders, if it is so for
each branch. -/
theorem graftAll_eq {cs : List Nat} (target : Tree U) (parent : Nat)
    (hparent : ∀ c ∈ cs, (shoot c).parent = parent)
    (hnumbered : Numbered target.size (cs.flatMap t.preOrder) place)
    (heach : ∀ c ∈ cs, ∀ target : Tree U, Numbered target.size (t.preOrder c) place →
      graft target (target.idOf (shoot c).parent) (fun j => (shoot j).name)
          (fun j => (shoot j).value) (t.branch c) =
        answer (target.idOf target.size) (target.addAll ((t.preOrder c).map shoot))) :
    graftAll target (target.idOf parent) (fun j => (shoot j).name) (fun j => (shoot j).value)
        (cs.map t.branch) =
      target.addAll ((cs.flatMap t.preOrder).map shoot) := by
  induction cs generalizing target with
  | nil => rfl
  | cons c cs ih =>
    obtain ⟨hfirst, hparents⟩ := List.forall_mem_cons.1 hparent
    obtain ⟨hc, hcs⟩ := List.forall_mem_cons.1 heach
    rw [List.flatMap_cons, numbered_append_iff] at hnumbered
    have hgraft := hc target hnumbered.1
    rw [hfirst] at hgraft
    rw [List.map_cons, graftAll, hgraft, List.flatMap_cons, List.map_append, addAll_append]
    cases hadd : target.addAll ((t.preOrder c).map shoot) with
    | mk result u =>
      cases result with
      | error fault => rfl
      | ok _ =>
        -- the next branch goes under the same node of what the tree has grown into
        obtain rfl := eq_appendAll_of_addAll hadd
        have hsize := target.size_appendAll ((t.preOrder c).map shoot)
        rw [List.length_map] at hsize
        have hrest := ih _ hparents (hsize ▸ hnumbered.2) hcs
        rw [idOf_appendAll] at hrest
        exact hrest

/-- To graft a branch is to add the shoots of its pre-order, if each of them is put where the one of
its parent stands. -/
theorem graft_eq (hwf : t.WellFormed) (i : Nat)
    (hshoot : ∀ j c, t.Under i j → t.parent? c = some j → (shoot c).parent = place j)
    (target : Tree U) (hnumbered : Numbered target.size (t.preOrder i) place) :
    graft target (target.idOf (shoot i).parent) (fun j => (shoot j).name)
        (fun j => (shoot j).value) (t.branch i) =
      answer (target.idOf target.size) (target.addAll ((t.preOrder i).map shoot)) := by
  induction i using hwf.induction_below generalizing target with
  | _ i ih =>
    rw [preOrder_eq hwf, numbered_cons_iff] at hnumbered
    obtain ⟨hplace, hbelow⟩ := hnumbered
    rw [branch_eq hwf, graft, preOrder_eq hwf, List.map_cons, addAll]
    rcases hadd : target.addChild (target.idOf (shoot i).parent) (shoot i).name (shoot i).value
      with ⟨fault | id, grown⟩
    · rfl
    · obtain ⟨p, -, -, rfl, rfl⟩ := target.addChild_eq_ok_iff.1 hadd
      have hunder : ∀ c ∈ t.childrenOf i, t.Under i c :=
        fun c hc => .child .refl (hwf.mem_children.1 hc)
      -- the children go under the new node
      have hparent : ∀ c ∈ t.childrenOf i, (shoot c).parent = target.size :=
        fun c hc => (hshoot i c .refl (hwf.mem_children.1 hc)).trans hplace
      rw [← size_append target p (shoot i).name (shoot i).value] at hbelow
      have hbranches := graftAll_eq _ _ hparent hbelow fun c hc grown hc' =>
        ih c hc (fun j d hj => hshoot j d ((hunder c hc).trans hj)) grown hc'
      have hid : (target.append p (shoot i).name (shoot i).value).idOf target.size =
          target.idOf target.size := rfl
      rw [hid] at hbranches
      exact congrArg (answer (target.idOf target.size)) hbranches

end

/-! ## New trees -/

section

variable {names : Nat → String} {values : Nat → Option U}

/-- To map a branch into a new tree is to make a tree of its outline. -/
theorem transform_eq_regrow (hwf : t.WellFormed) (start id : Nat) :
    t.transform start id names values =
      regrow id start ((t.childrenOf start).flatMap t.preOrder) (t.parentWithin start) names
        values := by
  have houtline := isOutline_preOrder hwf start
  have hunder : ∀ c ∈ t.childrenOf start, t.Under start c :=
    fun c hc => .child .refl (hwf.mem_children.1 hc)
  let place := (start :: (t.childrenOf start).flatMap t.preOrder).idxOf
  let shoot : Nat → Shoot U := image place (t.parentWithin start) names values
  have hshoot : ∀ j c, t.Under start j → t.parent? c = some j → (shoot c).parent = place j := by
    intro j c hj hc
    change ((t.parentWithin start c).map place).getD 0 = place j
    rw [parentWithin_of_parent hwf hj hc]
    rfl
  have hparent : ∀ c ∈ t.childrenOf start, (shoot c).parent = 0 :=
    fun c hc => (hshoot start c .refl (hwf.mem_children.1 hc)).trans List.idxOf_cons_self
  have hbranches := graftAll_eq (Tree.new id (names start) (values start)) 0 hparent
    (houtline.numbered (List.append_nil _).symm) fun c hc target hnumbered =>
      graft_eq hwf c (fun j d hj => hshoot j d ((hunder c hc).trans hj)) target hnumbered
  rw [transform, branch_eq hwf, regrow, addWhole, ← hbranches]
  rfl

/-- **The image of a branch has its shape.**  Take any tree that operations have made, a node of it
to start from, and any names and values for the images of its nodes.  There is no image if and only
if two children of a node at or below the start come to have the same name; the fault then names the
first node in pre-order whose image would have the name of an earlier sibling's, and their parent.
Otherwise the nodes of the image are those of the pre-order, in this order: each with its name and
value, under the image of its parent, the start under nothing, and the children of an image are the
images of the children. -/
theorem transform_mirrors_branch {V U : Type} (t : Tree V) (h : t.Made) (start id : Nat)
    (names : Nat → String) (values : Nat → Option U) :
    ((∃ fault, t.transform start id names values = .error fault) ↔
        ∃ i c d, t.Under start i ∧ c ∈ t.childrenOf i ∧ d ∈ t.childrenOf i ∧ c ≠ d ∧
          names c = names d) ∧
      (∀ fault, t.transform start id names values = .error fault →
        ∃ before c after i, t.preOrder start = before ++ c :: after ∧
          (∀ d ∈ before, ¬ Repeats (t.preOrder start) (t.parentWithin start) names d) ∧
          Repeats (t.preOrder start) (t.parentWithin start) names c ∧
          t.parent? c = some i ∧ fault = .nameTaken (names i) (names c)) ∧
      ∀ u, t.transform start id names values = .ok u →
        u.listing = (t.preOrder start).map (fun i =>
          ⟨names i, values i, (t.parentWithin start i).map (t.preOrder start).idxOf⟩) ∧
        ∀ i ∈ t.preOrder start, u.childrenOf ((t.preOrder start).idxOf i) =
          (t.childrenOf i).map (t.preOrder start).idxOf := by
  have hwf := h.wellFormed
  have houtline := isOutline_preOrder hwf start
  rw [transform_eq_regrow hwf, houtline.regrow_fails_iff, ← preOrder_eq hwf]
  refine ⟨exists_siblings_iff hwf, ?_, ?_⟩
  · intro fault hfault
    obtain ⟨before, c, after, i, hsplit, hnone, hrepeats, hparent, rfl⟩ :=
      houtline.of_regrow_eq_error hfault
    rw [← preOrder_eq hwf] at hsplit hnone hrepeats
    have hc := (parentWithin_eq_some_iff.1 hparent).2
    exact ⟨before, c, after, i, hsplit, hnone, hrepeats, hc, rfl⟩
  · intro u hu
    obtain ⟨hlisting, hchildren⟩ := houtline.of_regrow_eq_ok hu
    rw [← preOrder_eq hwf] at hlisting hchildren
    refine ⟨hlisting, fun i hi => ?_⟩
    rw [hchildren, filter_parentWithin hwf ((mem_preOrder hwf).1 hi)]

/-- With one name for both plants of the first bed there is no image of the garden; the bed alone
has an image if they keep their names. -/
theorem transform_mirrors_branch_garden :
    garden.Made ∧
      (∃ fault, garden.transform 0 1 (fun i => if i = 5 then "red" else garden.name i)
        garden.value? = .error fault) ∧
      ∃ u, garden.transform 1 1 garden.name garden.value? = .ok u ∧
        u.listing = [⟨"roses", some 7, none⟩, ⟨"red", some 7, some 0⟩,
          ⟨"white", some 5, some 0⟩] ∧
        u.childrenOf 0 = [1, 2] := by
  obtain ⟨hfails, -, -⟩ := transform_mirrors_branch garden made_garden 0 1
    (fun i => if i = 5 then "red" else garden.name i) garden.value?
  obtain ⟨-, -, hok⟩ :=
    transform_mirrors_branch garden made_garden 1 1 garden.name garden.value?
  obtain ⟨hlisting, hchildren⟩ := hok _ rfl
  refine ⟨made_garden, hfails.2 ⟨1, 3, 5, .child .refl rfl, by decide, by decide, by decide,
    by decide⟩, _, rfl, hlisting.trans rfl, ?_⟩
  exact (hchildren 1 (by decide)).trans (by decide)

end

/-! ## Other trees -/

/-- Where the image of a node comes to stand when its branch is put behind `size` nodes. -/
def landing (t : Tree V) (start size i : Nat) : Nat := size + (t.preOrder start).idxOf i

/-- The node under which the image of a node is put: the image of its parent, or for the start the
node `p`. -/
def landsUnder (t : Tree V) (start size p i : Nat) : Nat :=
  ((t.parentWithin start i).map (t.landing start size)).getD p

/-- What is added for a node when its branch is put under `p` behind `size` nodes. -/
def offshoot (t : Tree V) (start size p : Nat) (names : Nat → String) (values : Nat → Option U)
    (i : Nat) : Shoot U :=
  ⟨t.landsUnder start size p i, names i, values i⟩

section

variable {start size p i c : Nat} {added rest : List Nat} {names : Nat → String}
  {values : Nat → Option U} {target : Tree U}

theorem numbered_landing (hwf : t.WellFormed) (size : Nat)
    (hsplit : t.preOrder start = added ++ rest) : Numbered size added (t.landing start size) := by
  have hall : Numbered size (t.preOrder start) (t.landing start size) :=
    numbered_idxOf size (nodup_preOrder hwf start)
  rw [hsplit] at hall
  exact (numbered_append_iff.1 hall).1

theorem landing_start (hwf : t.WellFormed) (start size : Nat) :
    t.landing start size start = size := by
  rw [landing, preOrder_eq hwf, List.idxOf_cons_self, Nat.add_zero]

theorem landsUnder_start (t : Tree V) (start size p : Nat) :
    t.landsUnder start size p start = p := by
  rw [landsUnder, parentWithin, if_pos rfl]
  rfl

theorem landsUnder_of_parent (hwf : t.WellFormed) (hi : t.Under start i)
    (hc : t.parent? c = some i) :
    t.landsUnder start size p c = t.landing start size i := by
  rw [landsUnder, parentWithin_of_parent hwf hi hc]
  rfl

/-- Every node but the start is put under the image of its parent, which comes before it. -/
theorem exists_landsUnder (hwf : t.WellFormed) (size p : Nat) (hc : c ∈ t.preOrder start)
    (hne : c ≠ start) :
    ∃ a ∈ t.preOrder start, t.parentWithin start c = some a ∧
      t.landsUnder start size p c = t.landing start size a ∧
      t.landing start size a < t.landing start size c := by
  have hbelow : c ∈ (t.childrenOf start).flatMap t.preOrder := by
    rw [preOrder_eq hwf] at hc
    exact (List.mem_cons.1 hc).resolve_left hne
  obtain ⟨a, ha, habove, hlt⟩ := (isOutline_preOrder hwf start).under c hbelow
  rw [← preOrder_eq hwf] at ha hlt
  refine ⟨a, ha, habove, ?_, Nat.add_lt_add_left hlt size⟩
  rw [landsUnder, habove]
  rfl

theorem landsUnder_lt (hwf : t.WellFormed) (hp : p < size) (hc : c ∈ t.preOrder start) :
    t.landsUnder start size p c < t.landing start size c := by
  by_cases hne : c = start
  · rw [hne, landsUnder_start, landing_start hwf]
    exact hp
  · obtain ⟨a, -, -, hunder, hlt⟩ := exists_landsUnder hwf size p hc hne
    exact hunder ▸ hlt

theorem landsUnder_eq_landing_iff (hwf : t.WellFormed) (hp : p < size)
    (hc : c ∈ t.preOrder start) :
    t.landsUnder start size p c = t.landing start size i ↔ t.parentWithin start c = some i := by
  by_cases hne : c = start
  · have hle : size ≤ t.landing start size i := Nat.le_add_right _ _
    rw [hne, landsUnder_start, parentWithin, if_pos rfl]
    exact iff_of_false (by omega) (Option.some_ne_none i).symm
  · obtain ⟨a, ha, habove, hunder, -⟩ := exists_landsUnder hwf size p hc hne
    rw [hunder, habove, Option.some_inj, landing, landing, Nat.add_left_cancel_iff]
    exact List.idxOf_inj ha

/-- The images of a first part of the nodes can be added one after the other. -/
theorem rooted_offshoots (hwf : t.WellFormed) (hp : p < size)
    (hsplit : t.preOrder start = added ++ rest) :
    Rooted size (added.map (t.offshoot start size p names values)) :=
  rooted_of_numbered (numbered_landing hwf size hsplit) fun _ hc =>
    landsUnder_lt hwf hp (hsplit ▸ List.mem_append_left rest hc)

/-- The children of a node are the old ones, and after them the images that are put under it. -/
theorem childrenOf_offshoots (hwf : t.WellFormed) (hp : p < target.size)
    (hsplit : t.preOrder start = added ++ rest) (k : Nat) :
    (target.appendAll (added.map (t.offshoot start target.size p names values))).childrenOf k =
      target.childrenOf k ++
        (added.filter (t.landsUnder start target.size p · = k)).map
          (t.landing start target.size) :=
  childrenOf_appendAll (rooted_offshoots hwf hp hsplit) (numbered_landing hwf _ hsplit) k

/-- Of the old nodes, only the one that the branch is put under gains a child. -/
theorem childrenOf_offshoots_of_lt (hwf : t.WellFormed) (hp : p < target.size)
    (hsplit : t.preOrder start = added ++ rest) {k : Nat} (hk : k < target.size) :
    (target.appendAll (added.map (t.offshoot start target.size p names values))).childrenOf k =
      target.childrenOf k ++ if k = p ∧ added ≠ [] then [target.size] else [] := by
  rw [childrenOf_offshoots hwf hp hsplit]
  congr 1
  cases added with
  | nil => simp
  | cons first added =>
    have hnodup := nodup_preOrder hwf start
    obtain rfl : start = first := by
      rw [preOrder_eq hwf] at hsplit
      exact (List.cons.inj hsplit).1
    -- all nodes after the first one are put under images
    have hothers : added.filter (t.landsUnder start target.size p · = k) = [] := by
      refine List.filter_eq_nil_iff.2 fun d hd hunder => ?_
      have hd := List.mem_append_left rest hd
      have hne : d ≠ start := by
        rintro rfl
        rw [hsplit] at hnodup
        exact (List.nodup_cons.1 hnodup).1 hd
      obtain ⟨a, -, -, hland, -⟩ :=
        exists_landsUnder hwf target.size p (hsplit ▸ List.mem_cons_of_mem _ hd) hne
      have hle : target.size ≤ t.landing start target.size a := Nat.le_add_right _ _
      have hk' := of_decide_eq_true hunder
      omega
    rw [List.filter_cons, hothers, landsUnder_start]
    by_cases hkp : k = p
    · simp [hkp, landing_start hwf]
    · simp [hkp, Ne.symm hkp]

/-- The children of an image are the images of the children, as far as there are any. -/
theorem childrenOf_offshoots_landing (hwf : t.WellFormed) (hp : p < target.size)
    (hsplit : t.preOrder start = added ++ rest) (hi : i ∈ t.preOrder start) :
    (target.appendAll (added.map (t.offshoot start target.size p names values))).childrenOf
        (t.landing start target.size i) =
      ((t.childrenOf i).filter (· ∈ added)).map (t.landing start target.size) := by
  have hnodup := nodup_preOrder hwf start
  rw [hsplit] at hnodup
  have hunder : added.filter (t.landsUnder start target.size p · = t.landing start target.size i) =
      added.filter (t.parentWithin start · = some i) := by
    refine List.filter_congr fun c hc => decide_eq_decide.2 ?_
    exact landsUnder_eq_landing_iff hwf hp (hsplit ▸ List.mem_append_left rest hc)
  have hstay : (added.filter (t.parentWithin start · = some i)).filter (· ∈ added) =
      added.filter (t.parentWithin start · = some i) :=
    List.filter_eq_self.2 fun c hc => decide_eq_true (List.mem_filter.1 hc).1
  have hleft : (rest.filter (t.parentWithin start · = some i)).filter (· ∈ added) = [] := by
    refine List.filter_eq_nil_iff.2 fun c hc hmem => ?_
    exact (List.nodup_append.1 hnodup).2.2 c (of_decide_eq_true hmem) c (List.mem_filter.1 hc).1 rfl
  have hold : target.childrenOf (t.landing start target.size i) = [] :=
    target.childrenOf_of_le (Nat.le_add_right _ _)
  rw [childrenOf_offshoots hwf hp hsplit, hold, List.nil_append, hunder,
    ← filter_parentWithin hwf ((mem_preOrder hwf).1 hi), hsplit, List.filter_append,
    List.filter_append, hstay, hleft, List.append_nil]

/-- No other child of its parent has the name of an image. -/
theorem eq_landing_of_name (hwf : t.WellFormed) (htarget : target.WellFormed)
    (hp : p < target.size) (hsplit : t.preOrder start = added ++ rest)
    (hfree : target.Free (added.map (t.offshoot start target.size p names values)))
    (hi : i ∈ added)
    (hc : c ∈ (target.appendAll
      (added.map (t.offshoot start target.size p names values))).childrenOf
        (t.landsUnder start target.size p i))
    (hname : (target.appendAll
      (added.map (t.offshoot start target.size p names values))).name c = names i) :
    c = t.landing start target.size i := by
  have hgrown := htarget.appendAll (rooted_offshoots hwf hp hsplit) hfree
  have hline : Tree.line _ (t.landing start target.size i) =
      (t.offshoot start target.size p names values i).line :=
    line_appendAll (numbered_landing hwf target.size hsplit) hi
  refine hgrown.names _ _ _ (hgrown.mem_children.1 hc) (congrArg Line.parent hline) ?_
  exact hname.trans (congrArg Line.name hline).symm

/-- To map a branch into another tree is to add the images of its pre-order. -/
theorem transformInto_eq_addAll (hwf : t.WellFormed) (start : Nat) (target : Tree U) (p : Nat) :
    t.transformInto start target (target.idOf p) names values =
      answer (target.idOf target.size) (target.addAll
        ((t.preOrder start).map (t.offshoot start target.size p names values))) := by
  have hgraft := @graft_eq _ _ _ (t.offshoot start target.size p names values) _ hwf start
    (fun _ _ hj hc => landsUnder_of_parent hwf hj hc) target
    (numbered_landing hwf _ (List.append_nil _).symm)
  have hfirst : (t.offshoot start target.size p names values start).parent = p :=
    t.landsUnder_start start target.size p
  rw [hfirst] at hgraft
  exact hgraft

/-- The images of all nodes are added if their names are free.  Otherwise those of the nodes before
the first one whose name is taken are. -/
theorem transformInto_cases (hwf : t.WellFormed) (htarget : target.WellFormed) (start : Nat)
    (hp : p < target.size) :
    ∃ added rest result, t.preOrder start = added ++ rest ∧
      target.Free (added.map (t.offshoot start target.size p names values)) ∧
      t.transformInto start target (target.idOf p) names values =
        (result, target.appendAll (added.map (t.offshoot start target.size p names values))) ∧
      ((rest = [] ∧ result = .ok (target.idOf target.size)) ∨
        ∃ i after, rest = i :: after ∧
          target.Taken (added.map (t.offshoot start target.size p names values))
            (t.offshoot start target.size p names values i) ∧
          result = .error (.nameTaken
            ((target.appendAll (added.map (t.offshoot start target.size p names values))).name
              (t.landsUnder start target.size p i)) (names i))) := by
  have hrooted : Rooted target.size
      ((t.preOrder start).map (t.offshoot start target.size p names values)) :=
    rooted_offshoots hwf hp (List.append_nil _).symm
  rw [transformInto_eq_addAll hwf]
  rcases addAll_cases htarget hrooted with
    ⟨hfree, hall⟩ | ⟨before, s, after, hmap, hfree, htaken, hall⟩
  · exact ⟨t.preOrder start, [], _, (List.append_nil _).symm, hfree,
      congrArg (answer (target.idOf target.size)) hall, .inl ⟨rfl, rfl⟩⟩
  · obtain ⟨added, tail, hsplit, rfl, htail⟩ := List.map_eq_append_iff.1 hmap
    obtain ⟨i, rest, rfl, rfl, rfl⟩ := List.map_eq_cons_iff.1 htail
    exact ⟨added, i :: rest, _, hsplit, hfree,
      congrArg (answer (target.idOf target.size)) hall, .inr ⟨i, rest, rfl, htaken, rfl⟩⟩

end

/-- **A mapping into another tree only appends**, whatever becomes of it.  Take any tree that
operations have made, a node of it to start from, any other such tree, and any names and values for
the images.  If the parent is no node of the other tree, this stays as it was.  Otherwise its nodes
keep their names, values and parents, and their children, except that the parent gets one more, the
last one.  The images that are appended are those of a first part of the pre-order, each with its
name and value, the first one under the given parent and the others under the images of their
parents; the children of an image are the images of the children that belong to this part, and no
other child of its parent has the name of an image.  Either that part is the whole pre-order, and
the answer is the image of the start; or the next node's name is taken by a child of the node under
which its image was to go, and the fault names the two. -/
theorem transformInto_only_appends {V U : Type} (t : Tree V) (h : t.Made) (target : Tree U)
    (htarget : target.Made) (start : Nat) (parent : NodeId) (names : Nat → String)
    (values : Nat → Option U) :
    (target.index? parent = none →
        t.transformInto start target parent names values = (.error (.foreignNode parent), target)) ∧
      ∀ p, target.index? parent = some p → ∃ result u added,
        t.transformInto start target parent names values = (result, u) ∧
        target.Extends u ∧
        (∀ k, k < target.size → u.childrenOf k =
          target.childrenOf k ++ if k = p ∧ added ≠ [] then [target.size] else []) ∧
        u.listing = target.listing ++ added.map (fun i =>
          ⟨names i, values i, some (t.landsUnder start target.size p i)⟩) ∧
        (∀ i ∈ t.preOrder start, u.childrenOf (t.landing start target.size i) =
          ((t.childrenOf i).filter (· ∈ added)).map (t.landing start target.size)) ∧
        (∀ i ∈ added, ∀ c ∈ u.childrenOf (t.landsUnder start target.size p i),
          u.name c = names i → c = t.landing start target.size i) ∧
        ((added = t.preOrder start ∧ result = .ok (target.idOf target.size)) ∨
          ∃ i rest, t.preOrder start = added ++ i :: rest ∧
            (∃ c ∈ u.childrenOf (t.landsUnder start target.size p i), u.name c = names i) ∧
            result = .error
              (.nameTaken (u.name (t.landsUnder start target.size p i)) (names i))) := by
  have hwf := h.wellFormed
  have htwf := htarget.wellFormed
  refine ⟨fun hforeign => transformInto_of_refused
    (addChild_of_index?_eq_none target hforeign _ _), fun p hp => ?_⟩
  obtain ⟨rfl, hlt⟩ := target.index?_eq_some_iff.1 hp
  obtain ⟨added, rest, result, hsplit, hfree, heq, hend⟩ :=
    @transformInto_cases _ _ _ _ names values _ hwf htwf start hlt
  refine ⟨result, _, added, heq, extends_appendAll _ _,
    fun k hk => childrenOf_offshoots_of_lt hwf hlt hsplit hk, ?_,
    fun i hi => childrenOf_offshoots_landing hwf hlt hsplit hi,
    fun i hi c hc hname => eq_landing_of_name hwf htwf hlt hsplit hfree hi hc hname, ?_⟩
  · rw [listing_appendAll, List.map_map]
    rfl
  · rcases hend with ⟨rfl, hok⟩ | ⟨i, after, rfl, htaken, herror⟩
    · exact .inl ⟨(hsplit.trans (List.append_nil _)).symm, hok⟩
    · refine .inr ⟨i, after, hsplit, ?_, herror⟩
      rw [← taken_appendAll htwf (rooted_offshoots hwf hlt hsplit) hfree] at htaken
      rcases htaken with hthere | ⟨r, hr, -⟩
      · exact hthere
      · cases hr

/-- A bed goes into a yard with its two plants, all of them under one name.  The second plant is
refused, and the bed stays with the first one. -/
theorem transformInto_only_appends_garden :
    garden.Made ∧ (Tree.new 1 "yard" (some 0)).Made ∧
      ∃ u, garden.transformInto 1 (Tree.new 1 "yard" (some 0)) ⟨1, 0⟩ (fun _ => "bed")
          garden.value? = (.error (.nameTaken "bed" "bed"), u) ∧
        u.childrenOf 0 = [1] ∧ u.childrenOf 1 = [2] ∧
        u.listing = [⟨"yard", some 0, none⟩, ⟨"bed", some 7, some 0⟩, ⟨"bed", some 7, some 1⟩] := by
  obtain ⟨-, happends⟩ := transformInto_only_appends garden made_garden
    (Tree.new 1 "yard" (some 0)) (.new 1 "yard" (some 0)) 1 ⟨1, 0⟩ (fun _ => "bed") garden.value?
  obtain ⟨result, u, added, heq, -, hold, hlisting, hnew, -, hend⟩ := happends 0 rfl
  have hresult : result = .error (.nameTaken "bed" "bed") := (congrArg Prod.fst heq).symm
  have hlength : added.length = 2 := by
    have hsize : u.size = 3 := congrArg Tree.size (congrArg Prod.snd heq).symm
    have h := congrArg List.length hlisting
    rw [listing, List.length_map, List.length_range, hsize, List.length_append,
      List.length_map] at h
    exact (Nat.add_left_cancel (n := 1) h).symm
  have hadded : added = [1, 3] := by
    rcases hend with ⟨-, rfl⟩ | ⟨i, rest, hsplit, -⟩
    · cases hresult
    · calc added = (garden.preOrder 1).take 2 := by rw [hsplit, List.take_left' hlength]
        _ = [1, 3] := by decide
  subst hadded hresult
  exact ⟨made_garden, .new 1 "yard" (some 0), u, heq, hold 0 (by decide),
    hnew 1 (by decide), hlisting⟩

end Tree

end Admission
