import Admission.Proofs.Building
import Mathlib.Data.List.Range

/-!
# Many additions

Trees grow by more than one node at a time when other trees are copied into them.  To know what
comes of that, it is enough to know which nodes are to be added, in which order, and where.

* **listings** — `Tree.listing` shows the names, values and parents of all nodes in the order of the
  array, so one equation between listings tells what has stayed and what has come;
* **appending** — a `Shoot` is a node that is still to be added.  `Tree.appendAll` appends one after
  the other, and `Tree.listing_appendAll` and `Tree.childrenOf_appendAll` say what the tree shows
  then;
* **numbers** — `Numbered` says that nodes get consecutive numbers, as they do when they are added
  one after the other (`Tree.line_appendAll`);
* **names** — `Tree.Free` says that no name is taken when its turn comes, and
  `Tree.taken_appendAll` that it shows in the tree if one is;
* **checks** — `Tree.addAll` stops at the first shoot that is refused, and `Tree.addWhole` gives up
  the tree then.  By `Tree.addAll_cases` all shoots are appended if they are free, and otherwise
  those before the first one whose name is taken.
-/

namespace Admission

/-- What a node shows besides its children. -/
structure Line (V : Type) where
  /-- The name. -/
  name : String
  /-- The value, where there is one. -/
  value : Option V
  /-- The index of the parent; the root has none. -/
  parent : Option Nat

/-- A node that is still to be added. -/
structure Shoot (V : Type) where
  /-- The index of the node under which it is to be added. -/
  parent : Nat
  /-- The name. -/
  name : String
  /-- The value, where there is one. -/
  value : Option V

/-- What the node shows when it has been added. -/
def Shoot.line {V : Type} (s : Shoot V) : Line V := ⟨s.name, s.value, some s.parent⟩

namespace Tree

variable {V : Type} {t : Tree V} {s : Shoot V} {shoots : List (Shoot V)}

/-! ## Listings -/

/-- What a node shows. -/
def line (t : Tree V) (i : Nat) : Line V := ⟨t.name i, t.value? i, t.parent? i⟩

/-- What the nodes show, in the order of the array. -/
def listing (t : Tree V) : List (Line V) := (List.range t.size).map t.line

/-- Old nodes show what they showed before. -/
theorem Extends.line {u : Tree V} (h : t.Extends u) {i : Nat} (hi : i < t.size) :
    u.line i = t.line i := by
  rw [Tree.line, h.name i hi, h.value i hi, h.parent i hi, Tree.line]

theorem listing_append (t : Tree V) (parent : Nat) (name : String) (value : Option V) :
    (t.append parent name value).listing = t.listing ++ [⟨name, value, some parent⟩] := by
  have hold : ∀ i ∈ List.range t.size, (t.append parent name value).line i = t.line i :=
    fun i hi => (Extends.append t parent name value).line (List.mem_range.1 hi)
  rw [listing, size_append, List.range_succ, List.map_append, List.map_congr_left hold,
    List.map_singleton, line, name_append_size, value?_append_size, parent?_append_size, listing]

/-- Where a listing goes through other nodes, each of them is shown at its position. -/
theorem line_idxOf {nodes : List Nat} {shown : Nat → Line V} (h : t.listing = nodes.map shown)
    {i : Nat} (hi : i ∈ nodes) : t.line (nodes.idxOf i) = shown i := by
  have hlt := List.idxOf_lt_length_of_mem hi
  have hsize : t.size = nodes.length := by
    rw [← List.length_map shown, ← h, listing, List.length_map, List.length_range]
  have hget : t.listing[nodes.idxOf i]? = some (shown i) := by
    rw [h, List.getElem?_map, List.getElem?_eq_getElem hlt, List.getElem_idxOf, Option.map_some]
  rw [listing, List.getElem?_map, List.getElem?_range (hsize ▸ hlt), Option.map_some,
    Option.some_inj] at hget
  exact hget

/-! ## Appending -/

/-- A single root has no children. -/
theorem childrenOf_new (id : Nat) (name : String) (value : Option V) (i : Nat) :
    (Tree.new id name value).childrenOf i = [] := by
  rcases i with _ | i
  · rfl
  · exact childrenOf_of_le _ (by rw [size_new]; omega)

/-- The parent, and no other node, gains a child. -/
theorem childrenOf_append (t : Tree V) {parent : Nat} (hparent : parent < t.size) (name : String)
    (value : Option V) (i : Nat) :
    (t.append parent name value).childrenOf i =
      t.childrenOf i ++ if parent = i then [t.size] else [] := by
  rcases Nat.lt_trichotomy i t.size with hlt | rfl | hgt
  · rw [childrenOf_append_of_lt _ _ _ _ hlt]
    by_cases hsame : i = parent
    · rw [if_pos hsame, if_pos hsame.symm]
    · rw [if_neg hsame, if_neg (Ne.symm hsame), List.append_nil]
  · rw [childrenOf_append_size, t.childrenOf_of_le le_rfl, if_neg (by omega)]
    rfl
  · rw [childrenOf_of_le _ (by rw [size_append]; omega), t.childrenOf_of_le (by omega),
      if_neg (by omega)]
    rfl

/-- Append nodes one after the other, whatever their names. -/
def appendAll (t : Tree V) (shoots : List (Shoot V)) : Tree V :=
  shoots.foldl (fun t s => t.append s.parent s.name s.value) t

theorem appendAll_cons (t : Tree V) (s : Shoot V) (shoots : List (Shoot V)) :
    t.appendAll (s :: shoots) = (t.append s.parent s.name s.value).appendAll shoots := rfl

theorem size_appendAll (t : Tree V) (shoots : List (Shoot V)) :
    (t.appendAll shoots).size = t.size + shoots.length := by
  induction shoots generalizing t with
  | nil => rfl
  | cons s shoots ih =>
    rw [appendAll_cons, ih, size_append, List.length_cons]
    omega

theorem extends_appendAll (t : Tree V) (shoots : List (Shoot V)) :
    t.Extends (t.appendAll shoots) := by
  induction shoots generalizing t with
  | nil => exact .refl t
  | cons s shoots ih => exact (Extends.append t s.parent s.name s.value).trans (ih _)

theorem idOf_appendAll (t : Tree V) (shoots : List (Shoot V)) (i : Nat) :
    (t.appendAll shoots).idOf i = t.idOf i := by
  rw [idOf, (extends_appendAll t shoots).id, idOf]

/-- The listing grows by the lines of the nodes that are appended. -/
theorem listing_appendAll (t : Tree V) (shoots : List (Shoot V)) :
    (t.appendAll shoots).listing = t.listing ++ shoots.map Shoot.line := by
  induction shoots generalizing t with
  | nil => exact (List.append_nil _).symm
  | cons s shoots ih =>
    rw [appendAll_cons, ih, listing_append, List.append_assoc]
    rfl

/-- What is appended does not depend on which tree it is appended to, apart from its nodes. -/
theorem nodes_appendAll {u : Tree V} (h : t.nodes = u.nodes) (shoots : List (Shoot V)) :
    (t.appendAll shoots).nodes = (u.appendAll shoots).nodes := by
  induction shoots generalizing t u with
  | nil => exact h
  | cons s shoots ih =>
    refine ih ?_
    simp only [append, size, h]

/-- Each shoot is put under a node that was there before or has come before it. -/
def Rooted : Nat → List (Shoot V) → Prop
  | _, [] => True
  | size, s :: shoots => s.parent < size ∧ Rooted (size + 1) shoots

/-! ## Numbers -/

/-- Nodes have consecutive numbers from `first` on. -/
def Numbered (first : Nat) (nodes : List Nat) (number : Nat → Nat) : Prop :=
  nodes.map number = List.range' first nodes.length

section

variable {first i : Nat} {nodes : List Nat} {number : Nat → Nat} {shoot : Nat → Shoot V}

theorem numbered_cons_iff :
    Numbered first (i :: nodes) number ↔ number i = first ∧ Numbered (first + 1) nodes number := by
  rw [Numbered, List.map_cons, List.length_cons, List.range'_succ, List.cons.injEq, Numbered]

theorem numbered_append_iff {further : List Nat} :
    Numbered first (nodes ++ further) number ↔
      Numbered first nodes number ∧ Numbered (first + nodes.length) further number := by
  induction nodes generalizing first with
  | nil => simp [Numbered]
  | cons i nodes ih =>
    rw [List.cons_append, numbered_cons_iff, numbered_cons_iff, ih, and_assoc, List.length_cons,
      Nat.add_right_comm, Nat.add_assoc]

/-- Nodes may be numbered by their positions. -/
theorem numbered_idxOf (first : Nat) (h : nodes.Nodup) :
    Numbered first nodes fun i => first + nodes.idxOf i := by
  refine List.ext_getElem (by simp) fun j hj hj' => ?_
  rw [List.length_map] at hj
  rw [List.getElem_map, List.getElem_range', h.idxOf_getElem j hj, Nat.one_mul]

/-- Nodes that are put under nodes with smaller numbers can be added one after the other. -/
theorem rooted_of_numbered (hnumbered : Numbered first nodes number)
    (hparent : ∀ i ∈ nodes, (shoot i).parent < number i) : Rooted first (nodes.map shoot) := by
  induction nodes generalizing first with
  | nil => trivial
  | cons i nodes ih =>
    obtain ⟨hi, hrest⟩ := numbered_cons_iff.1 hnumbered
    obtain ⟨hlt, hparents⟩ := List.forall_mem_cons.1 hparent
    exact ⟨hi ▸ hlt, ih hrest hparents⟩

/-- Each node stands where its number says. -/
theorem line_appendAll (hnumbered : Numbered t.size nodes number) (hi : i ∈ nodes) :
    (t.appendAll (nodes.map shoot)).line (number i) = (shoot i).line := by
  induction nodes generalizing t with
  | nil => cases hi
  | cons j nodes ih =>
    obtain ⟨hj, hrest⟩ := numbered_cons_iff.1 hnumbered
    rw [← size_append t (shoot j).parent (shoot j).name (shoot j).value] at hrest
    rw [List.map_cons, appendAll_cons]
    rcases List.mem_cons.1 hi with rfl | hi
    · rw [hj, (extends_appendAll _ _).line (by rw [size_append]; omega), line, name_append_size,
        value?_append_size, parent?_append_size, Shoot.line]
    · exact ih hrest hi

/-- The children of a node are the old ones, and after them the new ones that are put under it. -/
theorem childrenOf_appendAll (hrooted : Rooted t.size (nodes.map shoot))
    (hnumbered : Numbered t.size nodes number) (k : Nat) :
    (t.appendAll (nodes.map shoot)).childrenOf k =
      t.childrenOf k ++ (nodes.filter fun i => (shoot i).parent = k).map number := by
  induction nodes generalizing t with
  | nil => exact (List.append_nil _).symm
  | cons i nodes ih =>
    obtain ⟨hi, hrest⟩ := numbered_cons_iff.1 hnumbered
    obtain ⟨hlt, hlater⟩ := hrooted
    rw [← size_append t (shoot i).parent (shoot i).name (shoot i).value] at hrest hlater
    rw [List.map_cons, appendAll_cons, ih hlater hrest, childrenOf_append t hlt, List.filter_cons,
      List.append_assoc]
    by_cases hk : (shoot i).parent = k
    · simp [hk, hi]
    · simp [hk]

end

/-! ## Names that are free -/

/-- No name is taken when its turn comes. -/
structure Free (t : Tree V) (shoots : List (Shoot V)) : Prop where
  /-- No old child of its parent has the name. -/
  old : ∀ s ∈ shoots, ∀ c ∈ t.childrenOf s.parent, t.name c ≠ s.name
  /-- No shoot that is put under the same node before it has the name. -/
  new : shoots.Pairwise fun r s => r.parent = s.parent → r.name ≠ s.name

/-- The name of a shoot is taken: an old child of its parent has it, or a shoot that is put under
the same node before it. -/
def Taken (t : Tree V) (before : List (Shoot V)) (s : Shoot V) : Prop :=
  (∃ c ∈ t.childrenOf s.parent, t.name c = s.name) ∨
    ∃ r ∈ before, r.parent = s.parent ∧ r.name = s.name

theorem free_nil (t : Tree V) : t.Free [] := ⟨fun _ hs => (nomatch hs), .nil⟩

/-- Of the nodes that are to be added, the first one becomes a node that is there. -/
theorem taken_append (hwf : t.WellFormed) (hs : s.parent < t.size) {before : List (Shoot V)}
    {r : Shoot V} :
    (t.append s.parent s.name s.value).Taken before r ↔ t.Taken (s :: before) r := by
  have hname : ∀ c ∈ t.childrenOf r.parent,
      (t.append s.parent s.name s.value).name c = t.name c := by
    intro c hc
    exact name_append_of_lt _ _ _ _ (hwf.parent_lt (hwf.mem_children.1 hc)).2
  have hold : (∃ c ∈ t.childrenOf r.parent,
      (t.append s.parent s.name s.value).name c = r.name) ↔
        ∃ c ∈ t.childrenOf r.parent, t.name c = r.name :=
    exists_congr fun c => and_congr_right fun hc => by rw [hname c hc]
  -- the children under the parent of `r`, with the new one among them if it is put there
  have hchildren : (∃ c ∈ (t.append s.parent s.name s.value).childrenOf r.parent,
      (t.append s.parent s.name s.value).name c = r.name) ↔
        (∃ c ∈ t.childrenOf r.parent, t.name c = r.name) ∨
          s.parent = r.parent ∧ s.name = r.name := by
    rw [childrenOf_append t hs, ← hold]
    by_cases hsame : s.parent = r.parent
    · simp [hsame, or_and_right, exists_or, name_append_size]
    · simp [hsame]
  rw [Taken, Taken, hchildren, List.exists_mem_cons_iff, or_assoc]

theorem free_cons_iff (hwf : t.WellFormed) (hs : s.parent < t.size) :
    t.Free (s :: shoots) ↔
      ¬ t.Taken [] s ∧ (t.append s.parent s.name s.value).Free shoots := by
  have hfirst : ¬ t.Taken [] s ↔ ∀ c ∈ t.childrenOf s.parent, t.name c ≠ s.name := by
    simp [Taken]
  have hold : (∀ r ∈ shoots, ∀ c ∈ (t.append s.parent s.name s.value).childrenOf r.parent,
      (t.append s.parent s.name s.value).name c ≠ r.name) ↔
        (∀ r ∈ shoots, ∀ c ∈ t.childrenOf r.parent, t.name c ≠ r.name) ∧
          ∀ r ∈ shoots, s.parent = r.parent → s.name ≠ r.name := by
    rw [← forall₂_and]
    refine forall₂_congr fun r _ => ?_
    have h : ¬ (t.append s.parent s.name s.value).Taken [] r ↔ ¬ t.Taken [s] r :=
      not_congr (taken_append hwf hs)
    simpa [Taken] using h
  rw [hfirst]
  constructor
  · intro h
    obtain ⟨hs, hrest⟩ := List.forall_mem_cons.1 h.old
    obtain ⟨hapart, hnew⟩ := List.pairwise_cons.1 h.new
    exact ⟨hs, hold.2 ⟨hrest, hapart⟩, hnew⟩
  · rintro ⟨hs, h⟩
    obtain ⟨hrest, hapart⟩ := hold.1 h.old
    exact ⟨List.forall_mem_cons.2 ⟨hs, hrest⟩, List.pairwise_cons.2 ⟨hapart, h.new⟩⟩

/-- Shoots with free names keep a tree well-formed. -/
theorem WellFormed.appendAll (hwf : t.WellFormed) (hrooted : Rooted t.size shoots)
    (hfree : t.Free shoots) : (t.appendAll shoots).WellFormed := by
  induction shoots generalizing t with
  | nil => exact hwf
  | cons s shoots ih =>
    obtain ⟨hs, hrest⟩ := hrooted
    obtain ⟨hnot, hnext⟩ := (free_cons_iff hwf hs).1 hfree
    rw [appendAll_cons]
    refine ih (hwf.append hs ?_ _) (by rwa [size_append]) hnext
    exact fun c hc hname => hnot (.inl ⟨c, hc, hname⟩)

/-- That a name is taken shows in the tree that has grown by then. -/
theorem taken_appendAll (hwf : t.WellFormed) (hrooted : Rooted t.size shoots)
    (hfree : t.Free shoots) :
    (t.appendAll shoots).Taken [] s ↔ t.Taken shoots s := by
  induction shoots generalizing t with
  | nil => rfl
  | cons r shoots ih =>
    obtain ⟨hr, hrest⟩ := hrooted
    obtain ⟨hnot, hnext⟩ := (free_cons_iff hwf hr).1 hfree
    have hgrown := hwf.append hr (fun c hc hname => hnot (.inl ⟨c, hc, hname⟩)) r.value
    rw [← size_append t r.parent r.name r.value] at hrest
    rw [appendAll_cons, ih hgrown hrest hnext, taken_append hwf hr]

/-! ## Appending with checks -/

/-- Add nodes one after the other until one is refused: why it was, and the tree as far as it has
been built. -/
def addAll (t : Tree V) : List (Shoot V) → Except TreeFault Unit × Tree V
  | [] => (.ok (), t)
  | s :: shoots =>
    match t.addChild (t.idOf s.parent) s.name s.value with
    | (.error fault, left) => (.error fault, left)
    | (.ok _, grown) => grown.addAll shoots

theorem addChild_of_free (hs : s.parent < t.size) (hfree : ¬ t.Taken [] s) :
    t.addChild (t.idOf s.parent) s.name s.value =
      (.ok (t.idOf t.size), t.append s.parent s.name s.value) := by
  refine t.addChild_eq_ok_iff.2 ⟨s.parent, t.index?_idOf hs, ?_, rfl, rfl⟩
  exact fun c hc hname => hfree (.inl ⟨c, hc, hname⟩)

theorem addChild_of_taken (hs : s.parent < t.size) (htaken : t.Taken [] s) :
    t.addChild (t.idOf s.parent) s.name s.value =
      (.error (.nameTaken (t.name s.parent) s.name), t) := by
  rcases htaken with hold | ⟨r, hr, -⟩
  · exact t.addChild_eq_error_iff.2 ⟨rfl, .inr ⟨s.parent, rfl, hs, hold, rfl⟩⟩
  · cases hr

/-- Shoots are added one part after the other. -/
theorem addAll_append (t : Tree V) (shoots further : List (Shoot V)) :
    t.addAll (shoots ++ further) =
      match t.addAll shoots with
      | (.error fault, u) => (.error fault, u)
      | (.ok (), u) => u.addAll further := by
  induction shoots generalizing t with
  | nil => rfl
  | cons s shoots ih =>
    rw [List.cons_append, addAll, addAll]
    rcases t.addChild (t.idOf s.parent) s.name s.value with ⟨fault | node, grown⟩
    · rfl
    · exact ih grown

/-- When all shoots have been added, they have been appended. -/
theorem eq_appendAll_of_addAll {u : Tree V} (h : t.addAll shoots = (.ok (), u)) :
    u = t.appendAll shoots := by
  induction shoots generalizing t with
  | nil =>
    cases h
    rfl
  | cons s shoots ih =>
    rw [addAll] at h
    split at h
    · cases h
    · next hadd =>
      obtain ⟨p, hp, -, -, rfl⟩ := t.addChild_eq_ok_iff.1 hadd
      obtain ⟨hsame, -⟩ := t.index?_eq_some_iff.1 hp
      obtain rfl : s.parent = p := congrArg NodeId.index hsame
      exact ih h

/-- Add nodes one after the other, and give up the tree when one is refused. -/
def addWhole (t : Tree V) (shoots : List (Shoot V)) : Except TreeFault (Tree V) :=
  match t.addAll shoots with
  | (.error fault, _) => .error fault
  | (.ok (), u) => .ok u

theorem addWhole_cons (t : Tree V) (s : Shoot V) (shoots : List (Shoot V)) :
    t.addWhole (s :: shoots) =
      match t.addChild (t.idOf s.parent) s.name s.value with
      | (.error fault, _) => .error fault
      | (.ok _, grown) => grown.addWhole shoots := by
  rw [addWhole, addAll]
  rcases t.addChild (t.idOf s.parent) s.name s.value with ⟨fault | node, grown⟩ <;> rfl

theorem addWhole_append (t : Tree V) (shoots further : List (Shoot V)) :
    t.addWhole (shoots ++ further) =
      match t.addWhole shoots with
      | .error fault => .error fault
      | .ok u => u.addWhole further := by
  rw [addWhole, addAll_append, addWhole]
  cases t.addAll shoots with
  | mk result u =>
    cases result with
    | error fault => rfl
    | ok _ => rfl

theorem eq_appendAll_of_addWhole {u : Tree V} (h : t.addWhole shoots = .ok u) :
    u = t.appendAll shoots := by
  rw [addWhole] at h
  split at h
  · cases h
  · next hadd =>
    cases h
    exact eq_appendAll_of_addAll hadd

/-- All shoots are added if their names are free.  Otherwise those before the first one whose name
is taken are, and this one is refused. -/
theorem addAll_cases (hwf : t.WellFormed) (hrooted : Rooted t.size shoots) :
    (t.Free shoots ∧ t.addAll shoots = (.ok (), t.appendAll shoots)) ∨
      ∃ before s after, shoots = before ++ s :: after ∧ t.Free before ∧ t.Taken before s ∧
        t.addAll shoots =
          (.error (.nameTaken ((t.appendAll before).name s.parent) s.name),
            t.appendAll before) := by
  induction shoots generalizing t with
  | nil => exact .inl ⟨free_nil t, rfl⟩
  | cons s shoots ih =>
    obtain ⟨hs, hrest⟩ := hrooted
    by_cases htaken : t.Taken [] s
    · refine .inr ⟨[], s, shoots, rfl, free_nil t, htaken, ?_⟩
      rw [addAll, addChild_of_taken hs htaken]
      rfl
    · have hnext := hwf.append hs (fun c hc hname => htaken (.inl ⟨c, hc, hname⟩)) s.value
      rw [← size_append t s.parent s.name s.value] at hrest
      have hadd : t.addAll (s :: shoots) =
          (t.append s.parent s.name s.value).addAll shoots := by
        rw [addAll, addChild_of_free hs htaken]
      rw [hadd]
      rcases ih hnext hrest with
        ⟨hfree, hall⟩ | ⟨before, r, after, rfl, hfree, hr, hall⟩
      · exact .inl ⟨(free_cons_iff hwf hs).2 ⟨htaken, hfree⟩, hall⟩
      · refine .inr ⟨s :: before, r, after, rfl, ?_, (taken_append hwf hs).1 hr, hall⟩
        exact (free_cons_iff hwf hs).2 ⟨htaken, hfree⟩

/-- Where a name is taken, the shoots are not free. -/
theorem Taken.not_free {before after : List (Shoot V)} (h : t.Taken before s) :
    ¬ t.Free (before ++ s :: after) := by
  intro hfree
  rcases h with ⟨c, hc, hname⟩ | ⟨r, hr, hparent, hname⟩
  · exact hfree.old s (List.mem_append_right _ List.mem_cons_self) c hc hname
  · have hpair := (List.pairwise_append.1 hfree.new).2.2 r hr s List.mem_cons_self
    exact hpair hparent hname

end Tree

end Admission
