import Admission.Proofs.Creation
import Admission.Proofs.InOrder

/-!
# Documents and their trees

A limits document becomes a tree with one node for each of its resources, or it is refused for the
first thing that is wrong with it.

* **rates** — `RateEntry.IsSound` says what makes sense, and `RateEntry.mapM_toRate` that entries
  become the rates that they declare unless one of them makes no sense;
* **places** — `Limits.places` goes through a document in pre-order.  For each place `Place.row` is
  what its node has to show, and `Place.fault?` what is wrong with it;
* **sound documents** — `Limits.IsSound` says when nothing is wrong with any place
  (`Limits.findSome?_fault?_eq_none_iff`);
* **building** — `Tree.Open` is a tree under construction and `Tree.Grown` what it has grown by.
  `Tree.Open.append` puts in a node, `Tree.Open.close` leaves it when all below it has been built,
  `ResourceEntry.addTo_cases` and `ResourceEntry.addAllTo_cases` go through a document, and
  `Limits.buildTree_mirrors` is the whole.
-/

namespace Admission

/-! ## Sound rates -/

/-- Whether the parameters of an algorithm make sense: a burst is positive and finite, a warm-up
takes time, and a cold factor is finite and at least one. -/
def Algorithm.IsSensible : Algorithm → Prop
  | allOrNothing => True
  | bursty burst => burst.isFinite = true ∧ ¬ burst ≤ 0.0
  | warmingUp period cold => period.isZero = false ∧ cold.isFinite = true ∧ ¬ cold < 1.0
  | custom _ => True

theorem Algorithm.validate_eq_ok_iff {a : Algorithm} : a.validate = .ok () ↔ a.IsSensible := by
  cases a with
  | allOrNothing => exact ⟨fun _ => trivial, fun _ => rfl⟩
  | custom name => exact ⟨fun _ => trivial, fun _ => rfl⟩
  | bursty burst =>
    rw [validate, ite_throw_eq_ok_iff, IsSensible]
    simp [pure, Except.pure]
  | warmingUp period cold =>
    rw [validate, ite_throw_eq_ok_iff, ite_throw_eq_ok_iff, IsSensible]
    simp [pure, Except.pure]

theorem Rate.new_eq_ok_iff {permits : UInt64} {period : Duration} {rate : Rate} :
    Rate.new permits period = .ok rate ↔ period.isZero = false ∧ rate = ⟨permits, period, none⟩ := by
  rw [new, ite_throw_eq_ok_iff, Bool.not_eq_true]
  exact and_congr_right fun _ => ⟨fun h => (Except.ok.inj h).symm, fun h => congrArg _ h.symm⟩

theorem Rate.withAlgorithm_eq_ok_iff {r rate : Rate} {a : Algorithm} :
    r.withAlgorithm a = .ok rate ↔ a.IsSensible ∧ rate = { r with algorithm := some a } := by
  rw [withAlgorithm, bind_eq_ok_iff, ← Algorithm.validate_eq_ok_iff]
  constructor
  · rintro ⟨⟨⟩, hvalid, ⟨⟩⟩
    exact ⟨hvalid, rfl⟩
  · rintro ⟨hvalid, rfl⟩
    exact ⟨(), hvalid, rfl⟩

namespace RateEntry

/-- The length of a period. -/
def period (r : RateEntry) : Duration := r.unit.duration.times r.every.toNat

/-- The rate that an entry declares, whether or not it makes sense. -/
def rate (r : RateEntry) : Rate := ⟨r.permits, r.period, r.algorithm⟩

/-- Whether an entry makes sense: its period is not empty, and its algorithm, if it chooses one, is
sensible. -/
def IsSound (r : RateEntry) : Prop :=
  r.period.isZero = false ∧ ∀ a, r.algorithm = some a → a.IsSensible

theorem toRate_eq_ok_iff {r : RateEntry} {rate : Rate} :
    r.toRate = .ok rate ↔ r.IsSound ∧ rate = r.rate := by
  obtain ⟨permits, unit, every, algorithm⟩ := r
  rw [toRate, bind_eq_ok_iff]
  simp only [Rate.new_eq_ok_iff]
  cases algorithm with
  | none =>
    constructor
    · rintro ⟨_, ⟨hperiod, rfl⟩, ⟨⟩⟩
      exact ⟨⟨hperiod, fun _ h => (nomatch h)⟩, rfl⟩
    · rintro ⟨⟨hperiod, -⟩, rfl⟩
      exact ⟨_, ⟨hperiod, rfl⟩, rfl⟩
  | some a =>
    constructor
    · rintro ⟨_, ⟨hperiod, rfl⟩, hwith⟩
      obtain ⟨hsensible, rfl⟩ := Rate.withAlgorithm_eq_ok_iff.1 hwith
      exact ⟨⟨hperiod, fun _ h => Option.some.inj h ▸ hsensible⟩, rfl⟩
    · rintro ⟨⟨hperiod, hsensible⟩, rfl⟩
      exact ⟨_, ⟨hperiod, rfl⟩, Rate.withAlgorithm_eq_ok_iff.2 ⟨hsensible a rfl, rfl⟩⟩

/-- What is wrong with an entry, if it does not make sense. -/
def fault? (r : RateEntry) : Option RateFault :=
  match r.toRate with
  | .error fault => some fault
  | .ok _ => none

theorem fault?_eq_none_iff {r : RateEntry} : r.fault? = none ↔ r.IsSound := by
  unfold fault?
  cases h : r.toRate with
  | error fault =>
    refine ⟨fun hnone => (nomatch hnone), fun hsound => ?_⟩
    rw [toRate_eq_ok_iff.2 ⟨hsound, rfl⟩] at h
    cases h
  | ok rate => exact ⟨fun _ => (toRate_eq_ok_iff.1 h).1, fun _ => rfl⟩

/-- Entries become the rates that they declare, unless one of them makes no sense; the first of
these decides. -/
theorem mapM_toRate (rates : List RateEntry) :
    rates.mapM toRate =
      match rates.findSome? fault? with
      | some fault => .error fault
      | none => .ok (rates.map rate) := by
  induction rates with
  | nil => rfl
  | cons r rates ih =>
    rw [List.mapM_cons, List.findSome?_cons, ih, fault?]
    cases h : r.toRate with
    | error fault => rfl
    | ok rate =>
      obtain ⟨-, rfl⟩ := toRate_eq_ok_iff.1 h
      dsimp only
      cases rates.findSome? fault? <;> rfl

end RateEntry

/-! ## Places in a document -/

/-- A place in a limits document: a resource, with what is around it. -/
structure Place where
  /-- The names of the resources that it is in, outermost first. -/
  around : List String
  /-- The names of its siblings before it. -/
  earlier : List String
  /-- The resource. -/
  entry : ResourceEntry

namespace ResourceEntry

mutual

/-- A resource and all below it, each before what is below it. -/
def places (around earlier : List String) : ResourceEntry → List Place
  | ⟨name, operator, rates, condition, resources⟩ =>
    ⟨around, earlier, ⟨name, operator, rates, condition, resources⟩⟩ ::
      placesAll (around ++ [name]) [] resources

/-- Several resources and all below them. -/
def placesAll (around earlier : List String) : List ResourceEntry → List Place
  | [] => []
  | r :: rs => places around earlier r ++ placesAll around (earlier ++ [r.name]) rs

end

end ResourceEntry

/-- The places of a document in pre-order. -/
def Limits.places (l : Limits) : List Place := ResourceEntry.placesAll [] [] l.resources

namespace Place

/-- The names from the top level down to the resource. -/
def names (p : Place) : List String := p.around ++ [p.entry.name]

/-- The names with dots between them. -/
def path (p : Place) : String := ".".intercalate p.names

/-- The value that the node of the resource gets: none if the resource declares no rates. -/
def limit? (p : Place) : Option NodeLimit :=
  if p.entry.rates.isEmpty then none
  else some ⟨p.path, ⟨p.entry.operator, p.entry.rates.map RateEntry.rate⟩, p.entry.condition⟩

/-- What is wrong with a resource: one of its rates, or else its name; `root` is the name of the
whole document. -/
def fault? (root : String) (p : Place) : Option Fault :=
  match p.entry.rates.findSome? RateEntry.fault? with
  | some cause => some (.setup (.badRate p.path cause))
  | none =>
    if p.entry.name ∈ p.earlier then
      some (.structural (.nameTaken (p.around.getLast?.getD root) p.entry.name))
    else none

/-- What the node of the resource shows: how far it is from the root, its name, its path, and its
value. -/
def row (p : Place) : Nat × String × String × Option NodeLimit :=
  (p.names.length, p.entry.name, p.path, p.limit?)

/-- The value of a resource's node is made, unless one of its rates makes no sense. -/
theorem limit?_eq (p : Place) :
    ResourceEntry.limit? p.path p.entry.operator p.entry.rates p.entry.condition =
      match p.entry.rates.findSome? RateEntry.fault? with
      | some cause => .error (.setup (.badRate p.path cause))
      | none => .ok p.limit? := by
  rw [ResourceEntry.limit?, limit?, RateEntry.mapM_toRate]
  cases hrates : p.entry.rates with
  | nil => rfl
  | cons r rates =>
    dsimp only [List.isEmpty_cons]
    cases (r :: rates).findSome? RateEntry.fault? <;> rfl

end Place

/-! ## Sound documents -/

/-- Whether a document makes sense: all its rates do, and no two siblings have the same name. -/
def Limits.IsSound (l : Limits) : Prop :=
  (∀ p ∈ l.places, ∀ r ∈ p.entry.rates, r.IsSound) ∧
    (l.resources.map ResourceEntry.name).Nodup ∧
      ∀ p ∈ l.places, (p.entry.resources.map ResourceEntry.name).Nodup

theorem Place.fault?_eq_none_iff {root : String} {p : Place} :
    p.fault? root = none ↔
      (∀ r ∈ p.entry.rates, r.IsSound) ∧ p.entry.name ∉ p.earlier := by
  have hrates : p.entry.rates.findSome? RateEntry.fault? = none ↔
      ∀ r ∈ p.entry.rates, r.IsSound := by
    simp only [List.findSome?_eq_none_iff, RateEntry.fault?_eq_none_iff]
  rw [fault?, ← hrates]
  cases p.entry.rates.findSome? RateEntry.fault? with
  | some cause => simp
  | none => simp

namespace ResourceEntry

mutual

/-- No name in a resource is that of an earlier sibling if the resource's own is not, and if all
siblings below it differ. -/
theorem fresh_places_iff {around earlier : List String} :
    ∀ r : ResourceEntry,
      (∀ p ∈ places around earlier r, p.entry.name ∉ p.earlier) ↔
        r.name ∉ earlier ∧
          ∀ p ∈ places around earlier r, (p.entry.resources.map name).Nodup
  | ⟨label, operator, rates, condition, resources⟩ => by
    rw [places, List.forall_mem_cons, List.forall_mem_cons, fresh_placesAll_iff resources]
    simp only [List.not_mem_nil, not_false_eq_true, implies_true, true_and]

theorem fresh_placesAll_iff {around earlier : List String} :
    ∀ rs : List ResourceEntry,
      (∀ p ∈ placesAll around earlier rs, p.entry.name ∉ p.earlier) ↔
        (∀ label ∈ rs.map name, label ∉ earlier) ∧ (rs.map name).Nodup ∧
          ∀ p ∈ placesAll around earlier rs, (p.entry.resources.map name).Nodup
  | [] => by simp [placesAll]
  | r :: rs => by
    rw [placesAll, List.forall_mem_append, List.forall_mem_append, fresh_places_iff r,
      fresh_placesAll_iff rs, List.map_cons, List.forall_mem_cons, List.nodup_cons]
    have hlater : (∀ label ∈ rs.map name, label ∉ earlier ++ [r.name]) ↔
        (∀ label ∈ rs.map name, label ∉ earlier) ∧ r.name ∉ rs.map name := by
      simp only [List.mem_append, List.mem_singleton, not_or]
      constructor
      · exact fun h => ⟨fun label hl => (h label hl).1, fun hr => (h _ hr).2 rfl⟩
      · exact fun h label hl => ⟨h.1 label hl, fun hr => h.2 (hr ▸ hl)⟩
    rw [hlater]
    tauto

end

end ResourceEntry

/-- Nothing is wrong with any place of a document exactly if the document makes sense. -/
theorem Limits.findSome?_fault?_eq_none_iff {l : Limits} {root : String} :
    l.places.findSome? (Place.fault? root) = none ↔ l.IsSound := by
  have hfresh := @ResourceEntry.fresh_placesAll_iff [] [] l.resources
  simp only [List.findSome?_eq_none_iff, Place.fault?_eq_none_iff, IsSound]
  rw [places] at *
  constructor
  · intro h
    obtain ⟨-, hnames⟩ := hfresh.1 fun p hp => (h p hp).2
    exact ⟨fun p hp => (h p hp).1, hnames⟩
  · rintro ⟨hrates, hnames⟩ p hp
    exact ⟨hrates p hp, hfresh.2 ⟨fun _ _ => List.not_mem_nil, hnames⟩ p hp⟩

/-! ## What a node shows -/

namespace Tree

theorem length_names {V : Type} {t : Tree V} (hwf : t.WellFormed) (i : Nat) :
    (t.names i).length = t.level i := by
  induction i using Nat.strong_induction_on with
  | _ i ih =>
    cases hroot : t.isRoot i with
    | true =>
      rw [names_of_isRoot hroot, level, ancestors_of_isRoot hroot]
      rfl
    | false =>
      obtain ⟨p, hp⟩ := exists_parent hroot
      rw [names_of_parent hwf hp, List.length_append, ih p (hwf.parent_lt hp).1, level, level,
        hwf.ancestors_of_parent hp]
      rfl

/-- How far a node is from the root, its name, its path, and its value. -/
def row (t : Tree NodeLimit) (i : Nat) : Nat × String × String × Option NodeLimit :=
  (t.level i, t.name i, t.path "." i, t.value? i)

/-- What the nodes show, in the order of the array. -/
def rows (t : Tree NodeLimit) : List (Nat × String × String × Option NodeLimit) :=
  (List.range t.size).map t.row

variable {t u v : Tree NodeLimit} {root : String} {p : Nat} {around earlier : List String}

theorem Extends.row (h : t.Extends u) (ht : t.WellFormed) (hu : u.WellFormed) {i : Nat}
    (hi : i < t.size) : u.row i = t.row i := by
  rw [Tree.row, Tree.row, ← length_names hu, ← length_names ht, h.names ht hu hi, h.name i hi,
    h.path ht hu hi, h.value i hi]

/-- A tree that is being built, at a node where more resources may be put: what has been built below
that node stands last, the names on the way down to it are `around`, and those of its children are
`earlier`. -/
structure Open (t : Tree NodeLimit) (root : String) (p : Nat) (around earlier : List String) :
    Prop where
  /-- The nodes form a tree. -/
  wellFormed : t.WellFormed
  /-- They stand in pre-order. -/
  inOrder : t.InOrder
  /-- The last node is the one where resources are put, or below it. -/
  last : t.Under p (t.size - 1)
  /-- The root has its name. -/
  root : t.name 0 = root
  /-- The names on the way down. -/
  names : t.names p = around
  /-- The names of the children. -/
  children : (t.childrenOf p).map t.name = earlier

theorem open_new (id : Nat) (root : String) : Open (Tree.new id root none) root 0 [] [] where
  wellFormed := wellFormed_new id root none
  inOrder := inOrder_new id root none
  last := .refl
  root := rfl
  names := names_of_isRoot rfl
  children := rfl

theorem Open.lt_size (h : t.Open root p around earlier) : p < t.size := by
  have hle := h.last.le h.wellFormed
  have hpos := h.wellFormed.nonempty
  omega

/-- The node where resources are put has the last of the names around, or is the root. -/
theorem Open.name_eq (h : t.Open root p around earlier) :
    t.name p = around.getLast?.getD root := by
  rw [← h.names]
  cases hroot : t.isRoot p with
  | true =>
    rw [names_of_isRoot hroot, h.wellFormed.eq_zero_of_isRoot h.lt_size hroot, h.root]
    rfl
  | false =>
    obtain ⟨q, hq⟩ := exists_parent hroot
    rw [names_of_parent h.wellFormed hq, List.getLast?_concat]
    rfl

/-- A tree and what it has grown into by the resources of some places, all of them put at or below
one node. -/
structure Grown (t u : Tree NodeLimit) (p : Nat) (ps : List Place) : Prop where
  /-- The old nodes are as they were. -/
  extends_old : t.Extends u
  /-- The new nodes show what the places say, in the same order. -/
  rows : u.rows = t.rows ++ ps.map Place.row
  /-- No other old node has got children. -/
  others : ∀ i, i < t.size → i ≠ p → u.childrenOf i = t.childrenOf i

theorem Grown.refl (t : Tree NodeLimit) (p : Nat) : t.Grown t p [] where
  extends_old := .refl t
  rows := (List.append_nil _).symm
  others := fun _ _ _ => rfl

theorem Grown.trans {ps qs : List Place} (h : t.Grown u p ps) (h' : u.Grown v p qs) :
    t.Grown v p (ps ++ qs) where
  extends_old := h.extends_old.trans h'.extends_old
  rows := by rw [h'.rows, h.rows, List.map_append, List.append_assoc]
  others := fun i hi hp =>
    (h'.others i (hi.trans_le h.extends_old.size) hp).trans (h.others i hi hp)

/-- A new child under the node where resources are put is the next such node. -/
theorem Open.append (h : t.Open root p around earlier) (place : Place)
    (haround : place.around = around) (hfresh : place.entry.name ∉ earlier) :
    (t.append p place.entry.name place.limit?).Open root t.size place.names [] ∧
      t.Grown (t.append p place.entry.name place.limit?) p [place] := by
  have hgrown := Extends.append t p place.entry.name place.limit?
  have hfree : ∀ c ∈ t.childrenOf p, t.name c ≠ place.entry.name := by
    intro c hc hname
    exact hfresh (h.children ▸ List.mem_map.2 ⟨c, hc, hname⟩)
  have hwf := h.wellFormed.append h.lt_size hfree place.limit?
  have hnames : (t.append p place.entry.name place.limit?).names t.size = place.names := by
    rw [names_append_size h.wellFormed hwf h.lt_size, h.names, Place.names, haround]
  refine ⟨?_, hgrown, ?_, ?_⟩
  · exact
      { wellFormed := hwf
        inOrder := h.inOrder.append h.wellFormed h.last _ _
        last := by
          rw [size_append]
          exact .refl
        root := (hgrown.name 0 h.wellFormed.nonempty).trans h.root
        names := hnames
        children := by
          rw [childrenOf_append_size]
          rfl }
  · have hold : ∀ i ∈ List.range t.size,
        (t.append p place.entry.name place.limit?).row i = t.row i := by
      intro i hi
      exact hgrown.row h.wellFormed hwf (List.mem_range.1 hi)
    have hnew : (t.append p place.entry.name place.limit?).row t.size = place.row := by
      rw [row, Place.row, ← length_names hwf, path_eq, hnames, name_append_size,
        value?_append_size, Place.path]
    rw [rows, size_append, List.range_succ, List.map_append, List.map_congr_left hold,
      List.map_singleton, hnew, rows, List.map_singleton]
  · intro i hi hne
    rw [childrenOf_append_of_lt t p _ _ hi, if_neg hne]

/-- When all that is below a new child has been built, the node above it is open again. -/
theorem Open.close {place : Place} {labels : List String} {ps : List Place}
    (h : t.Open root p around earlier) (haround : place.around = around)
    (hfresh : place.entry.name ∉ earlier)
    (hopen : u.Open root t.size place.names labels)
    (hgrown : (t.append p place.entry.name place.limit?).Grown u t.size ps) :
    u.Open root p around (earlier ++ [place.entry.name]) ∧ t.Grown u p (place :: ps) := by
  obtain ⟨hnext, hfirst⟩ := h.append place haround hfresh
  have hp := h.lt_size
  have hall := hfirst.extends_old.trans hgrown.extends_old
  have hsize : t.size < (t.append p place.entry.name place.limit?).size := by
    rw [size_append]
    omega
  have hchildren : u.childrenOf p = t.childrenOf p ++ [t.size] := by
    rw [hgrown.others p (by omega) (by omega), childrenOf_append_of_lt t p _ _ hp, if_pos rfl]
  refine ⟨?_, hall, ?_, ?_⟩
  · refine
      { wellFormed := hopen.wellFormed
        inOrder := hopen.inOrder
        last := ?_
        root := hopen.root
        names := (hall.names h.wellFormed hopen.wellFormed hp).trans h.names
        children := ?_ }
    · have hparent : u.parent? t.size = some p :=
        (hgrown.extends_old.parent _ hsize).trans (parent?_append_size ..)
      exact (Under.child .refl hparent).trans hopen.last
    · have hold : ∀ c ∈ t.childrenOf p, u.name c = t.name c := by
        intro c hc
        exact hall.name c (h.wellFormed.parent_lt (h.wellFormed.mem_children.1 hc)).2
      rw [hchildren, List.map_append, List.map_congr_left hold, h.children, List.map_singleton,
        hgrown.extends_old.name _ hsize, name_append_size]
  · rw [hgrown.rows, hfirst.rows, List.append_assoc, ← List.map_append]
    rfl
  · intro i hi hne
    rw [hgrown.others i (by omega) (by omega), hfirst.others i hi hne]

end Tree

/-! ## Building -/

namespace ResourceEntry

/-- The path that resources put below a node have to continue; none at the top level. -/
def pathOf? (around : List String) : Option String :=
  if around.isEmpty then none else some (".".intercalate around)

theorem pathUnder_pathOf? (around : List String) (label : String) :
    pathUnder (pathOf? around) label = ".".intercalate (around ++ [label]) := by
  rcases around with _ | ⟨first, around⟩
  · rw [List.nil_append, String.intercalate_singleton]
    rfl
  · rw [String.intercalate_append_of_ne_nil (by simp) (by simp),
      String.intercalate_singleton]
    rfl

mutual

/-- To add a resource to an open node ends with the first fault of its places, or with the node open
again and one more row for each of the places. -/
theorem addTo_cases {t : Tree NodeLimit} {root : String} {p : Nat} {around earlier : List String}
    (h : t.Open root p around earlier) :
    ∀ r : ResourceEntry,
      (∃ fault, addTo t (t.idOf p) (pathOf? around) r = .error fault ∧
          (places around earlier r).findSome? (Place.fault? root) = some fault) ∨
        ∃ u, addTo t (t.idOf p) (pathOf? around) r = .ok u ∧
          (places around earlier r).findSome? (Place.fault? root) = none ∧
          u.Open root p around (earlier ++ [r.name]) ∧ t.Grown u p (places around earlier r)
  | ⟨label, operator, rates, condition, resources⟩ => by
    let place : Place := ⟨around, earlier, ⟨label, operator, rates, condition, resources⟩⟩
    have hlimit : limit? (pathUnder (pathOf? around) label) operator rates condition =
        match rates.findSome? RateEntry.fault? with
        | some cause => .error (.setup (.badRate place.path cause))
        | none => .ok place.limit? := by
      rw [pathUnder_pathOf?]
      exact place.limit?_eq
    have hfault : place.fault? root =
        match rates.findSome? RateEntry.fault? with
        | some cause => some (.setup (.badRate place.path cause))
        | none =>
          if label ∈ earlier then
            some (.structural (.nameTaken (around.getLast?.getD root) label))
          else none := rfl
    rw [places, addTo, hlimit, List.findSome?_cons, hfault]
    cases rates.findSome? RateEntry.fault? with
    | some cause => exact .inl ⟨_, rfl, rfl⟩
    | none =>
      dsimp only
      by_cases htaken : label ∈ earlier
      · -- a sibling has the name
        obtain ⟨c, hc, hname⟩ := List.mem_map.1 (h.children ▸ htaken)
        have hadd : t.addChild (t.idOf p) label place.limit? =
            (.error (.nameTaken (around.getLast?.getD root) label), t) := by
          rw [← h.name_eq]
          exact t.addChild_eq_error_iff.2 ⟨rfl, .inr ⟨p, rfl, h.lt_size, ⟨c, hc, hname⟩, rfl⟩⟩
        rw [hadd, if_pos htaken]
        exact .inl ⟨_, rfl, rfl⟩
      · have hfree : ∀ c ∈ t.childrenOf p, t.name c ≠ label := by
          intro c hc hname
          exact htaken (h.children ▸ List.mem_map.2 ⟨c, hc, hname⟩)
        have hadd : t.addChild (t.idOf p) label place.limit? =
            (.ok (t.idOf t.size), t.append p label place.limit?) :=
          t.addChild_eq_ok_iff.2 ⟨p, t.index?_idOf h.lt_size, hfree, rfl, rfl⟩
        have habove : some (pathUnder (pathOf? around) label) = pathOf? (around ++ [label]) := by
          rw [pathUnder_pathOf?, pathOf?, if_neg (by simp)]
        rw [hadd, if_neg htaken, habove]
        obtain ⟨hnext, -⟩ := h.append place rfl htaken
        rcases addAllTo_cases hnext resources with
          ⟨fault, hall, hfault⟩ | ⟨u, hall, hfault, hopen, hgrown⟩
        · exact .inl ⟨fault, hall, hfault⟩
        · obtain ⟨hclosed, hgrown⟩ := h.close rfl htaken hopen hgrown
          exact .inr ⟨u, hall, hfault, hclosed, hgrown⟩

/-- To add several resources does so, too, with the places of all of them. -/
theorem addAllTo_cases {t : Tree NodeLimit} {root : String} {p : Nat} {around earlier : List String}
    (h : t.Open root p around earlier) :
    ∀ rs : List ResourceEntry,
      (∃ fault, addAllTo t (t.idOf p) (pathOf? around) rs = .error fault ∧
          (placesAll around earlier rs).findSome? (Place.fault? root) = some fault) ∨
        ∃ u, addAllTo t (t.idOf p) (pathOf? around) rs = .ok u ∧
          (placesAll around earlier rs).findSome? (Place.fault? root) = none ∧
          u.Open root p around (earlier ++ rs.map name) ∧ t.Grown u p (placesAll around earlier rs)
  | [] => by
    right
    refine ⟨t, by rw [addAllTo], by rw [placesAll]; rfl, ?_, ?_⟩
    · rw [List.map_nil, List.append_nil]
      exact h
    · rw [placesAll]
      exact .refl t p
  | r :: rs => by
    rw [placesAll, List.findSome?_append, addAllTo]
    rcases addTo_cases h r with ⟨fault, hadd, hfault⟩ | ⟨u, hadd, hfault, hopen, hgrown⟩
    · rw [hadd, hfault]
      exact .inl ⟨fault, rfl, rfl⟩
    · rw [hadd, hfault]
      have hid : u.idOf p = t.idOf p := by
        rw [Tree.idOf, hgrown.extends_old.id, Tree.idOf]
      rcases addAllTo_cases hopen rs with ⟨fault, hadd, hfault⟩ | ⟨v, hadd, hfault, hopen', hgrown'⟩
      · rw [hid] at hadd
        exact .inl ⟨fault, hadd, hfault⟩
      · rw [hid] at hadd
        refine .inr ⟨v, hadd, hfault, ?_, hgrown.trans hgrown'⟩
        rw [List.map_cons, List.append_cons]
        exact hopen'

end

end ResourceEntry

namespace Limits

/-- **A tree mirrors its document.**  For any limits document: a tree is built exactly if all rates
of the document make sense and no two siblings have the same name.  The tree, walked through depth
first, shows the root and then the places of the document in pre-order: each with as many names on
its way as it is levels away from the root, with the dotted path of these names, and with no value if
the resource declares no rates and else with the operator, the rates in their order and the
condition, labelled with that path.  Otherwise the fault is that of the first place in pre-order that
has one: a rate that makes no sense, with the path of the resource, or else a name that an earlier
sibling has. -/
theorem buildTree_mirrors (l : Limits) (id : Nat) :
    ((∃ t, l.buildTree id = .ok t) ↔ l.IsSound) ∧
      (∀ t, l.buildTree id = .ok t →
        (t.walkDepthFirst 0 (fun _ => true) none).map t.row =
          (0, l.name, "", none) :: l.places.map Place.row) ∧
      ∀ fault, l.buildTree id = .error fault ↔
        l.places.findSome? (Place.fault? l.name) = some fault := by
  have hbuild : l.buildTree id =
      ResourceEntry.addAllTo (Tree.new id l.name none) ((Tree.new id l.name none).idOf 0)
        (ResourceEntry.pathOf? []) l.resources := rfl
  rw [← @findSome?_fault?_eq_none_iff l l.name, hbuild, places]
  rcases ResourceEntry.addAllTo_cases (Tree.open_new id l.name) l.resources with
    ⟨fault, hadd, hfault⟩ | ⟨t, hadd, hfault, hopen, hgrown⟩
  · rw [hadd, hfault]
    refine ⟨by simp, fun t ht => (nomatch ht), fun other => ?_⟩
    rw [Except.error.injEq, Option.some_inj]
  · rw [hadd, hfault]
    refine ⟨by simp, ?_, fun other => by simp⟩
    rintro _ ⟨⟩
    rw [hopen.inOrder.walk_eq_range hopen.wellFormed]
    exact hgrown.rows

/-- A lab with a door, and a yard whose name is empty. -/
def campus : Limits :=
  ⟨"campus",
    [⟨"lab", .or, [⟨5, .minute, 2, none⟩, ⟨9, .hour, 1, some (.custom "own")⟩], some "open",
        [⟨"front.door", .and, [], none, []⟩]⟩,
      ⟨"", .and, [⟨1, .second, 1, none⟩], none, []⟩]⟩

/-- A lab with two doors of one name, of which the second has a rate per no time at all. -/
def twoDoors : Limits :=
  ⟨"campus",
    [⟨"lab", .and, [], none,
      [⟨"door", .and, [], none, []⟩, ⟨"door", .and, [⟨5, .day, 0, none⟩], none, []⟩]⟩]⟩

/-- The campus becomes a tree, and of the two doors the rate is what is found wrong. -/
theorem buildTree_mirrors_campus :
    (∃ t, campus.buildTree 0 = .ok t ∧
      (t.walkDepthFirst 0 (fun _ => true) none).map t.row =
        [(0, "campus", "", none),
          (1, "lab", "lab", some ⟨"lab", ⟨.or, [⟨5, .ofSeconds 120, none⟩,
            ⟨9, .ofSeconds 3600, some (.custom "own")⟩]⟩, some "open"⟩),
          (2, "front.door", "lab.front.door", none),
          (1, "", "", some ⟨"", ⟨.and, [⟨1, .ofSeconds 1, none⟩]⟩, none⟩)]) ∧
      twoDoors.buildTree 0 = .error (.setup (.badRate "lab.door" (.emptyPeriod 5))) := by
  obtain ⟨t, ht⟩ : ∃ t, campus.buildTree 0 = .ok t := ⟨_, rfl⟩
  obtain ⟨-, hrows, -⟩ := buildTree_mirrors campus 0
  exact ⟨⟨t, ht, (hrows t ht).trans rfl⟩, ((buildTree_mirrors twoDoors 0).2.2 _).2 rfl⟩

end Limits

end Admission
