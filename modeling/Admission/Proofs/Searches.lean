import Admission.Proofs.Walks
import Mathlib.Data.List.Find

/-!
# What searches find

A search stops at its first hit, and a search for a path of values starts again below each hit.
What they find can be said in terms of walks that go on to the end.

* **one search** — `Tree.search_eq` carries the pending list through a search, and
  `Tree.findFirst_eq` states the result: the first hit of the pre-order.  To search below each child
  in turn is to search the pre-order strictly below their parent (`Tree.findSome?_children`);
* **one search after the other** — `Tree.Trail` says which nodes a search for values goes through,
  each found strictly below the one before, and `Tree.followValues_eq_some_iff` that there is such a
  trail if and only if the search has a result;
* **the law** — `Tree.searches_agree_with_walks`.
-/

namespace Admission

namespace Tree

variable {V : Type} {t : Tree V}

/-! ## One search -/

/-- A search finds the first hit in the pre-orders of its pending nodes, if it has the steps. -/
theorem search_eq (hwf : t.WellFormed) (hit : Nat → Bool) :
    ∀ (steps : Nat) (pending : List Nat),
      (pending.flatMap t.preOrder).length ≤ steps →
        t.search hit steps pending = (pending.flatMap t.preOrder).find? hit := by
  intro steps
  induction steps with
  | zero =>
    intro pending hle
    have hnil : pending.flatMap t.preOrder = [] := List.eq_nil_of_length_eq_zero (by omega)
    rw [hnil, search]
    rfl
  | succ steps ih =>
    intro pending hle
    rcases pending with _ | ⟨i, pending⟩
    · rfl
    · -- the children take the place of the node at the front of the pending list
      have hall : (i :: pending).flatMap t.preOrder =
          i :: (t.childrenOf i ++ pending).flatMap t.preOrder := by
        rw [List.flatMap_cons, preOrder_eq hwf, List.flatMap_append, List.cons_append]
      rw [hall, List.length_cons] at hle
      rw [search, hall, List.find?_cons, ih _ (by omega)]
      cases hit i <;> rfl

/-- A search finds the first hit of the pre-order. -/
theorem findFirst_eq (hwf : t.WellFormed) {start : Nat} (hstart : start < t.size)
    (hit : Nat → Bool) : t.findFirst start hit = (t.preOrder start).find? hit := by
  have hlength : ([start].flatMap t.preOrder).length ≤ t.size := by
    rw [List.flatMap_singleton]
    exact length_preOrderWithin_le hwf hstart _
  rw [findFirst, search_eq hwf hit _ _ hlength, List.flatMap_singleton]

/-- The first node that a depth-first walk reports through a filter. -/
def firstReported (t : Tree V) (start : Nat) (keep : Nat → Bool) : Option Nat :=
  (t.walkDepthFirst start keep none).head?

theorem firstReported_eq (hwf : t.WellFormed) {start : Nat} (hstart : start < t.size)
    (keep : Nat → Bool) : t.firstReported start keep = (t.preOrder start).find? keep := by
  rw [firstReported, walkDepthFirst_eq hwf hstart, List.head?_filter]

theorem under_of_firstReported (hwf : t.WellFormed) {start i : Nat} {keep : Nat → Bool}
    (hstart : start < t.size) (h : t.firstReported start keep = some i) : t.Under start i := by
  rw [firstReported_eq hwf hstart] at h
  exact (mem_preOrder hwf).1 (List.mem_of_find?_eq_some h)

/-- To search at several nodes in turn is to search their pre-orders, one after the other. -/
theorem findSome?_findFirst (hwf : t.WellFormed) (hit : Nat → Bool) :
    ∀ starts : List Nat, (∀ i ∈ starts, i < t.size) →
      (starts.findSome? fun i => t.findFirst i hit) = (starts.flatMap t.preOrder).find? hit := by
  intro starts
  induction starts with
  | nil => exact fun _ => rfl
  | cons i starts ih =>
    intro hnodes
    obtain ⟨hi, hstarts⟩ := List.forall_mem_cons.1 hnodes
    rw [List.findSome?_cons, findFirst_eq hwf hi, ih hstarts, List.flatMap_cons, List.find?_append]
    cases (t.preOrder i).find? hit <;> rfl

/-- To search below each child in turn is to search all that is strictly below their parent. -/
theorem findSome?_children (hwf : t.WellFormed) {i : Nat} (hi : i < t.size) (hit : Nat → Bool) :
    ((t.childrenOf i).findSome? fun c => t.findFirst c hit) =
      t.firstReported i fun j => j != i && hit j := by
  have hnodes : ∀ c ∈ t.childrenOf i, c < t.size :=
    fun c hc => (hwf.parent_lt (hwf.mem_children.1 hc)).2
  have hstrictly : ∀ j ∈ (t.childrenOf i).flatMap t.preOrder, hit j = (j != i && hit j) := by
    have hnodup := nodup_preOrder hwf i
    rw [preOrder_eq hwf, List.nodup_cons] at hnodup
    intro j hj
    have hne : (j != i) = true := bne_iff_ne.2 fun hsame => hnodup.1 (hsame ▸ hj)
    rw [hne, Bool.true_and]
  rw [findSome?_findFirst hwf hit _ hnodes, firstReported_eq hwf hi, preOrder_eq hwf,
    List.find?_cons_of_neg (by simp)]
  exact List.find?_congr hstrictly

/-! ## One search after the other -/

section

variable [BEq V]

/-- `t.FollowedBy f g` — strictly below the node of `f`, the first node with the value of `g` is the
node of `g`. -/
def FollowedBy (t : Tree V) (f g : V × Nat) : Prop :=
  t.firstReported f.2 (fun j => j != f.2 && t.value? j == some g.1) = some g.2

/-- `t.Trail start found` — `found` are values with the nodes at which they are found: the first
value at or below `start`, and each later one strictly below the node before it. -/
structure Trail (t : Tree V) (start : Nat) (found : List (V × Nat)) : Prop where
  /-- The first node that has the first value. -/
  first : ∀ f ∈ found.head?, t.firstReported start (fun j => t.value? j == some f.1) = some f.2
  /-- The first nodes below that have the next values. -/
  further : found.IsChain t.FollowedBy

theorem FollowedBy.under (hwf : t.WellFormed) {f g : V × Nat} (hf : f.2 < t.size)
    (h : t.FollowedBy f g) : t.Under f.2 g.2 ∧ f.2 ≠ g.2 := by
  rw [FollowedBy, firstReported_eq hwf hf] at h
  have hunder := (mem_preOrder hwf).1 (List.mem_of_find?_eq_some h)
  have hkeep := List.find?_some h
  exact ⟨hunder, (bne_iff_ne.1 (Bool.and_eq_true_iff.1 hkeep).1).symm⟩

/-- A search that goes on from a node has a result if and only if a trail from this node ends
there. -/
theorem followValues_eq_some_iff (hwf : t.WellFormed) {n : Nat} (vs : List V) :
    ∀ f : V × Nat, f.2 < t.size →
      (t.followValues f.2 vs = some n ↔
        ∃ found, found.map Prod.fst = vs ∧ (f :: found).getLast?.map Prod.snd = some n ∧
          (f :: found).IsChain t.FollowedBy) := by
  induction vs with
  | nil =>
    intro f _
    rw [followValues, Option.some_inj]
    constructor
    · rintro rfl
      exact ⟨[], rfl, rfl, .singleton f⟩
    · rintro ⟨found, hvalues, hlast, -⟩
      obtain rfl := List.map_eq_nil_iff.1 hvalues
      exact Option.some.inj hlast
  | cons v vs ih =>
    intro f hf
    rw [followValues, findSome?_children hwf hf, Option.bind_eq_bind, Option.bind_eq_some_iff]
    constructor
    · rintro ⟨next, hnext, hrest⟩
      have hg : t.FollowedBy f (v, next) := hnext
      obtain ⟨found, rfl, hlast, hchain⟩ :=
        (ih (v, next) ((hg.under hwf hf).1.lt_size hwf hf)).1 hrest
      refine ⟨(v, next) :: found, rfl, ?_, List.isChain_cons_cons.2 ⟨hg, hchain⟩⟩
      rw [List.getLast?_cons_cons]
      exact hlast
    · rintro ⟨found, hvalues, hlast, hchain⟩
      obtain ⟨⟨_, next⟩, found, rfl, rfl, rfl⟩ := List.map_eq_cons_iff.1 hvalues
      obtain ⟨hg, hchain⟩ := List.isChain_cons_cons.1 hchain
      rw [List.getLast?_cons_cons] at hlast
      exact ⟨next, hg, (ih _ ((hg.under hwf hf).1.lt_size hwf hf)).2 ⟨found, rfl, hlast, hchain⟩⟩

/-- A search for values has a result if and only if a trail from the start ends there. -/
theorem findByValues_eq_some_iff (hwf : t.WellFormed) {start n : Nat} (hstart : start < t.size)
    (vs : List V) :
    t.findByValues start vs = some n ↔
      vs ≠ [] ∧ ∃ found, found.map Prod.fst = vs ∧ found.getLast?.map Prod.snd = some n ∧
        t.Trail start found := by
  cases vs with
  | nil => simp [findByValues]
  | cons v vs =>
    have hfirst : ∀ hit, t.findFirst start hit = t.firstReported start hit := fun hit =>
      (findFirst_eq hwf hstart hit).trans (firstReported_eq hwf hstart hit).symm
    rw [findByValues, hfirst, Option.bind_eq_bind, Option.bind_eq_some_iff]
    constructor
    · rintro ⟨i, hi, hrest⟩
      have hlt := (under_of_firstReported hwf hstart hi).lt_size hwf hstart
      obtain ⟨found, rfl, hlast, hchain⟩ := (followValues_eq_some_iff hwf _ (v, i) hlt).1 hrest
      refine ⟨List.cons_ne_nil _ _, (v, i) :: found, rfl, hlast, ⟨?_, hchain⟩⟩
      intro f hf
      obtain rfl := Option.some.inj hf
      exact hi
    · rintro ⟨-, found, hvalues, hlast, htrail⟩
      obtain ⟨⟨_, i⟩, found, rfl, rfl, rfl⟩ := List.map_eq_cons_iff.1 hvalues
      have hi := htrail.first _ rfl
      have hlt := (under_of_firstReported hwf hstart hi).lt_size hwf hstart
      exact ⟨i, hi, (followValues_eq_some_iff hwf _ _ hlt).2 ⟨found, rfl, hlast, htrail.further⟩⟩

/-- A trail goes strictly downwards. -/
theorem Trail.descends (hwf : t.WellFormed) {start : Nat} (hstart : start < t.size)
    {found : List (V × Nat)} (h : t.Trail start found) :
    (found.map Prod.snd).Pairwise fun i j => t.Under i j ∧ i ≠ j := by
  have hchain : ∀ (found : List (V × Nat)) (f : V × Nat), f.2 < t.size →
      (f :: found).IsChain t.FollowedBy →
        ((f :: found).map Prod.snd).Pairwise fun i j => t.Under i j ∧ i ≠ j := by
    intro found
    induction found with
    | nil => exact fun f _ _ => List.pairwise_singleton _ _
    | cons g found ih =>
      intro f hf hfurther
      obtain ⟨hg, hfurther⟩ := List.isChain_cons_cons.1 hfurther
      obtain ⟨hunder, hne⟩ := hg.under hwf hf
      have hrest := ih g (hunder.lt_size hwf hf) hfurther
      refine List.pairwise_cons.2 ⟨?_, hrest⟩
      intro j hj
      rcases List.mem_cons.1 hj with rfl | hj
      · exact ⟨hunder, hne⟩
      · -- what is strictly below `g` is strictly below `f`
        have hbelow := ((List.pairwise_cons.1 hrest).1 j hj).1
        have hle := hunder.le hwf
        have hle' := hbelow.le hwf
        exact ⟨hunder.trans hbelow, by omega⟩
  cases found with
  | nil => exact List.Pairwise.nil
  | cons f found =>
    have hunder := under_of_firstReported hwf hstart (h.first f rfl)
    exact hchain found f (hunder.lt_size hwf hstart) h.further

end

/-! ## The law -/

/-- **Searches find what walks report first.**  Take any tree that operations have made, and a node
of it to start from.  A search finds the first node that a depth-first walk without a limit reports
with the hits for its filter, and nothing if and only if the walk reports nothing.  A search for a
path of values finds a node if and only if there are values to look for and nodes for them, the last
one being the node found: the first is the first one in a walk from the start that has the first
value, and each later one is the first one in a walk through what is strictly below the node before
it that has the next value.  Such nodes always go strictly downwards, also when values repeat. -/
theorem searches_agree_with_walks {V : Type} [BEq V] (t : Tree V) (h : t.Made) (start : Nat)
    (hstart : start < t.size) :
    (∀ hit, t.findFirst start hit = (t.walkDepthFirst start hit none).head? ∧
        (t.findFirst start hit = none ↔ t.walkDepthFirst start hit none = [])) ∧
      (∀ (vs : List V) (n : Nat), t.findByValues start vs = some n ↔
        vs ≠ [] ∧ ∃ found, found.map Prod.fst = vs ∧ found.getLast?.map Prod.snd = some n ∧
          t.Trail start found) ∧
      ∀ found, t.Trail start found →
        (found.map Prod.snd).Pairwise fun i j => t.Under i j ∧ i ≠ j := by
  have hwf := h.wellFormed
  have hfirst : ∀ hit, t.findFirst start hit = (t.walkDepthFirst start hit none).head? :=
    fun hit => (findFirst_eq hwf hstart hit).trans (firstReported_eq hwf hstart hit).symm
  refine ⟨fun hit => ⟨hfirst hit, ?_⟩, fun vs n => findByValues_eq_some_iff hwf hstart vs,
    fun found htrail => htrail.descends hwf hstart⟩
  rw [hfirst, List.head?_eq_none_iff]

/-- Below the roses there are roses again.  Below the first plant with a five there is nothing, and
the search does not turn back to the lilies. -/
theorem searches_agree_with_walks_garden :
    garden.Made ∧ 0 < garden.size ∧ garden.findByValues 0 [7, 7] = some 3 ∧
      garden.Trail 0 [(7, 1), (7, 3)] ∧ garden.findByValues 0 [5, 7] = none ∧
      garden.findFirst 0 (fun i => garden.value? i == some 5) = some 5 := by
  obtain ⟨hfirst, hvalues, -⟩ := searches_agree_with_walks garden made_garden 0 (by decide)
  have hred : garden.FollowedBy (7, 1) (7, 3) := by
    rw [FollowedBy]
    decide
  have htrail : garden.Trail 0 [(7, 1), (7, 3)] := by
    refine ⟨?_, List.isChain_cons_cons.2 ⟨hred, .singleton _⟩⟩
    intro f hf
    obtain rfl := Option.some.inj hf
    decide
  exact ⟨made_garden, by decide,
    (hvalues [7, 7] 3).2 ⟨by decide, [(7, 1), (7, 3)], rfl, rfl, htrail⟩, htrail, by decide,
    (hfirst _).1.trans (by decide)⟩

end Tree

end Admission
