import Admission.Proofs.FirstMatch
import Admission.Proofs.Paths
import Admission.Proofs.PreOrder
import Admission.Proofs.Separation

/-!
# One chain at most

When requests are matched by path and no name has a dot in it, a request gets on the way up from one
leaf at most.

* **one leaf** — `Tree.leaf_eq_of_matcherAt`: no two leaves accept the same request, since their
  names would both be the first components of the resource, and one leaf would be above the other;
* **the attempts** — `Evaluator.attempts` lists the nodes at which permits are asked for, whatever
  comes of it; `Evaluator.nodes_visits_sublist` finds the visits among them, and
  `Tree.nodup_reach` says that no node can be got at from two leaves;
* **nothing to cut** — `Evaluator.decide_of_one_concerned`: where at most one leaf concerns a
  request, it makes no difference whether the evaluation stops at the first match.

`Evaluator.evaluates_one_chain` puts these together.
-/

namespace Admission

/-! ## One leaf -/

namespace Tree

variable {V : Type} {t : Tree V}

/-- Nothing is below a leaf but the leaf. -/
theorem Under.eq_of_leaf (hwf : t.WellFormed) {top i : Nat} (h : t.Under top i)
    (hleaf : t.childrenOf top = []) : i = top := by
  induction h with
  | refl => rfl
  | child _ hc ih =>
    subst ih
    have hmem := hwf.mem_children.2 hc
    rw [hleaf] at hmem
    exact absurd hmem List.not_mem_nil

theorem nodup_leaves (hwf : t.WellFormed) : t.leaves.Nodup := by
  rw [leaves_eq hwf]
  exact (nodup_preOrder hwf 0).filter _

/-- A leaf is not above any node. -/
theorem leaf_not_mem_ancestors (hwf : t.WellFormed) {leaf i : Nat} (hleaf : leaf ∈ t.leaves) :
    leaf ∉ t.ancestors i := by
  intro hmem
  have hunder := under_of_mem_ancestors hwf (List.mem_cons_of_mem i hmem)
  obtain rfl := hunder.eq_of_leaf hwf ((mem_leaves hwf).1 hleaf).2
  exact (List.nodup_cons.1 (hwf.nodup_way i)).1 hmem

/-- A request that is accepted at a node names the nodes on the way down to it first. -/
theorem names_prefix_of_matcherAt (hplain : t.Undotted) {i : Nat} {request : Request} {key : String}
    (h : matcherAt t i request = some key) :
    (t.names i).map String.toList <+: components request.resource := by
  cases hroot : t.isRoot i with
  | true =>
    rw [names_of_isRoot hroot]
    exact List.nil_prefix
  | false =>
    rw [← flatMap_components_of_plain fun _ => hplain.of_mem_names, ← components_path hroot]
    exact (Matcher.underPath_eq_some_iff.1 h).1

/-- No two leaves accept the same request. -/
theorem leaf_eq_of_matcherAt (hwf : t.WellFormed) (hplain : t.Undotted) {a b : Nat}
    (ha : a ∈ t.leaves) (hb : b ∈ t.leaves) {request : Request}
    (haccepts : (matcherAt t a request).isSome = true)
    (hbaccepts : (matcherAt t b request).isSome = true) : a = b := by
  obtain ⟨key, hkey⟩ := Option.isSome_iff_exists.1 haccepts
  obtain ⟨key', hkey'⟩ := Option.isSome_iff_exists.1 hbaccepts
  obtain ⟨halt, haleaf⟩ := (mem_leaves hwf).1 ha
  obtain ⟨hblt, hbleaf⟩ := (mem_leaves hwf).1 hb
  rcases List.prefix_or_prefix_of_prefix (names_prefix_of_matcherAt hplain hkey)
    (names_prefix_of_matcherAt hplain hkey') with h | h
  · have hnames := (List.prefix_map_iff_of_injective fun _ _ => String.toList_injective).1 h
    exact ((under_of_prefix_names hwf halt hblt hnames).eq_of_leaf hwf haleaf).symm
  · have hnames := (List.prefix_map_iff_of_injective fun _ _ => String.toList_injective).1 h
    exact (under_of_prefix_names hwf hblt halt hnames).eq_of_leaf hwf hbleaf

/-- The nodes that a request can get at from a leaf: all on the way up, if the leaf accepts it, and
otherwise no further one. -/
def reach (t : Tree V) (request : Request) (leaf : Nat) : List Nat :=
  if (matcherAt t leaf request).isSome then leaf :: t.ancestors leaf else [leaf]

theorem mem_reach {request : Request} {leaf i : Nat} (h : i ∈ t.reach request leaf) :
    i = leaf ∨ (matcherAt t leaf request).isSome = true ∧ i ∈ t.ancestors leaf := by
  rw [reach] at h
  split at h
  · next haccepts => exact (List.mem_cons.1 h).imp_right fun hmem => ⟨haccepts, hmem⟩
  · exact .inl (List.mem_singleton.1 h)

/-- No request gets at a node from two leaves, nor at one twice. -/
theorem nodup_reach (hwf : t.WellFormed) (hplain : t.Undotted) (request : Request) :
    (t.leaves.flatMap (t.reach request)).Nodup := by
  refine List.nodup_flatMap.2 ⟨fun leaf _ => ?_, (nodup_leaves hwf).imp_of_mem ?_⟩
  · rw [reach]
    split
    · exact hwf.nodup_way leaf
    · exact List.nodup_singleton leaf
  · intro a b ha hb hne i hia hib
    rcases mem_reach hia with rfl | ⟨haccepts, hia⟩
    · rcases mem_reach hib with rfl | ⟨-, hib⟩
      · exact hne rfl
      · exact leaf_not_mem_ancestors hwf ha hib
    · rcases mem_reach hib with rfl | ⟨hbaccepts, -⟩
      · exact leaf_not_mem_ancestors hwf hb hia
      · exact hne (leaf_eq_of_matcherAt hwf hplain ha hb haccepts hbaccepts)

end Tree

namespace Evaluator

variable {V ρ η κ σ : Type}

/-! ## By path -/

section

variable {tree : Tree V} {limiterOf : Nat → Except Fault (NodeLimiter κ)} {firstMatchOnly : Bool}
  {request : Request} {i : Nat}

/-- By path, a node with a limiter in effect concerns the requests that are accepted at it. -/
theorem concern_byPath : (byPath tree limiterOf firstMatchOnly).concern request i =
    match limiterOf i with
    | .error fault => .error fault
    | .ok .idle => .ok none
    | .ok (.limiting l) => .ok ((matcherAt tree i request).map (l, ·)) := rfl

theorem concern_byPath_of_limiting {l : Limiter κ} {key : String}
    (hlimiter : limiterOf i = .ok (.limiting l)) (hmatch : matcherAt tree i request = some key) :
    (byPath tree limiterOf firstMatchOnly).concern request i = .ok (some (l, key)) := by
  rw [concern_byPath, hlimiter, hmatch]
  rfl

theorem concern_byPath_of_none {limiter : NodeLimiter κ} (hlimiter : limiterOf i = .ok limiter)
    (hmatch : matcherAt tree i request = none) :
    (byPath tree limiterOf firstMatchOnly).concern request i = .ok none := by
  rw [concern_byPath, hlimiter, hmatch]
  cases limiter <;> rfl

end

variable [CustomMeter κ] [MeterStore σ η κ]

/-! ## The attempts -/

/-- The nodes of a way up at which permits are asked for. -/
def climbAttempts (e : Evaluator V ρ η κ) (request : ρ) (permits : UInt64) :
    List Nat → Progress σ η → List Nat
  | [], _ => []
  | i :: above, p =>
    if e.tree.isRoot i || (e.tree.value? i).isNone then []
    else
      i :: match e.attempt request permits i p with
        | (.ok .granted, p) => e.climbAttempts request permits above p
        | _ => []

/-- The nodes at which permits are asked for on the ways up from some leaves. -/
def attemptsFrom (e : Evaluator V ρ η κ) (request : ρ) (permits : UInt64) :
    List Nat → Progress σ η → List Nat
  | [], _ => []
  | leaf :: leaves, p =>
    e.climbAttempts request permits (leaf :: e.tree.ancestors leaf) p ++
      match e.climb request permits (leaf :: e.tree.ancestors leaf) p with
      | (.error _, _) => []
      | (.ok tally, p) =>
        if e.firstMatchOnly && 0 < tally.granted then []
        else e.attemptsFrom request permits leaves p

/-- The nodes at which an evaluation asks for permits, as often as it does. -/
def attempts (e : Evaluator V ρ η κ) (w : World σ) (request : ρ) (permits : UInt64)
    (timeout : Duration) : List Nat :=
  e.attemptsFrom request permits e.leaves ⟨w, timeout, []⟩

section

variable (e : Evaluator V ρ η κ) (request : ρ) (permits : UInt64)

/-- The attempts of a climb go up the way without a gap. -/
theorem climbAttempts_prefix_way (way : List Nat) (p : Progress σ η) :
    e.climbAttempts request permits way p <+: way := by
  induction way generalizing p with
  | nil => exact List.prefix_refl []
  | cons i above ih =>
    rw [climbAttempts]
    split
    · exact List.nil_prefix
    · refine List.cons_prefix_cons.2 ⟨rfl, ?_⟩
      split
      · exact ih _
      · exact List.nil_prefix

/-- The visits of a climb are attempts. -/
theorem nodes_climbVisits_prefix_attempts (way : List Nat) (p : Progress σ η) :
    (e.climbVisits request permits way p).map Visit.node <+:
      e.climbAttempts request permits way p := by
  induction way generalizing p with
  | nil => exact List.prefix_refl []
  | cons i above ih =>
    rw [climbVisits, climbAttempts]
    split
    · exact List.prefix_refl []
    · rcases e.attempt_cases request permits i p with
        ⟨fault, -, hvisit⟩ | ⟨-, hvisit, -⟩ | ⟨v, after, hattempt, hvisit, rfl, -⟩
      · rw [hvisit]
        exact List.nil_prefix
      · rw [hvisit]
        exact List.nil_prefix
      · rw [hvisit, hattempt, Visit.outcome]
        refine List.cons_prefix_cons.2 ⟨rfl, ?_⟩
        cases v.isGranted with
        | false => exact List.nil_prefix
        | true => exact ih after

/-- The visits of an evaluation are attempts. -/
theorem nodes_visits_sublist (w : World σ) (timeout : Duration) :
    List.Sublist ((e.visits w request permits timeout).map Visit.node)
      (e.attempts w request permits timeout) := by
  suffices h : ∀ (leaves : List Nat) (p : Progress σ η),
      List.Sublist ((e.segmentsFrom request permits leaves p).flatten.map Visit.node)
        (e.attemptsFrom request permits leaves p) from h e.leaves ⟨w, timeout, []⟩
  intro leaves
  induction leaves with
  | nil => exact fun p => List.Sublist.refl []
  | cons leaf leaves ih =>
    intro p
    rw [segmentsFrom, attemptsFrom, List.flatten_cons, List.map_append]
    refine (e.nodes_climbVisits_prefix_attempts request permits _ p).sublist.append ?_
    rcases e.climb request permits (leaf :: e.tree.ancestors leaf) p with ⟨result, q⟩
    cases result with
    | error fault => exact List.Sublist.refl []
    | ok tally =>
      dsimp only
      split
      · exact List.Sublist.refl []
      · exact ih q

/-- If the attempts on each way up stay within bounds, so do all together. -/
theorem attemptsFrom_sublist {bound : Nat → List Nat} {leaves : List Nat}
    (h : ∀ leaf ∈ leaves, ∀ p : Progress σ η,
      (e.climbAttempts request permits (leaf :: e.tree.ancestors leaf) p).Sublist (bound leaf))
    (p : Progress σ η) :
    (e.attemptsFrom request permits leaves p).Sublist (leaves.flatMap bound) := by
  induction leaves generalizing p with
  | nil => exact List.Sublist.refl []
  | cons leaf leaves ih =>
    rw [attemptsFrom, List.flatMap_cons]
    refine (h leaf List.mem_cons_self p).append ?_
    rcases e.climb request permits (leaf :: e.tree.ancestors leaf) p with ⟨result, q⟩
    cases result with
    | error fault => exact List.nil_sublist _
    | ok tally =>
      dsimp only
      split
      · exact List.nil_sublist _
      · exact ih (fun leaf hleaf => h leaf (List.mem_cons_of_mem _ hleaf)) q

end

/-! ## Nothing to cut -/

section

variable {e : Evaluator V ρ η κ} {request : ρ} {i : Nat}

/-- Where a node does not concern a request, an attempt does nothing. -/
theorem attempt_of_unconcerned (h : e.concern request i = .ok none) (permits : UInt64)
    (p : Progress σ η) : e.attempt request permits i p = (.ok .noMatch, p) := by
  unfold concern at h
  rw [attempt]
  cases hlimiter : e.limiterOf i with
  | error fault => rw [hlimiter] at h; cases h
  | ok limiter =>
    cases limiter with
    | idle => rfl
    | limiting l =>
      rw [hlimiter] at h
      dsimp only at h ⊢
      cases hmatcher : e.matcherOf i with
      | error fault => rw [hmatcher] at h; cases h
      | ok matcher =>
        rw [hmatcher] at h
        have hnone := Option.map_eq_none_iff.1 (Except.ok.inj h)
        dsimp only
        rw [hnone]

/-- Where a node concerns a request, an attempt does not pass it. -/
theorem attempt_ne_noMatch {l : Limiter κ} {key : η} (h : e.concern request i = .ok (some (l, key)))
    (permits : UInt64) (p : Progress σ η) :
    (e.attempt request permits i p).1 ≠ .ok .noMatch := by
  rcases e.attempt_cases request permits i p with
    ⟨fault, hattempt, -⟩ | ⟨-, -, hnone⟩ | ⟨v, after, hattempt, -, -, -⟩
  · rw [hattempt]
    simp
  · rw [h] at hnone
    cases hnone
  · rw [hattempt, Visit.outcome]
    cases v.isGranted <;> simp

/-- A climb ends at once at a node that does not concern the request. -/
theorem climb_of_unconcerned (h : e.concern request i = .ok none) (permits : UInt64)
    (above : List Nat) (p : Progress σ η) :
    e.climb request permits (i :: above) p = (.ok ⟨0, 0⟩, p) ∧
      e.climbVisits request permits (i :: above) p = [] ∧
      (e.climbAttempts request permits (i :: above) p).Sublist [i] := by
  have hattempt := attempt_of_unconcerned h permits p
  have hvisit : e.visit? request permits i p = none := by rw [visit?, h]
  rw [climb, climbVisits, climbAttempts, hattempt, hvisit]
  split
  · exact ⟨rfl, rfl, List.nil_sublist _⟩
  · exact ⟨rfl, rfl, List.Sublist.refl _⟩

/-- Leaves that do not concern the request change nothing. -/
theorem climbAll_of_unconcerned {leaves : List Nat}
    (h : ∀ leaf ∈ leaves, e.concern request leaf = .ok none) (permits : UInt64)
    (p : Progress σ η) : e.climbAll request permits leaves p = (.ok 0, p) := by
  induction leaves with
  | nil => rfl
  | cons leaf leaves ih =>
    have hclimb := (climb_of_unconcerned (h leaf List.mem_cons_self) permits
      (e.tree.ancestors leaf) p).1
    rw [climbAll, hclimb]
    dsimp only
    rw [ih fun other hother => h other (List.mem_cons_of_mem _ hother)]
    exact if_neg (by simp)

/-- **Where at most one leaf concerns a request, it makes no difference whether the evaluation stops
at the first match.** -/
theorem decide_of_one_concerned
    (h : e.leaves.Pairwise fun a b =>
      e.concern request a = .ok none ∨ e.concern request b = .ok none)
    (w : World σ) (permits : UInt64) (timeout : Duration) :
    ({ e with firstMatchOnly := true } : Evaluator V ρ η κ).decide w request permits timeout =
      ({ e with firstMatchOnly := false } : Evaluator V ρ η κ).decide w request permits
        timeout := by
  let all : Evaluator V ρ η κ := { e with firstMatchOnly := false }
  obtain ⟨done, rest, hleaves, hcut⟩ := e.exists_cut request permits e.leaves ⟨w, timeout, []⟩
  -- the leaves that are left out do not concern the request, since one before them does
  have hrest : ∀ leaf ∈ rest, all.concern request leaf = .ok none := by
    intro other hother
    obtain ⟨leaf, hleaf, q, v, hv, -⟩ := hcut.matched (List.ne_nil_of_mem hother)
    rw [hleaves] at h
    rcases (List.pairwise_append.1 h).2.2 leaf hleaf other hother with hnone | hnone
    · rw [(climb_of_unconcerned hnone permits _ q).2.1] at hv
      exact absurd hv List.not_mem_nil
    · exact hnone
  have hclimbs : all.climbAll request permits (done ++ rest) ⟨w, timeout, []⟩ =
      all.climbAll request permits done ⟨w, timeout, []⟩ := by
    rw [climbAll_append rfl]
    rcases all.climbAll request permits done ⟨w, timeout, []⟩ with ⟨result, q⟩
    cases result with
    | error fault => rfl
    | ok rejected =>
      dsimp only
      rw [climbAll_of_unconcerned hrest]
      rfl
  have hsame := hcut.climbs.trans hclimbs.symm
  rw [← hleaves] at hsame
  rw [decide_eq, decide_eq]
  exact congrArg (fun reached : Except Fault Nat × Progress σ η =>
    (⟨reached.1.map (· == 0), reached.2.world, reached.2.events⟩ : Outcome σ η)) hsame

end

/-! ## The law -/

/-- **A request gets on one chain at most.**  Let no name in a well-formed tree have a dot in it,
let requests be matched by path, and let the limiter of every node be there.  Then no two leaves
accept the same request.  On the way up from a leaf that does, every node with a limiter in effect
accepts it as well, so that no attempt there passes the node for want of a match.  An evaluation
asks for permits at no node twice, and each of its visits is one of the times that it asks.  It
comes to the same answer or fault, reports the same and leaves the same store and clock behind,
whether or not it stops at the first match. -/
theorem evaluates_one_chain [MeterStore σ String κ] (tree : Tree V) (hwf : tree.WellFormed)
    (hplain : tree.Undotted) (limiterOf : Nat → Except Fault (NodeLimiter κ))
    (hcreated : ∀ i, i < tree.size → ∃ limiter, limiterOf i = .ok limiter) (w : World σ)
    (request : Request) (permits : UInt64) (timeout : Duration) :
    let evaluator := byPath tree limiterOf
    (∀ a ∈ tree.leaves, ∀ b ∈ tree.leaves, (matcherAt tree a request).isSome = true →
        (matcherAt tree b request).isSome = true → a = b) ∧
      (∀ leaf ∈ tree.leaves, (matcherAt tree leaf request).isSome = true →
        ∀ i ∈ leaf :: tree.ancestors leaf, tree.isRoot i = false →
          ∀ l, limiterOf i = .ok (.limiting l) → ∀ firstMatchOnly,
            (evaluator firstMatchOnly).concern request i = .ok (some (l, request.key)) ∧
              ∀ p : Progress σ String,
                ((evaluator firstMatchOnly).attempt request permits i p).1 ≠ .ok .noMatch) ∧
      (∀ firstMatchOnly,
        ((evaluator firstMatchOnly).attempts w request permits timeout).Nodup ∧
          List.Sublist
            (((evaluator firstMatchOnly).visits w request permits timeout).map Visit.node)
            ((evaluator firstMatchOnly).attempts w request permits timeout)) ∧
      (evaluator true).decide w request permits timeout =
        (evaluator false).decide w request permits timeout := by
  intro evaluator
  have hunconcerned : ∀ leaf ∈ tree.leaves, matcherAt tree leaf request = none →
      ∀ firstMatchOnly, (evaluator firstMatchOnly).concern request leaf = .ok none := by
    intro leaf hleaf hnone firstMatchOnly
    obtain ⟨limiter, hlimiter⟩ := hcreated leaf ((Tree.mem_leaves hwf).1 hleaf).1
    exact concern_byPath_of_none hlimiter hnone
  refine ⟨fun a ha b hb => Tree.leaf_eq_of_matcherAt hwf hplain ha hb, ?_, ?_, ?_⟩
  · intro leaf hleaf haccepts i hi hroot l hlimiter firstMatchOnly
    obtain ⟨key, hkey⟩ := Option.isSome_iff_exists.1 haccepts
    obtain rfl := (Matcher.underPath_eq_some_iff.1 hkey).2
    have hmatch := Tree.matcherAt_of_under hwf (Tree.under_of_mem_ancestors hwf hi) hroot hkey
    have hconcern : (evaluator firstMatchOnly).concern request i = .ok (some (l, request.key)) :=
      concern_byPath_of_limiting hlimiter hmatch
    exact ⟨hconcern, attempt_ne_noMatch hconcern permits⟩
  · intro firstMatchOnly
    refine ⟨?_, (evaluator firstMatchOnly).nodes_visits_sublist request permits w timeout⟩
    refine (Tree.nodup_reach hwf hplain request).sublist ?_
    refine (evaluator firstMatchOnly).attemptsFrom_sublist request permits ?_ _
    intro leaf hleaf p
    rw [Tree.reach]
    split
    · exact ((evaluator firstMatchOnly).climbAttempts_prefix_way request permits _ p).sublist
    · next hrefuses =>
      have hnone := Option.not_isSome_iff_eq_none.1 hrefuses
      exact (climb_of_unconcerned (hunconcerned leaf hleaf hnone firstMatchOnly) permits _ p).2.2
  · refine decide_of_one_concerned (e := evaluator false) ?_ w permits timeout
    refine (Tree.nodup_leaves hwf).imp_of_mem fun {a b} ha hb hne => ?_
    cases hkey : matcherAt tree a request with
    | none => exact .inl (hunconcerned a ha hkey false)
    | some key =>
      refine .inr (hunconcerned b hb (Option.not_isSome_iff_eq_none.1 fun hbaccepts => ?_) false)
      exact hne (Tree.leaf_eq_of_matcherAt hwf hplain ha hb (by rw [hkey]; rfl) hbaccepts)

/-- Ann comes to the left door.  No other door accepts her request, nothing is asked for twice
anywhere, and it makes no difference whether the evaluation stops there. -/
theorem evaluates_one_chain_house :
    let request : Request := ⟨"floor.left", "ann"⟩
    let w : World (MemoryStore String StockMeter) := ⟨.empty, .unmoved⟩
    houseTree.WellFormed ∧ houseTree.Undotted ∧
      (∀ i, i < houseTree.size → ∃ limiter, gates i = .ok limiter) ∧
      (houseTree.leaves.map fun i => (matcherAt houseTree i request).isSome) = [true, false] ∧
      (byPath houseTree gates false).attempts w request 1 .zero = [2, 1, 3] ∧
      ((byPath houseTree gates false).attempts w request 1 .zero).Nodup ∧
      (byPath houseTree gates true).decide w request 1 .zero =
        (byPath houseTree gates false).decide w request 1 .zero ∧
      ((byPath houseTree gates true).decide w request 1 .zero).answer = .ok true := by
  intro request w
  have hwf : houseTree.WellFormed := by
    refine (((Tree.wellFormed_new 0 "house" none).append ?_ ?_ _).append ?_ ?_ _).append ?_ ?_ _ <;>
      decide
  have hplain : houseTree.Undotted := by
    intro i hroot
    obtain ⟨p, hp⟩ := Tree.exists_parent hroot
    have hall : ∀ j < houseTree.size, '.' ∉ (houseTree.name j).toList := by decide +kernel
    exact hall i (hwf.parent_lt hp).2
  have hcreated : ∀ i, i < houseTree.size → ∃ limiter, gates i = .ok limiter :=
    fun i _ => ⟨_, rfl⟩
  obtain ⟨-, -, hattempts, hsame⟩ :=
    evaluates_one_chain houseTree hwf hplain gates hcreated w request 1 .zero
  exact ⟨hwf, hplain, hcreated, by decide +kernel, by decide +kernel, (hattempts false).1, hsame,
    by decide +kernel⟩

end Evaluator

end Admission
