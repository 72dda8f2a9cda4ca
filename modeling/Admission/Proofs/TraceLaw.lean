import Admission.Proofs.PreOrder
import Admission.Proofs.Visits

/-!
# The trace of an evaluation

What the events of one evaluation can be.

* **a segment** — `Evaluator.Segment` says what the visits on the way up from a leaf are: they go up
  from the leaf without a gap, each at a node that concerns the request, each granted but perhaps
  the last, and they end only where a climb has to end (`Evaluator.segment_climb`);
* **leaf by leaf** — `Evaluator.LeafByLeaf` says which leaves have a segment: all of them, in order,
  unless the evaluation stops at its first match, which is then in the last segment
  (`Evaluator.leafByLeaf_segments`);
* **the law** — `Evaluator.trace_law` puts both together with the events and the answer.
-/

namespace Admission

namespace Evaluator

variable {V ρ η κ σ : Type}

/-- What makes a visit possible: its node is below the root and has a value, and it concerns the
request under the key and with the limit of the visit. -/
def Concerned (e : Evaluator V ρ η κ) (request : ρ) (v : Visit η) : Prop :=
  e.tree.isRoot v.node = false ∧ (e.tree.value? v.node).isSome = true ∧
    ∃ l : Limiter κ, e.concern request v.node = .ok (some (l, v.key)) ∧ l.limit = v.limit

/-- What the visits on a way up are. -/
structure Segment (e : Evaluator V ρ η κ) (request : ρ) (way : List Nat)
    (visits : List (Visit η)) : Prop where
  /-- The nodes are the first ones of the way. -/
  contiguous : visits.map Visit.node <+: way
  /-- Each node concerns the request. -/
  concerned : ∀ v ∈ visits, e.Concerned request v
  /-- Each visit but the last was granted. -/
  granted : ∀ v ∈ visits.dropLast, v.isGranted = true
  /-- The last visit was rejected, or the climb has to end at the next node. -/
  maximal : (∃ v, visits.getLast? = some v ∧ v.isGranted = false) ∨
    ∀ i, way[visits.length]? = some i → e.Ends request i

/-- Which leaves have a segment, and which segments. -/
structure LeafByLeaf (e : Evaluator V ρ η κ) (request : ρ) (leaves : List Nat)
    (segments : List (List (Visit η))) : Prop where
  /-- The segments belong to the first leaves, in order. -/
  ways : List.Forall₂ (fun leaf visits => e.Segment request (leaf :: e.tree.ancestors leaf) visits)
    (leaves.take segments.length) segments
  /-- An evaluation that stops at its first match has no grant before the last segment. -/
  goesOn : e.firstMatchOnly = true →
    ∀ visits ∈ segments.dropLast, ∀ v ∈ visits, v.isGranted = false
  /-- Leaves are left out only by such an evaluation, and only after a grant. -/
  stops : segments.length < leaves.length →
    e.firstMatchOnly = true ∧
      ∃ visits, segments.getLast? = some visits ∧ ∃ v ∈ visits, v.isGranted = true

/-! ## One way up -/

section

variable {e : Evaluator V ρ η κ} {request : ρ}

/-- Where a climb has to end at once, no visits are a segment. -/
theorem segment_nil {way : List Nat} (hends : ∀ i, way[0]? = some i → e.Ends request i) :
    e.Segment request way [] where
  contiguous := List.nil_prefix
  concerned := fun _ hv => absurd hv List.not_mem_nil
  granted := fun _ hv => absurd hv List.not_mem_nil
  maximal := .inr hends

theorem segment_rejected {v : Visit η} (hv : e.Concerned request v)
    (hrejected : v.isGranted = false) (above : List Nat) :
    e.Segment request (v.node :: above) [v] where
  contiguous := ⟨above, rfl⟩
  concerned := fun u hu => by rw [List.mem_singleton.1 hu]; exact hv
  granted := fun u hu => absurd hu List.not_mem_nil
  maximal := .inl ⟨v, rfl, hrejected⟩

/-- A granted visit goes in front of the visits further up. -/
theorem Segment.cons {v : Visit η} (hv : e.Concerned request v) (hgranted : v.isGranted = true)
    {above : List Nat} {visits : List (Visit η)} (h : e.Segment request above visits) :
    e.Segment request (v.node :: above) (v :: visits) := by
  refine
    { contiguous := List.cons_prefix_cons.2 ⟨rfl, h.contiguous⟩
      concerned := ?_
      granted := ?_
      maximal := ?_ }
  · intro u hu
    rcases List.mem_cons.1 hu with rfl | hu
    · exact hv
    · exact h.concerned u hu
  · intro u hu
    rcases visits with _ | ⟨next, visits⟩
    · exact absurd hu List.not_mem_nil
    · rcases List.mem_cons.1 hu with rfl | hu
      · exact hgranted
      · exact h.granted u hu
  · rcases h.maximal with ⟨u, hlast, hrejected⟩ | hends
    · refine .inl ⟨u, ?_, hrejected⟩
      rw [List.getLast?_cons, hlast]
      rfl
    · exact .inr fun i hi => hends i (by simpa using hi)

end

/-! ## Leaf by leaf -/

theorem leafByLeaf_nil (e : Evaluator V ρ η κ) (request : ρ) : e.LeafByLeaf request [] [] where
  ways := .nil
  goesOn := fun _ _ hvisits => absurd hvisits List.not_mem_nil
  stops := fun h => absurd h (Nat.lt_irrefl 0)

section

variable {e : Evaluator V ρ η κ} {request : ρ} {leaf : Nat} {leaves : List Nat}
  {visits : List (Visit η)} {segments : List (List (Visit η))}

/-- An evaluation may end at a leaf at which something was granted. -/
theorem leafByLeaf_stop (h : e.Segment request (leaf :: e.tree.ancestors leaf) visits)
    (hmatch : e.firstMatchOnly = true) (hgranted : ∃ v ∈ visits, v.isGranted = true) :
    e.LeafByLeaf request (leaf :: leaves) [visits] where
  ways := .cons h .nil
  goesOn := fun _ _ hvisits => absurd hvisits List.not_mem_nil
  stops := fun _ => ⟨hmatch, visits, rfl, hgranted⟩

/-- Otherwise it goes on with the other leaves. -/
theorem LeafByLeaf.cons (h : e.Segment request (leaf :: e.tree.ancestors leaf) visits)
    (hgo : e.firstMatchOnly = true → ∀ v ∈ visits, v.isGranted = false)
    (hrest : e.LeafByLeaf request leaves segments) :
    e.LeafByLeaf request (leaf :: leaves) (visits :: segments) := by
  refine
    { ways := .cons h hrest.ways
      goesOn := ?_
      stops := ?_ }
  · intro hmatch others hothers
    rcases segments with _ | ⟨segment, segments⟩
    · exact absurd hothers List.not_mem_nil
    · rcases List.mem_cons.1 hothers with rfl | hothers
      · exact hgo hmatch
      · exact hrest.goesOn hmatch others hothers
  · intro hlt
    obtain ⟨hmatch, last, hlast, hgranted⟩ := hrest.stops (Nat.lt_of_succ_lt_succ hlt)
    refine ⟨hmatch, last, ?_, hgranted⟩
    rw [List.getLast?_cons, hlast]
    rfl

end

/-! ## Climbs -/

variable [CustomMeter κ] [MeterStore σ η κ]

/-- A climb without a fault makes a segment. -/
theorem segment_climb (e : Evaluator V ρ η κ) (request : ρ) (permits : UInt64) :
    ∀ (way : List Nat) (p : Progress σ η) (tally : Tally),
      (e.climb request permits way p).1 = .ok tally →
        e.Segment request way (e.climbVisits request permits way p) := by
  intro way
  induction way with
  | nil => exact fun p tally _ => segment_nil fun i hi => by cases hi
  | cons i above ih =>
    intro p tally h
    rcases e.climb_cases request permits i above p with
      ⟨-, hvisits, hends⟩ | ⟨fault, hclimb, -⟩ | ⟨v, after, rfl, hv, hroot, hvalue, hgoes⟩
    · rw [hvisits]
      exact segment_nil fun j hj => by cases hj; exact hends
    · rw [hclimb] at h
      cases h
    · obtain ⟨l, hconcern, hlimit, -⟩ := hv.reserved
      have hconcerned : e.Concerned request v := ⟨hroot, hvalue, l, hconcern, hlimit⟩
      rcases hgoes with ⟨hrejected, -, hvisits⟩ | ⟨hgranted, hclimb, hvisits⟩
      · rw [hvisits]
        exact segment_rejected hconcerned hrejected above
      · rw [hclimb] at h
        rw [hvisits]
        cases hrest : (e.climb request permits above after).1 with
        | error fault => rw [hrest] at h; cases h
        | ok rest => exact (ih after rest hrest).cons hconcerned hgranted

/-- Climbs without a fault make segments, leaf by leaf. -/
theorem leafByLeaf_segmentsFrom (e : Evaluator V ρ η κ) (request : ρ) (permits : UInt64) :
    ∀ (leaves : List Nat) (p : Progress σ η) (rejected : Nat),
      (e.climbAll request permits leaves p).1 = .ok rejected →
        e.LeafByLeaf request leaves (e.segmentsFrom request permits leaves p) := by
  intro leaves
  induction leaves with
  | nil => exact fun _ _ _ => leafByLeaf_nil e request
  | cons leaf leaves ih =>
    intro p rejected h
    have hsegment := e.segment_climb request permits (leaf :: e.tree.ancestors leaf) p
    have htally := e.climb_tally request permits (leaf :: e.tree.ancestors leaf) p
    rw [climbAll] at h
    rw [segmentsFrom]
    rcases hresult : e.climb request permits (leaf :: e.tree.ancestors leaf) p with ⟨result, after⟩
    rw [hresult] at h hsegment htally
    cases result with
    | error fault => cases h
    | ok tally =>
      -- the count of grants that stops an evaluation is that of the visits
      have hcount : 0 < tally.granted ↔
          ∃ v ∈ e.climbVisits request permits (leaf :: e.tree.ancestors leaf) p,
            v.isGranted = true := by
        rw [(htally tally rfl).1, List.countP_pos_iff]
      dsimp only at h ⊢
      split at h
      · next hstop =>
        obtain ⟨hmatch, hpos⟩ := Bool.and_eq_true_iff.1 hstop
        rw [if_pos hstop]
        exact leafByLeaf_stop (hsegment tally rfl) hmatch (hcount.1 (of_decide_eq_true hpos))
      · next hgo =>
        rw [if_neg hgo]
        cases hrest : (e.climbAll request permits leaves after).1 with
        | error fault =>
          rcases hpair : e.climbAll request permits leaves after with ⟨rest, final⟩
          rw [hpair] at h hrest
          cases hrest
          cases h
        | ok others =>
          refine .cons (hsegment tally rfl) ?_ (ih after others hrest)
          intro hmatch v hv
          by_contra hgranted
          refine hgo (Bool.and_eq_true_iff.2 ⟨hmatch, decide_eq_true (hcount.2 ⟨v, hv, ?_⟩)⟩)
          simpa using hgranted

/-! ## The law -/

/-- An evaluation that comes to an answer makes segments, leaf by leaf. -/
theorem leafByLeaf_segments {e : Evaluator V ρ η κ} {w : World σ} {request : ρ} {permits : UInt64}
    {timeout : Duration} {granted : Bool}
    (h : (e.decide w request permits timeout).answer = .ok granted) :
    e.LeafByLeaf request e.leaves (e.segments w request permits timeout) := by
  unfold decide at h
  rcases hrest : e.climbAll request permits e.leaves ⟨w, timeout, []⟩ with ⟨result, final⟩
  rw [hrest] at h
  cases result with
  | error fault => cases h
  | ok rejected =>
    exact e.leafByLeaf_segmentsFrom request permits e.leaves _ rejected (by rw [hrest])

/-- No rejection is reported exactly if every visit was granted. -/
theorem no_rejection_iff (permits : UInt64) (visits : List (Visit η)) :
    (∀ event ∈ visits.flatMap (Visit.events permits), event.kind ≠ .rejected) ↔
      ∀ v ∈ visits, v.isGranted = true := by
  constructor
  · intro h v hv
    by_contra hrejected
    refine h ⟨.rejected, v.key, permits, v.limit⟩ (List.mem_flatMap.2 ⟨v, hv, ?_⟩) rfl
    rw [Visit.events, if_neg hrejected]
    exact List.mem_cons_of_mem _ (List.mem_singleton_self _)
  · intro h event hevent
    obtain ⟨v, hv, hmem⟩ := List.mem_flatMap.1 hevent
    rw [Visit.events, if_pos (h v hv)] at hmem
    rw [List.mem_singleton.1 hmem]
    exact UsageKind.noConfusion

/-- **The trace law.**  Let an evaluation over any tree, matchers and limiters come to an answer.
Its events are those of its visits: a visit reports that permits were consumed, with the key that
its matcher gave, the permits of the request and the limit of its node, and right after that a
rejection if it was not granted.  The visits follow each other in one store, on one clock and out of
one timeout; they come in segments, leaf by leaf; and the answer is to grant exactly if no rejection
is reported.  In a well-formed tree the leaves are the childless nodes in depth-first order, and the
way of a leaf goes from child to parent up to the root. -/
theorem trace_law (tree : Tree V) (matcherOf : Nat → Except Fault (Matcher ρ η))
    (limiterOf : Nat → Except Fault (NodeLimiter κ)) (firstMatchOnly : Bool) (w : World σ)
    (request : ρ) (permits : UInt64) (timeout : Duration) (granted : Bool)
    (hok : ({ Evaluator.new tree matcherOf limiterOf with firstMatchOnly }.decide w request permits
      timeout).answer = .ok granted) :
    let e := { Evaluator.new tree matcherOf limiterOf with firstMatchOnly }
    let outcome := e.decide w request permits timeout
    let segments := e.segments w request permits timeout
    outcome.events = segments.flatten.flatMap (Visit.events permits) ∧
      (∃ remaining, e.Visited request permits ⟨w, timeout, []⟩ segments.flatten
        ⟨outcome.world, remaining, outcome.events⟩) ∧
      e.LeafByLeaf request tree.leaves segments ∧
      (granted = true ↔ ∀ event ∈ outcome.events, event.kind ≠ .rejected) ∧
      (tree.WellFormed →
        tree.leaves = (tree.preOrder 0).filter tree.isLeaf ∧
          ∀ leaf ∈ tree.leaves,
            List.IsChain (fun child parent => tree.parent? child = some parent)
                (leaf :: tree.ancestors leaf) ∧
              (leaf :: tree.ancestors leaf).getLast? = some 0) := by
  intro e outcome segments
  obtain ⟨remaining, hvisited⟩ := e.visited_decide w request permits timeout
  have hevents : outcome.events = segments.flatten.flatMap (Visit.events permits) := by
    have hall := hvisited.events_eq
    rwa [List.nil_append] at hall
  refine ⟨hevents, ⟨remaining, hvisited⟩, leafByLeaf_segments hok, ?_, ?_⟩
  · rw [hevents, no_rejection_iff]
    exact decide_ok_iff hok
  · intro hwf
    refine ⟨Tree.leaves_eq hwf, fun leaf hleaf => ⟨hwf.isChain_ancestors leaf, ?_⟩⟩
    exact hwf.getLast_ancestors leaf ((Tree.mem_leaves hwf).1 hleaf).1

/-- Two persons in the house: both doors let them in, and the floor turns them away the second
time. -/
theorem trace_law_house :
    houseTree.WellFormed ∧
      (house.decide houseWorld 7 2 (.ofMillis 1)).answer = .ok false ∧
      ((house.segments houseWorld 7 2 (.ofMillis 1)).map fun visits =>
        visits.map fun v => (v.node, v.isGranted)) =
          [[(2, true), (1, true)], [(3, true), (1, false)]] ∧
      (house.decide houseWorld 7 2 (.ofMillis 1)).events =
        (house.segments houseWorld 7 2 (.ofMillis 1)).flatten.flatMap (Visit.events 2) ∧
      house.LeafByLeaf 7 houseTree.leaves (house.segments houseWorld 7 2 (.ofMillis 1)) ∧
      houseTree.leaves = (houseTree.preOrder 0).filter houseTree.isLeaf := by
  have hwf : houseTree.WellFormed := by
    refine (((Tree.wellFormed_new 0 "house" none).append ?_ ?_ _).append ?_ ?_ _).append ?_ ?_ _ <;>
      decide
  obtain ⟨hevents, -, hsegments, -, htree⟩ := trace_law houseTree (fun _ => .ok Matcher.all)
    (fun i => .ok (.limiting (houseLimiter i))) false houseWorld 7 2 (.ofMillis 1) false rfl
  exact ⟨hwf, rfl, by decide +kernel, hevents, hsegments, (htree hwf).1⟩

end Evaluator

end Admission
