import Admission.Proofs.TraceLaw

/-!
# Stopping at the first match

An evaluator that stops after the first leaf at which anything was granted does what any evaluator
does, only less of it.

* **a first part of the leaves** — `Evaluator.exists_cut`: to stop at the first match is to evaluate
  some of the leaves, from the first one on, and then no more;
* **all of them** — `Evaluator.climbAll_append` and `Evaluator.segmentsFrom_append`: an evaluator
  that does not stop comes through the same store and clock, and goes on from there.
  `Evaluator.visited_rest` says that what it still does are visits;
* **where the grants are** — `Evaluator.forall₂_segmentsFrom` assigns the segments to the leaves,
  and `Evaluator.not_isGranted_dropLast` finds no grant before the last one;
* **the law** — `Evaluator.first_match_cuts_short`.
-/

namespace Admission

namespace Evaluator

variable {V ρ η κ σ : Type} [CustomMeter κ] [MeterStore σ η κ]

/-- An evaluation is what its climbs come to. -/
theorem decide_eq (e : Evaluator V ρ η κ) (w : World σ) (request : ρ) (permits : UInt64)
    (timeout : Duration) :
    e.decide w request permits timeout =
      ⟨(e.climbAll request permits e.leaves ⟨w, timeout, []⟩).1.map (· == 0),
        (e.climbAll request permits e.leaves ⟨w, timeout, []⟩).2.world,
        (e.climbAll request permits e.leaves ⟨w, timeout, []⟩).2.events⟩ := by
  rw [decide]
  rcases e.climbAll request permits e.leaves ⟨w, timeout, []⟩ with ⟨result, p⟩
  cases result <;> rfl

/-! ## One leaf -/

section

variable (e : Evaluator V ρ η κ) (firstMatchOnly : Bool) (request : ρ) (permits : UInt64)

/-- A climb does not ask whether the evaluation stops after it. -/
theorem climb_firstMatchOnly (way : List Nat) (p : Progress σ η) :
    ({ e with firstMatchOnly } : Evaluator V ρ η κ).climb request permits way p =
      e.climb request permits way p := by
  induction way generalizing p with
  | nil => rfl
  | cons i above ih =>
    have hattempt : ({ e with firstMatchOnly } : Evaluator V ρ η κ).attempt request permits i p =
        e.attempt request permits i p := rfl
    rw [climb, climb, hattempt]
    simp only [ih]

theorem climbVisits_firstMatchOnly (way : List Nat) (p : Progress σ η) :
    ({ e with firstMatchOnly } : Evaluator V ρ η κ).climbVisits request permits way p =
      e.climbVisits request permits way p := by
  induction way generalizing p with
  | nil => rfl
  | cons i above ih =>
    have hvisit : ({ e with firstMatchOnly } : Evaluator V ρ η κ).visit? request permits i p =
        e.visit? request permits i p := rfl
    have hattempt : ({ e with firstMatchOnly } : Evaluator V ρ η κ).attempt request permits i p =
        e.attempt request permits i p := rfl
    rw [climbVisits, climbVisits, hvisit, hattempt]
    simp only [ih]

/-- What an evaluation does at its first leaf. -/
theorem climbAll_firstMatchOnly (leaf : Nat) (leaves : List Nat) (p : Progress σ η) :
    ({ e with firstMatchOnly } : Evaluator V ρ η κ).climbAll request permits (leaf :: leaves) p =
      match e.climb request permits (leaf :: e.tree.ancestors leaf) p with
      | (.error fault, q) => (.error fault, q)
      | (.ok tally, q) =>
        if firstMatchOnly && 0 < tally.granted then (.ok tally.rejected, q)
        else
          match ({ e with firstMatchOnly } : Evaluator V ρ η κ).climbAll request permits leaves
            q with
          | (.error fault, last) => (.error fault, last)
          | (.ok rejected, last) => (.ok (tally.rejected + rejected), last) := by
  rw [← climb_firstMatchOnly e firstMatchOnly]
  rfl

theorem segmentsFrom_firstMatchOnly (leaf : Nat) (leaves : List Nat) (p : Progress σ η) :
    ({ e with firstMatchOnly } : Evaluator V ρ η κ).segmentsFrom request permits (leaf :: leaves)
        p =
      e.climbVisits request permits (leaf :: e.tree.ancestors leaf) p ::
        match e.climb request permits (leaf :: e.tree.ancestors leaf) p with
        | (.error _, _) => []
        | (.ok tally, q) =>
          if firstMatchOnly && 0 < tally.granted then []
          else ({ e with firstMatchOnly } : Evaluator V ρ η κ).segmentsFrom request permits leaves
            q := by
  rw [← climb_firstMatchOnly e firstMatchOnly, ← climbVisits_firstMatchOnly e firstMatchOnly]
  rfl

/-- A climb counts a grant exactly if one of its visits was granted. -/
theorem granted_pos_iff {way : List Nat} {p : Progress σ η} {tally : Tally}
    (h : (e.climb request permits way p).1 = .ok tally) :
    0 < tally.granted ↔ ∃ v ∈ e.climbVisits request permits way p, v.isGranted = true := by
  rw [(e.climb_tally request permits way p tally h).1, List.countP_pos_iff]

/-- The visits of a climb go up the way without a gap. -/
theorem nodes_climbVisits_prefix_way (way : List Nat) (p : Progress σ η) :
    (e.climbVisits request permits way p).map Visit.node <+: way := by
  induction way generalizing p with
  | nil => exact List.prefix_refl []
  | cons i above ih =>
    rcases e.climb_cases request permits i above p with
      ⟨-, hvisits, -⟩ | ⟨fault, -, hvisits⟩ |
      ⟨v, after, rfl, -, -, -, ⟨-, -, hvisits⟩ | ⟨-, -, hvisits⟩⟩
    · rw [hvisits]
      exact List.nil_prefix
    · rw [hvisits]
      exact List.nil_prefix
    · rw [hvisits]
      exact ⟨above, rfl⟩
    · rw [hvisits]
      exact List.cons_prefix_cons.2 ⟨rfl, ih after⟩

end

/-! ## All leaves -/

section

variable {e : Evaluator V ρ η κ} (hall : e.firstMatchOnly = false) (request : ρ) (permits : UInt64)

include hall

/-- Without a stop, the climb from a leaf comes first and all others afterwards. -/
theorem climbAll_cons (leaf : Nat) (leaves : List Nat) (p : Progress σ η) :
    e.climbAll request permits (leaf :: leaves) p =
      match e.climb request permits (leaf :: e.tree.ancestors leaf) p with
      | (.error fault, q) => (.error fault, q)
      | (.ok tally, q) =>
        ((e.climbAll request permits leaves q).1.map (tally.rejected + ·),
          (e.climbAll request permits leaves q).2) := by
  rw [climbAll, hall]
  rcases e.climb request permits (leaf :: e.tree.ancestors leaf) p with ⟨result, q⟩
  cases result with
  | error fault => rfl
  | ok tally =>
    dsimp only
    rw [Bool.false_and, if_neg Bool.false_ne_true]
    rcases e.climbAll request permits leaves q with ⟨rest, last⟩
    cases rest <;> rfl

/-- Without a stop, some leaves come first and all others afterwards. -/
theorem climbAll_append (done rest : List Nat) (p : Progress σ η) :
    e.climbAll request permits (done ++ rest) p =
      match e.climbAll request permits done p with
      | (.error fault, q) => (.error fault, q)
      | (.ok rejected, q) =>
        ((e.climbAll request permits rest q).1.map (rejected + ·),
          (e.climbAll request permits rest q).2) := by
  induction done generalizing p with
  | nil =>
    rw [List.nil_append, climbAll]
    dsimp only
    rcases e.climbAll request permits rest p with ⟨result, last⟩
    cases result with
    | error fault => rfl
    | ok more => exact congrArg (fun n => (Except.ok n, last)) (Nat.zero_add more).symm
  | cons leaf done ih =>
    rw [List.cons_append, climbAll_cons hall, climbAll_cons hall]
    rcases e.climb request permits (leaf :: e.tree.ancestors leaf) p with ⟨result, q⟩
    cases result with
    | error fault => rfl
    | ok tally =>
      dsimp only
      rw [ih q]
      rcases e.climbAll request permits done q with ⟨result, q⟩
      cases result with
      | error fault => rfl
      | ok rejected =>
        dsimp only [Except.map]
        rcases e.climbAll request permits rest q with ⟨result, last⟩
        cases result with
        | error fault => rfl
        | ok more =>
          exact congrArg (fun n => (Except.ok n, last)) (Nat.add_assoc ..).symm

/-- A fault ends the evaluation. -/
theorem climbAll_append_of_error {done : List Nat} {p : Progress σ η} {fault : Fault}
    (h : (e.climbAll request permits done p).1 = .error fault) (rest : List Nat) :
    e.climbAll request permits (done ++ rest) p = e.climbAll request permits done p := by
  rw [climbAll_append hall]
  rcases hdone : e.climbAll request permits done p with ⟨result, q⟩
  rw [hdone] at h
  cases h
  rfl

/-- Where nothing is rejected in the end, nothing has been rejected on the way. -/
theorem climbAll_ok_of_append {done rest : List Nat} {p : Progress σ η}
    (h : (e.climbAll request permits (done ++ rest) p).1.map (· == 0) = .ok true) :
    (e.climbAll request permits done p).1.map (· == 0) = .ok true := by
  rw [climbAll_append hall] at h
  rcases hdone : e.climbAll request permits done p with ⟨result, q⟩
  rw [hdone] at h
  cases result with
  | error fault => cases h
  | ok rejected =>
    dsimp only at h
    cases hrest : (e.climbAll request permits rest q).1 with
    | error fault => rw [hrest] at h; cases h
    | ok more =>
      rw [hrest] at h
      have hsum : rejected + more = 0 := beq_iff_eq.1 (Except.ok.inj h)
      exact congrArg Except.ok (beq_iff_eq.2 (Nat.eq_zero_of_add_eq_zero_right hsum))

theorem segmentsFrom_append (done rest : List Nat) (p : Progress σ η) :
    e.segmentsFrom request permits (done ++ rest) p =
      e.segmentsFrom request permits done p ++
        match e.climbAll request permits done p with
        | (.error _, _) => []
        | (.ok _, q) => e.segmentsFrom request permits rest q := by
  induction done generalizing p with
  | nil => rfl
  | cons leaf done ih =>
    rw [List.cons_append, segmentsFrom, segmentsFrom, climbAll_cons hall, hall]
    rcases e.climb request permits (leaf :: e.tree.ancestors leaf) p with ⟨result, q⟩
    cases result with
    | error fault => rfl
    | ok tally =>
      dsimp only
      rw [Bool.false_and, if_neg Bool.false_ne_true, if_neg Bool.false_ne_true, ih q]
      rcases e.climbAll request permits done q with ⟨result, q⟩
      cases result <;> rfl

/-- What an evaluation still does after some leaves are visits, unless it has ended with a fault. -/
theorem visited_rest (done rest : List Nat) (p : Progress σ η) :
    ∃ later, (e.segmentsFrom request permits (done ++ rest) p).flatten =
        (e.segmentsFrom request permits done p).flatten ++ later ∧
      e.Visited request permits (e.climbAll request permits done p).2 later
        (e.climbAll request permits (done ++ rest) p).2 := by
  rw [segmentsFrom_append hall, climbAll_append hall, List.flatten_append]
  rcases e.climbAll request permits done p with ⟨result, q⟩
  cases result with
  | error fault => exact ⟨[], rfl, .nil q⟩
  | ok rejected => exact ⟨_, rfl, e.visited_climbAll request permits rest q⟩

end

/-! ## Where it stops -/

/-- How an evaluation that stops at the first match comes out of one that does not: it evaluates
`done` and leaves out `rest`. -/
structure Cut (e : Evaluator V ρ η κ) (request : ρ) (permits : UInt64) (p : Progress σ η)
    (done rest : List Nat) : Prop where
  /-- It gets as far as the other one with the leaves in `done`. -/
  climbs : ({ e with firstMatchOnly := true } : Evaluator V ρ η κ).climbAll request permits
      (done ++ rest) p =
    ({ e with firstMatchOnly := false } : Evaluator V ρ η κ).climbAll request permits done p
  /-- It makes the same visits on the way. -/
  segments : ({ e with firstMatchOnly := true } : Evaluator V ρ η κ).segmentsFrom request permits
      (done ++ rest) p =
    ({ e with firstMatchOnly := false } : Evaluator V ρ η κ).segmentsFrom request permits done p
  /-- It leaves something out only after a grant. -/
  matched : rest ≠ [] → ∃ leaf ∈ done, ∃ q : Progress σ η,
    ∃ v ∈ e.climbVisits request permits (leaf :: e.tree.ancestors leaf) q, v.isGranted = true

section

variable {e : Evaluator V ρ η κ} {request : ρ} {permits : UInt64} {leaf : Nat} {tally : Tally}
  {p q : Progress σ η}

/-- A fault ends both evaluations. -/
theorem cut_of_fault {fault : Fault}
    (h : e.climb request permits (leaf :: e.tree.ancestors leaf) p = (.error fault, q))
    (leaves : List Nat) : e.Cut request permits p (leaf :: leaves) [] where
  climbs := by rw [List.append_nil, e.climbAll_firstMatchOnly true,
    e.climbAll_firstMatchOnly false, h]
  segments := by rw [List.append_nil, e.segmentsFrom_firstMatchOnly true,
    e.segmentsFrom_firstMatchOnly false, h]
  matched := fun hrest => absurd rfl hrest

/-- A grant ends only the one that stops at the first match. -/
theorem cut_of_grant
    (h : e.climb request permits (leaf :: e.tree.ancestors leaf) p = (.ok tally, q))
    (hgrant : 0 < tally.granted) (leaves : List Nat) : e.Cut request permits p [leaf] leaves where
  climbs := by
    rw [List.singleton_append, e.climbAll_firstMatchOnly true, e.climbAll_firstMatchOnly false, h]
    dsimp only
    rw [decide_eq_true hgrant, Bool.and_self, if_pos rfl, Bool.false_and,
      if_neg Bool.false_ne_true]
    rfl
  segments := by
    rw [List.singleton_append, e.segmentsFrom_firstMatchOnly true,
      e.segmentsFrom_firstMatchOnly false, h]
    dsimp only
    rw [decide_eq_true hgrant, Bool.and_self, if_pos rfl, Bool.false_and,
      if_neg Bool.false_ne_true]
    rfl
  matched := fun _ => by
    have hvisit := e.granted_pos_iff request permits (congrArg Prod.fst h)
    exact ⟨leaf, List.mem_singleton_self leaf, p, hvisit.1 hgrant⟩

/-- Without a grant both go on. -/
theorem Cut.cons
    (h : e.climb request permits (leaf :: e.tree.ancestors leaf) p = (.ok tally, q))
    (hno : ¬ 0 < tally.granted) {done rest : List Nat} (hcut : e.Cut request permits q done rest) :
    e.Cut request permits p (leaf :: done) rest where
  climbs := by
    rw [List.cons_append, e.climbAll_firstMatchOnly true, e.climbAll_firstMatchOnly false, h]
    dsimp only
    rw [decide_eq_false hno, Bool.and_false, Bool.and_false, if_neg Bool.false_ne_true,
      if_neg Bool.false_ne_true, hcut.climbs]
  segments := by
    rw [List.cons_append, e.segmentsFrom_firstMatchOnly true,
      e.segmentsFrom_firstMatchOnly false, h]
    dsimp only
    rw [decide_eq_false hno, Bool.and_false, Bool.and_false, if_neg Bool.false_ne_true,
      if_neg Bool.false_ne_true, hcut.segments]
  matched := fun hrest => by
    obtain ⟨other, hother, hmatched⟩ := hcut.matched hrest
    exact ⟨other, List.mem_cons_of_mem _ hother, hmatched⟩

end

/-- An evaluation that stops at the first match evaluates a first part of the leaves. -/
theorem exists_cut (e : Evaluator V ρ η κ) (request : ρ) (permits : UInt64) (leaves : List Nat)
    (p : Progress σ η) :
    ∃ done rest, leaves = done ++ rest ∧ e.Cut request permits p done rest := by
  induction leaves generalizing p with
  | nil => exact ⟨[], [], rfl, ⟨rfl, rfl, fun h => absurd rfl h⟩⟩
  | cons leaf leaves ih =>
    rcases hclimb : e.climb request permits (leaf :: e.tree.ancestors leaf) p with ⟨result, q⟩
    cases result with
    | error fault =>
      exact ⟨leaf :: leaves, [], (List.append_nil _).symm, cut_of_fault hclimb leaves⟩
    | ok tally =>
      by_cases hgrant : 0 < tally.granted
      · exact ⟨[leaf], leaves, rfl, cut_of_grant hclimb hgrant leaves⟩
      · obtain ⟨done, rest, rfl, hcut⟩ := ih q
        exact ⟨leaf :: done, rest, rfl, hcut.cons hclimb hgrant⟩

/-! ## Where the grants are -/

/-- The segments of an evaluation belong to the first leaves, in order, and each goes up the way of
its leaf. -/
theorem forall₂_segmentsFrom (e : Evaluator V ρ η κ) (request : ρ) (permits : UInt64)
    (leaves : List Nat) (p : Progress σ η) :
    List.Forall₂ (fun leaf visits => visits.map Visit.node <+: leaf :: e.tree.ancestors leaf)
      (leaves.take (e.segmentsFrom request permits leaves p).length)
      (e.segmentsFrom request permits leaves p) := by
  induction leaves generalizing p with
  | nil => exact .nil
  | cons leaf leaves ih =>
    have hfirst := e.nodes_climbVisits_prefix_way request permits (leaf :: e.tree.ancestors leaf) p
    rw [segmentsFrom]
    rcases e.climb request permits (leaf :: e.tree.ancestors leaf) p with ⟨result, q⟩
    cases result with
    | error fault => exact .cons hfirst .nil
    | ok tally =>
      dsimp only
      split
      · exact .cons hfirst .nil
      · exact .cons hfirst (ih q)

/-- An evaluation that stops at the first match has no grant before its last segment, however it
ends. -/
theorem not_isGranted_dropLast {e : Evaluator V ρ η κ} (hfirst : e.firstMatchOnly = true)
    (request : ρ) (permits : UInt64) (leaves : List Nat) (p : Progress σ η) :
    ∀ visits ∈ (e.segmentsFrom request permits leaves p).dropLast, ∀ v ∈ visits,
      v.isGranted = false := by
  induction leaves generalizing p with
  | nil => exact fun visits hvisits => absurd hvisits List.not_mem_nil
  | cons leaf leaves ih =>
    have hgrant : ∀ tally,
        (e.climb request permits (leaf :: e.tree.ancestors leaf) p).1 = .ok tally →
          (0 < tally.granted ↔
            ∃ v ∈ e.climbVisits request permits (leaf :: e.tree.ancestors leaf) p,
              v.isGranted = true) :=
      fun _ => e.granted_pos_iff request permits
    rw [segmentsFrom]
    rcases hclimb : e.climb request permits (leaf :: e.tree.ancestors leaf) p with ⟨result, q⟩
    rw [hclimb] at hgrant
    cases result with
    | error fault => exact fun visits hvisits => absurd hvisits List.not_mem_nil
    | ok tally =>
      dsimp only
      split
      · exact fun visits hvisits => absurd hvisits List.not_mem_nil
      · next hgo =>
        intro visits hvisits v hv
        cases hrest : e.segmentsFrom request permits leaves q with
        | nil =>
          rw [hrest] at hvisits
          exact absurd hvisits List.not_mem_nil
        | cons segment segments =>
          rw [hrest, List.dropLast_cons_cons, ← hrest] at hvisits
          rcases List.mem_cons.1 hvisits with rfl | hvisits
          · by_contra hv'
            have hpos : 0 < tally.granted := (hgrant tally rfl).2 ⟨v, hv, by simpa using hv'⟩
            exact hgo (by rw [hfirst, decide_eq_true hpos, Bool.and_self])
          · exact ih q visits hvisits v hv

/-! ## The law -/

/-- **To stop at the first match only cuts an evaluation short.**  Let two evaluators differ only in
whether they stop there, and let both decide the same request in the same world.  What the one that
stops reports is the beginning of what the other one reports.  The other one makes the same visits
first, which bring it to the very store and clock that the first one leaves behind, and goes on from
there.  If it grants the request, so does the one that stops; and if that one ends with a fault,
both come to the same outcome.  The visits of the one that stops are those of the first leaves, a segment
for each, and only the last segment can hold a grant: so no leaf is looked at after one at which
anything was granted. -/
theorem first_match_cuts_short (tree : Tree V) (matcherOf : Nat → Except Fault (Matcher ρ η))
    (limiterOf : Nat → Except Fault (NodeLimiter κ)) (w : World σ) (request : ρ)
    (permits : UInt64) (timeout : Duration) :
    let evaluator := fun firstMatchOnly =>
      { Evaluator.new tree matcherOf limiterOf with firstMatchOnly }
    let first := (evaluator true).decide w request permits timeout
    let all := (evaluator false).decide w request permits timeout
    let segments := (evaluator true).segments w request permits timeout
    first.events <+: all.events ∧
      (∃ remaining later remaining',
        (evaluator false).visits w request permits timeout = segments.flatten ++ later ∧
          (evaluator false).Visited request permits ⟨w, timeout, []⟩ segments.flatten
            ⟨first.world, remaining, first.events⟩ ∧
          (evaluator false).Visited request permits ⟨first.world, remaining, first.events⟩ later
            ⟨all.world, remaining', all.events⟩) ∧
      (all.answer = .ok true → first.answer = .ok true) ∧
      (∀ fault, first.answer = .error fault → all = first) ∧
      List.Forall₂ (fun leaf visits => visits.map Visit.node <+: leaf :: tree.ancestors leaf)
        (tree.leaves.take segments.length) segments ∧
      ∀ visits ∈ segments.dropLast, ∀ v ∈ visits, v.isGranted = false := by
  intro evaluator first all segments
  let start : Progress σ η := ⟨w, timeout, []⟩
  obtain ⟨done, rest, hleaves, hcut⟩ :=
    (evaluator false).exists_cut request permits tree.leaves start
  -- `first` is what the evaluator that does not stop has reached after the leaves in `done`
  let reached := (evaluator false).climbAll request permits done start
  let final := (evaluator false).climbAll request permits (done ++ rest) start
  have hfirst : first = ⟨reached.1.map (· == 0), reached.2.world, reached.2.events⟩ := by
    have hclimbs : reached = (evaluator true).climbAll request permits tree.leaves start := by
      rw [hleaves]
      exact hcut.climbs.symm
    rw [hclimbs]
    exact (evaluator true).decide_eq w request permits timeout
  have hall : all = ⟨final.1.map (· == 0), final.2.world, final.2.events⟩ := by
    have hclimbs : final = (evaluator false).climbAll request permits tree.leaves start := by
      rw [hleaves]
    rw [hclimbs]
    exact (evaluator false).decide_eq w request permits timeout
  have hsegments : segments = (evaluator false).segmentsFrom request permits done start := by
    rw [← hcut.segments]
    exact congrArg ((evaluator true).segmentsFrom request permits · start) hleaves
  obtain ⟨later, hvisits, hlater⟩ :=
    (evaluator false).visited_rest rfl request permits done rest start
  have hdone := (evaluator false).visited_climbAll request permits done start
  rw [← hsegments] at hvisits hdone
  rw [hfirst, hall]
  refine ⟨⟨_, hlater.events_eq.symm⟩, ⟨reached.2.remaining, later, final.2.remaining, ?_, hdone,
    hlater⟩, climbAll_ok_of_append rfl request permits, ?_, ?_, ?_⟩
  · rw [← hvisits, ← hleaves]
    rfl
  · intro fault hfault
    have hreached : reached.1 = .error fault := by
      change reached.1.map (· == 0) = .error fault at hfault
      cases hresult : reached.1 with
      | error cause => rw [hresult] at hfault; cases hfault; rfl
      | ok rejected => rw [hresult] at hfault; cases hfault
    have hfinal : final = reached := climbAll_append_of_error rfl request permits hreached rest
    rw [hfinal]
  · exact (evaluator true).forall₂_segmentsFrom request permits tree.leaves start
  · exact not_isGranted_dropLast rfl request permits tree.leaves start

/-- Once the left door has let two persons in, nobody looks at the right one. -/
example :
    let e : Evaluator Unit Nat Nat StockMeter := { house with firstMatchOnly := true }
    (e.segments houseWorld 7 2 (.ofMillis 1)).map (List.map Visit.node) = [[2, 1]] := by
  decide +kernel

end Evaluator

end Admission
