import Admission.Limiter.Evaluator
import Admission.Meter.Stock
import Admission.Proofs.StoreLaws

/-!
# Visits

An evaluation reports events, and leaves a store and a clock behind.  Between the two stand its
visits: the reservations that were carried out, each at a node, under a key and at an instant, and
each with its answer.

* **the log** — `Evaluator.segments` lists the visits of an evaluation, one segment for each leaf
  that was looked at; `Evaluator.visits` joins them.  A node whose meters cannot be built ends the
  evaluation and is not visited;
* **one visit** — `Evaluator.Visits` says what a visit does to the progress of an evaluation,
  `Evaluator.Visits.asked` that it asks the meters of its account, and `Evaluator.attempt_cases`
  that an attempt is a visit or changes nothing at all;
* **all visits** — `Evaluator.Visited` chains visits; `Evaluator.visited_climb` and
  `Evaluator.visited_decide` say that a climb, and a whole evaluation, is the chain of its visits,
  whether it ends with an answer or with a fault.

What holds after every visit therefore holds of every evaluation (`Evaluator.Visited.induct`).

`house` is a small evaluator with four nodes on which statements about evaluations can be tried.
-/

namespace Admission

/-- A reservation that was carried out at a node. -/
structure Visit (η : Type) where
  /-- The node. -/
  node : Nat
  /-- The limit that the node enforces. -/
  limit : Limit
  /-- The key under which the caller was counted. -/
  key : η
  /-- The reading of the clock when the permits were asked for. -/
  instant : Micros
  /-- How long the caller slept for the permits, or nothing when they could not be had. -/
  answer : Option Micros

namespace Visit

variable {η : Type}

/-- Whether the permits were had. -/
def isGranted (v : Visit η) : Bool := v.answer.isSome

/-- The time that the caller slept. -/
def slept (v : Visit η) : Micros := v.answer.getD 0

/-- The outcome of an attempt that came to a visit. -/
def outcome (v : Visit η) : Attempt := if v.isGranted then .granted else .rejected

/-- What is reported of a visit. -/
def events (permits : UInt64) (v : Visit η) : List (UsageEvent η) :=
  ⟨.consumed, v.key, permits, v.limit⟩ ::
    if v.isGranted then [] else [⟨.rejected, v.key, permits, v.limit⟩]

end Visit

namespace Evaluator

variable {V ρ η κ σ : Type}

/-- The limiter and the key with which a node concerns a request.  Nothing when there is no limiter
in effect or the request is not matched. -/
def concern (e : Evaluator V ρ η κ) (request : ρ) (i : Nat) :
    Except Fault (Option (Limiter κ × η)) :=
  match e.limiterOf i with
  | .error fault => .error fault
  | .ok .idle => .ok none
  | .ok (.limiting l) =>
    match e.matcherOf i with
    | .error fault => .error fault
    | .ok matcher => .ok ((matcher request).map (l, ·))

theorem limiterOf_of_concern {e : Evaluator V ρ η κ} {request : ρ} {i : Nat} {l : Limiter κ}
    {key : η} (h : e.concern request i = .ok (some (l, key))) :
    e.limiterOf i = .ok (.limiting l) := by
  unfold concern at h
  split at h
  · cases h
  · cases h
  · next l' hlimiter =>
    split at h
    · cases h
    · next matcher hmatcher =>
      cases hkey : matcher request with
      | none => rw [hkey] at h; cases h
      | some key' => rw [hkey] at h; cases h; exact hlimiter

variable [CustomMeter κ] [MeterStore σ η κ]

/-! ## The log -/

/-- The visit of an attempt at a node, if it comes to one. -/
def visit? (e : Evaluator V ρ η κ) (request : ρ) (permits : UInt64) (i : Nat)
    (p : Progress σ η) : Option (Visit η) :=
  match e.concern request i with
  | .ok (some (l, key)) =>
    match (l.reserve p.world key permits p.remaining).1 with
    | .ok answer => some ⟨i, l.limit, key, p.world.clock.now, answer⟩
    | .error _ => none
  | _ => none

/-- The visits on a way up. -/
def climbVisits (e : Evaluator V ρ η κ) (request : ρ) (permits : UInt64) :
    List Nat → Progress σ η → List (Visit η)
  | [], _ => []
  | i :: above, p =>
    if e.tree.isRoot i || (e.tree.value? i).isNone then []
    else
      match e.visit? request permits i p with
      | none => []
      | some v =>
        v :: if v.isGranted then e.climbVisits request permits above
          (e.attempt request permits i p).2 else []

/-- The visits on the ways up from some leaves, a segment for each leaf that is looked at. -/
def segmentsFrom (e : Evaluator V ρ η κ) (request : ρ) (permits : UInt64) :
    List Nat → Progress σ η → List (List (Visit η))
  | [], _ => []
  | leaf :: leaves, p =>
    e.climbVisits request permits (leaf :: e.tree.ancestors leaf) p ::
      match e.climb request permits (leaf :: e.tree.ancestors leaf) p with
      | (.error _, _) => []
      | (.ok tally, p) =>
        if e.firstMatchOnly && 0 < tally.granted then []
        else e.segmentsFrom request permits leaves p

/-- The visits of an evaluation, a segment for each leaf that is looked at. -/
def segments (e : Evaluator V ρ η κ) (w : World σ) (request : ρ) (permits : UInt64)
    (timeout : Duration) : List (List (Visit η)) :=
  e.segmentsFrom request permits e.leaves ⟨w, timeout, []⟩

/-- The visits of an evaluation. -/
def visits (e : Evaluator V ρ η κ) (w : World σ) (request : ρ) (permits : UInt64)
    (timeout : Duration) : List (Visit η) :=
  (e.segments w request permits timeout).flatten

/-! ## One visit -/

/-- What a visit does to the progress of an evaluation. -/
structure Visits (e : Evaluator V ρ η κ) (request : ρ) (permits : UInt64) (p : Progress σ η)
    (v : Visit η) (after : Progress σ η) : Prop where
  /-- The limiter of the node answers, and leaves its store and its clock behind. -/
  reserved : ∃ l : Limiter κ,
    e.concern request v.node = .ok (some (l, v.key)) ∧ l.limit = v.limit ∧
      l.reserve p.world v.key permits p.remaining = (.ok v.answer, after.world)
  /-- The visit takes place now. -/
  instant : v.instant = p.world.clock.now
  /-- Time slept is no longer there for later visits. -/
  remaining : after.remaining = p.remaining.minus (.ofMicros v.slept)
  /-- The visit is reported. -/
  events : after.events = p.events ++ v.events permits

/-- A limiter that faults leaves the world as it was. -/
theorem snd_reserve_of_error {l : Limiter κ} {w world : World σ} {key : η} {permits : UInt64}
    {timeout : Duration} {fault : Fault}
    (h : l.reserve w key permits timeout = (.error fault, world)) : world = w := by
  rw [Limiter.reserve, Limiter.take] at h
  split at h <;> cases h
  rfl

/-- An attempt faults, or passes a node that is not concerned, and then changes nothing; or else it
is a visit. -/
theorem attempt_cases (e : Evaluator V ρ η κ) (request : ρ) (permits : UInt64) (i : Nat)
    (p : Progress σ η) :
    (∃ fault, e.attempt request permits i p = (.error fault, p) ∧
        e.visit? request permits i p = none) ∨
      (e.attempt request permits i p = (.ok .noMatch, p) ∧
        e.visit? request permits i p = none ∧ e.concern request i = .ok none) ∨
      ∃ v after, e.attempt request permits i p = (.ok v.outcome, after) ∧
        e.visit? request permits i p = some v ∧ v.node = i ∧
        e.Visits request permits p v after := by
  cases hl : e.limiterOf i with
  | error fault => exact .inl ⟨fault, by simp [attempt, hl], by simp [visit?, concern, hl]⟩
  | ok r =>
    cases r with
    | idle =>
      exact .inr (.inl ⟨by simp [attempt, hl], by simp [visit?, concern, hl],
        by simp [concern, hl]⟩)
    | limiting l =>
      cases hm : e.matcherOf i with
      | error fault =>
        exact .inl ⟨fault, by simp [attempt, hl, hm], by simp [visit?, concern, hl, hm]⟩
      | ok matcher =>
        cases hkey : matcher request with
        | none =>
          exact .inr (.inl ⟨by simp [attempt, hl, hm, hkey],
            by simp [visit?, concern, hl, hm, hkey], by simp [concern, hl, hm, hkey]⟩)
        | some key =>
          have hconcern : e.concern request i = .ok (some (l, key)) := by
            simp [concern, hl, hm, hkey]
          rcases hr : l.reserve p.world key permits p.remaining with ⟨answer, world⟩
          cases answer with
          | error fault =>
            have hworld : world = p.world := snd_reserve_of_error hr
            subst hworld
            exact .inl ⟨fault, by simp [attempt, hl, hm, hkey, hr], by simp [visit?, hconcern, hr]⟩
          | ok answer =>
            refine .inr (.inr ⟨⟨i, l.limit, key, p.world.clock.now, answer⟩,
              (e.attempt request permits i p).2, ?_, by simp [visit?, hconcern, hr], rfl, ?_⟩)
            · cases answer <;> simp [attempt, hl, hm, hkey, hr, Visit.outcome, Visit.isGranted]
            · cases answer with
              | none =>
                exact
                  { reserved := ⟨l, hconcern, rfl, by simp [attempt, hl, hm, hkey, hr]⟩
                    instant := rfl
                    remaining := by simp [attempt, hl, hm, hkey, hr, Visit.slept]; rfl
                    events := by
                      simp [attempt, hl, hm, hkey, hr, Visit.events, Visit.isGranted] }
              | some wait =>
                exact
                  { reserved := ⟨l, hconcern, rfl, by simp [attempt, hl, hm, hkey, hr]⟩
                    instant := rfl
                    remaining := by simp [attempt, hl, hm, hkey, hr, Visit.slept]
                    events := by
                      simp [attempt, hl, hm, hkey, hr, Visit.events, Visit.isGranted] }

/-- A visit asks the meters of its account, and waits for as long as they say. -/
theorem Visits.asked [SteadyStore σ] {e : Evaluator V ρ η κ} {request : ρ} {permits : UInt64}
    {p after : Progress σ η} {v : Visit η} (h : e.Visits request permits p v after) :
    ∃ (l : Limiter κ) (g : MeterGroup κ),
      e.concern request v.node = .ok (some (l, v.key)) ∧ l.meters p.world v.key = .ok g ∧
        v.answer = (g.reserve permits p.remaining p.world.clock.now).1 ∧
        after.world.store = MeterStore.put p.world.store ⟨l.limit.resource, v.key⟩
          (g.reserve permits p.remaining p.world.clock.now).2 ∧
        after.world.clock = p.world.clock.waitFor v.answer := by
  obtain ⟨l, hconcern, -, hreserve⟩ := h.reserved
  cases hmeters : l.meters p.world v.key with
  | error fault =>
    rw [Limiter.reserve_of_error hmeters] at hreserve
    cases hreserve
  | ok g =>
    rw [Limiter.reserve_of_ok hmeters] at hreserve
    obtain ⟨hanswer, hworld⟩ := Prod.mk.inj hreserve
    have hanswer := (Except.ok.inj hanswer).symm
    rw [← hanswer] at hworld
    exact ⟨l, g, hconcern, hmeters, hanswer, by rw [← hworld], by rw [← hworld]⟩

/-! ## Chains of visits -/

/-- Visits of configured nodes, one after the other, from one progress of an evaluation to
another. -/
inductive Visited (e : Evaluator V ρ η κ) (request : ρ) (permits : UInt64) :
    Progress σ η → List (Visit η) → Progress σ η → Prop where
  /-- No visit changes nothing. -/
  | nil (p : Progress σ η) : Visited e request permits p [] p
  /-- A visit, and then the others. -/
  | cons {p middle after : Progress σ η} {v : Visit η} {vs : List (Visit η)} :
    e.Visits request permits p v middle → (e.tree.value? v.node).isSome = true →
      Visited e request permits middle vs after → Visited e request permits p (v :: vs) after

section

variable {e : Evaluator V ρ η κ} {request : ρ} {permits : UInt64}

theorem Visited.append {p middle after : Progress σ η} {vs more : List (Visit η)}
    (h : e.Visited request permits p vs middle)
    (hmore : e.Visited request permits middle more after) :
    e.Visited request permits p (vs ++ more) after := by
  induction h with
  | nil p => exact hmore
  | cons hv hvalue _ ih => exact .cons hv hvalue (ih hmore)

/-- **What every visit keeps, a chain of visits keeps.**  The property may speak of the visits made
so far, the latest last. -/
theorem Visited.induct {p after : Progress σ η} {vs : List (Visit η)}
    (h : e.Visited request permits p vs after) (keeps : Progress σ η → List (Visit η) → Prop)
    (hstep : ∀ p v after past, e.Visits request permits p v after →
      (e.tree.value? v.node).isSome = true → keeps p past → keeps after (past ++ [v])) :
    ∀ past, keeps p past → keeps after (past ++ vs) := by
  induction h with
  | nil p => intro past hp; rwa [List.append_nil]
  | @cons p middle after v vs hv hvalue _ ih =>
    intro past hp
    have hnext := ih (past ++ [v]) (hstep p v middle past hv hvalue hp)
    rwa [List.append_assoc] at hnext

/-- The reports of a chain are those of its visits. -/
theorem Visited.events_eq {p after : Progress σ η} {vs : List (Visit η)}
    (h : e.Visited request permits p vs after) :
    after.events = p.events ++ vs.flatMap (Visit.events permits) := by
  induction h with
  | nil p => simp
  | cons hv _ _ ih => rw [ih, hv.events, List.flatMap_cons, List.append_assoc]

end

/-! ## Climbs -/

/-- A node at which a climb ends without a visit. -/
def Ends (e : Evaluator V ρ η κ) (request : ρ) (i : Nat) : Prop :=
  e.tree.isRoot i = true ∨ e.tree.value? i = none ∨ e.concern request i = .ok none

/-- What a climb does at its first node: it ends there, it faults, it is rejected, or it goes on
after a grant. -/
theorem climb_cases (e : Evaluator V ρ η κ) (request : ρ) (permits : UInt64) (i : Nat)
    (above : List Nat) (p : Progress σ η) :
    (e.climb request permits (i :: above) p = (.ok ⟨0, 0⟩, p) ∧
        e.climbVisits request permits (i :: above) p = [] ∧ e.Ends request i) ∨
      (∃ fault, e.climb request permits (i :: above) p = (.error fault, p) ∧
        e.climbVisits request permits (i :: above) p = []) ∨
      ∃ v after, v.node = i ∧ e.Visits request permits p v after ∧
        e.tree.isRoot i = false ∧ (e.tree.value? i).isSome = true ∧
        ((v.isGranted = false ∧
            e.climb request permits (i :: above) p = (.ok ⟨0, 1⟩, after) ∧
            e.climbVisits request permits (i :: above) p = [v]) ∨
          (v.isGranted = true ∧
            e.climb request permits (i :: above) p =
              ((e.climb request permits above after).1.map
                fun tally => { tally with granted := tally.granted + 1 },
                (e.climb request permits above after).2) ∧
            e.climbVisits request permits (i :: above) p =
              v :: e.climbVisits request permits above after)) := by
  by_cases hend : (e.tree.isRoot i || (e.tree.value? i).isNone) = true
  · refine .inl ⟨by rw [climb, if_pos hend], by rw [climbVisits, if_pos hend], ?_⟩
    rcases Bool.or_eq_true_iff.1 hend with hroot | hvalue
    · exact .inl hroot
    · exact .inr (.inl (Option.isNone_iff_eq_none.1 hvalue))
  · obtain ⟨hroot, hvalue⟩ : e.tree.isRoot i = false ∧ (e.tree.value? i).isSome = true := by
      simpa [Option.isSome_iff_ne_none] using hend
    rw [climb, if_neg hend, climbVisits, if_neg hend]
    rcases e.attempt_cases request permits i p with
      ⟨fault, hattempt, hvisit⟩ | ⟨hattempt, hvisit, hconcern⟩ |
      ⟨v, after, hattempt, hvisit, hnode, hv⟩
    · exact .inr (.inl ⟨fault, by rw [hattempt], by rw [hvisit]⟩)
    · exact .inl ⟨by rw [hattempt], by rw [hvisit], .inr (.inr hconcern)⟩
    · refine .inr (.inr ⟨v, after, hnode, hv, hroot, hvalue, ?_⟩)
      rw [hattempt, hvisit, Visit.outcome]
      cases hgranted : v.isGranted with
      | false => exact .inl ⟨rfl, rfl, by simp [hgranted]⟩
      | true =>
        refine .inr ⟨rfl, ?_, by simp [hgranted]⟩
        rw [if_pos rfl]
        dsimp only
        rcases e.climb request permits above after with ⟨result, final⟩
        cases result <;> rfl

/-- A climb is the chain of its visits. -/
theorem visited_climb (e : Evaluator V ρ η κ) (request : ρ) (permits : UInt64) :
    ∀ (way : List Nat) (p : Progress σ η),
      e.Visited request permits p (e.climbVisits request permits way p)
        (e.climb request permits way p).2 := by
  intro way
  induction way with
  | nil => intro p; exact .nil p
  | cons i above ih =>
    intro p
    rcases e.climb_cases request permits i above p with
      ⟨hclimb, hvisits, -⟩ | ⟨fault, hclimb, hvisits⟩ |
      ⟨v, after, rfl, hv, -, hvalue, ⟨-, hclimb, hvisits⟩ | ⟨-, hclimb, hvisits⟩⟩
    · rw [hclimb, hvisits]; exact .nil p
    · rw [hclimb, hvisits]; exact .nil p
    · rw [hclimb, hvisits]; exact .cons hv hvalue (.nil after)
    · rw [hclimb, hvisits]; exact .cons hv hvalue (ih after)

/-- A climb counts its visits. -/
theorem climb_tally (e : Evaluator V ρ η κ) (request : ρ) (permits : UInt64) :
    ∀ (way : List Nat) (p : Progress σ η) (tally : Tally),
      (e.climb request permits way p).1 = .ok tally →
        tally.granted = (e.climbVisits request permits way p).countP Visit.isGranted ∧
          tally.rejected = (e.climbVisits request permits way p).countP (!·.isGranted) := by
  intro way
  induction way with
  | nil => intro p tally h; cases h; exact ⟨rfl, rfl⟩
  | cons i above ih =>
    intro p tally h
    rcases e.climb_cases request permits i above p with
      ⟨hclimb, hvisits, -⟩ | ⟨fault, hclimb, hvisits⟩ |
      ⟨v, after, -, -, -, -, ⟨hv, hclimb, hvisits⟩ | ⟨hv, hclimb, hvisits⟩⟩
    · rw [hclimb] at h; cases h; rw [hvisits]; exact ⟨rfl, rfl⟩
    · rw [hclimb] at h; cases h
    · rw [hclimb] at h
      cases h
      rw [hvisits]
      simp [hv]
    · rw [hclimb] at h
      dsimp only at h
      cases hrest : (e.climb request permits above after).1 with
      | error fault => rw [hrest] at h; cases h
      | ok rest =>
        rw [hrest] at h
        cases h
        obtain ⟨hgranted, hrejected⟩ := ih after rest hrest
        rw [hvisits]
        simp [hv, hgranted, hrejected]

/-! ## Whole evaluations -/

/-- The climbs from some leaves are the chain of their visits. -/
theorem visited_climbAll (e : Evaluator V ρ η κ) (request : ρ) (permits : UInt64) :
    ∀ (leaves : List Nat) (p : Progress σ η),
      e.Visited request permits p (e.segmentsFrom request permits leaves p).flatten
        (e.climbAll request permits leaves p).2 := by
  intro leaves
  induction leaves with
  | nil => intro p; exact .nil p
  | cons leaf leaves ih =>
    intro p
    have hclimb := e.visited_climb request permits (leaf :: e.tree.ancestors leaf) p
    rw [segmentsFrom, climbAll, List.flatten_cons]
    rcases hresult : e.climb request permits (leaf :: e.tree.ancestors leaf) p with ⟨result, after⟩
    rw [hresult] at hclimb
    cases result with
    | error fault => simpa using hclimb
    | ok tally =>
      dsimp only
      split
      · simpa using hclimb
      · have hall := hclimb.append (ih after)
        rcases hrest : e.climbAll request permits leaves after with ⟨rest, final⟩
        rw [hrest] at hall
        cases rest <;> exact hall

/-- **An evaluation is the chain of its visits**, whether it ends with an answer or with a fault. -/
theorem visited_decide (e : Evaluator V ρ η κ) (w : World σ) (request : ρ) (permits : UInt64)
    (timeout : Duration) :
    ∃ remaining, e.Visited request permits ⟨w, timeout, []⟩ (e.visits w request permits timeout)
      ⟨(e.decide w request permits timeout).world, remaining,
        (e.decide w request permits timeout).events⟩ := by
  have hall := e.visited_climbAll request permits e.leaves ⟨w, timeout, []⟩
  refine ⟨(e.climbAll request permits e.leaves ⟨w, timeout, []⟩).2.remaining, ?_⟩
  unfold decide
  rcases hrest : e.climbAll request permits e.leaves ⟨w, timeout, []⟩ with ⟨result, final⟩
  rw [hrest] at hall
  cases result <;> exact hall

/-- The rejections that are counted are the visits that were rejected. -/
theorem climbAll_rejected (e : Evaluator V ρ η κ) (request : ρ) (permits : UInt64) :
    ∀ (leaves : List Nat) (p : Progress σ η) (rejected : Nat),
      (e.climbAll request permits leaves p).1 = .ok rejected →
        rejected = (e.segmentsFrom request permits leaves p).flatten.countP (!·.isGranted) := by
  intro leaves
  induction leaves with
  | nil => intro p rejected h; cases h; rfl
  | cons leaf leaves ih =>
    intro p rejected h
    have htally := e.climb_tally request permits (leaf :: e.tree.ancestors leaf) p
    rw [climbAll] at h
    rw [segmentsFrom, List.flatten_cons, List.countP_append]
    rcases hresult : e.climb request permits (leaf :: e.tree.ancestors leaf) p with ⟨result, after⟩
    rw [hresult] at h htally
    cases result with
    | error fault => cases h
    | ok tally =>
      obtain ⟨-, hrejected⟩ := htally tally rfl
      dsimp only at h ⊢
      split at h
      · next hstop => cases h; rw [if_pos hstop, ← hrejected]; rfl
      · next hgo =>
        rw [if_neg hgo, ← hrejected]
        cases hrest : e.climbAll request permits leaves after with
        | mk rest final =>
          rw [hrest] at h
          cases rest with
          | error fault => cases h
          | ok others =>
            cases h
            rw [← ih after others (by rw [hrest])]

/-- **An evaluation grants exactly if every visit does.** -/
theorem decide_ok_iff {e : Evaluator V ρ η κ} {w : World σ} {request : ρ} {permits : UInt64}
    {timeout : Duration} {granted : Bool}
    (h : (e.decide w request permits timeout).answer = .ok granted) :
    granted = true ↔ ∀ v ∈ e.visits w request permits timeout, v.isGranted = true := by
  have hcount := e.climbAll_rejected request permits e.leaves ⟨w, timeout, []⟩
  unfold decide at h
  rcases hrest : e.climbAll request permits e.leaves ⟨w, timeout, []⟩ with ⟨result, final⟩
  rw [hrest] at h hcount
  cases result with
  | error fault => cases h
  | ok rejected =>
    have hrejected : rejected = (e.visits w request permits timeout).countP (!·.isGranted) :=
      hcount rejected rfl
    cases h
    rw [beq_iff_eq, hrejected, List.countP_eq_zero]
    simp

/-! ## A house with two doors -/

/-- A house with one floor, and two doors to it. -/
def houseTree : Tree Unit :=
  (((Tree.new 0 "house" none).append 0 "floor" (some ())).append 1 "left" (some ())).append 1
    "right" (some ())

/-- The floor takes three persons a second at once; each door lets every person wait for a quarter
of a thousandth. -/
def houseRate (i : Nat) : Rate :=
  if i = 1 then ⟨3, .ofSeconds 1, some .allOrNothing⟩
  else ⟨250, .ofSeconds 1, some (.custom "slow")⟩

/-- The limiter of a room or a door. -/
def houseLimiter (i : Nat) : Limiter StockMeter :=
  ⟨⟨houseTree.name i, .of (houseRate i)⟩, StockMeter.registerAll .standard⟩

/-- Everybody passes both doors, each on the way to the floor. -/
def house : Evaluator Unit Nat Nat StockMeter :=
  new houseTree (fun _ => .ok Matcher.all) fun i => .ok (.limiting (houseLimiter i))

/-- Nobody has passed yet. -/
def houseWorld : World (MemoryStore Nat StockMeter) := ⟨.empty, .unmoved⟩

/-- Two persons find room on the floor through the left door, but not again through the right
one. -/
example :
    ((house.visits houseWorld 7 2 (.ofMillis 1)).map fun v => (v.node, v.instant, v.answer)) =
      [(2, 0, some 500), (1, 500, some 0), (3, 500, some 500), (1, 1000, none)] := by
  decide +kernel

/-! ## A hut with one door -/

/-- A hut with one door. -/
def hutTree : Tree Unit := (Tree.new 1 "hut" none).append 0 "door" (some ())

/-- The door takes two persons a second at once, and an algorithm of another kind has to agree. -/
def hutLimiter (algorithm : String) (c : Catalog StockMeter) : Limiter StockMeter :=
  ⟨⟨"door", .all [⟨2, .ofSeconds 1, some .allOrNothing⟩,
    ⟨1, .ofSeconds 1, some (.custom algorithm)⟩]⟩, c⟩

/-- Everybody passes the door. -/
def hut {ρ : Type} (l : Limiter StockMeter) : Evaluator Unit ρ ρ StockMeter :=
  new hutTree (fun _ => .ok Matcher.all) fun _ => .ok (.limiting l)

/-- An algorithm that grants everything, once it is ready.  Nobody finds out when its limiter is
made, which is at the beginning of time. -/
def latecomer : Catalog StockMeter :=
  Catalog.standard.register "late" fun _ now =>
    if 0 < now ∧ now < 1000 then throw (.invalidRate (.refused "not ready")) else pure .always

end Evaluator

end Admission
