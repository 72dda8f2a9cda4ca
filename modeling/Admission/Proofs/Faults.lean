import Admission.Proofs.Creation
import Admission.Proofs.OneChain

/-!
# Faults of evaluations

An evaluation ends in a fault only where a node has a quota whose meters cannot be created.  Nothing
else goes wrong: not the way up from a leaf, not the matching by path, and not a limiter that is
there.

* **at any time** — `Catalog.IsTimeless` says that it does not depend on the instant whether meters
  can be created.  The limiter of a node tries it at instant zero and its first request later, so
  without this a limiter could be there and fault all the same.  `reserve_of_limiterAt` shows that
  it does not;
* **chains of attempts** — `Evaluator.Attempted` chains attempts none of which faults, as
  `Evaluator.Visited` chains visits.  `Evaluator.attempted_of_answer` and
  `Evaluator.attempted_of_fault` say that an evaluation is such a chain, in case of a fault all but
  for its last attempt, which changes nothing;
* **attempts that fault** — `Evaluator.concern_or_meters_of_attempt_error`: the limiter or the
  matcher of the node is not provided, or its limiter cannot make meters;
* **by path** — `Evaluator.attempt_eq_error_iff` finds the one of these that can happen.

`Evaluator.only_providers_fault` puts these together.
-/

namespace Admission

/-! ## What can be created -/

/-- Whether a meter can be created does not depend on the instant. -/
def Constructor.IsTimeless {κ : Type} (build : Constructor κ) : Prop :=
  ∀ rate now meter, build rate now = .ok meter → ∀ other, ∃ meter', build rate other = .ok meter'

namespace Catalog

variable {κ : Type} {c : Catalog κ}

/-- Whether the meter of a registered algorithm can be created does not depend on the instant. -/
def IsTimeless (c : Catalog κ) : Prop :=
  ∀ name build, c.registry.lookup name = some build → Constructor.IsTimeless build

/-- The meters of a quota cannot be created at any instant. -/
def Refuses (c : Catalog κ) (quota : Quota) : Prop :=
  ∀ now, ∃ fault, c.createAll quota now = .error fault

theorem isTimeless_standard : (standard : Catalog κ).IsTimeless :=
  fun _ _ hlookup => by cases hlookup

namespace IsTimeless

theorem register (h : c.IsTimeless) (name : String) {build : Constructor κ}
    (hbuild : Constructor.IsTimeless build) : (c.register name build).IsTimeless := by
  intro other built hlookup
  rw [lookup_register] at hlookup
  split at hlookup
  · cases hlookup
    exact hbuild
  · exact h other built hlookup

theorem create (h : c.IsTimeless) {rate : Rate} {now : Micros} {m : Meter κ}
    (hcreate : c.create rate now = .ok m) (other : Micros) :
    ∃ m', c.create rate other = .ok m' := by
  obtain ⟨hvalid, hcreate⟩ := create_eq_ok_iff.1 hcreate
  cases halgorithm : rate.algorithm.getD c.fallback with
  | allOrNothing | bursty | warmingUp =>
    exact ⟨_, create_eq_ok_iff.2 ⟨hvalid, by rw [halgorithm]⟩⟩
  | custom name =>
    rw [halgorithm] at hcreate
    obtain ⟨build, state, hbuild, hstate, -⟩ := hcreate
    obtain ⟨state', hstate'⟩ := h name build hbuild rate now state hstate other
    refine ⟨.custom state', create_eq_ok_iff.2 ⟨hvalid, ?_⟩⟩
    rw [halgorithm]
    exact ⟨build, state', hbuild, hstate', rfl⟩

/-- Meters that can be created at one instant can be created at any. -/
theorem createAll (h : c.IsTimeless) {quota : Quota} {now : Micros} {g : MeterGroup κ}
    (hcreate : c.createAll quota now = .ok g) (other : Micros) :
    ∃ g', c.createAll quota other = .ok g' := by
  have hall := exists_createAll_iff.1 ⟨g, hcreate⟩
  refine exists_createAll_iff.2 fun rate hrate => ?_
  obtain ⟨m, hm⟩ := hall rate hrate
  exact h.create hm other

theorem refuses (h : c.IsTimeless) {quota : Quota} {now : Micros} {fault : Fault}
    (hcreate : c.createAll quota now = .error fault) : c.Refuses quota := by
  intro other
  cases hother : c.createAll quota other with
  | error fault => exact ⟨fault, rfl⟩
  | ok g =>
    obtain ⟨g', hg'⟩ := h.createAll hother now
    rw [hcreate] at hg'
    cases hg'

end IsTimeless

end Catalog

/-- All stock algorithms can be created always, or never. -/
theorem StockMeter.isTimeless_registerAll {c : Catalog StockMeter} (h : c.IsTimeless) :
    (registerAll c).IsTimeless := by
  refine ((((h.register "always" ?_).register "never" ?_).register "quota" ?_).register "slow"
    ?_).register "broken" ?_
  · exact fun _ _ _ _ _ => ⟨_, rfl⟩
  · exact fun _ _ _ _ _ => ⟨_, rfl⟩
  · exact fun _ _ _ _ _ => ⟨_, rfl⟩
  · exact fun _ _ _ _ _ => ⟨_, rfl⟩
  · intro _ _ _ hbroken
    cases hbroken

/-! ## Limiters of nodes -/

section

variable {V η κ σ : Type} [QuotaSource V] {catalog : Catalog κ} {tree : Tree V} {i : Nat}

/-- A limiter can be built for a node unless the meters of its quota cannot be created. -/
theorem limiterAt_eq (catalog : Catalog κ) (tree : Tree V) (i : Nat) :
    limiterAt catalog tree i =
      match limitAt tree i with
      | none => .ok .idle
      | some limit =>
        match catalog.createAll limit.quota 0 with
        | .error reason => .error (.provider (tree.name i) reason.message)
        | .ok _ => .ok (.limiting ⟨limit, catalog⟩) := by
  unfold limiterAt
  cases limitAt tree i with
  | none => rfl
  | some limit =>
    dsimp only
    rw [Limiter.new]
    cases catalog.createAll limit.quota 0 <;> rfl

theorem limiterAt_eq_error_iff {fault : Fault} :
    limiterAt catalog tree i = .error fault ↔
      ∃ limit reason, limitAt tree i = some limit ∧
        catalog.createAll limit.quota 0 = .error reason ∧
        fault = .provider (tree.name i) reason.message := by
  rw [limiterAt_eq]
  cases hlimit : limitAt tree i with
  | none =>
    constructor
    · intro hidle
      cases hidle
    · rintro ⟨limit, reason, hsome, -⟩
      cases hsome
  | some limit =>
    dsimp only
    cases hcreate : catalog.createAll limit.quota 0 with
    | error reason =>
      constructor
      · rintro ⟨⟩
        exact ⟨limit, reason, rfl, hcreate, rfl⟩
      · rintro ⟨_, reason', ⟨⟩, hreason, rfl⟩
        rw [hcreate] at hreason
        cases hreason
        rfl
    | ok g =>
      constructor
      · intro hlimiting
        cases hlimiting
      · rintro ⟨_, reason, ⟨⟩, hreason, -⟩
        rw [hcreate] at hreason
        cases hreason

/-- The meters of a node's quota cannot be created at any instant. -/
def Tree.Unlimitable (tree : Tree V) (catalog : Catalog κ) (i : Nat) : Prop :=
  ∃ limit, limitAt tree i = some limit ∧ catalog.Refuses limit.quota

/-- What cannot be created when the limiter is built cannot be created at all. -/
theorem Tree.unlimitable_iff (h : catalog.IsTimeless) :
    tree.Unlimitable catalog i ↔ ∃ fault, limiterAt catalog tree i = .error fault := by
  constructor
  · rintro ⟨limit, hlimit, hrefuses⟩
    obtain ⟨reason, hreason⟩ := hrefuses 0
    exact ⟨_, limiterAt_eq_error_iff.2 ⟨limit, reason, hlimit, hreason, rfl⟩⟩
  · rintro ⟨fault, hlimiter⟩
    obtain ⟨limit, reason, hlimit, hreason, -⟩ := limiterAt_eq_error_iff.1 hlimiter
    exact ⟨limit, hlimit, h.refuses hreason⟩

/-- A limiter that could be built never faults. -/
theorem reserve_of_limiterAt [CustomMeter κ] [MeterStore σ η κ] [SteadyStore σ]
    (h : catalog.IsTimeless) {l : Limiter κ} (hl : limiterAt catalog tree i = .ok (.limiting l))
    (w : World σ) (key : η) (permits : UInt64) (timeout : Duration) :
    ∃ answer world, l.reserve w key permits timeout = (.ok answer, world) := by
  obtain ⟨g, hg⟩ : ∃ g, catalog.createAll l.limit.quota 0 = .ok g ∧ l.catalog = catalog := by
    rw [limiterAt_eq] at hl
    cases hlimit : limitAt tree i with
    | none => rw [hlimit] at hl; cases hl
    | some limit =>
      rw [hlimit] at hl
      dsimp only at hl
      cases hcreate : catalog.createAll limit.quota 0 with
      | error reason => rw [hcreate] at hl; cases hl
      | ok g =>
        rw [hcreate] at hl
        cases hl
        exact ⟨g, hcreate, rfl⟩
  obtain ⟨meters, hmeters⟩ : ∃ meters, l.meters w key = .ok meters := by
    rw [Limiter.meters, Limiter.metersAt]
    cases MeterStore.get? w.store ⟨l.limit.resource, key⟩ with
    | some state => exact ⟨state, rfl⟩
    | none =>
      rw [hg.2]
      exact h.createAll hg.1 w.clock.now
  exact ⟨_, _, Limiter.reserve_of_ok hmeters permits timeout⟩

end

namespace Evaluator

/-! ## Chains of attempts -/

section

variable {V ρ η κ σ : Type} [CustomMeter κ] [MeterStore σ η κ]

/-- Attempts at nodes with a value below the root, one after the other, none of which faults. -/
inductive Attempted (e : Evaluator V ρ η κ) (request : ρ) (permits : UInt64) :
    Progress σ η → List Nat → Progress σ η → Prop where
  /-- No attempt changes nothing. -/
  | nil (p : Progress σ η) : Attempted e request permits p [] p
  /-- An attempt, and then the others. -/
  | cons {i : Nat} {is : List Nat} {p middle after : Progress σ η} {outcome : Attempt} :
    e.tree.isRoot i = false → (e.tree.value? i).isSome = true →
      e.attempt request permits i p = (.ok outcome, middle) →
        Attempted e request permits middle is after → Attempted e request permits p (i :: is) after

/-- What some attempts come to: none of them faults, or the last one does and changes nothing. -/
inductive Concluded {β : Type} (e : Evaluator V ρ η κ) (request : ρ) (permits : UInt64)
    (p : Progress σ η) : List Nat → Except Fault β × Progress σ η → Prop where
  /-- No attempt faults. -/
  | answered {is : List Nat} {q : Progress σ η} (answer : β) :
    Attempted e request permits p is q → Concluded e request permits p is (.ok answer, q)
  /-- The last attempt faults. -/
  | faulted {is : List Nat} {i : Nat} {q : Progress σ η} {fault : Fault} :
    Attempted e request permits p is q → e.tree.isRoot i = false →
      (e.tree.value? i).isSome = true → e.attempt request permits i q = (.error fault, q) →
        Concluded e request permits p (is ++ [i]) (.error fault, q)

variable {e : Evaluator V ρ η κ} {request : ρ} {permits : UInt64} {p middle : Progress σ η}
  {is more : List Nat}

theorem Attempted.append {after : Progress σ η} (h : e.Attempted request permits p is middle)
    (hmore : e.Attempted request permits middle more after) :
    e.Attempted request permits p (is ++ more) after := by
  induction h with
  | nil p => exact hmore
  | cons hroot hvalue hattempt _ ih => exact .cons hroot hvalue hattempt (ih hmore)

/-- Attempts go on where others have ended, and the answer may be changed. -/
theorem Attempted.append_concluded {β γ : Type} (f : β → γ) {result : Except Fault β}
    {q : Progress σ η} (h : e.Attempted request permits p is middle)
    (hmore : e.Concluded request permits middle more (result, q)) :
    e.Concluded request permits p (is ++ more) (result.map f, q) := by
  cases hmore with
  | answered answer hmore => exact .answered (f answer) (h.append hmore)
  | faulted hmore hroot hvalue hattempt =>
    rw [← List.append_assoc]
    exact .faulted (h.append hmore) hroot hvalue hattempt

/-- A node at which an attempt always faults is not among those at which none did. -/
theorem Attempted.not_mem {i : Nat} (h : e.Attempted request permits p is middle)
    (hfaults : ∀ q : Progress σ η, ∃ fault, e.attempt request permits i q = (.error fault, q)) :
    i ∉ is := by
  induction h with
  | nil p => exact List.not_mem_nil
  | @cons j is p middle after outcome _ _ hattempt _ ih =>
    intro hmem
    rcases List.mem_cons.1 hmem with rfl | hmem
    · obtain ⟨fault, hfault⟩ := hfaults p
      rw [hattempt] at hfault
      cases hfault
    · exact ih hmem

/-- A climb is the chain of its attempts. -/
theorem climb_concluded (e : Evaluator V ρ η κ) (request : ρ) (permits : UInt64) (way : List Nat)
    (p : Progress σ η) :
    e.Concluded request permits p (e.climbAttempts request permits way p)
      (e.climb request permits way p) := by
  induction way generalizing p with
  | nil => exact .answered _ (.nil p)
  | cons i above ih =>
    rw [climbAttempts, climb]
    by_cases hend : (e.tree.isRoot i || (e.tree.value? i).isNone) = true
    · rw [if_pos hend, if_pos hend]
      exact .answered _ (.nil p)
    · rw [if_neg hend, if_neg hend]
      obtain ⟨hroot, hvalue⟩ : e.tree.isRoot i = false ∧ (e.tree.value? i).isSome = true := by
        simpa [Option.isSome_iff_ne_none] using hend
      rcases e.attempt_cases request permits i p with
        ⟨fault, hattempt, -⟩ | ⟨hattempt, -⟩ | ⟨v, after, hattempt, -⟩
      · rw [hattempt]
        exact .faulted (.nil p) hroot hvalue hattempt
      · rw [hattempt]
        exact .answered _ (.cons hroot hvalue hattempt (.nil p))
      · have hfirst : e.Attempted request permits p [i] after :=
          .cons hroot hvalue hattempt (.nil after)
        rw [hattempt, Visit.outcome]
        cases v.isGranted with
        | false => exact .answered _ hfirst
        | true =>
          have habove := hfirst.append_concluded
            (fun tally : Tally => { tally with granted := tally.granted + 1 }) (ih after)
          rcases hclimb : e.climb request permits above after with ⟨result, final⟩
          rw [hclimb] at habove
          rw [if_pos rfl]
          dsimp only
          rw [hclimb]
          cases result <;> exact habove

/-- The climbs from some leaves are the chain of their attempts. -/
theorem climbAll_concluded (e : Evaluator V ρ η κ) (request : ρ) (permits : UInt64)
    (leaves : List Nat) (p : Progress σ η) :
    e.Concluded request permits p (e.attemptsFrom request permits leaves p)
      (e.climbAll request permits leaves p) := by
  induction leaves generalizing p with
  | nil => exact .answered _ (.nil p)
  | cons leaf leaves ih =>
    have hclimb := e.climb_concluded request permits (leaf :: e.tree.ancestors leaf) p
    rw [attemptsFrom, climbAll]
    generalize e.climbAttempts request permits (leaf :: e.tree.ancestors leaf) p = is at hclimb ⊢
    generalize e.climb request permits (leaf :: e.tree.ancestors leaf) p = reached at hclimb ⊢
    cases hclimb with
    | faulted hchain hroot hvalue hattempt =>
      rw [List.append_nil]
      exact .faulted hchain hroot hvalue hattempt
    | @answered _ q tally hchain =>
      dsimp only
      split
      · rw [List.append_nil]
        exact .answered _ hchain
      · have hrest := hchain.append_concluded (tally.rejected + ·) (ih q)
        rcases hall : e.climbAll request permits leaves q with ⟨result, final⟩
        rw [hall] at hrest
        cases result <;> exact hrest

/-- An evaluation that comes to an answer is the chain of its attempts. -/
theorem attempted_of_answer {w : World σ} {timeout : Duration} {granted : Bool}
    (h : (e.decide w request permits timeout).answer = .ok granted) :
    ∃ q, e.Attempted request permits ⟨w, timeout, []⟩ (e.attempts w request permits timeout) q := by
  have hall := e.climbAll_concluded request permits e.leaves ⟨w, timeout, []⟩
  change e.Concluded request permits _ (e.attempts w request permits timeout) _ at hall
  rw [decide_eq] at h
  generalize e.attempts w request permits timeout = is at hall ⊢
  generalize e.climbAll request permits e.leaves ⟨w, timeout, []⟩ = reached at hall h
  cases hall with
  | answered rejected hchain => exact ⟨_, hchain⟩
  | faulted => cases h

/-- An evaluation that comes to a fault is the chain of its attempts but the last, which faults and
changes nothing. -/
theorem attempted_of_fault {w : World σ} {timeout : Duration} {fault : Fault}
    (h : (e.decide w request permits timeout).answer = .error fault) :
    ∃ before i q, e.attempts w request permits timeout = before ++ [i] ∧
      e.Attempted request permits ⟨w, timeout, []⟩ before q ∧
      e.tree.isRoot i = false ∧ e.attempt request permits i q = (.error fault, q) ∧
      (e.decide w request permits timeout).world = q.world ∧
      (e.decide w request permits timeout).events = q.events := by
  have hall := e.climbAll_concluded request permits e.leaves ⟨w, timeout, []⟩
  change e.Concluded request permits _ (e.attempts w request permits timeout) _ at hall
  rw [decide_eq] at h ⊢
  generalize e.attempts w request permits timeout = is at hall ⊢
  generalize e.climbAll request permits e.leaves ⟨w, timeout, []⟩ = reached at hall h ⊢
  cases hall with
  | answered => cases h
  | @faulted before i q cause hchain hroot hvalue hattempt =>
    cases h
    exact ⟨before, i, q, rfl, hchain, hroot, hattempt, rfl, rfl⟩

end

/-! ## Attempts that fault -/

section

variable {V ρ η κ σ : Type} {e : Evaluator V ρ η κ} {request : ρ} {i : Nat} {fault : Fault}

/-- There is no saying whether a node concerns a request if its limiter or its matcher is not
provided. -/
theorem not_provided_of_concern_error (h : e.concern request i = .error fault) :
    e.limiterOf i = .error fault ∨ e.matcherOf i = .error fault := by
  unfold concern at h
  cases hlimiter : e.limiterOf i with
  | error cause => rw [hlimiter] at h; cases h; exact .inl rfl
  | ok limiter =>
    rw [hlimiter] at h
    cases limiter with
    | idle => cases h
    | limiting l =>
      cases hmatcher : e.matcherOf i with
      | error cause => rw [hmatcher] at h; cases h; exact .inr rfl
      | ok matcher => rw [hmatcher] at h; cases h

variable [CustomMeter κ] [MeterStore σ η κ]

/-- An attempt faults if it cannot be said whether its node concerns the request, or if there are
no meters to ask. -/
theorem concern_or_meters_of_attempt_error [SteadyStore σ] {permits : UInt64}
    {p after : Progress σ η} (h : e.attempt request permits i p = (.error fault, after)) :
    e.concern request i = .error fault ∨
      ∃ l key, e.concern request i = .ok (some (l, key)) ∧ l.meters p.world key = .error fault := by
  unfold attempt at h
  unfold concern
  cases hlimiter : e.limiterOf i with
  | error cause => rw [hlimiter] at h; cases h; exact .inl rfl
  | ok limiter =>
    rw [hlimiter] at h
    cases limiter with
    | idle => cases h
    | limiting l =>
      dsimp only at h ⊢
      cases hmatcher : e.matcherOf i with
      | error cause => rw [hmatcher] at h; cases h; exact .inl rfl
      | ok matcher =>
        rw [hmatcher] at h
        dsimp only at h ⊢
        cases hkey : matcher request with
        | none => rw [hkey] at h; cases h
        | some key =>
          rw [hkey] at h
          dsimp only at h
          cases hmeters : l.meters p.world key with
          | error cause =>
            rw [Limiter.reserve_of_error hmeters] at h
            cases h
            exact .inr ⟨l, key, rfl, hmeters⟩
          | ok g =>
            rw [Limiter.reserve_of_ok hmeters] at h
            cases hanswer : (g.reserve permits p.remaining p.world.clock.now).1 with
            | none => rw [hanswer] at h; cases h
            | some wait => rw [hanswer] at h; cases h

end

/-! ## Attempts by path -/

section

variable {V κ σ : Type} [QuotaSource V] [CustomMeter κ] [MeterStore σ String κ]
  {catalog : Catalog κ} {tree : Tree V} {firstMatchOnly : Bool} {i : Nat}

/-- Where there is no limiter, an attempt faults and changes nothing. -/
theorem attempt_of_no_limiter {fault : Fault} (hlimiter : limiterAt catalog tree i = .error fault)
    (request : Request) (permits : UInt64) (p : Progress σ String) :
    (byPath tree (limiterAt catalog tree) firstMatchOnly).attempt request permits i p =
      (.error fault, p) := by
  have hlimiter : (byPath tree (limiterAt catalog tree) firstMatchOnly).limiterOf i =
      .error fault := hlimiter
  rw [attempt, hlimiter]

/-- Where there is a limiter, an attempt does not fault. -/
theorem attempt_of_limiter [SteadyStore σ] (h : catalog.IsTimeless) {limiter : NodeLimiter κ}
    (hlimiter : limiterAt catalog tree i = .ok limiter) (request : Request) (permits : UInt64)
    (p : Progress σ String) :
    ∃ outcome after,
      (byPath tree (limiterAt catalog tree) firstMatchOnly).attempt request permits i p =
        (.ok outcome, after) := by
  rcases hattempt : (byPath tree (limiterAt catalog tree) firstMatchOnly).attempt request permits i
    p with ⟨result, after⟩
  cases result with
  | ok outcome => exact ⟨outcome, after, rfl⟩
  | error fault =>
    rcases concern_or_meters_of_attempt_error hattempt with hconcern | ⟨l, key, hconcern, hmeters⟩
    · rcases not_provided_of_concern_error hconcern with hfault | hfault
      · exact nomatch hlimiter.symm.trans hfault
      · exact nomatch hfault
    · -- the limiter is the one that was built for the node, and it has an answer
      obtain ⟨answer, world, hreserve⟩ := reserve_of_limiterAt h (limiterOf_of_concern hconcern)
        p.world key permits p.remaining
      rw [Limiter.reserve_of_error hmeters] at hreserve
      cases hreserve

/-- An attempt faults exactly where there is no limiter. -/
theorem attempt_eq_error_iff [SteadyStore σ] (h : catalog.IsTimeless) {request : Request}
    {permits : UInt64} {p : Progress σ String} {fault : Fault} :
    (byPath tree (limiterAt catalog tree) firstMatchOnly).attempt request permits i p =
        (.error fault, p) ↔
      limiterAt catalog tree i = .error fault := by
  refine ⟨fun hattempt => ?_, fun hlimiter => attempt_of_no_limiter hlimiter request permits p⟩
  cases hlimiter : limiterAt catalog tree i with
  | error cause =>
    rw [attempt_of_no_limiter hlimiter request permits p] at hattempt
    cases hattempt
    rfl
  | ok limiter =>
    obtain ⟨outcome, after, hok⟩ := attempt_of_limiter h hlimiter request permits p
    rw [hok] at hattempt
    cases hattempt

end

/-! ## The law -/

section

variable {V κ σ : Type} [QuotaSource V] [CustomMeter κ] [MeterStore σ String κ] [SteadyStore σ]

/-- **An evaluation faults only where a limiter cannot be provided.**  Let an evaluator match
requests by path and take its limits from the values of a well-formed tree, and let it not depend on
the instant whether registered algorithms can be created.  Then an evaluation ends in a fault if and
only if it asks for permits at some node below the root whose quota has no meters.  The fault names
that node and says why its meters could not be created.  The node is asked once, as the last one;
this neither reports anything nor changes the store or the clock, which are left as the attempts
before have left them, and none of these faults.  A limiter that was created answers all requests,
in every world, and the leaves that an evaluation starts from are nodes of its tree. -/
theorem only_providers_fault (tree : Tree V) (hwf : tree.WellFormed) (catalog : Catalog κ)
    (htimeless : catalog.IsTimeless) (firstMatchOnly : Bool) (w : World σ) (request : Request)
    (permits : UInt64) (timeout : Duration) :
    let e := byPath tree (limiterAt catalog tree) firstMatchOnly
    let outcome := e.decide w request permits timeout
    ((∃ fault, outcome.answer = .error fault) ↔
        ∃ i ∈ e.attempts w request permits timeout,
          tree.isRoot i = false ∧ tree.Unlimitable catalog i) ∧
      (∀ fault, outcome.answer = .error fault →
        ∃ before i q limit reason,
          e.attempts w request permits timeout = before ++ [i] ∧ i ∉ before ∧
          e.Attempted request permits ⟨w, timeout, []⟩ before q ∧
          tree.isRoot i = false ∧ limitAt tree i = some limit ∧
          catalog.createAll limit.quota 0 = .error reason ∧
          fault = .provider (tree.name i) reason.message ∧
          e.attempt request permits i q = (.error fault, q) ∧
          outcome.world = q.world ∧ outcome.events = q.events) ∧
      (∀ i l, limiterAt catalog tree i = .ok (.limiting l) →
        ∀ (w : World σ) (key : String) (permits : UInt64) (timeout : Duration),
          ∃ answer world, l.reserve w key permits timeout = (.ok answer, world)) ∧
      ∀ leaf ∈ tree.leaves, tree.index? (tree.idOf leaf) = some leaf := by
  intro e outcome
  refine ⟨⟨?_, ?_⟩, ?_, fun i l hl => reserve_of_limiterAt htimeless hl, fun leaf hleaf =>
    tree.index?_idOf ((Tree.mem_leaves hwf).1 hleaf).1⟩
  · rintro ⟨fault, hanswer⟩
    obtain ⟨before, i, q, hattempts, -, hroot, hattempt, -, -⟩ := attempted_of_fault hanswer
    have hmem : i ∈ e.attempts w request permits timeout := by
      rw [hattempts]
      exact List.mem_append_right before (List.mem_singleton_self i)
    have hlimiter := (attempt_eq_error_iff htimeless).1 hattempt
    exact ⟨i, hmem, hroot, (Tree.unlimitable_iff htimeless).2 ⟨fault, hlimiter⟩⟩
  · rintro ⟨i, hmem, -, hunlimitable⟩
    obtain ⟨fault, hlimiter⟩ := (Tree.unlimitable_iff htimeless).1 hunlimitable
    cases hanswer : outcome.answer with
    | error cause => exact ⟨cause, rfl⟩
    | ok granted =>
      obtain ⟨q, hchain⟩ := attempted_of_answer hanswer
      exact absurd hmem (hchain.not_mem fun q =>
        ⟨fault, attempt_of_no_limiter hlimiter request permits q⟩)
  · intro fault hanswer
    obtain ⟨before, i, q, hattempts, hchain, hroot, hattempt, hworld, hevents⟩ :=
      attempted_of_fault hanswer
    have hlimiter := (attempt_eq_error_iff htimeless).1 hattempt
    have hfirst : i ∉ before := hchain.not_mem fun q =>
      ⟨fault, attempt_of_no_limiter hlimiter request permits q⟩
    obtain ⟨limit, reason, hlimit, hreason, hfault⟩ := limiterAt_eq_error_iff.1 hlimiter
    exact ⟨before, i, q, limit, reason, hattempts, hfirst, hchain, hroot, hlimit, hreason, hfault,
      hattempt, hworld, hevents⟩

/-- A house with a hatch to its cellar.  The hatch lets two persons through a second, and what
limits the cellar is broken. -/
def cellarTree : Tree Quota :=
  ((Tree.new 0 "house" none).append 0 "cellar"
    (some (.of ⟨1, .ofSeconds 1, some (.custom "broken")⟩))).append 1 "hatch"
    (some (.of ⟨2, .ofSeconds 1, some .allOrNothing⟩))

/-- Ann takes a permit at the hatch, and then it turns out that the cellar is broken. -/
theorem only_providers_fault_cellar :
    let catalog := StockMeter.registerAll .standard
    let e := byPath cellarTree (limiterAt catalog cellarTree) false
    let request : Request := ⟨"cellar.hatch", "ann"⟩
    let w : World (MemoryStore String StockMeter) := ⟨.empty, .unmoved⟩
    let outcome := e.decide w request 1 .zero
    cellarTree.WellFormed ∧ catalog.IsTimeless ∧ e.attempts w request 1 .zero = [2, 1] ∧
      outcome.answer = .error (.provider "cellar"
        "Invalid rate: broken constructor for 1/1s at 0") ∧
      (∃ i ∈ e.attempts w request 1 .zero,
        cellarTree.isRoot i = false ∧ cellarTree.Unlimitable catalog i) ∧
      (∃ q, e.Attempted request 1 ⟨w, .zero, []⟩ [2] q ∧ outcome.events = q.events) ∧
      outcome.events.length = 1 ∧ outcome.world.store.size = 1 := by
  intro catalog e request w outcome
  have hwf : cellarTree.WellFormed := by
    refine ((Tree.wellFormed_new 0 "house" none).append ?_ ?_ _).append ?_ ?_ _ <;> decide
  have htimeless : catalog.IsTimeless := StockMeter.isTimeless_registerAll Catalog.isTimeless_standard
  have hattempts : e.attempts w request 1 .zero = [2, 1] := by decide +kernel
  have hanswer : outcome.answer = .error (.provider "cellar"
      "Invalid rate: broken constructor for 1/1s at 0") := by
    decide +kernel
  obtain ⟨hfaults, hprovider, -, -⟩ :=
    only_providers_fault cellarTree hwf catalog htimeless false w request 1 .zero
  obtain ⟨before, i, q, -, -, hall, -, hchain, -, -, -, -, -, -, hevents⟩ := hprovider _ hanswer
  obtain ⟨rfl, -⟩ : before = [2] ∧ [i] = [1] :=
    List.append_inj' (hall.symm.trans hattempts) rfl
  exact ⟨hwf, htimeless, hattempts, hanswer, hfaults.1 ⟨_, hanswer⟩, ⟨q, hchain, hevents⟩,
    by decide +kernel, by decide +kernel⟩

end

end Evaluator

end Admission
