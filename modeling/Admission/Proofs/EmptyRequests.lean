import Admission.Proofs.Faults
import Admission.Proofs.Members
import Admission.Proofs.TraceLaw

/-!
# Requests for no permits

A request for no permits is let through wherever it comes to an answer.  It waits for nobody, and
all that it leaves behind are fresh meters for accounts that had none.

* **groups** — `MeterGroup.reserve_zero`: whatever its members are and however their answers
  combine, a group grants such a request at once and stays as it was;
* **one visit** — `Evaluator.Visits.of_zero`: a visit for no permits leaves the clock as it was, and
  in the store it only puts the meters back that it found or made;
* **all visits** — `Evaluator.found?` is what visits for no permits let be found under an account,
  and `Evaluator.Visited.of_zero` carries it through an evaluation;
* **faults** — `Evaluator.unprovided_of_zero`: a fault means that the limiter or the matcher of a
  node is not provided, or that its limiter cannot make meters for a new account.

`Evaluator.asking_for_nothing_takes_nothing` puts these together, and
`Evaluator.asking_for_nothing_in_vain` shows a fault that is not one of a provider, and a store that
makes two accounts one.
-/

namespace Admission

variable {V ρ η κ σ : Type}

/-! ## Groups -/

namespace MeterGroup

/-- Grants without a wait combine to one, whatever the operator. -/
theorem combine_of_zero {operator : Operator} {answers : List (Option Micros)}
    (h : ∀ a ∈ answers, a = some 0) : combine operator answers = some 0 := by
  have hsome : (combine operator answers).isSome = true := by
    rw [isSome_combine_iff]
    cases answers with
    | nil => exact .inl rfl
    | cons first answers =>
      cases operator with
      | none => exact .inr (.inl rfl)
      | and => exact .inr (.inr (.inl ⟨rfl, fun a ha => by rw [h a ha]; rfl⟩))
      | or =>
        have hfirst := h first List.mem_cons_self
        exact .inr (.inr (.inr ⟨rfl, first, List.mem_cons_self, by rw [hfirst]; rfl⟩))
  obtain ⟨wait, hwait⟩ := Option.isSome_iff_exists.1 hsome
  rcases (longest_combine hwait).attained with hmem | ⟨hzero, -⟩
  · rw [hwait, h _ hmem]
  · rw [hwait, hzero]

/-- A request for no permits is granted at once and changes nothing. -/
theorem reserve_zero [CustomMeter κ] (g : MeterGroup κ) (timeout : Duration) (now : Micros) :
    g.reserve 0 timeout now = (some 0, g) := by
  have hanswer : (g.reserve 0 timeout now).1 = some 0 := by
    refine combine_of_zero fun a ha => ?_
    obtain ⟨outcome, houtcome, rfl⟩ := List.mem_map.1 ha
    obtain ⟨m, -, rfl⟩ := List.mem_map.1 houtcome
    rw [Meter.reserve_zero]
  exact Prod.ext hanswer (g.snd_reserve_zero timeout now)

end MeterGroup

/-! ## Meters -/

section

variable [MeterStore σ η κ] {l : Limiter κ} {w : World σ} {key : η}

/-- The meters of an account are those in the store, or if there are none, fresh ones. -/
theorem Limiter.meters_eq_ok_iff {g : MeterGroup κ} :
    l.meters w key = .ok g ↔
      (MeterStore.get? w.store ⟨l.limit.resource, key⟩).or
        (l.catalog.createAll l.limit.quota w.clock.now).toOption = some g := by
  rw [Limiter.meters, Limiter.metersAt]
  cases MeterStore.get? w.store ⟨l.limit.resource, key⟩ with
  | some state => simp
  | none => cases l.catalog.createAll l.limit.quota w.clock.now <;> simp [Except.toOption]

/-- There are no meters for an account without any that cannot be made. -/
theorem Limiter.meters_eq_error_iff {fault : Fault} :
    l.meters w key = .error fault ↔
      MeterStore.get? w.store ⟨l.limit.resource, key⟩ = none ∧
        l.catalog.createAll l.limit.quota w.clock.now = .error fault := by
  rw [Limiter.meters, Limiter.metersAt]
  cases MeterStore.get? w.store ⟨l.limit.resource, key⟩ <;> simp

end

namespace Evaluator

variable {e : Evaluator V ρ η κ} {request : ρ}

/-! ## What nodes add -/

section

variable [DecidableEq η]

/-- What a node adds under an account for a request: the meters that its limiter makes, if it is the
account under which the request is counted there. -/
def made? (e : Evaluator V ρ η κ) (request : ρ) (now : Micros) (account : Account η) (i : Nat) :
    Option (MeterGroup κ) :=
  match e.concern request i with
  | .ok (some (l, key)) =>
    if ⟨l.limit.resource, key⟩ = account then (l.catalog.createAll l.limit.quota now).toOption
    else none
  | _ => none

theorem made?_of_concern {i : Nat} {l : Limiter κ} {key : η}
    (h : e.concern request i = .ok (some (l, key))) (now : Micros) (account : Account η) :
    e.made? request now account i =
      if ⟨l.limit.resource, key⟩ = account then (l.catalog.createAll l.limit.quota now).toOption
      else none := by
  rw [made?, h]

theorem made?_eq_some_iff {now : Micros} {account : Account η} {i : Nat} {g : MeterGroup κ} :
    e.made? request now account i = some g ↔
      ∃ l key, e.concern request i = .ok (some (l, key)) ∧ ⟨l.limit.resource, key⟩ = account ∧
        l.catalog.createAll l.limit.quota now = .ok g := by
  constructor
  · intro h
    unfold made? at h
    split at h
    · next l key hconcern =>
      split at h
      · next haccount =>
        refine ⟨l, key, hconcern, haccount, ?_⟩
        cases hcreate : l.catalog.createAll l.limit.quota now with
        | error fault => rw [hcreate] at h; cases h
        | ok g' => rw [hcreate] at h; cases h; rfl
      · cases h
    · cases h
  · rintro ⟨l, key, hconcern, haccount, hcreate⟩
    rw [made?_of_concern hconcern, if_pos haccount, hcreate]
    rfl

variable [MeterStore σ η κ]

/-- What is found under an account after visits for no permits: what was there before them, or else
what the first of their nodes added that could. -/
def found? (e : Evaluator V ρ η κ) (request : ρ) (w : World σ) (visits : List (Visit η))
    (account : Account η) : Option (MeterGroup κ) :=
  (MeterStore.get? w.store account).or
    (visits.findSome? fun v => e.made? request w.clock.now account v.node)

theorem found?_concat (w : World σ) (visits : List (Visit η)) (v : Visit η)
    (account : Account η) :
    e.found? request w (visits ++ [v]) account =
      (e.found? request w visits account).or (e.made? request w.clock.now account v.node) := by
  rw [found?, found?, List.findSome?_append, List.findSome?_singleton, Option.or_assoc]

end

/-! ## Visits -/

section

variable [CustomMeter κ] [MeterStore σ η κ] {p after : Progress σ η}

/-- A visit for no permits waits for nobody, and only puts the meters back that it found or made. -/
theorem Visits.of_zero [SteadyStore σ] {v : Visit η} (h : e.Visits request 0 p v after) :
    v.answer = some 0 ∧ after.world.clock = p.world.clock ∧
      ∃ (l : Limiter κ) (g : MeterGroup κ),
        e.concern request v.node = .ok (some (l, v.key)) ∧ l.meters p.world v.key = .ok g ∧
          after.world.store = MeterStore.put p.world.store ⟨l.limit.resource, v.key⟩ g := by
  obtain ⟨l, g, hconcern, hmeters, hanswer, hstore, hclock⟩ := h.asked
  rw [g.reserve_zero] at hanswer hstore
  refine ⟨hanswer, ?_, l, g, hconcern, hmeters, hstore⟩
  rw [hclock, hanswer]
  exact Clock.waitFor_eq_self _ rfl

/-- Visits for no permits wait for nobody, and let be found what was found before or is made for
the first time. -/
theorem Visited.of_zero [DecidableEq η] [LawfulStore σ] {visits : List (Visit η)}
    (h : e.Visited request 0 p visits after) :
    (∀ v ∈ visits, v.answer = some 0) ∧ after.world.clock = p.world.clock ∧
      ∀ account, MeterStore.get? after.world.store account =
        e.found? request p.world visits account := by
  refine h.induct
    (fun q past => (∀ v ∈ past, v.answer = some 0) ∧ q.world.clock = p.world.clock ∧
      ∀ account, MeterStore.get? q.world.store account = e.found? request p.world past account)
    ?_ [] ⟨fun v hv => absurd hv List.not_mem_nil, rfl, fun account => (Option.or_none).symm⟩
  rintro q v next past hv - ⟨hanswers, hclock, hfound⟩
  obtain ⟨hanswer, hkept, l, g, hconcern, hmeters, hstore⟩ := hv.of_zero
  refine ⟨?_, hkept.trans hclock, ?_⟩
  · intro u hu
    rcases List.mem_append.1 hu with hu | hu
    · exact hanswers u hu
    · rw [List.mem_singleton.1 hu]
      exact hanswer
  · intro account
    rw [hstore, LawfulStore.get?_put, found?_concat, ← hfound account, made?_of_concern hconcern]
    by_cases haccount : ⟨l.limit.resource, v.key⟩ = account
    · rw [if_pos haccount, if_pos haccount, ← haccount, ← hclock]
      exact (Limiter.meters_eq_ok_iff.1 hmeters).symm
    · rw [if_neg haccount, if_neg haccount, Option.or_none]

end

/-! ## Faults -/

section

variable [MeterStore σ η κ]

/-- What a node needs to decide on a request is not provided: its limiter, its matcher, or meters
for an account that has none. -/
def Unprovided (e : Evaluator V ρ η κ) (request : ρ) (w : World σ) (i : Nat) (fault : Fault) :
    Prop :=
  e.concern request i = .error fault ∨
    ∃ l key, e.concern request i = .ok (some (l, key)) ∧
      MeterStore.get? w.store ⟨l.limit.resource, key⟩ = none ∧
      l.catalog.createAll l.limit.quota w.clock.now = .error fault

variable [CustomMeter κ]

/-- A request for no permits faults only at a node for which something is not provided. -/
theorem unprovided_of_zero [DecidableEq η] [LawfulStore σ] {w : World σ} {timeout : Duration}
    {fault : Fault} (h : (e.decide w request 0 timeout).answer = .error fault) :
    ∃ i, e.tree.isRoot i = false ∧ e.Unprovided request w i fault := by
  obtain ⟨-, i, q, -, -, hroot, hattempt, hworld, -⟩ := attempted_of_fault h
  obtain ⟨remaining, hvisited⟩ := e.visited_decide w request 0 timeout
  obtain ⟨-, hclock, hfound⟩ := hvisited.of_zero
  rw [hworld] at hclock hfound
  refine ⟨i, hroot, ?_⟩
  rcases concern_or_meters_of_attempt_error hattempt with hconcern | ⟨l, key, hconcern, hmeters⟩
  · exact .inl hconcern
  · obtain ⟨hnone, hcreate⟩ := Limiter.meters_eq_error_iff.1 hmeters
    -- what is not found after the visits was not found before them
    rw [hfound, found?, Option.or_eq_none_iff] at hnone
    rw [hclock] at hcreate
    exact .inr ⟨l, key, hconcern, hnone.1, hcreate⟩

end

/-! ## The law -/

section

variable [CustomMeter κ] [MeterStore σ η κ] [DecidableEq η] [LawfulStore σ]

/-- **Asking for nothing takes nothing.**  Let a request for no permits come to any evaluator, over
any tree, matchers and limiters, at any time, and let its store find what was put into it last,
whatever that is.  The request is let through unless a node below the root is not provided for; no
rejection is reported either way.  The clock does not move, since no visit waits.  What was found
under an account is still found there, and what is found under a new one is what the limiter of a
visited node makes for it at this instant.  This is so whatever the meters are, registered ones
included that would reject such a request or change on it, and however they combine.

If the limiters are as `Limiter.new` makes them, and if it does not depend on the instant whether
registered algorithms can be created, then a fault is one of a limiter or of a matcher that is not
provided. -/
theorem asking_for_nothing_takes_nothing (tree : Tree V)
    (matcherOf : Nat → Except Fault (Matcher ρ η))
    (limiterOf : Nat → Except Fault (NodeLimiter κ)) (firstMatchOnly : Bool) (w : World σ)
    (request : ρ) (timeout : Duration) :
    let e := { Evaluator.new tree matcherOf limiterOf with firstMatchOnly }
    let outcome := e.decide w request 0 timeout
    let visits := e.visits w request 0 timeout
    (outcome.answer = .ok true ∨ ∃ fault i, outcome.answer = .error fault ∧
        tree.isRoot i = false ∧ e.Unprovided request w i fault) ∧
      (∀ event ∈ outcome.events, event.kind ≠ .rejected) ∧
      outcome.world.clock = w.clock ∧ (∀ v ∈ visits, v.answer = some 0) ∧
      (∀ account g, MeterStore.get? w.store account = some g →
        MeterStore.get? outcome.world.store account = some g) ∧
      (∀ account g, MeterStore.get? w.store account = none →
        MeterStore.get? outcome.world.store account = some g →
          ∃ v ∈ visits, ∃ l key, e.concern request v.node = .ok (some (l, key)) ∧
            ⟨l.limit.resource, key⟩ = account ∧
            l.catalog.createAll l.limit.quota w.clock.now = .ok g) ∧
      ((∀ i l, limiterOf i = .ok (.limiting l) →
          Limiter.new l.catalog l.limit = .ok l ∧ l.catalog.IsTimeless) →
        ∀ fault, outcome.answer = .error fault →
          ∃ i, tree.isRoot i = false ∧
            (limiterOf i = .error fault ∨ matcherOf i = .error fault)) := by
  intro e outcome visits
  obtain ⟨remaining, hvisited⟩ := e.visited_decide w request 0 timeout
  obtain ⟨hanswers, hclock, hfound⟩ := hvisited.of_zero
  have hgranted : ∀ v ∈ visits, v.isGranted = true := by
    intro v hv
    rw [Visit.isGranted, hanswers v hv]
    rfl
  refine ⟨?_, ?_, hclock, hanswers, ?_, ?_, ?_⟩
  · cases hanswer : outcome.answer with
    | error fault =>
      obtain ⟨i, hroot, hunprovided⟩ := unprovided_of_zero hanswer
      exact .inr ⟨fault, i, rfl, hroot, hunprovided⟩
    | ok granted =>
      rw [(decide_ok_iff hanswer).2 hgranted]
      exact .inl rfl
  · have hevents : outcome.events = visits.flatMap (Visit.events 0) := by
      have hall := hvisited.events_eq
      rwa [List.nil_append] at hall
    rw [hevents]
    exact (no_rejection_iff 0 visits).2 hgranted
  · intro account g hg
    rw [hfound, found?, hg, Option.some_or]
  · intro account g hnone hg
    rw [hfound, found?, hnone, Option.none_or] at hg
    obtain ⟨v, hv, hmade⟩ := List.exists_of_findSome?_eq_some hg
    exact ⟨v, hv, made?_eq_some_iff.1 hmade⟩
  · intro hlimiters fault hanswer
    obtain ⟨i, hroot, hunprovided⟩ := unprovided_of_zero hanswer
    refine ⟨i, hroot, ?_⟩
    rcases hunprovided with hconcern | ⟨l, key, hconcern, -, hcreate⟩
    · exact not_provided_of_concern_error hconcern
    · obtain ⟨hnew, htimeless⟩ := hlimiters i l (limiterOf_of_concern hconcern)
      obtain ⟨g, hg, -⟩ := bind_eq_ok_iff.1 hnew
      obtain ⟨g', hg'⟩ := htimeless.createAll hg w.clock.now
      rw [hcreate] at hg'
      cases hg'

end

/-- Doors and a floor where nobody gets in: the floor has no room, and nobody is welcome.  The right
door may be bricked up. -/
def closedLimiter (bricked : Bool) (i : Nat) : Except Fault (NodeLimiter StockMeter) :=
  if bricked && i = 3 then .error (.provider "right" "bricked up")
  else .ok (.limiting ⟨⟨houseTree.name i, ⟨if i = 1 then .and else .or,
    [⟨0, .ofSeconds 1, some .allOrNothing⟩, ⟨1, .ofSeconds 1, some (.custom "never")⟩]⟩⟩,
    StockMeter.registerAll .standard⟩)

/-- The closed house lets everybody pass who asks for nothing.  When the right door is bricked up,
he comes as far as the floor, and there are new accounts for him up to there; who came before has
his old ones. -/
theorem asking_for_nothing_takes_nothing_house :
    let closed (bricked : Bool) :=
      new houseTree (fun _ => .ok Matcher.all) (closedLimiter bricked)
    let w := (house.decide houseWorld 7 2 (.ofMillis 1)).world
    let outcome := (closed true).decide w 8 0 .zero
    ((closed false).decide w 8 1 .zero).answer = .ok false ∧
      ((closed false).decide w 8 0 .zero).answer = .ok true ∧
      outcome.answer = .error (.provider "right" "bricked up") ∧
      (∃ i, houseTree.isRoot i = false ∧
        closedLimiter true i = .error (.provider "right" "bricked up")) ∧
      outcome.world.clock = w.clock ∧ w.store.size = 3 ∧ outcome.world.store.size = 5 ∧
      (∃ g, MeterStore.get? w.store ⟨"floor", 7⟩ = some g ∧
        MeterStore.get? outcome.world.store ⟨"floor", 7⟩ = some g) ∧
      ∃ g, MeterStore.get? outcome.world.store ⟨"floor", 8⟩ = some g ∧
        ∃ l, closedLimiter true 1 = .ok (.limiting l) ∧
          l.catalog.createAll l.limit.quota 1000 = .ok g := by
  intro closed w outcome
  obtain ⟨-, -, hclock, -, hkept, hadded, hfaults⟩ := asking_for_nothing_takes_nothing houseTree
    (fun _ => .ok Matcher.all) (closedLimiter true) false w 8 .zero
  have hlimiters : ∀ i l, closedLimiter true i = .ok (.limiting l) →
      Limiter.new l.catalog l.limit = .ok l ∧ l.catalog.IsTimeless := by
    intro i l hl
    unfold closedLimiter at hl
    split at hl
    · cases hl
    · cases hl
      exact ⟨rfl, StockMeter.isTimeless_registerAll Catalog.isTimeless_standard⟩
  have hanswer : outcome.answer = .error (.provider "right" "bricked up") := by decide +kernel
  obtain ⟨i, hroot, hfault⟩ := hfaults hlimiters _ hanswer
  have hlimiter := hfault.resolve_right (fun hmatcher => nomatch hmatcher)
  have hold : (MeterStore.get? w.store ⟨"floor", 7⟩).isSome = true := by decide +kernel
  have hbefore : (MeterStore.get? w.store ⟨"floor", 8⟩).isNone = true := by decide +kernel
  have hafter : (MeterStore.get? outcome.world.store ⟨"floor", 8⟩).isSome = true := by
    decide +kernel
  have hnodes : ((closed true).visits w 8 0 .zero).map Visit.node = [2, 1] := by decide +kernel
  obtain ⟨old, hold⟩ := Option.isSome_iff_exists.1 hold
  obtain ⟨g, hg⟩ := Option.isSome_iff_exists.1 hafter
  obtain ⟨v, hv, l, key, hconcern, haccount, hcreate⟩ :=
    hadded _ g (Option.isNone_iff_eq_none.1 hbefore) hg
  have hnode : v.node ∈ [2, 1] := by
    rw [← hnodes]
    exact List.mem_map_of_mem hv
  have hfloor : closedLimiter true 1 = .ok (.limiting l) := by
    have hl := limiterOf_of_concern hconcern
    change closedLimiter true v.node = _ at hl
    rcases List.mem_cons.1 hnode with htwo | hone
    · -- the left door has an account of another name
      rw [htwo] at hl
      cases hl
      exact absurd (Account.mk.inj haccount).1 (by decide)
    · rwa [List.mem_singleton.1 hone] at hl
  exact ⟨by decide +kernel, by decide +kernel, hanswer, ⟨i, hroot, hlimiter⟩, hclock,
    by decide +kernel, by decide +kernel, ⟨old, hold, hkept _ old hold⟩, g, hg, l, hfloor, hcreate⟩

/-- A hall with two doors. -/
def hallTree : Tree Unit :=
  ((Tree.new 2 "hall" none).append 0 "left" (some ())).append 0 "right" (some ())

/-- Ten persons a second at once may pass the left door, and two the right one. -/
def hallLimiter (i : Nat) : Limiter StockMeter :=
  ⟨⟨if i = 1 then "a:b" else "a",
    .of ⟨if i = 1 then 10 else 2, .ofSeconds 1, some .allOrNothing⟩⟩, .standard⟩

/-- Everybody has one key for each door, and the two accounts have the same text. -/
def hall : Evaluator Unit String String StockMeter :=
  new hallTree (fun i => .ok fun _ => some (if i = 1 then "c" else "b:c"))
    fun i => .ok (.limiting (hallLimiter i))

/-- **Who asks for nothing may still meet a fault, or be given the meters of others.**  The limiter
of the hut could be made, but its meters cannot be built when somebody comes for the first time, and
the fault is not one of a provider.  In the hall, where accounts with one text meet, the meters that
are found under the new account of the right door are those of the left one. -/
theorem asking_for_nothing_in_vain :
    let late := hutLimiter "late" latecomer
    let lateHut : Evaluator Unit Nat Nat StockMeter := hut late
    let early : World (MemoryStore Nat StockMeter) := ⟨.empty, ⟨5, 0⟩⟩
    let answer := (lateHut.decide early 7 0 .zero).answer
    let nobody : World (CachedStore (DocumentCache StockMeter)) := ⟨⟨⟨.empty⟩⟩, .unmoved⟩
    let outcome := hall.decide nobody "k" 0 .zero
    let built (i : Nat) := (hallLimiter i).catalog.createAll (hallLimiter i).limit.quota 0
    (Limiter.new late.catalog late.limit = .ok late ∧
        answer = .error (.invalidRate (.refused "not ready")) ∧
        ∀ node reason, answer ≠ .error (.provider node reason)) ∧
      outcome.answer = .ok true ∧
        MeterStore.get? nobody.store ⟨"a", "b:c"⟩ = none ∧
        MeterStore.get? outcome.world.store ⟨"a", "b:c"⟩ = (built 1).toOption ∧
        MeterStore.get? outcome.world.store ⟨"a", "b:c"⟩ ≠ (built 2).toOption := by
  intro late lateHut early answer nobody outcome built
  have hanswer : answer = .error (.invalidRate (.refused "not ready")) := by decide +kernel
  have hfound : MeterStore.get? outcome.world.store ⟨"a", "b:c"⟩ = (built 1).toOption := by rfl
  refine ⟨⟨rfl, hanswer, fun node reason h => ?_⟩, by decide +kernel, rfl, hfound, fun h => ?_⟩
  · rw [hanswer] at h
    cases h
  · -- three persons at once pass the left door, but not the right one
    let passed (g : MeterGroup StockMeter) := (g.reserve 3 .zero 0).1
    have hpassed := congrArg (Option.map passed) (hfound.symm.trans h)
    exact absurd hpassed (by decide +kernel)

end Evaluator

end Admission
