import Admission.Proofs.Alike
import Admission.Proofs.Patience
import Admission.Proofs.Run

/-!
# Callers do not disturb each other

When requests are matched by path, each is counted under its caller's own key.  So what one caller
asks for is decided as if nobody else had ever come, as long as the others do not make the clock go
by waiting.

* **whose accounts** — `Evaluator.Within` and `Evaluator.Outside` say that a request is counted
  only in certain accounts, or in none of them;
* **two worlds** — `Evaluator.decide_alike`: in worlds that look alike for the accounts of a request
  it is decided alike; `Evaluator.decide_outside`: a request without a timeout that is counted
  elsewhere leaves such worlds alike;
* **two runs** — `Evaluator.run_alike` follows the run in which all callers come, and the one in
  which all but one stay away, and `Evaluator.callers_stand_alone` is what one caller sees of it.
-/

namespace Admission

namespace Evaluator

variable {V ρ η κ σ τ : Type}

/-! ## Whose accounts -/

/-- The request is counted only in these accounts. -/
def Within (e : Evaluator V ρ η κ) (among : Account η → Prop) (request : ρ) : Prop :=
  ∀ i l key, e.concern request i = .ok (some (l, key)) → among ⟨l.limit.resource, key⟩

/-- The request is counted in none of these accounts. -/
def Outside (e : Evaluator V ρ η κ) (among : Account η → Prop) (request : ρ) : Prop :=
  e.Within (fun account => ¬ among account) request

/-- An evaluator that matches requests by path, and takes its limiters from elsewhere. -/
def byPath (tree : Tree V) (limiterOf : Nat → Except Fault (NodeLimiter κ))
    (firstMatchOnly : Bool) : Evaluator V Request String κ :=
  { new tree (fun i => .ok (matcherAt tree i)) limiterOf with firstMatchOnly }

/-- By path, a request is counted under its caller's key. -/
theorem within_byPath (tree : Tree V) (limiterOf : Nat → Except Fault (NodeLimiter κ))
    (firstMatchOnly : Bool) (request : Request) :
    (byPath tree limiterOf firstMatchOnly).Within (fun account => account.key = request.key)
      request := by
  intro i l key h
  unfold concern at h
  split at h
  · cases h
  · cases h
  · change Except.ok ((matcherAt tree i request).map _) = _ at h
    rw [matcherAt, Matcher.underPath] at h
    split at h
    · cases h
      rfl
    · cases h

/-! ## Two worlds -/

section

variable [CustomMeter κ] [MeterStore σ η κ] [MeterStore τ η κ] [DecidableEq η] [LawfulStore σ]
  {among : Account η → Prop} {e : Evaluator V ρ η κ} {request : ρ}

/-- A request without a timeout that is counted elsewhere makes no difference: it neither waits, nor
changes what is held for the accounts. -/
theorem decide_outside (hκ : Patient κ) (houtside : e.Outside among request) (permits : UInt64)
    {w : World σ} {v : World τ} (h : Alike (κ := κ) among w v) :
    Alike (κ := κ) among (e.decide w request permits .zero).world v := by
  obtain ⟨remaining, hvisited⟩ := e.visited_decide w request permits .zero
  -- no visit leaves any time, so no visit moves the clock
  refine (hvisited.induct
    (fun p _ => p.remaining.nanos = 0 ∧ Alike (κ := κ) among p.world v) ?_ [] ⟨rfl, h⟩).2
  rintro p visit after - hv - ⟨hremaining, halike⟩
  have hslept := hv.slept_le hκ
  obtain ⟨l, g, hconcern, -, -, hstore, hclock⟩ := hv.asked
  have hzero : (visit.answer.getD 0).toNat = 0 := by
    change visit.slept.toNat * 1000 + _ = _ at hslept
    change visit.slept.toNat = 0
    omega
  refine ⟨by omega, ?_⟩
  have hafter : after.world =
      ⟨MeterStore.put p.world.store ⟨l.limit.resource, visit.key⟩
        (g.reserve permits p.remaining p.world.clock.now).2, p.world.clock⟩ := by
    rw [p.world.clock.waitFor_eq_self hzero] at hclock
    rw [← hstore, ← hclock]
  rw [hafter]
  exact halike.put_elsewhere (houtside visit.node l visit.key hconcern) _

/-- Two evaluations that have come equally far, in worlds that look alike. -/
structure AlikeProgress (among : Account η → Prop) (p : Progress σ η) (q : Progress τ η) :
    Prop where
  /-- The worlds look alike. -/
  world : Alike (κ := κ) among p.world q.world
  /-- As much time remains. -/
  remaining : p.remaining = q.remaining
  /-- The same has been reported. -/
  events : p.events = q.events

/-- Two evaluations that come to the same result, in worlds that look alike. -/
inductive AlikeResult {β : Type} (among : Account η → Prop) :
    β × Progress σ η → β × Progress τ η → Prop where
  /-- The result is the same, and they have come equally far. -/
  | intro (result : β) {p : Progress σ η} {q : Progress τ η} :
    AlikeProgress (κ := κ) among p q → AlikeResult among (result, p) (result, q)

variable [LawfulStore τ]

theorem attempt_alike (hwithin : e.Within among request) (permits : UInt64) (i : Nat)
    {p : Progress σ η} {q : Progress τ η} (h : AlikeProgress (κ := κ) among p q) :
    AlikeResult (κ := κ) among (e.attempt request permits i p) (e.attempt request permits i q) := by
  rw [attempt, attempt]
  cases hlimiter : e.limiterOf i with
  | error fault => exact .intro _ h
  | ok limiter =>
    cases limiter with
    | idle => exact .intro _ h
    | limiting l =>
      cases hmatcher : e.matcherOf i with
      | error fault => exact .intro _ h
      | ok matcher =>
        dsimp only
        cases hkey : matcher request with
        | none => exact .intro _ h
        | some key =>
          have hconcern : e.concern request i = .ok (some (l, key)) := by
            simp [concern, hlimiter, hmatcher, hkey]
          obtain ⟨hanswer, hworld⟩ :=
            h.world.reserve l key (hwithin i l key hconcern) permits p.remaining
          rw [h.remaining] at hanswer hworld ⊢
          dsimp only
          rcases hp : l.reserve p.world key permits q.remaining with ⟨answer, world⟩
          rcases hq : l.reserve q.world key permits q.remaining with ⟨answer', world'⟩
          rw [hp, hq] at hanswer hworld
          cases (hanswer : answer = answer')
          cases answer with
          | error fault => exact .intro _ ⟨hworld, rfl, h.events⟩
          | ok wait =>
            cases wait with
            | none => exact .intro _ ⟨hworld, rfl, congrArg (· ++ _) h.events⟩
            | some wait => exact .intro _ ⟨hworld, rfl, congrArg (· ++ _) h.events⟩

theorem climb_alike (hwithin : e.Within among request) (permits : UInt64) (way : List Nat)
    {p : Progress σ η} {q : Progress τ η} (h : AlikeProgress (κ := κ) among p q) :
    AlikeResult (κ := κ) among (e.climb request permits way p) (e.climb request permits way q) := by
  induction way generalizing p q with
  | nil => exact .intro _ h
  | cons i above ih =>
    rw [climb, climb]
    by_cases hend : (e.tree.isRoot i || (e.tree.value? i).isNone) = true
    · rw [if_pos hend, if_pos hend]
      exact .intro _ h
    · rw [if_neg hend, if_neg hend]
      have hattempt := attempt_alike hwithin permits i h
      generalize e.attempt request permits i p = x at hattempt ⊢
      generalize e.attempt request permits i q = y at hattempt ⊢
      obtain @⟨outcome, p, q, hnext⟩ := hattempt
      cases outcome with
      | error fault => exact .intro _ hnext
      | ok outcome =>
        cases outcome with
        | rejected => exact .intro _ hnext
        | noMatch => exact .intro _ hnext
        | granted =>
          have habove := ih hnext
          dsimp only
          generalize e.climb request permits above p = x at habove ⊢
          generalize e.climb request permits above q = y at habove ⊢
          obtain ⟨tally, hlast⟩ := habove
          cases tally <;> exact .intro _ hlast

theorem climbAll_alike (hwithin : e.Within among request) (permits : UInt64) (leaves : List Nat)
    {p : Progress σ η} {q : Progress τ η} (h : AlikeProgress (κ := κ) among p q) :
    AlikeResult (κ := κ) among (e.climbAll request permits leaves p)
      (e.climbAll request permits leaves q) := by
  induction leaves generalizing p q with
  | nil => exact .intro _ h
  | cons leaf leaves ih =>
    rw [climbAll, climbAll]
    have hclimb := climb_alike hwithin permits (leaf :: e.tree.ancestors leaf) h
    generalize e.climb request permits (leaf :: e.tree.ancestors leaf) p = x at hclimb ⊢
    generalize e.climb request permits (leaf :: e.tree.ancestors leaf) q = y at hclimb ⊢
    obtain @⟨tally, p, q, hnext⟩ := hclimb
    cases tally with
    | error fault => exact .intro _ hnext
    | ok tally =>
      dsimp only
      split
      · exact .intro _ hnext
      · have hrest := ih hnext
        generalize e.climbAll request permits leaves p = x at hrest ⊢
        generalize e.climbAll request permits leaves q = y at hrest ⊢
        obtain ⟨rejected, hlast⟩ := hrest
        cases rejected <;> exact .intro _ hlast

/-- In worlds that look alike for the accounts of a request, it is decided and reported alike. -/
theorem decide_alike (hwithin : e.Within among request) (permits : UInt64) (timeout : Duration)
    {w : World σ} {v : World τ} (h : Alike (κ := κ) among w v) :
    (e.decide w request permits timeout).answer = (e.decide v request permits timeout).answer ∧
      (e.decide w request permits timeout).events = (e.decide v request permits timeout).events ∧
      Alike (κ := κ) among (e.decide w request permits timeout).world
        (e.decide v request permits timeout).world := by
  have hstart : AlikeProgress (κ := κ) among (⟨w, timeout, []⟩ : Progress σ η)
      (⟨v, timeout, []⟩ : Progress τ η) := ⟨h, rfl, rfl⟩
  have hall := climbAll_alike hwithin permits e.leaves hstart
  rw [decide, decide]
  generalize e.climbAll request permits e.leaves ⟨w, timeout, []⟩ = x at hall ⊢
  generalize e.climbAll request permits e.leaves ⟨v, timeout, []⟩ = y at hall ⊢
  obtain ⟨rejected, hlast⟩ := hall
  cases rejected <;> exact ⟨rfl, hlast.events, hlast.world⟩

end

end Evaluator

/-! ## Two runs -/

namespace Happening

/-- Whether all others could stay away and this would still happen. -/
def isOf (key : String) : Happening Request → Bool
  | consume request _ _ => request.key = key
  | advance _ => true

/-- Nobody else is willing to wait. -/
def NobodyElseWaits (key : String) (happenings : List (Happening Request)) : Prop :=
  ∀ request permits timeout, consume request permits timeout ∈ happenings → request.key ≠ key →
    timeout = .zero

/-- What still happens if all others stay away. -/
def onlyOf (key : String) (happenings : List (Happening Request)) : List (Happening Request) :=
  happenings.filter (isOf key)

section

variable {request : Request} {key : String} (permits : UInt64) (timeout : Duration)
  (happenings : List (Happening Request))

theorem onlyOf_consume_of_eq (h : request.key = key) :
    onlyOf key (consume request permits timeout :: happenings) =
      consume request permits timeout :: onlyOf key happenings :=
  List.filter_cons_of_pos (decide_eq_true h)

theorem onlyOf_consume_of_ne (h : request.key ≠ key) :
    onlyOf key (consume request permits timeout :: happenings) = onlyOf key happenings :=
  List.filter_cons_of_neg (by simpa [isOf] using h)

end

end Happening

namespace Evaluator

variable {V κ σ τ : Type} [CustomMeter κ] [MeterStore σ String κ] [MeterStore τ String κ]

/-- What the requests of one caller come to, in order: the answers, and what is reported. -/
def answersTo (e : Evaluator V Request String κ) (key : String) :
    World σ → List (Happening Request) → List (Except Fault Bool × List (UsageEvent String))
  | _, [] => []
  | w, .advance d :: happenings => e.answersTo key (e.step w (.advance d)) happenings
  | w, .consume request permits timeout :: happenings =>
    let outcome := e.decide w request permits timeout
    let others := e.answersTo key outcome.world happenings
    if request.key = key then (outcome.answer, outcome.events) :: others else others

variable [LawfulStore σ] [LawfulStore τ]

/-- For one caller, the run in which the others stay away goes on alike. -/
theorem run_alike (hκ : Patient κ) (tree : Tree V)
    (limiterOf : Nat → Except Fault (NodeLimiter κ)) (firstMatchOnly : Bool) {key : String}
    {happenings : List (Happening Request)} (hwait : Happening.NobodyElseWaits key happenings)
    {w : World σ} {v : World τ} (h : Alike (κ := κ) (fun account => account.key = key) w v) :
    let e := byPath tree limiterOf firstMatchOnly
    e.answersTo key w happenings = e.answersTo key v (Happening.onlyOf key happenings) ∧
      Alike (κ := κ) (fun account => account.key = key) (e.after w happenings)
        (e.after v (Happening.onlyOf key happenings)) := by
  induction happenings generalizing w v with
  | nil => exact ⟨rfl, h⟩
  | cons happening happenings ih =>
    intro e
    have hrest : Happening.NobodyElseWaits key happenings := fun request permits timeout hmem =>
      hwait request permits timeout (List.mem_cons_of_mem _ hmem)
    cases happening with
    | advance d => exact ih hrest (h.advance d)
    | consume request permits timeout =>
      by_cases hkey : request.key = key
      · subst hkey
        obtain ⟨hanswer, hevents, hworld⟩ :=
          decide_alike (within_byPath tree limiterOf firstMatchOnly request) permits timeout h
        obtain ⟨hanswers, hafter⟩ := ih hrest hworld
        rw [Happening.onlyOf_consume_of_eq permits timeout happenings rfl, answersTo, answersTo,
          if_pos rfl, if_pos rfl]
        exact ⟨List.cons_eq_cons.2 ⟨Prod.ext hanswer hevents, hanswers⟩, hafter⟩
      · obtain rfl := hwait request permits timeout List.mem_cons_self hkey
        have houtside : e.Outside (fun account => account.key = key) request := by
          intro i l other hconcern hother
          have hown := within_byPath tree limiterOf firstMatchOnly request i l other hconcern
          exact hkey (hown.symm.trans hother)
        obtain ⟨hanswers, hafter⟩ := ih hrest (decide_outside hκ houtside permits h)
        rw [Happening.onlyOf_consume_of_ne permits .zero happenings hkey, answersTo, if_neg hkey]
        exact ⟨hanswers, hafter⟩

/-- **What others ask for makes no difference to a caller.**  Let an evaluator match requests by
path, over any tree and with any limiters, whether or not it stops at the first leaf that grants,
and let custom meters be patient.  In any run of requests and of time going by in which nobody else
is willing to wait, a caller gets the same answers or faults, and the same is reported, as in the
run in which only this caller comes.  The state that is held for the caller in the end is the same
too, under every resource, and so is the clock. -/
theorem callers_stand_alone (hκ : Patient κ) (tree : Tree V)
    (limiterOf : Nat → Except Fault (NodeLimiter κ)) (firstMatchOnly : Bool) (w : World σ)
    (key : String) (happenings : List (Happening Request))
    (hwait : Happening.NobodyElseWaits key happenings) :
    let e := byPath tree limiterOf firstMatchOnly
    let alone := Happening.onlyOf key happenings
    e.answersTo key w happenings = e.answersTo key w alone ∧
      (∀ resource, MeterStore.get? (κ := κ) (e.after w happenings).store ⟨resource, key⟩ =
        MeterStore.get? (e.after w alone).store ⟨resource, key⟩) ∧
      (e.after w happenings).clock = (e.after w alone).clock := by
  intro e alone
  obtain ⟨hanswers, hafter⟩ :=
    run_alike hκ tree limiterOf firstMatchOnly hwait (Alike.refl w)
  exact ⟨hanswers, fun resource => hafter.found ⟨resource, key⟩ rfl, hafter.clock⟩

/-- The floor and the doors let everybody pass twice a second. -/
def gates (i : Nat) : Except Fault (NodeLimiter StockMeter) :=
  .ok (.limiting ⟨⟨houseTree.name i, .of ⟨2, .ofSeconds 1, some .allOrNothing⟩⟩,
    StockMeter.registerAll .standard⟩)

/-- Two persons come to the house, each of them three times. -/
def visitors : List (Happening Request) :=
  [.consume ⟨"floor.left", "ann"⟩ 1 .zero, .consume ⟨"floor.left", "bob"⟩ 2 .zero,
    .advance (.ofMillis 400), .consume ⟨"floor.right", "bob"⟩ 1 .zero,
    .consume ⟨"floor.right", "ann"⟩ 1 .zero, .advance (.ofMillis 400),
    .consume ⟨"floor", "bob"⟩ 1 .zero, .consume ⟨"floor.left", "ann"⟩ 1 .zero]

/-- One of them passes by both doors and not a third time, whether the other one comes or not. -/
theorem callers_stand_alone_house :
    let e := byPath houseTree gates false
    let w : World (MemoryStore String StockMeter) := ⟨.empty, .unmoved⟩
    Patient StockMeter ∧ Happening.NobodyElseWaits "ann" visitors ∧
      (e.answersTo "ann" w visitors).map (fun answer => answer.1.toOption) =
        [some true, some true, some false] ∧
      (e.answersTo "ann" w (Happening.onlyOf "ann" visitors)).map
        (fun answer => answer.1.toOption) = [some true, some true, some false] ∧
      (e.after w visitors).clock = (e.after w (Happening.onlyOf "ann" visitors)).clock := by
  intro e w
  have hwait : Happening.NobodyElseWaits "ann" visitors := by
    intro request permits timeout hmem _
    simp only [visitors, List.mem_cons, List.not_mem_nil, or_false, reduceCtorEq,
      Happening.consume.injEq, false_or] at hmem
    rcases hmem with h | h | h | h | h | h <;> exact h.2.2
  obtain ⟨hanswers, -, hclock⟩ :=
    callers_stand_alone patient_stockMeter houseTree gates false w "ann" visitors hwait
  have hthree : (e.answersTo "ann" w visitors).map (fun answer => answer.1.toOption) =
      [some true, some true, some false] := by
    decide +kernel
  refine ⟨patient_stockMeter, hwait, hthree, ?_, hclock⟩
  rw [← hanswers]
  exact hthree

end Evaluator

end Admission
