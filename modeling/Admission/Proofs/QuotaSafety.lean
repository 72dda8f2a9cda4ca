import Admission.Proofs.Creation
import Admission.Proofs.OneChain
import Admission.Proofs.Run
import Admission.Proofs.WindowCount

/-!
# Quotas hold

A node whose quota needs an all-or-nothing rate to agree never gives more than the permits of that
rate in one stretch of its period, whatever requests come and however they reach the node.

* **groups** — `MeterGroup.Guarded` says that a group combined by "and" holds a window that counts
  at least what the group has granted; fresh groups are guarded (`MeterGroup.guarded_createAll`),
  and stay so (`MeterGroup.Guarded.reserve`);
* **accounts** — `Evaluator.Guards` carries this over to a store: the group under an account is
  guarded once the account has been visited (`Evaluator.Guards.visit_here`), and visits to other
  accounts and the clock change nothing about that (`Evaluator.Guards.visit_elsewhere`,
  `Evaluator.Guards.advance`);
* **the law** — `Evaluator.quota_safety`: in each stretch, what all granted requests asked for at
  the node under one key is at most the permits of the rate;
* **its provisos** — the stretches count from the first visit, which need not be the first attempt,
  and the store has to keep what it is given: `Evaluator.stretches_start_with_visits`.
-/

namespace Admission

open Window

/-! ## Groups -/

section

variable {κ : Type}

/-- A rate without custom algorithm, all or nothing in each period, becomes a window. -/
theorem Catalog.create_allOrNothing (c : Catalog κ) {rate : Rate}
    (h : rate.algorithm.getD c.fallback = .allOrNothing) (now : Micros) :
    c.create rate now = .ok (.window (.begin rate.permits rate.period now)) := by
  rw [create, h]
  rfl

/-- Fresh meters are combined as the quota says, and each rate has one among them. -/
theorem Catalog.createAll_cases {c : Catalog κ} {quota : Quota} {now : Micros} {g : MeterGroup κ}
    (h : c.createAll quota now = .ok g) :
    g.operator = quota.operator ∧
      ∀ rate ∈ quota.rates, ∃ m ∈ g.members, c.create rate now = .ok m := by
  obtain ⟨hoperator, hmembers⟩ := createAll_eq_ok_iff.1 h
  exact ⟨hoperator, exists_of_forall₂ hmembers⟩

namespace MeterGroup

/-- A group combined by "and" with a window among its members that counts at least what the group
has granted: the window holds `P` permits in each stretch of `length` microseconds since `t₀`, and
what the group was asked for is on file in `log`. -/
structure Guarded (P length t₀ : Nat) (log : List Record) (now : Micros) (g : MeterGroup κ) :
    Prop where
  /-- All members have to agree. -/
  operator : g.operator = .and
  /-- One of them counts. -/
  window : ∃ w records seen, .window w ∈ g.members ∧ Counted P length t₀ records seen w ∧
    seen ≤ now.toNat ∧ ∀ k, takenIn k log ≤ takenIn k records

theorem guarded_createAll {c : Catalog κ} {quota : Quota} {now : Micros} {g : MeterGroup κ}
    (h : c.createAll quota now = .ok g) (hand : quota.operator = .and) {rate : Rate}
    (hrate : rate ∈ quota.rates) (halgorithm : rate.algorithm.getD c.fallback = .allOrNothing) :
    g.Guarded rate.permits.toNat (max 1 rate.period.micros.toNat) now.toNat [] now := by
  obtain ⟨hoperator, hmembers⟩ := Catalog.createAll_cases h
  obtain ⟨m, hm, hcreate⟩ := hmembers rate hrate
  rw [c.create_allOrNothing halgorithm] at hcreate
  cases hcreate
  exact
    { operator := hoperator.trans hand
      window := ⟨_, [], now.toNat, hm, counted_begin rate.permits rate.period now, le_rfl,
        fun _ => le_rfl⟩ }

section

variable {P length t₀ : Nat} {log : List Record} {now : Micros} {g : MeterGroup κ}

/-- In no stretch has a guarded group granted more than the permits. -/
theorem Guarded.takenIn_le (h : g.Guarded P length t₀ log now) (k : Nat) : takenIn k log ≤ P := by
  obtain ⟨w, records, seen, -, hcounted, -, hlog⟩ := h.window
  exact le_trans (hlog k) (hcounted.bounded k)

theorem Guarded.later (h : g.Guarded P length t₀ log now) {next : Micros}
    (hnext : now.toNat ≤ next.toNat) : g.Guarded P length t₀ log next where
  operator := h.operator
  window := by
    obtain ⟨w, records, seen, hw, hcounted, hseen, hlog⟩ := h.window
    exact ⟨w, records, seen, hw, hcounted, le_trans hseen hnext, hlog⟩

end

variable [CustomMeter κ]

/-- A group combined by "and" grants only what all its members grant. -/
theorem isSome_of_reserve_and {g : MeterGroup κ} (hand : g.operator = .and) {permits : UInt64}
    {timeout : Duration} {now : Micros} (h : (g.reserve permits timeout now).1.isSome = true)
    {m : Meter κ} (hm : m ∈ g.members) : (m.reserve permits timeout now).1.isSome = true := by
  rw [reserve, hand, combine] at h
  dsimp only at h
  split at h
  · cases h
  · next hall =>
    have hzero : ((g.members.map fun m => m.reserve permits timeout now).map Prod.fst).countP
        Option.isNone = 0 := by
      rw [isExceeded, decide_eq_true_eq] at hall
      omega
    have hmem : (m.reserve permits timeout now).1 ∈
        (g.members.map fun m => m.reserve permits timeout now).map Prod.fst :=
      List.mem_map_of_mem (List.mem_map_of_mem hm)
    have hnot := List.countP_eq_zero.1 hzero _ hmem
    exact Option.isSome_iff_ne_none.2 fun hnone => hnot (Option.isNone_iff_eq_none.2 hnone)

/-- A guarded group stays guarded when it answers a request. -/
theorem Guarded.reserve {P length t₀ : Nat} {log : List Record} {now : Micros} {g : MeterGroup κ}
    (h : g.Guarded P length t₀ log now) (permits : UInt64) (timeout : Duration) :
    (g.reserve permits timeout now).2.Guarded P length t₀
      (log ++ [⟨permits, numberOf t₀ length now.toNat, (g.reserve permits timeout now).1⟩])
      now := by
  obtain ⟨w, records, seen, hw, hcounted, hseen, hlog⟩ := h.window
  refine ⟨(g.operator_reserve permits timeout now).trans h.operator, ?_⟩
  have hmember : ((Meter.window w).reserve permits timeout now).2 ∈
      (g.reserve permits timeout now).2.members := by
    rw [members_reserve]
    exact List.mem_map_of_mem hw
  by_cases hzero : permits = 0
  · -- no permits at all are granted without looking at the window
    subst hzero
    rw [Meter.reserve_zero] at hmember
    refine ⟨w, records, seen, hmember, hcounted, hseen, fun k => ?_⟩
    rw [takenIn_append, takenIn_singleton]
    have := hlog k
    split <;> simpa using this
  · rw [Meter.reserve_of_ne _ hzero] at hmember
    have hreserved := hcounted.reserve permits now
    rw [max_eq_right hseen] at hreserved
    refine ⟨(w.reserve permits now).2, _, now.toNat, hmember, hreserved, le_rfl, fun k => ?_⟩
    have hgranted : (g.reserve permits timeout now).1.isSome = true →
        (w.reserve permits now).1.isSome = true := by
      intro hsome
      have hwindow := isSome_of_reserve_and h.operator hsome hw
      rwa [Meter.reserve_of_ne _ hzero] at hwindow
    have hk := hlog k
    rw [takenIn_append, takenIn_append, takenIn_singleton, takenIn_singleton]
    by_cases hfiled : numberOf t₀ length now.toNat = k ∧
        (g.reserve permits timeout now).1.isSome = true
    · rw [if_pos hfiled, if_pos ⟨hfiled.1, hgranted hfiled.2⟩]
      exact Nat.add_le_add_right hk _
    · rw [if_neg hfiled]
      omega

end MeterGroup

end

/-! ## Accounts -/

/-- Whether a visit took place at a node and under a key. -/
def Visit.isAt {η : Type} [DecidableEq η] (node : Nat) (key : η) (v : Visit η) : Bool :=
  v.node = node ∧ v.key = key

/-- What a log of visits says about a node and a key. -/
def logAt {η : Type} [DecidableEq η] (node : Nat) (key : η) (log : List (UInt64 × Visit η)) :
    List (UInt64 × Visit η) :=
  log.filter fun a => a.2.isAt node key

theorem logAt_append {η : Type} [DecidableEq η] (node : Nat) (key : η)
    (xs ys : List (UInt64 × Visit η)) :
    logAt node key (xs ++ ys) = logAt node key xs ++ logAt node key ys :=
  List.filter_append ..

theorem logAt_singleton {η : Type} [DecidableEq η] (node : Nat) (key : η) (permits : UInt64)
    (v : Visit η) :
    logAt node key [(permits, v)] = if v.isAt node key then [(permits, v)] else [] :=
  List.filter_cons

/-- Visits and the permits that they asked for, filed under the stretches of `length` microseconds
since `t₀`. -/
def recordsOf {η : Type} (t₀ length : Nat) (log : List (UInt64 × Visit η)) : List Record :=
  log.map fun a => ⟨a.1, numberOf t₀ length a.2.instant.toNat, a.2.answer⟩

theorem recordsOf_append {η : Type} (t₀ length : Nat) (xs ys : List (UInt64 × Visit η)) :
    recordsOf t₀ length (xs ++ ys) = recordsOf t₀ length xs ++ recordsOf t₀ length ys :=
  List.map_append

namespace Evaluator

variable {V ρ η κ σ : Type} [MeterStore σ η κ]

/-- Nothing is found under an account that has not been visited; the group under one that has is
guarded, with the stretches counted from the first visit. -/
def Guards (P length : Nat) (account : Account η) (w : World σ) :
    List (UInt64 × Visit η) → Prop
  | [] => MeterStore.get? w.store account = none
  | first :: log => ∃ g : MeterGroup κ, MeterStore.get? w.store account = some g ∧
      g.Guarded P length first.2.instant.toNat
        (recordsOf first.2.instant.toNat length (first :: log)) w.clock.now

/-- What is found under the account stays guarded while only others are visited and time goes by. -/
theorem Guards.frame {P length : Nat} {account : Account η} {w next : World σ}
    {log : List (UInt64 × Visit η)} (h : Guards P length account w log)
    (hstore : MeterStore.get? next.store account = MeterStore.get? w.store account)
    (hclock : w.clock.now.toNat ≤ next.clock.now.toNat) : Guards P length account next log := by
  cases log with
  | nil => exact hstore.trans h
  | cons first log =>
    obtain ⟨g, hget, hguarded⟩ := h
    exact ⟨g, hstore.trans hget, hguarded.later hclock⟩

/-- Time that goes by changes no account. -/
theorem Guards.advance {P length : Nat} {account : Account η} {w : World σ}
    {log : List (UInt64 × Visit η)} (h : Guards P length account w log) (d : Duration) :
    Guards P length account { w with clock := w.clock.advance d } log := by
  refine h.frame rfl ?_
  change _ ≤ (Micros.later w.clock.now d.micros).toNat
  have hnow := w.clock.now.toNat_lt_size
  rw [Micros.toNat_later]
  omega

/-- A node whose resource no other node shares, and whose quota needs all its rates to agree, one of
them all or nothing in each period. -/
structure Sole (e : Evaluator V ρ η κ) (node : Nat) (l : Limiter κ) (rate : Rate) : Prop where
  /-- The limiter of the node. -/
  limiter : e.limiterOf node = .ok (.limiting l)
  /-- No other configured node limits the same resource. -/
  alone : ∀ other l', (e.tree.value? other).isSome = true →
    e.limiterOf other = .ok (.limiting l') → l'.limit.resource = l.limit.resource → other = node
  /-- All rates have to agree. -/
  operator : l.limit.quota.operator = .and
  /-- The rate is one of them. -/
  needed : rate ∈ l.limit.quota.rates
  /-- It is all or nothing. -/
  algorithm : rate.algorithm.getD l.catalog.fallback = .allOrNothing

section

variable [CustomMeter κ] [DecidableEq η] [LawfulStore σ] {e : Evaluator V ρ η κ} {node : Nat}
  {l : Limiter κ} {rate : Rate} {request : ρ} {permits : UInt64} {p after : Progress σ η}
  {v : Visit η} {log : List (UInt64 × Visit η)}

/-- The clock does not go back during a visit. -/
theorem Visits.now_le (hv : e.Visits request permits p v after) :
    p.world.clock.now.toNat ≤ after.world.clock.now.toNat := by
  obtain ⟨l, g, -, -, -, -, hclock⟩ := hv.asked
  have hnow := p.world.clock.now.toNat_lt_size
  rw [hclock, Clock.toNat_now_waitFor]
  omega

/-- A visit to the account is filed. -/
theorem Guards.visit_here (hsole : e.Sole node l rate)
    (hv : e.Visits request permits p v after) (hnode : v.node = node)
    (h : Guards rate.permits.toNat (max 1 rate.period.micros.toNat)
      ⟨l.limit.resource, v.key⟩ p.world log) :
    Guards rate.permits.toNat (max 1 rate.period.micros.toNat)
      ⟨l.limit.resource, v.key⟩ after.world (log ++ [(permits, v)]) := by
  obtain ⟨l', g, hconcern, hmeters, hanswer, hstore, -⟩ := hv.asked
  have hlimiter := limiterOf_of_concern hconcern
  rw [hnode, hsole.limiter] at hlimiter
  cases hlimiter
  have hget : MeterStore.get? after.world.store ⟨l.limit.resource, v.key⟩ =
      some (g.reserve permits p.remaining p.world.clock.now).2 := by
    rw [hstore, LawfulStore.get?_put, if_pos rfl]
  have hreserved : ∀ {P length t₀ : Nat} {filed : List Record},
      g.Guarded P length t₀ filed p.world.clock.now →
        (g.reserve permits p.remaining p.world.clock.now).2.Guarded P length t₀
          (filed ++ [⟨permits, numberOf t₀ length v.instant.toNat, v.answer⟩])
          after.world.clock.now := by
    intro P length t₀ filed hguarded
    rw [hv.instant, hanswer]
    exact (hguarded.reserve permits p.remaining).later hv.now_le
  cases log with
  | nil =>
    have hcreate : l.catalog.createAll l.limit.quota p.world.clock.now = .ok g := by
      change MeterStore.get? p.world.store ⟨l.limit.resource, v.key⟩ = none at h
      rwa [Limiter.meters, Limiter.metersAt, h] at hmeters
    have hfresh := hreserved
      (MeterGroup.guarded_createAll hcreate hsole.operator hsole.needed hsole.algorithm)
    rw [← hv.instant] at hfresh hget
    exact ⟨_, hget, hfresh⟩
  | cons first log =>
    obtain ⟨state, hstate, hguarded⟩ := h
    have hsame : g = state := by
      rw [Limiter.meters, Limiter.metersAt, hstate] at hmeters
      exact (Except.ok.inj hmeters).symm
    subst hsame
    refine ⟨_, hget, ?_⟩
    change MeterGroup.Guarded _ _ _ (recordsOf _ _ ((first :: log) ++ [(permits, v)])) _ _
    rw [recordsOf_append]
    exact hreserved hguarded

/-- A visit to another account changes nothing. -/
theorem Guards.visit_elsewhere (hsole : e.Sole node l rate)
    (hv : e.Visits request permits p v after) (hvalue : (e.tree.value? v.node).isSome = true)
    {key : η} (haway : v.isAt node key = false) {P length : Nat}
    (h : Guards P length ⟨l.limit.resource, key⟩ p.world log) :
    Guards P length ⟨l.limit.resource, key⟩ after.world log := by
  refine h.frame ?_ hv.now_le
  obtain ⟨l', g, hconcern, -, -, hstore, -⟩ := hv.asked
  rw [hstore, LawfulStore.get?_put, if_neg]
  intro haccount
  obtain ⟨hresource, hkey⟩ := Account.mk.inj haccount
  have hnode := hsole.alone v.node l' hvalue (limiterOf_of_concern hconcern) hresource
  rw [Visit.isAt, decide_eq_false_iff_not] at haway
  exact haway ⟨hnode, hkey⟩

/-- The account is guarded by its visits after any run. -/
theorem Guards.run (hsole : e.Sole node l rate) (key : η) {w : World σ}
    (hempty : MeterStore.get? (κ := κ) w.store ⟨l.limit.resource, key⟩ = none)
    (happenings : List (Happening ρ)) :
    Guards rate.permits.toNat (max 1 rate.period.micros.toNat) ⟨l.limit.resource, key⟩
      (e.after w happenings) (logAt node key ((e.calls w happenings).flatMap Call.log)) := by
  refine e.keeps_after
    (fun w past => Guards rate.permits.toNat (max 1 rate.period.micros.toNat)
      ⟨l.limit.resource, key⟩ w (logAt node key past))
    ?_ (fun w d past h => h.advance d) happenings w [] hempty
  intro request permits p v after past hv hvalue h
  rw [logAt_append, logAt_singleton]
  cases hat : v.isAt node key with
  | false =>
    rw [if_neg Bool.false_ne_true, List.append_nil]
    exact h.visit_elsewhere hsole hv hvalue hat
  | true =>
    obtain ⟨hnode, rfl⟩ : v.node = node ∧ v.key = key := of_decide_eq_true hat
    rw [if_pos rfl]
    exact h.visit_here hsole hv hnode

end

/-! ## The law -/

section

variable [DecidableEq η]

/-- What the granted ones of some calls asked for, if they visited a node under a key at an instant
from `start` on and before `stop`. -/
def admitted (node : Nat) (key : η) (start stop : Nat) (calls : List (Call η)) : Nat :=
  ((calls.filter fun c => c.isGranted ∧ ∃ v ∈ c.visits,
    v.isAt node key ∧ start ≤ v.instant.toNat ∧ v.instant.toNat < stop).map
      fun c => c.permits.toNat).sum

/-- Nothing is admitted that is not on file. -/
theorem admitted_le {node : Nat} {key : η} {t₀ length : Nat} (j : Nat) :
    ∀ {calls : List (Call η)},
      (∀ c ∈ calls, c.isGranted = true → ∀ v ∈ c.visits, v.isGranted = true) →
        admitted node key (t₀ + j * length) (t₀ + (j + 1) * length) calls ≤
          takenIn j (recordsOf t₀ length (logAt node key (calls.flatMap Call.log))) := by
  intro calls
  induction calls with
  | nil => exact fun _ => le_rfl
  | cons c calls ih =>
    intro hcalls
    have hrest := ih fun c' hc' => hcalls c' (List.mem_cons_of_mem _ hc')
    rw [List.flatMap_cons, logAt_append, recordsOf_append, takenIn_append, admitted,
      List.filter_cons]
    split
    · next hadmitted =>
      obtain ⟨hgranted, v, hv, hat, hstart, hstop⟩ := of_decide_eq_true hadmitted
      have hfiled : (⟨c.permits, numberOf t₀ length v.instant.toNat, v.answer⟩ : Record) ∈
          recordsOf t₀ length (logAt node key c.log) :=
        List.mem_map.2 ⟨(c.permits, v),
          List.mem_filter.2 ⟨List.mem_map.2 ⟨v, hv, rfl⟩, hat⟩, rfl⟩
      have htaken := le_takenIn hfiled (numberOf_eq hstart hstop)
        (hcalls c List.mem_cons_self hgranted v hv)
      rw [List.map_cons, List.sum_cons]
      exact Nat.add_le_add htaken hrest
    · exact le_trans hrest (Nat.le_add_left ..)

/-- The first visit of the log of some calls is the first of their visits. -/
theorem find?_visits (node : Nat) (key : η) (calls : List (Call η)) :
    (calls.flatMap Call.visits).find? (Visit.isAt node key) =
      (logAt node key (calls.flatMap Call.log)).head?.map Prod.snd := by
  have hvisits : calls.flatMap Call.visits = (calls.flatMap Call.log).map Prod.snd := by
    rw [List.map_flatMap]
    refine congrArg (calls.flatMap ·) (funext fun c => ?_)
    rw [Call.log, List.map_map]
    exact (List.map_id c.visits).symm
  rw [hvisits, List.find?_map, logAt, List.head?_filter]
  rfl

/-- **A quota holds from end to end.**  Let a node have a resource of its own and a quota whose
rates all have to agree, one of them all or nothing in each period.  Start any evaluator, over any
tree, with an empty store, and let any requests come and time go by.  For each key, and in each
stretch of a period since the first visit to the node under that key, what all granted requests
asked for that visited the node under the key in this stretch is at most the permits of the rate.

A request visits a node when it is counted and reported there.  An attempt at a node whose meters
cannot be built is no visit: the evaluation faults, and leaves the account as it was. -/
theorem quota_safety [CustomMeter κ] [LawfulStore σ] (e : Evaluator V ρ η κ) (node : Nat)
    (l : Limiter κ) (rate : Rate) (hsole : e.Sole node l rate) (w : World σ)
    (hempty : ∀ account : Account η, MeterStore.get? (κ := κ) w.store account = none)
    (happenings : List (Happening ρ)) (key : η) (first : Visit η)
    (hfirst : ((e.calls w happenings).flatMap Call.visits).find? (Visit.isAt node key) =
      some first) (j : Nat) :
    let length := max 1 rate.period.micros.toNat
    admitted node key (first.instant.toNat + j * length) (first.instant.toNat + (j + 1) * length)
      (e.calls w happenings) ≤ rate.permits.toNat := by
  intro length
  have hguards := Guards.run hsole key (hempty _) happenings
  have hadmitted : admitted node key (first.instant.toNat + j * length)
      (first.instant.toNat + (j + 1) * length) (e.calls w happenings) ≤ _ :=
    admitted_le j (e.isGranted_of_mem_calls happenings w)
  rw [find?_visits] at hfirst
  cases hlog : logAt node key ((e.calls w happenings).flatMap Call.log) with
  | nil => rw [hlog] at hfirst; cases hfirst
  | cons entry log =>
    rw [hlog] at hfirst hguards hadmitted
    cases hfirst
    obtain ⟨g, -, hguarded⟩ := hguards
    exact le_trans hadmitted (hguarded.takenIn_le j)

/-- Somebody comes alone three times, and the third time a second later. -/
def houseDay : List (Happening Nat) :=
  [.consume 7 1 (.ofMillis 1), .consume 7 1 (.ofMillis 1), .advance (.ofSeconds 1),
    .consume 7 1 (.ofMillis 1)]

/-- The first time he passes the floor twice, and so only once the second time. -/
theorem quota_safety_house :
    house.Sole 1 (houseLimiter 1) (houseRate 1) ∧
      (house.calls houseWorld houseDay).map Call.isGranted = [true, false, true] ∧
      (((house.calls houseWorld houseDay).flatMap Call.visits).find? (Visit.isAt 1 7)).map
        Visit.instant = some 250 ∧
      admitted 1 7 250 1000250 (house.calls houseWorld houseDay) = 1 ∧
      admitted 1 7 250 1000250 (house.calls houseWorld houseDay) ≤ 3 := by
  have hnames : ∀ other < houseTree.size, houseTree.name other = houseTree.name 1 → other = 1 := by
    decide
  have hsole : house.Sole 1 (houseLimiter 1) (houseRate 1) :=
    { limiter := rfl
      alone := by
        intro other l' hvalue hlimiter hresource
        cases hlimiter
        obtain ⟨value, hvalue⟩ := Option.isSome_iff_exists.1 hvalue
        obtain ⟨entry, hentry, -⟩ := Option.bind_eq_some_iff.1 hvalue
        exact hnames other (Array.getElem?_eq_some_iff.1 hentry).1 hresource
      operator := rfl
      needed := List.mem_singleton_self _
      algorithm := rfl }
  have hinstant : (((house.calls houseWorld houseDay).flatMap Call.visits).find?
      (Visit.isAt 1 7)).map Visit.instant = some 250 := by decide +kernel
  obtain ⟨first, hfirst, hreading⟩ := Option.map_eq_some_iff.1 hinstant
  have hquota := quota_safety house 1 (houseLimiter 1) (houseRate 1) hsole houseWorld
    (fun _ => rfl) houseDay 7 first hfirst 0
  rw [hreading] at hquota
  exact ⟨hsole, by decide +kernel, hinstant, by decide +kernel, hquota⟩

/-- Whether an evaluation comes to a fault at a node where the request has a certain key: its last
attempt is the one that faults. -/
def faultsAt [CustomMeter κ] (e : Evaluator V ρ η κ) (w : World σ) (request : ρ) (permits : UInt64)
    (timeout : Duration) (node : Nat) (key : η) : Bool :=
  match (e.decide w request permits timeout).answer, e.concern request node with
  | .error _, .ok (some (_, k)) =>
    k = key ∧ (e.attempts w request permits timeout).getLast? = some node
  | _, _ => false

/-- The clock at the first attempt in a run to take permits at a node under a key, whatever comes of
it. -/
def firstAttempt? [CustomMeter κ] (e : Evaluator V ρ η κ) (node : Nat) (key : η) :
    World σ → List (Happening ρ) → Option Micros
  | _, [] => none
  | w, .advance d :: happenings => e.firstAttempt? node key (e.step w (.advance d)) happenings
  | w, .consume request permits timeout :: happenings =>
    let after := e.step w (.consume request permits timeout)
    match (e.visits w request permits timeout).find? (Visit.isAt node key) with
    | some v => some v.instant
    | none =>
      if e.faultsAt w request permits timeout node key then some after.clock.now
      else e.firstAttempt? node key after happenings

/-- **Stretches start with a visit, and the store has to keep what it is given.**  At one hut the
other algorithm is not ready at the first attempt.  The window is built at the second one, and a
stretch that is counted from the first one takes in parts of two of its own.  The store of the other
hut keeps saved state, and algorithms of the application cannot be saved: there the window is built
again for everybody. -/
theorem stretches_start_with_visits :
    let rate : Rate := ⟨2, .ofSeconds 1, some .allOrNothing⟩
    let length := max 1 rate.period.micros.toNat
    let late := hutLimiter "late" latecomer
    let lateHut : Evaluator Unit Nat Nat StockMeter := hut late
    let memory : World (MemoryStore Nat StockMeter) := ⟨.empty, .unmoved⟩
    let day : List (Happening Nat) :=
      [.advance (.ofMicros 5), .consume 7 1 .zero, .advance (.ofMicros 500000),
        .consume 7 1 .zero, .advance (.ofMicros 700000), .consume 7 1 .zero,
        .advance (.ofMicros 400000), .consume 7 2 .zero]
    let unsaved := hutLimiter "always" (StockMeter.registerAll .standard)
    let unsavedHut : Evaluator Unit String String StockMeter := hut unsaved
    let saved : World (CachedStore (DocumentCache StockMeter)) := ⟨⟨⟨.empty⟩⟩, .unmoved⟩
    let moment : List (Happening String) := [.consume "k" 2 .zero, .consume "k" 1 .zero]
    (Limiter.new late.catalog late.limit = .ok late ∧ lateHut.Sole 1 late rate ∧
        (∀ account : Account Nat, MeterStore.get? (κ := StockMeter) memory.store account = none) ∧
        lateHut.firstAttempt? 1 7 memory day = some 5 ∧
        ¬ admitted 1 7 (5 + 1 * length) (5 + 2 * length) (lateHut.calls memory day) ≤
          rate.permits.toNat) ∧
      Limiter.new unsaved.catalog unsaved.limit = .ok unsaved ∧ unsavedHut.Sole 1 unsaved rate ∧
        (∀ account : Account String,
          MeterStore.get? (κ := StockMeter) saved.store account = none) ∧
        unsavedHut.firstAttempt? 1 "k" saved moment = some 0 ∧
        ¬ admitted 1 "k" (0 + 0 * length) (0 + 1 * length) (unsavedHut.calls saved moment) ≤
          rate.permits.toNat := by
  intro rate length late lateHut memory day unsaved unsavedHut saved moment
  have hsole : ∀ (ρ : Type) (l : Limiter StockMeter), l.limit.quota.operator = .and →
      rate ∈ l.limit.quota.rates → (hut l : Evaluator _ ρ _ _).Sole 1 l rate := by
    intro ρ l hand hrate
    refine ⟨rfl, fun other l' hvalue _ _ => ?_, hand, hrate, rfl⟩
    have hdoor : ∀ other < hutTree.size, (hutTree.value? other).isSome = true → other = 1 := by
      decide
    obtain ⟨value, hsome⟩ := Option.isSome_iff_exists.1 hvalue
    obtain ⟨entry, hentry, -⟩ := Option.bind_eq_some_iff.1 hsome
    exact hdoor other (Array.getElem?_eq_some_iff.1 hentry).1 hvalue
  exact ⟨⟨rfl, hsole Nat late rfl List.mem_cons_self, fun _ => rfl, by decide +kernel,
      by decide +kernel⟩,
    rfl, hsole String unsaved rfl List.mem_cons_self, fun _ => rfl, by decide +kernel,
    by decide +kernel⟩

end

end Evaluator

end Admission
