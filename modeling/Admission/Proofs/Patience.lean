import Admission.Proofs.Visits
import Mathlib.Algebra.GroupWithZero.Nat
import Mathlib.Data.Nat.Basic

/-!
# How long a request may sleep

A request comes with one timeout, however many nodes it is tried at.

* **meters** — no meter grants a wait above the timeout that it is given: a window lets nobody wait,
  a bucket compares before it grants, and custom meters have to be `Patient`.
  `MeterGroup.reserve_le` carries this through the longest of the waits of a group;
* **a visit** — `Evaluator.Visits.slept_le` says that a visit sleeps at most what remains of the
  timeout, to the nanosecond;
* **an evaluation** — `Evaluator.Visited.slept_le` and `Evaluator.Visited.clock` add that up, and
  `Evaluator.slept_within_timeout` states it for every evaluation, whether it ends with an answer or
  with a fault.
-/

namespace Admission

/-! ## Meters -/

/-- The custom meters grant no wait above the timeout that they are given. -/
def Patient (κ : Type) [CustomMeter κ] : Prop :=
  ∀ (c : κ) (permits : UInt64) (timeout now wait : Micros),
    (CustomMeter.reserve c permits timeout now).1 = some wait → wait ≤ timeout

/-- The stock algorithms are patient. -/
theorem patient_stockMeter : Patient StockMeter := by
  intro c permits timeout now wait h
  change (StockMeter.reserve c permits timeout now).1 = some wait at h
  cases c with
  | always => cases h; exact UInt64.zero_le
  | never => cases h
  | quota size left =>
    rw [StockMeter.reserve] at h
    split at h <;> cases h
    exact UInt64.zero_le
  | slow waitEach =>
    rw [StockMeter.reserve] at h
    dsimp only at h
    split at h
    · next hle => cases h; exact hle
    · cases h

/-- A window lets nobody wait. -/
theorem Window.reserve_eq_zero {w : Window} {permits : UInt64} {now wait : Micros}
    (h : (w.reserve permits now).1 = some wait) : wait = 0 := by
  by_cases hroom : permits ≤ w.left now
  · rw [reserve_of_le w hroom] at h
    cases h
    rfl
  · rw [reserve_of_lt w (UInt64.not_le.1 hroom)] at h
    cases h

/-- A bucket grants no wait above the timeout. -/
theorem Bucket.reserve_le {α : Type} [PermitArith α] {b : Bucket α} {permits : UInt64}
    {timeout now wait : Micros} (h : (b.reserve permits timeout now).1 = some wait) :
    wait ≤ timeout := by
  unfold reserve at h
  dsimp only at h
  generalize (if PermitArith.isPositive (_ : α) then _ else PermitArith.zero : α) = freshTime at h
  by_cases hfinite : (!PermitArith.isFinite freshTime) = true
  · rw [if_pos hfinite] at h
    cases h
  · rw [if_neg hfinite] at h
    by_cases hwait : timeout <
        Micros.later (b.settle now).nextFree (PermitArith.wholePart freshTime) - now
    · rw [if_pos hwait] at h
      cases h
    · rw [if_neg hwait] at h
      cases h
      exact UInt64.not_lt.1 hwait

section

variable {κ : Type} [CustomMeter κ]

theorem Meter.reserve_le (hκ : Patient κ) {m : Meter κ} {permits : UInt64} {timeout : Duration}
    {now wait : Micros} (h : (m.reserve permits timeout now).1 = some wait) :
    wait ≤ timeout.micros := by
  by_cases hpermits : permits = 0
  · subst hpermits
    rw [reserve_zero] at h
    cases h
    exact UInt64.zero_le
  · rw [reserve_of_ne m hpermits] at h
    cases m with
    | window w => rw [Window.reserve_eq_zero h]; exact UInt64.zero_le
    | bucket b => exact Bucket.reserve_le h
    | custom c => exact hκ c permits timeout.micros now wait h

/-- The longest of some waits is below what all of them are below. -/
theorem MeterGroup.longestWait_le {waits : List Micros} {bound : Micros}
    (h : ∀ wait ∈ waits, wait ≤ bound) : longestWait waits ≤ bound := by
  have hfold : ∀ (waits : List Micros) (start : Micros), start ≤ bound →
      (∀ wait ∈ waits, wait ≤ bound) → waits.foldl max start ≤ bound := by
    intro waits
    induction waits with
    | nil => intro start hstart _; exact hstart
    | cons wait waits ih =>
      intro start hstart hall
      refine ih (max start wait) ?_ fun other hother => hall other (List.mem_cons_of_mem _ hother)
      change (if start ≤ wait then wait else start) ≤ bound
      split
      · exact hall wait List.mem_cons_self
      · exact hstart
  exact hfold waits 0 UInt64.zero_le h

/-- A group grants no wait above the timeout. -/
theorem MeterGroup.reserve_le (hκ : Patient κ) {g : MeterGroup κ} {permits : UInt64}
    {timeout : Duration} {now wait : Micros} (h : (g.reserve permits timeout now).1 = some wait) :
    wait ≤ timeout.micros := by
  have hcombine : combine g.operator
      ((g.members.map fun m => m.reserve permits timeout now).map Prod.fst) = some wait := h
  unfold combine at hcombine
  split at hcombine
  · cases hcombine
  · cases hcombine
    refine longestWait_le fun wait hwait => ?_
    obtain ⟨answer, hanswer, hsome⟩ := List.mem_filterMap.1 hwait
    obtain ⟨outcome, houtcome, rfl⟩ := List.mem_map.1 hanswer
    obtain ⟨m, -, rfl⟩ := List.mem_map.1 houtcome
    exact Meter.reserve_le hκ hsome

end

namespace Evaluator

variable {V ρ η κ σ : Type} [CustomMeter κ] [MeterStore σ η κ] [SteadyStore σ]
  {e : Evaluator V ρ η κ} {request : ρ} {permits : UInt64} {p after : Progress σ η}
  {v : Visit η} {vs : List (Visit η)}

/-! ## A visit -/

/-- A visit sleeps at most what remains of the timeout, and leaves the rest of it. -/
theorem Visits.slept_le (hκ : Patient κ) (h : e.Visits request permits p v after) :
    (Duration.ofMicros v.slept).nanos + after.remaining.nanos = p.remaining.nanos := by
  obtain ⟨l, g, -, -, hanswer, -⟩ := h.asked
  have hle : v.slept ≤ p.remaining.micros := by
    unfold Visit.slept
    cases hwait : v.answer with
    | none => exact UInt64.zero_le
    | some wait =>
      rw [hwait] at hanswer
      exact MeterGroup.reserve_le hκ hanswer.symm
  have hmicros := UInt64.le_iff_toNat_le.1 hle
  rw [Duration.toNat_micros] at hmicros
  rw [h.remaining]
  change v.slept.toNat * 1000 + (p.remaining.nanos - v.slept.toNat * 1000) = p.remaining.nanos
  omega

/-! ## An evaluation -/

/-- What the visits of a chain sleep, and what remains of the timeout, is what remained before. -/
theorem Visited.slept_le (hκ : Patient κ) (h : e.Visited request permits p vs after) :
    (vs.map fun v => (Duration.ofMicros v.slept).nanos).sum + after.remaining.nanos =
      p.remaining.nanos := by
  induction h with
  | nil p => exact Nat.zero_add _
  | cons hv _ _ ih =>
    have hfirst := hv.slept_le hκ
    rw [List.map_cons, List.sum_cons]
    omega

/-- The clock, and the time spent sleeping, move by what the visits of a chain sleep. -/
theorem Visited.clock (h : e.Visited request permits p vs after) :
    after.world.clock.now.toNat =
        min (p.world.clock.now.toNat + (vs.map fun v => v.slept.toNat).sum) (UInt64.size - 1) ∧
      after.world.clock.slept.toNat =
        min (p.world.clock.slept.toNat + (vs.map fun v => v.slept.toNat).sum)
          (UInt64.size - 1) := by
  induction h with
  | nil p =>
    have hnow := p.world.clock.now.toNat_lt_size
    have hslept := p.world.clock.slept.toNat_lt_size
    rw [List.map_nil, List.sum_nil]
    omega
  | @cons p middle after v vs hv _ _ ih =>
    obtain ⟨l, g, -, -, -, -, hclock⟩ := hv.asked
    have hnow := Clock.toNat_now_waitFor p.world.clock v.answer
    have hslept := Clock.toNat_slept_waitFor p.world.clock v.answer
    rw [← hclock] at hnow hslept
    have hgetD : (v.answer.getD 0).toNat = v.slept.toNat := rfl
    rw [List.map_cons, List.sum_cons]
    omega

/-- **One request never sleeps longer than its timeout.**  Whatever its tree, its matchers and
limiters, its store and the answer or the fault it ends with, the visits of an evaluation sleep no
more than the timeout in all.  The clock and the time spent sleeping advance by just that sum, held
at the largest reading, and an attempt that is rejected does not move the clock. -/
theorem slept_within_timeout (hκ : Patient κ) (e : Evaluator V ρ η κ) (w : World σ) (request : ρ)
    (permits : UInt64) (timeout : Duration) :
    let outcome := e.decide w request permits timeout
    let visits := e.visits w request permits timeout
    (∃ remaining, e.Visited request permits ⟨w, timeout, []⟩ visits
        ⟨outcome.world, remaining, outcome.events⟩) ∧
      (visits.map fun v => (Duration.ofMicros v.slept).nanos).sum ≤ timeout.nanos ∧
      outcome.world.clock.now.toNat =
        min (w.clock.now.toNat + (visits.map fun v => v.slept.toNat).sum) (UInt64.size - 1) ∧
      outcome.world.clock.slept.toNat =
        min (w.clock.slept.toNat + (visits.map fun v => v.slept.toNat).sum) (UInt64.size - 1) ∧
      ∀ (i : Nat) (p : Progress σ η), (e.attempt request permits i p).1 = .ok .rejected →
        (e.attempt request permits i p).2.world.clock = p.world.clock := by
  intro outcome visits
  obtain ⟨remaining, hvisited⟩ := e.visited_decide w request permits timeout
  have hslept := hvisited.slept_le hκ
  obtain ⟨hnow, htotal⟩ := hvisited.clock
  refine ⟨⟨remaining, hvisited⟩, Nat.le.intro hslept, hnow, htotal, ?_⟩
  intro i p hrejected
  rcases e.attempt_cases request permits i p with
    ⟨fault, hattempt, -⟩ | ⟨hattempt, -, -⟩ | ⟨v, after, hattempt, -, -, hv⟩
  · rw [hattempt]
  · rw [hattempt]
  · obtain ⟨l, g, -, -, -, -, hclock⟩ := hv.asked
    rw [hattempt] at hrejected ⊢
    unfold Visit.outcome at hrejected
    split at hrejected
    · cases hrejected
    · next hnot =>
      have hnone : v.answer = none := Option.not_isSome_iff_eq_none.1 hnot
      rw [hnone] at hclock
      exact hclock

/-- Two persons in the house sleep twice, and the rejection at the end sleeps nothing. -/
theorem slept_within_timeout_house :
    Patient StockMeter ∧
      ((house.visits houseWorld 7 2 (.ofMillis 1)).map fun v =>
        (Duration.ofMicros v.slept).nanos).sum = 1000000 ∧
      ((house.visits houseWorld 7 2 (.ofMillis 1)).map fun v =>
        (Duration.ofMicros v.slept).nanos).sum ≤ (Duration.ofMillis 1).nanos ∧
      (house.decide houseWorld 7 2 (.ofMillis 1)).world.clock.now = 1000 :=
  ⟨patient_stockMeter, by decide +kernel,
    (slept_within_timeout patient_stockMeter house houseWorld 7 2 (.ofMillis 1)).2.1,
    by decide +kernel⟩

end Evaluator

end Admission
