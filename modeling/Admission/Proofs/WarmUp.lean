import Admission.Proofs.BurstBound
import Admission.Proofs.ExactPermits
import Mathlib.Tactic.FieldSimp
import Mathlib.Tactic.GCongr

/-!
# What a cold bucket costs

A bucket that warms up charges for stored permits too: each takes the steady interval, and more the
more permits are stored above a threshold.  In exact numbers the charge is the area under that ramp
between two levels.

* **area** — `Bucket.rampArea` is the area below a level, and `Bucket.cost_eq_sub` says that a
  charge is a difference of two areas, so charges add up wherever a request is split;
* **bounds** — `Bucket.interval_mul_le_cost`, `Bucket.cost_le_steepest_mul` and `Bucket.cost_mono`:
  no permit is cheaper than the steady interval or dearer than the interval at the top, and permits
  are dearer the fuller the bucket is;
* **the shape of the ramp** — `Bucket.Warming` is what a new bucket is like: the interval at its
  capacity is the cold one, and the area above the threshold is the warm-up period, unless the
  capacity had to be raised to one permit;
* **the law** — `Bucket.cost_is_area_under_ramp` says all of it of every bucket that warms up.
-/

namespace Admission

open PermitArith

namespace PermitArith

theorem isPositive_iff_pos {x : Rat} : isPositive x = true ↔ 0 < x := by
  change decide (((0 : Nat) : Rat) < x) = true ↔ 0 < x
  simp

end PermitArith

namespace Bucket

/-! ## The ramp -/

/-- How far a level lies above the threshold; zero below it. -/
def rise (threshold level : Rat) : Rat := max 0 (level - threshold)

/-- The area under the ramp up to a level. -/
def rampArea (interval threshold slope level : Rat) : Rat :=
  interval * level + slope * rise threshold level ^ 2 / 2

section

variable {threshold level level' taken : Rat}

theorem rise_of_le (h : level ≤ threshold) : rise threshold level = 0 :=
  max_eq_left (sub_nonpos.2 h)

theorem rise_of_ge (h : threshold ≤ level) : rise threshold level = level - threshold :=
  max_eq_right (sub_nonneg.2 h)

variable (threshold)

theorem rise_nonneg (level : Rat) : 0 ≤ rise threshold level := le_max_left _ _

theorem rise_mono (h : level ≤ level') : rise threshold level ≤ rise threshold level' :=
  max_le_max_left 0 (sub_le_sub_right h threshold)

/-- Between two levels the rise changes by no more than the levels do. -/
theorem rise_sub_le (level : Rat) (htaken : 0 ≤ taken) :
    rise threshold level - rise threshold (level - taken) ≤ taken := by
  unfold rise
  rcases max_cases 0 (level - threshold) with h | h <;>
  rcases max_cases 0 (level - taken - threshold) with h' | h' <;>
  linarith

/-- To take permits from a higher level takes no less off the rise. -/
theorem rise_sub_mono (htaken : 0 ≤ taken) (h : level ≤ level') :
    rise threshold level - rise threshold (level - taken) ≤
      rise threshold level' - rise threshold (level' - taken) := by
  by_cases hlow : level' - taken ≤ threshold
  · -- both end at or below the threshold
    have hlow' : level - taken ≤ threshold := by linarith
    rw [rise_of_le hlow, rise_of_le hlow', sub_zero, sub_zero]
    exact rise_mono threshold h
  · -- the higher one takes all of it off the rise
    have hwhole : rise threshold level' - rise threshold (level' - taken) = taken := by
      rw [rise_of_ge (by linarith), rise_of_ge (by linarith)]
      ring
    rw [hwhole]
    exact rise_sub_le threshold level htaken

end

/-! ## The charge -/

section

variable {b : Bucket Rat} {warmUp threshold slope stored stored' taken : Rat}
  (hramp : b.ramp = .rising warmUp threshold slope)

include hramp

/-- **A charge is an area.** -/
theorem cost_eq_sub (htaken : 0 ≤ taken) :
    b.cost stored taken =
      rampArea b.interval threshold slope stored -
        rampArea b.interval threshold slope (stored - taken) := by
  have hzero : (zero : Rat) = 0 := Nat.cast_zero
  have htwo : (PermitArith.ofNat 2 : Rat) = 2 := Nat.cast_ofNat
  simp only [cost, hramp, rampArea, least_eq_min, isPositive_iff_pos, hzero, htwo, sub_pos]
  by_cases habove : threshold < stored
  · rw [if_pos habove, rise_of_ge habove.le]
    rcases le_total taken (stored - threshold) with hle | hle
    · rw [min_eq_right hle, rise_of_ge (by linarith)]
      ring
    · rw [min_eq_left hle, rise_of_le (by linarith)]
      ring
  · rw [if_neg habove, rise_of_le (not_lt.1 habove), rise_of_le (by linarith)]
    ring

/-- Beyond the steady interval a charge is the slope times a product: what is taken off the rise,
and the middle of the rise. -/
theorem cost_eq_add_mul (htaken : 0 ≤ taken) :
    b.cost stored taken = b.interval * taken +
      slope * ((rise threshold stored - rise threshold (stored - taken)) *
        ((rise threshold stored + rise threshold (stored - taken)) / 2)) := by
  rw [cost_eq_sub hramp htaken, rampArea, rampArea]
  ring

/-- Wherever a request is split, its parts cost what it costs. -/
theorem cost_add {more : Rat} (htaken : 0 ≤ taken) (hmore : 0 ≤ more) :
    b.cost stored (taken + more) = b.cost stored taken + b.cost (stored - taken) more := by
  rw [cost_eq_sub hramp (add_nonneg htaken hmore), cost_eq_sub hramp htaken,
    cost_eq_sub hramp hmore, sub_sub]
  ring

variable (hslope : 0 ≤ slope)

include hslope

/-- No permit is cheaper than the steady interval. -/
theorem interval_mul_le_cost (htaken : 0 ≤ taken) : b.interval * taken ≤ b.cost stored taken := by
  have hfall := sub_nonneg.2 (rise_mono threshold (sub_le_self stored htaken))
  have hmiddle := add_nonneg (rise_nonneg threshold stored) (rise_nonneg threshold (stored - taken))
  rw [cost_eq_add_mul hramp htaken]
  refine le_add_of_nonneg_right (mul_nonneg hslope (mul_nonneg hfall ?_))
  linarith

/-- No permit is dearer than the interval at the level from which it is taken. -/
theorem cost_le_steepest_mul (htaken : 0 ≤ taken) :
    b.cost stored taken ≤ (b.interval + slope * rise threshold stored) * taken := by
  have hfall := rise_sub_le threshold stored htaken
  have hlower := rise_mono threshold (sub_le_self stored htaken)
  have hbase := rise_nonneg threshold (stored - taken)
  have hproduct : (rise threshold stored - rise threshold (stored - taken)) *
      ((rise threshold stored + rise threshold (stored - taken)) / 2) ≤
        taken * rise threshold stored :=
    mul_le_mul hfall (by linarith) (by linarith) htaken
  calc b.cost stored taken
      = b.interval * taken + slope * ((rise threshold stored - rise threshold (stored - taken)) *
          ((rise threshold stored + rise threshold (stored - taken)) / 2)) :=
        cost_eq_add_mul hramp htaken
    _ ≤ b.interval * taken + slope * (taken * rise threshold stored) := by
        gcongr
    _ = (b.interval + slope * rise threshold stored) * taken := by ring

/-- Permits are dearer the fuller the bucket is. -/
theorem cost_mono (htaken : 0 ≤ taken) (hstored : stored ≤ stored') :
    b.cost stored taken ≤ b.cost stored' taken := by
  have hfall := rise_sub_mono threshold htaken hstored
  have hlower := rise_mono threshold (sub_le_sub_right hstored taken)
  have hupper := rise_mono threshold hstored
  have hfirst := rise_mono threshold (sub_le_self stored htaken)
  have hbase := rise_nonneg threshold (stored - taken)
  rw [cost_eq_add_mul hramp htaken, cost_eq_add_mul hramp htaken]
  gcongr b.interval * taken + slope * ?_
  exact mul_le_mul hfall (by linarith) (by linarith) (by linarith)

end

/-! ## The shape of the ramp -/

/-- A bucket that warms up in some microseconds, and whose first permits take `cold` times as long
as the steady interval. -/
structure Warming (b : Bucket Rat) (warmUp cold threshold slope : Rat) : Prop where
  /-- Stored permits cost more above the threshold. -/
  ramp : b.ramp = .rising warmUp threshold slope
  /-- The rate is positive. -/
  interval_pos : 0 < b.interval
  /-- Below the threshold there is no surcharge. -/
  threshold_nonneg : 0 ≤ threshold
  /-- The threshold is below the capacity. -/
  threshold_lt : threshold < b.capacity
  /-- At the capacity a permit takes the cold interval. -/
  slope_mul : slope * (b.capacity - threshold) = cold * b.interval - b.interval
  /-- The capacity is chosen for the area above the threshold, but it is at least one permit. -/
  capacity_eq : b.capacity = max (threshold + 2 * warmUp / (b.interval + b.interval * cold)) 1

theorem steadyInterval_pos {perSecond : Rat} (hrate : 0 < perSecond) :
    0 < steadyInterval perSecond := by
  rw [steadyInterval, if_pos (isPositive_iff_pos.2 hrate)]
  exact div_pos (show (0 : Rat) < ((1000000 : Nat) : Rat) by norm_num) hrate

/-- A bucket of a positive rate that warms up has such a ramp. -/
theorem exists_warming {perSecond cold : Rat} (hrate : 0 < perSecond) (hcold : 1 ≤ cold)
    (period : Duration) (now : Micros) :
    ∃ threshold slope, (warmingUp perSecond period cold now).Warming period.wholeMicros cold
      threshold slope := by
  have hinterval := steadyInterval_pos hrate
  have hwarmUp : (0 : Rat) ≤ period.wholeMicros := Nat.cast_nonneg _
  let interval : Rat := steadyInterval perSecond
  let threshold : Rat := half * period.wholeMicros / interval
  let full : Rat := threshold + 2 * period.wholeMicros / (interval + interval * cold)
  have hthreshold : 0 ≤ threshold :=
    div_nonneg (mul_nonneg (by decide +kernel) hwarmUp) hinterval.le
  have hroom : threshold < max full 1 := by
    rcases hwarmUp.eq_or_lt with hzero | hpos
    · have hlow : threshold = 0 := by
        simp only [threshold, ← hzero, mul_zero, zero_div]
      rw [hlow]
      exact lt_max_of_lt_right zero_lt_one
    · refine lt_max_of_lt_left (lt_add_of_pos_right threshold ?_)
      have hcoldInterval : 0 < interval * cold := mul_pos hinterval (by linarith)
      exact div_pos (by linarith) (add_pos hinterval hcoldInterval)
  have hone : (one : Rat) = 1 := Nat.cast_one
  have hcapacity : room full interval = max full 1 := by
    rw [room, most_eq_max, hone]
    rfl
  have hbelow : below threshold (max full 1) = true := decide_eq_true hroom
  have hbucket : warmingUp perSecond period cold now =
      ⟨max full 1, max full 1, interval, now,
        .rising period.wholeMicros threshold
          ((interval * cold - interval) / (max full 1 - threshold))⟩ := by
    have hslope : (if below threshold (max full 1) = true
        then (interval * cold - interval) / (max full 1 - threshold) else (zero : Rat)) =
          (interval * cold - interval) / (max full 1 - threshold) := if_pos hbelow
    rw [← hslope, ← hcapacity]
    rfl
  refine ⟨threshold, (interval * cold - interval) / (max full 1 - threshold), ?_⟩
  rw [hbucket]
  refine ⟨rfl, hinterval, hthreshold, hroom, ?_, rfl⟩
  rw [div_mul_cancel₀ _ (sub_pos.2 hroom).ne', mul_comm cold]

section

variable {b : Bucket Rat} {warmUp cold threshold slope : Rat}
  (h : b.Warming warmUp cold threshold slope)

include h

theorem Warming.slope_nonneg (hcold : 1 ≤ cold) : 0 ≤ slope := by
  have hroom : 0 < b.capacity - threshold := sub_pos.2 h.threshold_lt
  have hsurcharge : b.interval ≤ cold * b.interval :=
    le_mul_of_one_le_left h.interval_pos.le hcold
  have hproduct : 0 ≤ slope * (b.capacity - threshold) := by
    rw [h.slope_mul]
    exact sub_nonneg.2 hsurcharge
  exact nonneg_of_mul_nonneg_left hproduct hroom

/-- No level of a bucket is above its capacity, so no permit is dearer than the cold interval. -/
theorem Warming.steepest_le (hcold : 1 ≤ cold) {stored : Rat} (hstored : stored ≤ b.capacity) :
    b.interval + slope * rise threshold stored ≤ cold * b.interval := by
  have hrise : rise threshold stored ≤ b.capacity - threshold := by
    rw [← rise_of_ge h.threshold_lt.le]
    exact rise_mono threshold hstored
  have hsurcharge := mul_le_mul_of_nonneg_left hrise (h.slope_nonneg hcold)
  rw [h.slope_mul] at hsurcharge
  linarith

/-- To drain a full bucket down to the threshold takes the middle of the two intervals for each
permit. -/
theorem Warming.cost_drain :
    b.cost b.capacity (b.capacity - threshold) =
      (b.interval + cold * b.interval) / 2 * (b.capacity - threshold) := by
  have hdrained : 0 ≤ b.capacity - threshold := sub_nonneg.2 h.threshold_lt.le
  have hlast : b.capacity - (b.capacity - threshold) ≤ threshold := by linarith
  calc b.cost b.capacity (b.capacity - threshold)
      = (2 * b.interval + slope * (b.capacity - threshold)) / 2 * (b.capacity - threshold) := by
        rw [cost_eq_add_mul h.ramp hdrained, rise_of_ge h.threshold_lt.le, rise_of_le hlast]
        ring
    _ = (b.interval + cold * b.interval) / 2 * (b.capacity - threshold) := by
        rw [h.slope_mul]
        ring

/-- The area above the threshold is the warm-up period. -/
theorem Warming.cost_drain_eq_warmUp (hcold : 1 ≤ cold)
    (hfull : 1 ≤ threshold + 2 * warmUp / (b.interval + b.interval * cold)) :
    b.cost b.capacity (b.capacity - threshold) = warmUp := by
  have hpos := h.interval_pos
  have hsum : 0 < b.interval + b.interval * cold :=
    add_pos hpos (mul_pos hpos (zero_lt_one.trans_le hcold))
  have hwidth : b.capacity - threshold = 2 * warmUp / (b.interval + b.interval * cold) := by
    rw [h.capacity_eq, max_eq_left hfull, add_sub_cancel_left]
  rw [h.cost_drain, hwidth, mul_comm cold]
  field_simp

/-- However many permits are asked for, those that are stored and those that still have to accrue
take at least a steady interval each. -/
theorem Warming.mul_interval_le (hcold : 1 ≤ cold) {stored : Rat} (hstored : 0 ≤ stored)
    (permits : UInt64) :
    permits.toNat * b.interval ≤ accrual stored b.interval permits +
      b.cost stored (least (PermitArith.ofNat permits.toNat) stored) := by
  have hasked : (0 : Rat) ≤ PermitArith.ofNat permits.toNat := Nat.cast_nonneg _
  have hspent : (0 : Rat) ≤ least (PermitArith.ofNat permits.toNat) stored := by
    rw [least_eq_min]
    exact le_min hasked hstored
  have hfresh : ((permits.toNat : Rat) - least (PermitArith.ofNat permits.toNat) stored) *
      b.interval ≤ accrual stored b.interval permits := by
    unfold accrual
    dsimp only
    split
    · exact le_rfl
    · next hnone =>
      rw [isPositive_iff_pos, not_lt] at hnone
      exact mul_nonpos_of_nonpos_of_nonneg hnone h.interval_pos.le
  have hcost : b.interval * least (PermitArith.ofNat permits.toNat) stored ≤
      b.cost stored (least (PermitArith.ofNat permits.toNat) stored) :=
    interval_mul_le_cost h.ramp (h.slope_nonneg hcold) hspent
  linarith

end

/-! ## The law -/

/-- **The surcharge of a cold bucket is the area under its ramp.**  Let a bucket of any positive
rate warm up over any period, and let a permit of the full bucket take `cold` times the steady
interval, with `cold` not below one.  In exact numbers what it costs to take permits is the same in
one request as in two, wherever the request is split.  Each permit takes at least the steady
interval and at most the cold one, and permits are dearer the more of them are stored.  If the
capacity did not have to be raised to one permit, then to drain the full bucket down to the threshold
costs the period, in whole microseconds as the clock counts.  So at no level are permits had for less
than a steady interval each, those included that still have to accrue. -/
theorem cost_is_area_under_ramp {perSecond cold : Rat} (hrate : 0 < perSecond) (hcold : 1 ≤ cold)
    (period : Duration) (now : Micros) :
    let b := warmingUp perSecond period cold now
    let stable := b.interval
    ∃ threshold slope, b.ramp = .rising period.wholeMicros threshold slope ∧
      (0 ≤ threshold ∧ threshold < b.capacity) ∧
      (∀ stored taken more, 0 ≤ taken → 0 ≤ more → taken + more ≤ stored → stored ≤ b.capacity →
        b.cost stored (taken + more) = b.cost stored taken + b.cost (stored - taken) more) ∧
      (∀ stored stored' taken, 0 ≤ taken → taken ≤ stored → stored ≤ stored' →
        stored' ≤ b.capacity →
        stable * taken ≤ b.cost stored taken ∧ b.cost stored taken ≤ cold * stable * taken ∧
          b.cost stored taken ≤ b.cost stored' taken) ∧
      (1 ≤ threshold + 2 * period.wholeMicros / (stable + stable * cold) →
        b.cost b.capacity (b.capacity - threshold) = period.wholeMicros) ∧
      ∀ (permits : UInt64) stored, 0 ≤ stored → stored ≤ b.capacity →
        permits.toNat * stable ≤ accrual stored stable permits +
          b.cost stored (least (PermitArith.ofNat permits.toNat) stored) := by
  intro b stable
  obtain ⟨threshold, slope, h⟩ := exists_warming hrate hcold period now
  have hslope := h.slope_nonneg hcold
  refine ⟨threshold, slope, h.ramp, ⟨h.threshold_nonneg, h.threshold_lt⟩, ?_, ?_,
    h.cost_drain_eq_warmUp hcold, ?_⟩
  · intro stored taken more htaken hmore _ _
    exact cost_add h.ramp htaken hmore
  · intro stored stored' taken htaken _ hle hroom
    refine ⟨interval_mul_le_cost h.ramp hslope htaken, ?_, cost_mono h.ramp hslope htaken hle⟩
    calc b.cost stored taken
        ≤ (stable + slope * rise threshold stored) * taken :=
          cost_le_steepest_mul h.ramp hslope htaken
      _ ≤ cold * stable * taken :=
          mul_le_mul_of_nonneg_right (h.steepest_le hcold (hle.trans hroom)) htaken
  · intro permits stored hstored _
    exact h.mul_interval_le hcold hstored permits

/-- Ten permits a second that warm up over two seconds from a third of the rate: the upper ten of
twenty permits cost the two seconds, and a request may be split across the threshold. -/
theorem cost_is_area_under_ramp_twoSeconds :
    let b : Bucket Rat := warmingUp 10 (.ofSeconds 2) 3 0
    ((0 : Rat) < 10 ∧ (1 : Rat) ≤ 3) ∧ b.ramp = .rising 2000000 10 20000 ∧ b.capacity = 20 ∧
      b.cost 20 10 = 2000000 ∧ b.cost 20 (5 + 7) = b.cost 20 5 + b.cost 15 7 ∧
      20 * b.interval ≤ accrual 20 b.interval 20 + b.cost 20 (least 20 20) := by
  intro b
  have hrate : (0 : Rat) < 10 := by norm_num
  have hcold : (1 : Rat) ≤ 3 := by norm_num
  have hcapacity : b.capacity = 20 := by decide +kernel
  have hshape : b.ramp = .rising 2000000 10 20000 := by decide +kernel
  obtain ⟨threshold, slope, hramp, -, hadd, -, hdrain, hstable⟩ :=
    cost_is_area_under_ramp hrate hcold (.ofSeconds 2) 0
  obtain ⟨-, rfl, rfl⟩ : (2000000 : Rat) = _ ∧ 10 = threshold ∧ 20000 = slope :=
    Ramp.rising.inj (hshape.symm.trans hramp)
  have hcost := hdrain (by decide +kernel)
  rw [show (warmingUp 10 (Duration.ofSeconds 2) 3 0 : Bucket Rat).capacity = 20 from hcapacity]
    at hcost hadd hstable
  refine ⟨⟨hrate, hcold⟩, hshape, hcapacity, ?_, ?_, ?_⟩
  · calc b.cost 20 10 = b.cost 20 (20 - 10) := by norm_num
      _ = 2000000 := hcost
  · have hsplit := hadd 20 5 7 (by norm_num) (by norm_num) (by norm_num) le_rfl
    calc b.cost 20 (5 + 7) = b.cost 20 5 + b.cost (20 - 5) 7 := hsplit
      _ = b.cost 20 5 + b.cost 15 7 := by norm_num
  · exact hstable 20 20 (by norm_num) le_rfl

end Bucket

end Admission
