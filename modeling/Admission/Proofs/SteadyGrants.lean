import Admission.Proofs.Queue
import Admission.Proofs.RelativeError
import Admission.Proofs.StoredPermits

/-!
# What a steady bucket gives out

What a bucket gives out by an instant is bought with time: the time it took to accrue the permits
that it held, and the time until that instant.  Two things are given away.  The time that fresh
permits take is rounded down to whole microseconds, so each grant may come up to a microsecond
early; and real numbers round whenever permits and time are turned into each other.

* **supply** — `Bucket.supply` is the time that a bucket can spend by an instant.  Bringing the
  stored permits up to date adds nothing to it but slack, `Bucket.Steady.supply_settle_le`, and a
  grant is paid out of it, but for a microsecond and slack, `Bucket.Steady.paid`;
* **a run** — `Bucket.Steady.permits_le`: all grants together;
* **a rate** — `Catalog.rate_kept`: what the bucket of a rate gives out, and that one permit more
  than promised is not exceeded as long as the grants are not too many.
-/

namespace Admission

open PermitArith Binary64

namespace Bucket

/-! ## Supply -/

/-- A bucket at a steady rate whose stored permits cost nothing. -/
structure Steady (b : Bucket Float) : Prop where
  /-- Stored permits cost nothing. -/
  ramp : b.ramp = .flat
  /-- What is stored is within bounds. -/
  inBounds : b.InBounds
  /-- Permits come at an interval, neither very short nor very long. -/
  interval : Ranges (-94) 114 b.interval
  /-- There is room for some permits only. -/
  capacity : isFinite b.capacity = true

/-- The time that a bucket can spend by an instant: what its stored permits took to accrue, and what
is left until then. -/
def supply (b : Bucket Float) (instant : Nat) : Rat :=
  value b.stored * value b.interval + (instant - b.nextFree.toNat)

section

variable {b : Bucket Float} (h : b.Steady)

include h

theorem Steady.interval_pos : 0 < value b.interval := by
  obtain ⟨v, hv, hlow, -⟩ := h.interval
  rw [hv.value_eq]
  exact (zpow_pos zero_lt_two _).trans_le hlow

theorem Steady.stored_lt_top : value b.stored < top :=
  (value_le_of_atMost h.inBounds.le h.inBounds.stored h.inBounds.capacity).trans_lt
    ((isFinite_iff h.inBounds.capacity).1 h.capacity)

theorem Steady.stored_mul_nonneg : 0 ≤ value b.stored * value b.interval :=
  mul_nonneg (value_nonneg h.inBounds.stored) h.interval_pos.le

theorem Steady.supply_nonneg {instant : Nat} (hfree : b.nextFree.toNat ≤ instant) :
    0 ≤ b.supply instant :=
  add_nonneg h.stored_mul_nonneg (sub_nonneg.2 (Nat.cast_le.2 hfree))

theorem Steady.settle (now : Micros) : (b.settle now).Steady where
  ramp := (b.ramp_settle now).trans h.ramp
  inBounds := h.inBounds.settle now
  interval := (b.interval_settle now).symm ▸ h.interval
  capacity := (b.capacity_settle now).symm ▸ h.capacity

theorem Steady.refillInterval_eq : b.refillInterval = b.interval := by
  rw [refillInterval, h.ramp]

/-- What accrues in some time took no less, but for slack. -/
theorem Steady.stored_refilled_le (elapsed : Nat) (hpos : 0 < elapsed)
    (hword : elapsed < UInt64.size) :
    value (b.refilled elapsed) * value b.interval ≤
      slack ^ 3 * (value b.stored * value b.interval + elapsed) := by
  have hslack := slack_pos
  have hinterval := h.interval_pos
  have hrefill : isNumber b.refillInterval = true := by
    rw [h.refillInterval_eq]
    exact h.inBounds.interval.isNumber
  have haccrued := h.inBounds.unsigned_accrued hpos hword hrefill
  have hquotient := (value_div_near (ranges_ofNat (k := 64) hpos hword.le (by decide)) h.interval
    (by decide) (by decide) (by decide) (by decide)).1
  have hstored : value b.stored ≤ slack ^ 2 * value b.stored := by
    rw [pow_two, mul_assoc]
    exact (le_slack_mul (value_nonneg h.inBounds.stored)).trans
      (le_slack_mul (mul_nonneg hslack.le (value_nonneg h.inBounds.stored)))
  have hfresh : value (ofNat elapsed / b.interval) ≤ slack ^ 2 * (elapsed / value b.interval) :=
    calc value (ofNat elapsed / b.interval)
        ≤ slack * (value (ofNat elapsed) / value b.interval) := hquotient
      _ ≤ slack * (slack * elapsed / value b.interval) :=
          mul_le_mul_of_nonneg_left
            (div_le_div_of_nonneg_right (value_ofNat_near hword).1 hinterval.le) hslack.le
      _ = slack ^ 2 * (elapsed / value b.interval) := by ring
  rw [h.refillInterval_eq] at haccrued
  rw [refilled, h.refillInterval_eq,
    value_least h.inBounds.capacity (PermitLaws.unsigned_add h.inBounds.stored haccrued)]
  calc min (value b.capacity) (value (b.stored + ofNat elapsed / b.interval)) * value b.interval
      ≤ slack * (value b.stored + value (ofNat elapsed / b.interval)) * value b.interval :=
        mul_le_mul_of_nonneg_right
          ((min_le_right _ _).trans (value_add_le h.inBounds.stored haccrued)) hinterval.le
    _ ≤ slack * (slack ^ 2 * value b.stored + slack ^ 2 * (elapsed / value b.interval)) *
          value b.interval :=
        mul_le_mul_of_nonneg_right
          (mul_le_mul_of_nonneg_left (add_le_add hstored hfresh) hslack.le) hinterval.le
    _ = slack ^ 3 * (value b.stored * value b.interval +
          elapsed / value b.interval * value b.interval) := by ring
    _ = slack ^ 3 * (value b.stored * value b.interval + elapsed) := by
        rw [div_mul_cancel₀ _ hinterval.ne']

/-- To bring the stored permits up to date adds no more than slack to the supply. -/
theorem Steady.supply_settle_le (now : Micros) {instant : Nat}
    (hle : (b.settle now).nextFree.toNat ≤ instant) :
    (b.settle now).supply instant ≤ slack ^ 3 * b.supply instant := by
  have hcube : 1 ≤ slack ^ 3 := one_le_pow₀ one_le_slack
  by_cases hlt : b.nextFree < now
  · have hfree := UInt64.lt_iff_toNat_lt.1 hlt
    have hnow : (b.settle now).nextFree = now := by rw [nextFree_settle, if_pos hlt]
    have hstored := h.stored_refilled_le (now.toNat - b.nextFree.toNat) (by omega)
      (by have := now.toNat_lt_size; omega)
    rw [← storedAt_of_lt hlt, Nat.cast_sub hfree.le] at hstored
    rw [hnow] at hle
    have hleft : (0 : Rat) ≤ instant - now.toNat := sub_nonneg.2 (Nat.cast_le.2 hle)
    have hmore := le_mul_of_one_le_left hleft hcube
    rw [supply, supply, stored_settle, interval_settle, hnow]
    linarith
  · have hsame : b.settle now = b := if_neg hlt
    rw [hsame] at hle ⊢
    exact le_mul_of_one_le_left (h.supply_nonneg hle) hcube

/-! ## A grant -/

/-- Fresh permits are paid for, but for a microsecond and slack. -/
theorem Steady.fresh_le {permits : UInt64}
    (hfresh : value b.stored ≤ value (ofNat permits.toNat))
    (hfinite : isFinite (accrual b.stored b.interval permits) = true)
    (hword : (wholePart (accrual b.stored b.interval permits)).toNat < UInt64.size - 1) :
    (value (ofNat permits.toNat) - value b.stored) * value b.interval ≤
      slack ^ 2 * ((wholePart (accrual b.stored b.interval permits)).toNat + 1) := by
  have hinterval := h.interval_pos
  have hasked : PermitArith.Unsigned (ofNat permits.toNat : Float) := PermitLaws.unsigned_ofNat _
  have hword' := PermitLaws.isFinite_ofNat (α := Float) permits.toNat_lt_size
  obtain ⟨hspent, -, hfinite'⟩ := h.inBounds.spent_spec permits
  have hleast := value_least hasked h.inBounds.stored
  rw [min_eq_right hfresh] at hleast
  rw [accrual] at hfinite hword ⊢
  generalize hrest : ofNat permits.toNat - least (ofNat permits.toNat) b.stored = fresh at *
  have hunsigned : PermitArith.Unsigned fresh := by
    rw [← hrest]
    exact PermitLaws.unsigned_sub hasked hspent (atMost_least_left hasked.isNumber) hfinite'
  have hless : value (ofNat permits.toNat) - value b.stored ≤ slack * value fresh := by
    have hnear := (value_sub_near hasked hspent (hleast.trans_le hfresh)
      ((isFinite_iff hasked).1 hword')).2
    rwa [hleast, hrest] at hnear
  have htime : value fresh * value b.interval ≤
      slack * ((wholePart (if isPositive fresh then fresh * b.interval else zero)).toNat + 1) := by
    by_cases hpos : isPositive fresh = true
    · rw [if_pos hpos] at hfinite hword ⊢
      exact mul_le_wholePart hunsigned h.inBounds.interval hfinite hword
    · have hnone : value fresh ≤ 0 :=
        not_lt.1 fun hlt => hpos ((unsigned_value hunsigned).isPositive_iff.2 hlt)
      rw [le_antisymm hnone (value_nonneg hunsigned), zero_mul]
      exact mul_nonneg slack_pos.le (Nat.cast_add_one_pos _).le
  calc (value (ofNat permits.toNat) - value b.stored) * value b.interval
      ≤ slack * value fresh * value b.interval := mul_le_mul_of_nonneg_right hless hinterval.le
    _ = slack * (value fresh * value b.interval) := mul_assoc ..
    _ ≤ slack * (slack *
          ((wholePart (if isPositive fresh then fresh * b.interval else zero)).toNat + 1)) :=
        mul_le_mul_of_nonneg_left htime slack_pos.le
    _ = slack ^ 2 *
          ((wholePart (if isPositive fresh then fresh * b.interval else zero)).toNat + 1) := by ring

/-- The permits that are taken and those that are left took no more time to accrue than the stored
ones and the fresh ones, but for a microsecond and slack. -/
theorem Steady.taken_add_left_le (permits : UInt64)
    (hfinite : isFinite (accrual b.stored b.interval permits) = true)
    (hword : (wholePart (accrual b.stored b.interval permits)).toNat < UInt64.size - 1) :
    (permits.toNat + value (b.stored - least (ofNat permits.toNat) b.stored)) * value b.interval ≤
      slack * (value b.stored * value b.interval) +
        slack ^ 3 * ((wholePart (accrual b.stored b.interval permits)).toNat + 1) := by
  have hslack := slack_pos
  have hinterval := h.interval_pos
  have hasked : PermitArith.Unsigned (ofNat permits.toNat : Float) := PermitLaws.unsigned_ofNat _
  have hnear := (value_ofNat_near permits.toNat_lt_size).2
  obtain ⟨hspent, hle, -⟩ := h.inBounds.spent_spec permits
  have hleast := value_least hasked h.inBounds.stored
  have hleft := (value_sub_near h.inBounds.stored hspent
    (value_le_of_atMost hle hspent h.inBounds.stored) h.stored_lt_top).1
  rcases le_total (value (ofNat permits.toNat)) (value b.stored) with hstored | hfresh
  · -- the stored permits are enough
    rw [hleast, min_eq_left hstored] at hleft
    have hsum : permits.toNat + value (b.stored - least (ofNat permits.toNat) b.stored) ≤
        slack * value b.stored := by linarith
    have htime := mul_le_mul_of_nonneg_right hsum hinterval.le
    have hwhole : (0 : Rat) ≤
        slack ^ 3 * ((wholePart (accrual b.stored b.interval permits)).toNat + 1) :=
      mul_nonneg (pow_pos hslack 3).le (Nat.cast_add_one_pos _).le
    linarith
  · -- the stored permits are spent
    rw [hleast, min_eq_right hfresh, sub_self, mul_zero] at hleft
    have hpaid := mul_le_mul_of_nonneg_left (h.fresh_le hfresh hfinite hword) hslack.le
    calc (permits.toNat + value (b.stored - least (ofNat permits.toNat) b.stored)) *
          value b.interval
        ≤ slack * value (ofNat permits.toNat) * value b.interval :=
          mul_le_mul_of_nonneg_right (by linarith) hinterval.le
      _ = slack * (value b.stored * value b.interval) +
            slack * ((value (ofNat permits.toNat) - value b.stored) * value b.interval) := by ring
      _ ≤ slack * (value b.stored * value b.interval) +
            slack * (slack ^ 2 *
              ((wholePart (accrual b.stored b.interval permits)).toNat + 1)) := by linarith
      _ = slack * (value b.stored * value b.interval) +
            slack ^ 3 * ((wholePart (accrual b.stored b.interval permits)).toNat + 1) := by ring

theorem Steady.nextFree_taken (permits : UInt64) (now : Micros) :
    (b.taken permits now).nextFree = b.moment permits now := by
  have hcost : ∀ taken, (b.settle now).cost (b.settle now).stored taken = zero := by
    intro taken
    rw [cost, ramp_settle, h.ramp]
  rw [taken, hcost, PermitLaws.wholePart_zero, Micros.later_zero]

omit h in
theorem interval_taken (permits : UInt64) (now : Micros) :
    (b.taken permits now).interval = b.interval := b.interval_settle now

theorem Steady.taken (permits : UInt64) (now : Micros) : (b.taken permits now).Steady where
  ramp := (b.ramp_settle now).trans h.ramp
  inBounds := h.inBounds.taken permits now
  interval := (h.settle now).interval
  capacity := (h.settle now).capacity

/-- **A grant is paid for.**  What is taken, and what the bucket can spend from then on, comes out
of what it could spend before, but for a microsecond and slack. -/
theorem Steady.paid {permits : UInt64} {now : Micros} {instant : Nat}
    (hfinite : isFinite (accrual (b.settle now).stored b.interval permits) = true)
    (hstart : (b.moment permits now).toNat ≤ instant) (hinstant : instant < UInt64.size - 1) :
    permits.toNat * value b.interval + (b.taken permits now).supply instant ≤
      slack ^ 6 * (b.supply instant + 1) := by
  have hsettle := h.settle now
  have hmoment : (b.moment permits now).toNat =
      min ((b.settle now).nextFree.toNat +
        (wholePart (accrual (b.settle now).stored b.interval permits)).toNat) (UInt64.size - 1) :=
    Micros.toNat_later ..
  have hsupply : (b.settle now).supply instant ≤ slack ^ 3 * b.supply instant :=
    h.supply_settle_le now (by omega)
  have htaken := hsettle.taken_add_left_le permits (by rwa [interval_settle])
    (by rw [interval_settle]; omega)
  rw [interval_settle] at htaken
  have hsum : ((b.moment permits now).toNat : Rat) = (b.settle now).nextFree.toNat +
      (wholePart (accrual (b.settle now).stored b.interval permits)).toNat := by
    rw [← Nat.cast_add]
    exact congrArg _ (by omega)
  have hrest : (0 : Rat) ≤ instant - (b.moment permits now).toNat :=
    sub_nonneg.2 (Nat.cast_le.2 hstart)
  have hstored := hsettle.stored_mul_nonneg
  have hslack := one_le_slack
  have hcube : 1 ≤ slack ^ 3 := one_le_pow₀ hslack
  have hless := mul_le_mul_of_nonneg_right (le_self_pow₀ hslack three_ne_zero) hstored
  have hlater := le_mul_of_one_le_left hrest hcube
  have hafter : (b.taken permits now).supply instant =
      value ((b.settle now).stored - least (ofNat permits.toNat) (b.settle now).stored) *
        value b.interval + (instant - (b.moment permits now).toNat) := by
    rw [supply, h.nextFree_taken, Bucket.taken, interval_settle]
  have hpaid : permits.toNat * value b.interval + (b.taken permits now).supply instant ≤
      slack ^ 3 * ((b.settle now).supply instant + 1) := by
    rw [hafter, supply, interval_settle]
    rw [interval_settle] at hless
    rw [hsum] at hlater ⊢
    linarith
  calc permits.toNat * value b.interval + (b.taken permits now).supply instant
      ≤ slack ^ 3 * ((b.settle now).supply instant + 1) := hpaid
    _ ≤ slack ^ 3 * (slack ^ 3 * (b.supply instant + 1)) := by
        refine mul_le_mul_of_nonneg_left ?_ (zero_le_one.trans hcube)
        linarith
    _ = slack ^ 6 * (b.supply instant + 1) := by ring

end

/-! ## A run -/

section

variable {κ : Type} [CustomMeter κ]

/-- The meter of a bucket grants no permits at once, and others when the bucket does. -/
theorem grants_meter_cons (b : Bucket Float) (d : Demand) (demands : List Demand) :
    (Meter.bucket b : Meter κ).grants (d :: demands) =
      if d.permits = 0 then ⟨0, d.now.toNat⟩ :: (Meter.bucket b : Meter κ).grants demands
      else if isFinite (accrual (b.settle d.now).stored b.interval d.permits) = true ∧
          b.moment d.permits d.now - d.now ≤ d.timeout.micros then
        ⟨d.permits.toNat, (b.moment d.permits d.now).toNat⟩ ::
          (Meter.bucket (b.taken d.permits d.now) : Meter κ).grants demands
      else (Meter.bucket (b.settle d.now) : Meter κ).grants demands := by
  by_cases hnone : d.permits = 0
  · have hreserve : (Meter.bucket b : Meter κ).reserve d.permits d.timeout d.now =
        (some 0, .bucket b) := by
      rw [hnone, Meter.reserve_zero]
    rw [if_pos hnone, Meter.grants_cons_of_some hreserve, hnone]
    rfl
  · have hattempt : (Meter.bucket b : Meter κ).reserve d.permits d.timeout d.now =
        ((b.reserve d.permits d.timeout.micros d.now).1,
          .bucket (b.reserve d.permits d.timeout.micros d.now).2) :=
      Meter.reserve_of_ne _ hnone ..
    rw [if_neg hnone]
    rw [reserve_eq] at hattempt
    split
    · next hgranted =>
      rw [if_pos hgranted] at hattempt
      rw [Meter.grants_cons_of_some hattempt, toNat_add_wait]
    · next hrejected =>
      rw [if_neg hrejected] at hattempt
      exact grantsOf_cons_of_none hattempt demands

/-- Before a bucket is free nothing is given out. -/
theorem permitsOf_startedBy_of_lt {b : Bucket Float} {instant : Nat}
    (hlate : instant < b.nextFree.toNat) (demands : List Demand) :
    permitsOf (startedBy instant ((Meter.bucket b : Meter κ).grants demands)) = 0 := by
  induction demands generalizing b with
  | nil => rfl
  | cons d demands ih =>
    have hmoment := b.le_moment d.permits d.now
    have htaken := b.moment_le_nextFree_taken d.permits d.now
    have hsettle := b.toNat_nextFree_settle d.now
    rw [grants_meter_cons]
    split
    · by_cases hstart : d.now.toNat ≤ instant
      · rw [startedBy_cons_of_le hstart, permitsOf_cons, ih hlate]
      · rw [startedBy_cons_of_lt (not_le.1 hstart), ih hlate]
    · split
      · rw [startedBy_cons_of_lt (by dsimp only; omega), ih (by omega)]
      · exact ih (by omega)

/-- What is paid for out of the supply of a later bucket, with slack for fewer demands. -/
theorem slack_pow_mul_le {supply before : Rat} (grants demands : Nat)
    (h : supply ≤ slack ^ 6 * before) :
    slack ^ (6 * demands) * (supply + grants) ≤
      slack ^ (6 * (demands + 1)) * (before + grants) := by
  have hgrants : (grants : Rat) ≤ slack ^ 6 * grants :=
    le_mul_of_one_le_left (Nat.cast_nonneg _) (one_le_pow₀ one_le_slack)
  calc slack ^ (6 * demands) * (supply + grants)
      ≤ slack ^ (6 * demands) * (slack ^ 6 * (before + grants)) := by
        refine mul_le_mul_of_nonneg_left ?_ (pow_pos slack_pos _).le
        linarith
    _ = slack ^ (6 * (demands + 1)) * (before + grants) := by ring

/-- **What starts by an instant is paid for out of the supply**, but for a microsecond for each
grant and slack for each demand. -/
theorem Steady.permits_le {b : Bucket Float} (h : b.Steady) {instant : Nat}
    (hinstant : instant < UInt64.size - 1) (hfree : b.nextFree.toNat ≤ instant)
    (demands : List Demand) :
    let started := startedBy instant ((Meter.bucket b : Meter κ).grants demands)
    permitsOf started * value b.interval ≤
      slack ^ (6 * demands.length) * (b.supply instant + started.length) := by
  have hnothing : ∀ {b : Bucket Float} {demands grants : Nat}, b.Steady →
      b.nextFree.toNat ≤ instant →
      0 ≤ slack ^ (6 * demands) * (b.supply instant + grants) := fun h hfree =>
    mul_nonneg (pow_pos slack_pos _).le (add_nonneg (h.supply_nonneg hfree) (Nat.cast_nonneg _))
  have hsix : 1 ≤ slack ^ 6 := one_le_pow₀ one_le_slack
  induction demands generalizing b with
  | nil =>
    intro started
    have hnone : permitsOf started = 0 := rfl
    rw [hnone, Nat.cast_zero, zero_mul]
    exact hnothing h hfree
  | cons d demands ih =>
    have hsupply := le_mul_of_one_le_left (h.supply_nonneg hfree) hsix
    dsimp only
    rw [grants_meter_cons, List.length_cons]
    split
    · -- nothing is asked for
      have hrest := (ih h hfree).trans (slack_pow_mul_le _ _ hsupply)
      by_cases hstart : d.now.toNat ≤ instant
      · rw [startedBy_cons_of_le hstart, permitsOf_cons, Nat.zero_add, List.length_cons]
        refine hrest.trans (mul_le_mul_of_nonneg_left ?_ (pow_pos slack_pos _).le)
        rw [Nat.cast_succ]
        linarith
      · rw [startedBy_cons_of_lt (not_le.1 hstart)]
        exact hrest
    · split
      · next hgranted =>
        by_cases hstart : (b.moment d.permits d.now).toNat ≤ instant
        · have hpaid := h.paid hgranted.1 hstart hinstant
          have hrest := ih (h.taken d.permits d.now) (by rw [h.nextFree_taken]; exact hstart)
          have htime : (0 : Rat) ≤ d.permits.toNat * value b.interval :=
            mul_nonneg (Nat.cast_nonneg _) h.interval_pos.le
          have hslack : 1 ≤ slack ^ (6 * demands.length) := one_le_pow₀ one_le_slack
          have hfirst := le_mul_of_one_le_left htime hslack
          rw [startedBy_cons_of_le hstart, permitsOf_cons, List.length_cons, Nat.cast_succ,
            Nat.cast_add]
          generalize startedBy instant
            ((Meter.bucket (b.taken d.permits d.now) : Meter κ).grants demands) = rest at hrest ⊢
          have htotal := slack_pow_mul_le rest.length demands.length hpaid
          rw [interval_taken] at hrest
          dsimp only
          linarith
        · rw [startedBy_cons_of_lt (not_le.1 hstart), permitsOf_startedBy_of_lt, Nat.cast_zero,
            zero_mul]
          · exact hnothing h hfree
          · rw [h.nextFree_taken]
            exact not_le.1 hstart
      · by_cases hstart : (b.settle d.now).nextFree.toNat ≤ instant
        · have hrest := ih (h.settle d.now) hstart
          rw [interval_settle] at hrest
          refine hrest.trans (slack_pow_mul_le _ _ ((h.supply_settle_le d.now hstart).trans ?_))
          exact mul_le_mul_of_nonneg_right (pow_le_pow_right₀ one_le_slack (by decide))
            (h.supply_nonneg hfree)
        · rw [permitsOf_startedBy_of_lt (not_le.1 hstart), Nat.cast_zero, zero_mul]
          exact hnothing h hfree

end

end Bucket

/-! ## A rate -/

namespace Rate

variable {n : UInt64} (hn : 1 ≤ n.toNat)

include hn

theorem ranges_perSecond : Ranges (-94) 94 (perSecond n).permitsPerSecond ∧
    Ranges (-94) 114 (Bucket.steadyInterval (perSecond n).permitsPerSecond) := by
  have hpermits : 1 ≤ (perSecond n).permits := UInt64.le_iff_toNat_le.2 hn
  have hperiod : 0 < (Duration.ofSeconds 1).nanos := by decide
  have hword : (Duration.ofSeconds 1).seconds < UInt64.size := by decide
  exact ⟨ranges_permitsPerSecond hpermits hperiod hword,
    ranges_steadyInterval hpermits hperiod hword⟩

omit hn in
theorem unsigned_nanosPerSecond :
    Binary64.Unsigned (Float.ofNat 1000000000).toModel.unpack 1000000000 := by
  have hvalue : value (Float.ofNat 1000000000) = 1000000000 := by decide +kernel
  have hsecond := Binary64.unsigned_ofNat 1000000000
  rwa [← hsecond.value_eq, hvalue] at hsecond

/-- The permits of a second are counted in nanoseconds, and back. -/
theorem unsigned_perSecond : Binary64.Unsigned (perSecond n).permitsPerSecond.toModel.unpack
    (kept (kept (kept n.toNat * 1000000000) / 1000000000)) := by
  have hsecond := unsigned_nanosPerSecond
  have htop : (1000000000 : Rat) < top := hsecond.isFinite_iff.1 (by decide +kernel)
  have hproduct : Binary64.Unsigned (n.toFloat * 1000000000.0).toModel.unpack
      (kept (kept n.toNat * 1000000000)) := by
    rw [nanosPerSecond_eq]
    exact (unsigned_toFloat n).mul hsecond
      (kept_natCast_lt_top (n.toNat_lt_size.trans (by decide))) htop
  have hfinite := hproduct.isFinite_iff.1
    ((ranges_permits_mul (r := perSecond n) (UInt64.le_iff_toNat_le.2 hn)).isFinite (by decide))
  have hquotient := hproduct.div hsecond hfinite (.inr (by norm_num))
  rw [quotient, if_neg (by norm_num), if_neg htop.ne] at hquotient
  exact hquotient

/-- Some permits per second are kept, but for slack, and they are one at least. -/
theorem value_perSecond : 1 ≤ value (perSecond n).permitsPerSecond ∧
    value (perSecond n).permitsPerSecond ≤ slack ^ 3 * n.toNat := by
  have hslack := slack_pos
  have hone : 1 ≤ kept n.toNat :=
    kept_one.symm.trans_le (kept_mono zero_le_one (Nat.one_le_cast.2 hn))
  have hmany : 1000000000 ≤ kept (kept n.toNat * 1000000000) := by
    have hmono : kept 1000000000 ≤ kept (kept n.toNat * 1000000000) :=
      kept_mono (by norm_num) (by linarith)
    rwa [unsigned_nanosPerSecond.kept_eq] at hmono
  have hsome : 1 ≤ kept (kept n.toNat * 1000000000) / 1000000000 := by linarith
  rw [(unsigned_perSecond hn).value_eq]
  refine ⟨kept_one.symm.trans_le (kept_mono zero_le_one hsome), ?_⟩
  calc kept (kept (kept n.toNat * 1000000000) / 1000000000)
      ≤ slack * (kept (kept n.toNat * 1000000000) / 1000000000) :=
        kept_le (roundsWell_of_one_le hsome)
    _ ≤ slack * (slack * (kept n.toNat * 1000000000) / 1000000000) := by
        refine mul_le_mul_of_nonneg_left ?_ hslack.le
        exact div_le_div_of_nonneg_right (kept_le (roundsWell_of_one_le (by linarith)))
          (by norm_num)
    _ = slack ^ 2 * kept n.toNat := by ring
    _ ≤ slack ^ 2 * (slack * n.toNat) :=
        mul_le_mul_of_nonneg_left (kept_le (roundsWell_natCast _)) (pow_pos hslack 2).le
    _ = slack ^ 3 * n.toNat := by ring

/-- The bucket of a rate holds the permits of a second. -/
theorem stored_flat (t₀ : Micros) :
    Binary64.Unsigned (Bucket.flat (perSecond n).permitsPerSecond 1.0 t₀).stored.toModel.unpack
      (value (perSecond n).permitsPerSecond) := by
  obtain ⟨⟨v, hv, -, -⟩, hinterval⟩ := ranges_perSecond hn
  have hone : Binary64.Unsigned (1.0 : Float).toModel.unpack 1 := by
    have heq : (1.0 : Float) = Float.ofBits 0x3FF0000000000000 := by decide +kernel
    rw [heq]
    exact Binary64.unsigned_one
  have hsecond : Binary64.Unsigned ((perSecond n).permitsPerSecond * 1.0).toModel.unpack v := by
    have hproduct := hv.mul hone
      (hv.isFinite_iff.1 ((ranges_perSecond hn).1.isFinite (by decide)))
      (hone.isFinite_iff.1 (by decide +kernel))
    rw [mul_one, hv.kept_eq] at hproduct
    exact hproduct
  have hsome := (value_perSecond hn).1
  rw [hv.value_eq] at hsome ⊢
  have hleast : AtMost one ((perSecond n).permitsPerSecond * 1.0) :=
    ((Binary64.unsigned_ofNat 1).atMost_iff hsecond).2 (kept_one.trans_le hsome)
  have hstored : (Bucket.flat (perSecond n).permitsPerSecond 1.0 t₀).stored =
      most ((perSecond n).permitsPerSecond * 1.0) one := if_pos (hinterval.isFinite (by decide))
  rw [hstored, most_of_atMost hleast]
  exact hsecond

theorem steady_flat (t₀ : Micros) :
    (Bucket.flat (perSecond n).permitsPerSecond 1.0 t₀).Steady where
  ramp := rfl
  inBounds := Bucket.inBounds_flat ..
  interval := (ranges_perSecond hn).2
  capacity := by
    obtain ⟨v, hv, -, -⟩ := (ranges_perSecond hn).1
    have hfinite := hv.isFinite_iff.1 ((ranges_perSecond hn).1.isFinite (by decide))
    rw [← hv.value_eq] at hfinite
    exact (stored_flat hn t₀).isFinite_iff.2 hfinite

/-- A second is the time in which the permits of a second accrue, but for slack. -/
theorem value_steadyInterval :
    value (perSecond n).permitsPerSecond *
        value (Bucket.steadyInterval (perSecond n).permitsPerSecond) ≤ slack * 1000000 ∧
      1000000 ≤ slack * (value (perSecond n).permitsPerSecond *
        value (Bucket.steadyInterval (perSecond n).permitsPerSecond)) := by
  have hrate := (ranges_perSecond hn).1
  have hpos : 0 < value (perSecond n).permitsPerSecond :=
    zero_lt_one.trans_le (value_perSecond hn).1
  have hsecond : value (Bucket.microsPerSecond : Float) = 1000000 := by decide +kernel
  obtain ⟨hup, hdown⟩ := value_div_near ranges_microsPerSecond hrate (by decide) (by decide)
    (by decide) (by decide)
  rw [hsecond] at hup hdown
  rw [Bucket.steadyInterval, if_pos hrate.isPositive]
  constructor
  · calc value (perSecond n).permitsPerSecond *
          value (Bucket.microsPerSecond / (perSecond n).permitsPerSecond)
        ≤ value (perSecond n).permitsPerSecond *
            (slack * (1000000 / value (perSecond n).permitsPerSecond)) :=
          mul_le_mul_of_nonneg_left hup hpos.le
      _ = slack * 1000000 := by rw [mul_left_comm, mul_div_cancel₀ _ hpos.ne']
  · calc (1000000 : Rat)
        = 1000000 / value (perSecond n).permitsPerSecond *
            value (perSecond n).permitsPerSecond := (div_mul_cancel₀ _ hpos.ne').symm
      _ ≤ slack * value (Bucket.microsPerSecond / (perSecond n).permitsPerSecond) *
            value (perSecond n).permitsPerSecond := mul_le_mul_of_nonneg_right hdown hpos.le
      _ = slack * (value (perSecond n).permitsPerSecond *
            value (Bucket.microsPerSecond / (perSecond n).permitsPerSecond)) := by ring

end Rate

namespace Catalog

variable {κ : Type} [CustomMeter κ]

/-- **What the bucket of a rate gives out.**  Let the standard catalog create the bucket of `n`
permits a second at `t₀`, and let any demands come, at any instants and with any timeouts.  The
permits of the grants that may start within `T` microseconds from `t₀` are at most `n`, what accrues
in `T` microseconds, and what accrues in a microsecond for each of these grants; real numbers add
slack, for six roundings of each demand and five at the beginning.  As long as the microseconds
amount to no more than one permit, and the slack to no more than half of one, it is no more than one
permit above `n` and what accrues, rounded up. -/
theorem rate_kept {n : UInt64} (hn : 1 ≤ n.toNat) {t₀ : Micros} {m : Meter κ}
    (hcreate : (Catalog.standard : Catalog κ).create (.perSecond n) t₀ = .ok m)
    (demands : List Demand) {T : Nat} (hT : t₀.toNat + T < UInt64.size - 1) :
    let started := startedBy (t₀.toNat + T) (m.grants demands)
    let total := n.toNat * (1000000 + T + started.length)
    let roundings := 6 * demands.length + 5
    (permitsOf started * 1000000 : Rat) ≤ total * slack ^ roundings ∧
      (n.toNat * started.length ≤ 1000000 → total * roundings ≤ 2 ^ 51 * 1000000 →
        permitsOf started ≤ n.toNat + (n.toNat * T + 999999) / 1000000 + 1) := by
  intro started total roundings
  have hslack := slack_pos
  obtain rfl : .bucket (.flat (Rate.perSecond n).permitsPerSecond 1.0 t₀) = m :=
    Except.ok.inj ((create_perSecond n t₀).symm.trans hcreate)
  obtain ⟨-, hrate⟩ := Rate.value_perSecond hn
  obtain ⟨hup, hdown⟩ := Rate.value_steadyInterval hn
  have hgrants := (Rate.steady_flat hn t₀).permits_le (κ := κ) hT (Nat.le_add_right ..) demands
  have hsupply : (Bucket.flat (Rate.perSecond n).permitsPerSecond 1.0 t₀).supply (t₀.toNat + T) =
      value (Rate.perSecond n).permitsPerSecond *
        value (Bucket.steadyInterval (Rate.perSecond n).permitsPerSecond) + T := by
    rw [Bucket.supply, (Rate.stored_flat hn t₀).value_eq, Nat.cast_add]
    exact congrArg _ (add_sub_cancel_left ..)
  have hinterval : (Bucket.flat (Rate.perSecond n).permitsPerSecond 1.0 t₀).interval =
      Bucket.steadyInterval (Rate.perSecond n).permitsPerSecond := rfl
  have hpos := (Rate.steady_flat hn t₀).interval_pos
  rw [hinterval] at hpos
  rw [hsupply, hinterval] at hgrants
  generalize value (Rate.perSecond n).permitsPerSecond = rate at hrate hup hdown hgrants
  generalize value (Bucket.steadyInterval (Rate.perSecond n).permitsPerSecond) = interval at *
  have hsum : rate * interval + T + started.length ≤ slack * (1000000 + T + started.length) := by
    have hlater := le_slack_mul (add_nonneg (Nat.cast_nonneg T) (Nat.cast_nonneg started.length))
    linarith
  have hpaid : (permitsOf started * 1000000 : Rat) ≤ total * slack ^ roundings :=
    calc (permitsOf started * 1000000 : Rat)
        ≤ permitsOf started * (slack * (rate * interval)) :=
          mul_le_mul_of_nonneg_left hdown (Nat.cast_nonneg _)
      _ = slack * (rate * (permitsOf started * interval)) := by ring
      _ ≤ slack * (slack ^ 3 * n.toNat * (permitsOf started * interval)) := by
          refine mul_le_mul_of_nonneg_left ?_ hslack.le
          exact mul_le_mul_of_nonneg_right hrate (mul_nonneg (Nat.cast_nonneg _) hpos.le)
      _ ≤ slack * (slack ^ 3 * n.toNat *
            (slack ^ (6 * demands.length) * (slack * (1000000 + T + started.length)))) := by
          have hmany : 0 ≤ slack ^ 3 * n.toNat :=
            mul_nonneg (pow_pos hslack 3).le (Nat.cast_nonneg _)
          refine mul_le_mul_of_nonneg_left (mul_le_mul_of_nonneg_left ?_ hmany) hslack.le
          exact hgrants.trans (mul_le_mul_of_nonneg_left hsum (pow_pos hslack _).le)
      _ = total * slack ^ roundings := by
          rw [Nat.cast_mul, Nat.cast_add, Nat.cast_add, Nat.cast_ofNat]
          ring
  refine ⟨hpaid, fun hfew hclose => ?_⟩
  have htotal : total = n.toNat * 1000000 + n.toNat * T + n.toNat * started.length := by
    change n.toNat * (1000000 + T + started.length) = _
    rw [Nat.mul_add, Nat.mul_add]
  have hroundings : roundings ≤ 2 ^ 51 := by
    have hsecond : 1000000 ≤ total := by omega
    have hmost : 1000000 * roundings ≤ 1000000 * 2 ^ 51 :=
      (Nat.mul_le_mul_right _ hsecond).trans (hclose.trans_eq (Nat.mul_comm _ _))
    omega
  -- the slack adds up to half a permit
  have hbound : permitsOf started * 1000000 ≤ total + 500000 := by
    have hmore := slack_pow_le (hroundings.trans (by decide))
    have hclose' : (total * roundings : Rat) ≤ 2 ^ 51 * 1000000 := by exact_mod_cast hclose
    have hexact : (permitsOf started * 1000000 : Rat) ≤ total + 500000 :=
      calc (permitsOf started * 1000000 : Rat)
          ≤ total * (1 + roundings / 2 ^ 52) :=
            hpaid.trans (mul_le_mul_of_nonneg_left hmore (Nat.cast_nonneg _))
        _ = total + total * roundings / 2 ^ 52 := by ring
        _ ≤ total + 500000 := by linarith
    exact_mod_cast hexact
  omega

/-- Three permits a second: the fourth is granted a third of a microsecond early. -/
theorem rate_kept_three :
    let m : Meter Empty := .bucket (.flat (Rate.perSecond 3).permitsPerSecond 1.0 0)
    let started := startedBy ((0 : Micros).toNat + 333333)
      (m.grants [⟨3, .zero, 0⟩, ⟨1, .ofSeconds 1, 0⟩])
    1 ≤ (3 : UInt64).toNat ∧
      (Catalog.standard : Catalog Empty).create (.perSecond 3) 0 = .ok m ∧
      (0 : Micros).toNat + 333333 < UInt64.size - 1 ∧ started = [⟨3, 0⟩, ⟨1, 333333⟩] ∧
      permitsOf started ≤
        (3 : UInt64).toNat + ((3 : UInt64).toNat * 333333 + 999999) / 1000000 + 1 := by
  intro m started
  have hcreate : (Catalog.standard : Catalog Empty).create (.perSecond 3) 0 = .ok m :=
    create_perSecond 3 0
  have hstarted : started = [⟨3, 0⟩, ⟨1, 333333⟩] := by decide +kernel
  have hlength : started.length = 2 := congrArg List.length hstarted
  refine ⟨by decide, hcreate, by decide, hstarted, ?_⟩
  refine (rate_kept (by decide) hcreate [⟨3, .zero, 0⟩, ⟨1, .ofSeconds 1, 0⟩] (by decide)).2 ?_ ?_
  · change 3 * started.length ≤ 1000000
    rw [hlength]
    decide
  · change 3 * (1000000 + 333333 + started.length) * 17 ≤ 2 ^ 51 * 1000000
    rw [hlength]
    decide

end Catalog

end Admission
