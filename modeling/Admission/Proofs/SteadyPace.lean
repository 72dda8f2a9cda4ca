import Admission.Meter.Catalog
import Admission.Proofs.RealPermits

/-!
# The steady pace of a rate

A rate may be as slow as one permit in the longest period there is, or allow nothing at all.  The
steady interval of a bucket tells the two apart: it is infinite exactly if there are no permits.

* **powers of two** — they are kept as they are, so a range between two of them, `Binary64.Ranges`,
  survives rounding: products add the exponents, and quotients subtract them;
* **some permits** — `Rate.isFinite_steadyInterval`, however slow the rate is;
* **no permits** — `Rate.steadyInterval_of_no_permits`, whatever the period is.
-/

namespace Admission

open PermitArith

namespace Binary64

open Float.Model

/-! ## Powers of two -/

/-- The value of a number lies between two powers of two. -/
def Ranges (low high : Int) (x : Float) : Prop :=
  ∃ v, Unsigned x.toModel.unpack v ∧ 2 ^ low ≤ v ∧ v ≤ 2 ^ high

section

variable {low high low' high' : Int} {x y : Float}

theorem ranges_of_kept {v : Rat} (hx : Unsigned x.toModel.unpack (kept v)) (hlow : 2 ^ low ≤ v)
    (hhigh : v ≤ 2 ^ high) (hleast : -1022 ≤ low) (hmost : high ≤ 1023) : Ranges low high x := by
  have hpos : (0 : Rat) < 2 ^ low := zpow_pos zero_lt_two low
  have hle : low ≤ high := (zpow_le_zpow_iff_right₀ one_lt_two).1 (hlow.trans hhigh)
  refine ⟨kept v, hx, ?_, ?_⟩
  · calc (2 : Rat) ^ low = kept (2 ^ low) := (kept_two_zpow hleast (hle.trans hmost)).symm
      _ ≤ kept v := kept_mono hpos.le hlow
  · calc kept v ≤ kept (2 ^ high) := kept_mono (hpos.le.trans hlow) hhigh
      _ = 2 ^ high := kept_two_zpow (hleast.trans hle) hmost

theorem ranges_ofNat {n : Nat} {k : Nat} (hpos : 0 < n) (h : n ≤ 2 ^ k) (hk : k ≤ 1023) :
    Ranges 0 k (Float.ofNat n) := by
  refine ranges_of_kept (unsigned_ofNat n) ?_ ?_ (by decide) (by omega)
  · rw [zpow_zero]
    exact Nat.one_le_cast.2 hpos
  · rw [zpow_natCast]
    exact_mod_cast h

/-- A value below the last power of two is finite. -/
theorem Ranges.isFinite (h : Ranges low high x) (hhigh : high ≤ 1023) : isFinite x = true := by
  obtain ⟨v, hx, -, hv⟩ := h
  refine hx.isFinite_iff.2 (hv.trans_lt ?_)
  exact zpow_lt_zpow_right₀ one_lt_two (by omega)

theorem Ranges.isPositive (h : Ranges low high x) : isPositive x = true := by
  obtain ⟨v, hx, hv, -⟩ := h
  exact hx.isPositive_iff.2 ((zpow_pos zero_lt_two low).trans_le hv)

theorem Ranges.mul (hx : Ranges low high x) (hy : Ranges low' high' y)
    (hleast : -1022 ≤ low + low') (hmost : high + high' ≤ 1023) (hhigh : high ≤ 1023)
    (hhigh' : high' ≤ 1023) : Ranges (low + low') (high + high') (x * y) := by
  have hfinite := hx.isFinite hhigh
  have hfinite' := hy.isFinite hhigh'
  obtain ⟨v, hx, hlowv, hhighv⟩ := hx
  obtain ⟨w, hy, hloww, hhighw⟩ := hy
  refine ranges_of_kept (hx.mul hy (hx.isFinite_iff.1 hfinite) (hy.isFinite_iff.1 hfinite'))
    ?_ ?_ hleast hmost
  · rw [zpow_add₀ two_ne_zero]
    exact mul_le_mul hlowv hloww (zpow_pos zero_lt_two low').le hx.nonneg
  · rw [zpow_add₀ two_ne_zero]
    exact mul_le_mul hhighv hhighw hy.nonneg (zpow_pos zero_lt_two high).le

theorem Ranges.div (hx : Ranges low high x) (hy : Ranges low' high' y)
    (hleast : -1022 ≤ low - high') (hmost : high - low' ≤ 1023) (hhigh : high ≤ 1023)
    (hhigh' : high' ≤ 1023) : Ranges (low - high') (high - low') (x / y) := by
  have hfinite := hx.isFinite hhigh
  have hfinite' := hy.isFinite hhigh'
  obtain ⟨v, hx, hlowv, hhighv⟩ := hx
  obtain ⟨w, hy, hloww, hhighw⟩ := hy
  have hv : 0 < v := (zpow_pos zero_lt_two low).trans_le hlowv
  have hw : 0 < w := (zpow_pos zero_lt_two low').trans_le hloww
  have hquotient := hx.div hy (hx.isFinite_iff.1 hfinite) (.inl hv)
  rw [quotient, if_neg hw.ne', if_neg (hy.isFinite_iff.1 hfinite').ne] at hquotient
  refine ranges_of_kept hquotient ?_ ?_ hleast hmost
  · rw [zpow_sub₀ two_ne_zero]
    exact div_le_div₀ hv.le hlowv hw hhighw
  · rw [zpow_sub₀ two_ne_zero]
    exact div_le_div₀ (zpow_pos zero_lt_two high).le hhighv (zpow_pos zero_lt_two low') hloww

end

end Binary64

namespace Rate

open Binary64

variable {r : Rate}

/-! ## Some permits -/

theorem nanosPerSecond_eq : (1000000000.0 : Float) = Float.ofNat 1000000000 := by decide +kernel

/-- The permits of a period, as they are turned into those of a second. -/
theorem ranges_permits_mul (hpermits : 1 ≤ r.permits) :
    Ranges 0 94 (r.permits.toFloat * 1000000000.0) := by
  have hsome : 0 < r.permits.toNat := UInt64.le_iff_toNat_le.1 hpermits
  have hcount : Ranges 0 64 r.permits.toFloat := by
    refine ranges_of_kept (unsigned_toFloat r.permits) ?_ ?_ (by decide) (by decide)
    · rw [zpow_zero]
      exact Nat.one_le_cast.2 hsome
    · exact_mod_cast r.permits.toNat_lt_size.le
  have hsecond : Ranges 0 30 (1000000000.0 : Float) := by
    rw [nanosPerSecond_eq]
    exact ranges_ofNat (k := 30) (by decide) (by decide) (by decide)
  exact hcount.mul hsecond (by decide) (by decide) (by decide) (by decide)

/-- Some permits per second, if only a few in many lifetimes of the universe. -/
theorem ranges_permitsPerSecond (hpermits : 1 ≤ r.permits) (hperiod : 0 < r.period.nanos)
    (hword : r.period.seconds < UInt64.size) : Ranges (-94) 94 r.permitsPerSecond := by
  have hlong : r.period.nanos ≤ 2 ^ 94 :=
    ((Nat.div_lt_iff_lt_mul (by decide)).1 hword).le.trans (by decide)
  have hnanos : Ranges 0 94 (Float.ofNat r.period.nanos) :=
    ranges_ofNat (k := 94) hperiod hlong (by decide)
  exact (ranges_permits_mul hpermits).div hnanos (by decide) (by decide) (by decide) (by decide)

theorem ranges_microsPerSecond : Ranges 0 20 (Bucket.microsPerSecond : Float) := by
  have hsecond : Ranges 0 20 (Float.ofNat 1000000) :=
    ranges_ofNat (k := 20) (by decide) (by decide) (by decide)
  exact hsecond

theorem ranges_steadyInterval (hpermits : 1 ≤ r.permits) (hperiod : 0 < r.period.nanos)
    (hword : r.period.seconds < UInt64.size) :
    Ranges (-94) 114 (Bucket.steadyInterval r.permitsPerSecond) := by
  have hrate := ranges_permitsPerSecond hpermits hperiod hword
  rw [Bucket.steadyInterval, if_pos hrate.isPositive]
  exact ranges_microsPerSecond.div hrate (by decide) (by decide) (by decide) (by decide)

/-- **However slow a rate is, its permits come at an interval.** -/
theorem isFinite_steadyInterval (hpermits : 1 ≤ r.permits) (hperiod : 0 < r.period.nanos)
    (hword : r.period.seconds < UInt64.size) :
    isFinite (Bucket.steadyInterval r.permitsPerSecond) = true :=
  (ranges_steadyInterval hpermits hperiod hword).isFinite (by decide)

/-! ## No permits -/

/-- No permits in some time, and none or no number of them in no time, are not above zero. -/
theorem isPositive_permitsPerSecond_of_no_permits (hpermits : r.permits = 0) :
    isPositive r.permitsPerSecond = false := by
  have hnone : (0 : UInt64).toFloat * 1000000000.0 = Float.ofNat 0 := by decide +kernel
  rw [permitsPerSecond, hpermits, hnone]
  rcases Nat.eq_zero_or_pos r.period.nanos with hzero | hpos
  · rw [hzero]
    decide +kernel
  · have hkept : 0 < kept r.period.nanos := kept_natCast_pos hpos
    have hquotient := (unsigned_ofNat 0).div (unsigned_ofNat r.period.nanos)
      (kept_natCast_lt_top (by decide)) (.inr hkept)
    rw [Nat.cast_zero, kept_zero, quotient, if_neg hkept.ne', zero_div, kept_zero, ite_self]
      at hquotient
    exact Bool.eq_false_iff.2 fun h => lt_irrefl 0 (hquotient.isPositive_iff.1 h)

theorem steadyInterval_of_no_permits (hpermits : r.permits = 0) :
    Bucket.steadyInterval r.permitsPerSecond = infinity := by
  rw [Bucket.steadyInterval, isPositive_permitsPerSecond_of_no_permits hpermits]
  rfl

end Rate

end Admission
