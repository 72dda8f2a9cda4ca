import Admission.Proofs.SteadyPace
import Mathlib.Algebra.Order.Ring.Pow

/-!
# How far rounding goes

Of a value fifty-three bits are kept, so what is kept is off by one part in `2 ^ 53` at most.  Below
`2 ^ -1022` fewer bits are kept, but there sums and differences have no more of them.

* **one rounding** — `Binary64.slack` is the factor between a value and what is kept of it, either
  way, as `nearest_near` says of the values that are known by `RoundsWell`;
* **operations** — `value x` is the value of a number, and `value_add_le`, `value_sub_near`,
  `value_div_near`, `value_ofNat_near` say what an operation makes of values;
  `mul_le_wholePart` adds the step to whole microseconds;
* **many roundings** — a factor for each of them, and `slack_pow_le` reads the product of the
  factors as a sum.
-/

namespace Admission

open PermitArith

namespace Binary64

open Float.Model
open Float.Model.UnpackedFloat hiding pack unpack

/-! ## One rounding -/

/-- The nearest whole number is no further than one half. -/
theorem halfEven_near {x : Rat} (hx : 0 ≤ x) :
    (halfEven x : Rat) ≤ x + 1 / 2 ∧ x ≤ halfEven x + 1 / 2 := by
  have hle : (⌊x⌋₊ : Rat) ≤ x := Nat.floor_le hx
  have hlt : x < ⌊x⌋₊ + 1 := Nat.lt_floor_add_one x
  unfold halfEven
  split
  · next hbefore => exact ⟨by linarith, hbefore.le⟩
  · next hpast =>
    split
    · next hmiddle =>
      have heven : ⌊x⌋₊ % 2 ≤ 1 := Nat.lt_succ_iff.1 (Nat.mod_lt _ two_pos)
      have hone : ((⌊x⌋₊ % 2 : Nat) : Rat) ≤ 1 := by exact_mod_cast heven
      have hnone : (0 : Rat) ≤ (⌊x⌋₊ % 2 : Nat) := Nat.cast_nonneg _
      rw [Nat.cast_add]
      exact ⟨by linarith, by linarith⟩
    · rw [Nat.cast_succ]
      exact ⟨by linarith [not_lt.1 hpast], by linarith⟩

/-- The factor between a value and what is kept of it. -/
def slack : Rat := 1 + 1 / 2 ^ 53

theorem one_le_slack : 1 ≤ slack := by
  norm_num [slack]

theorem slack_pos : 0 < slack := zero_lt_one.trans_le one_le_slack

theorem le_slack_mul {v : Rat} (hv : 0 ≤ v) : v ≤ slack * v := le_mul_of_one_le_left hv one_le_slack

/-- Values of which enough is kept: those with fifty-three bits to keep, and those with no more bits
than can be kept. -/
def RoundsWell (v : Rat) : Prop :=
  2 ^ (-1022 : Int) ≤ v ∨ ∃ k : Nat, v = k * 2 ^ (-1074 : Int)

theorem RoundsWell.nonneg {v : Rat} (h : RoundsWell v) : 0 ≤ v := by
  rcases h with hlarge | ⟨k, rfl⟩
  · exact (zpow_pos zero_lt_two _).le.trans hlarge
  · exact mul_nonneg (Nat.cast_nonneg k) (zpow_pos zero_lt_two _).le

/-- A value with fifty-three bits above its place. -/
theorem nearest_near_of_le {v : Rat} (h : 2 ^ (52 + place v) ≤ v) :
    nearest v ≤ slack * v ∧ v ≤ slack * nearest v := by
  have hpos : (0 : Rat) < 2 ^ place v := zpow_pos zero_lt_two _
  have hv : v / 2 ^ place v * 2 ^ place v = v := div_mul_cancel₀ v hpos.ne'
  have hbits : ((2 ^ 52 : Nat) : Rat) ≤ v / 2 ^ place v := by
    rw [le_div_iff₀ hpos, two_pow_mul_zpow]
    exact h
  have hkept : ((2 ^ 52 : Nat) : Rat) ≤ halfEven (v / 2 ^ place v) :=
    Nat.cast_le.2 (le_halfEven hbits)
  obtain ⟨hup, hdown⟩ := halfEven_near ((Nat.cast_nonneg _).trans hbits)
  push_cast at hbits hkept
  have hnear : (halfEven (v / 2 ^ place v) : Rat) ≤ slack * (v / 2 ^ place v) ∧
      v / 2 ^ place v ≤ slack * halfEven (v / 2 ^ place v) := by
    rw [slack]
    exact ⟨by linarith, by linarith⟩
  constructor
  · calc nearest v ≤ slack * (v / 2 ^ place v) * 2 ^ place v :=
          mul_le_mul_of_nonneg_right hnear.1 hpos.le
      _ = slack * v := by rw [mul_assoc, hv]
  · calc v = v / 2 ^ place v * 2 ^ place v := hv.symm
      _ ≤ slack * halfEven (v / 2 ^ place v) * 2 ^ place v :=
          mul_le_mul_of_nonneg_right hnear.2 hpos.le
      _ = slack * nearest v := mul_assoc ..

/-- **What is nearest to a value is off by a slack at most.** -/
theorem nearest_near {v : Rat} (h : RoundsWell v) :
    nearest v ≤ slack * v ∧ v ≤ slack * nearest v := by
  rcases h.nonneg.eq_or_lt with rfl | hv
  · rw [nearest_zero, mul_zero]
    exact ⟨le_rfl, le_rfl⟩
  by_cases hplace : place v = -1074
  · rcases h with hlarge | ⟨k, hk⟩
    · refine nearest_near_of_le ?_
      rw [hplace]
      exact hlarge
    · -- in the last place there is nothing to round
      have hexact : nearest v = v := by
        rw [nearest, hplace, hk, mul_div_cancel_right₀ _ (zpow_ne_zero _ two_ne_zero),
          halfEven_natCast]
      rw [hexact]
      exact ⟨le_slack_mul hv.le, le_slack_mul hv.le⟩
  · exact nearest_near_of_le (zpow_place_le hv hplace)

theorem kept_le {v : Rat} (h : RoundsWell v) : kept v ≤ slack * v :=
  (min_le_left _ _).trans (nearest_near h).1

theorem le_kept {v : Rat} (h : RoundsWell v) (hfinite : kept v < top) : v ≤ slack * kept v := by
  have hnearest : kept v = nearest v :=
    min_eq_left (le_of_not_gt fun htop => hfinite.not_ge (min_eq_right htop.le).ge)
  rw [hnearest]
  exact (nearest_near h).2

theorem roundsWell_of_one_le {v : Rat} (h : 1 ≤ v) : RoundsWell v := by
  refine .inl (le_trans ?_ h)
  exact zpow_le_one_of_nonpos₀ one_le_two (by decide)

theorem roundsWell_natCast (n : Nat) : RoundsWell n := by
  rcases Nat.eq_zero_or_pos n with rfl | hpos
  · exact .inr ⟨0, by rw [Nat.cast_zero, zero_mul]⟩
  · exact roundsWell_of_one_le (Nat.one_le_cast.2 hpos)

/-- Numbers are multiples of the last place. -/
theorem Unsigned.exists_eq_mul {u : UnpackedFloat} {v : Rat} (h : Unsigned u v) :
    ∃ k : Nat, v = k * 2 ^ (-1074 : Int) := by
  cases h with
  | zero => exact ⟨0, by rw [Nat.cast_zero, zero_mul]⟩
  | @finite m e hpos h he =>
    have hle := h.le
    have hshift : (2 : Rat) ^ e = (2 ^ (e + 1074).toNat : Nat) * 2 ^ (-1074 : Int) := by
      rw [two_pow_mul_zpow]
      congr 1
      omega
    exact ⟨m * 2 ^ (e + 1074).toNat, by rw [hshift, Nat.cast_mul, mul_assoc]⟩
  | infinity =>
    refine ⟨2 ^ 2098, ?_⟩
    rw [two_pow_mul_zpow]
    rfl

section

variable {u w : UnpackedFloat} {v x : Rat}

theorem Unsigned.roundsWell_add (hu : Unsigned u v) (hw : Unsigned w x) : RoundsWell (v + x) := by
  obtain ⟨k, rfl⟩ := hu.exists_eq_mul
  obtain ⟨k', rfl⟩ := hw.exists_eq_mul
  exact .inr ⟨k + k', by rw [Nat.cast_add, add_mul]⟩

theorem Unsigned.roundsWell_sub (hu : Unsigned u v) (hw : Unsigned w x) (h : x ≤ v) :
    RoundsWell (v - x) := by
  obtain ⟨k, rfl⟩ := hu.exists_eq_mul
  obtain ⟨k', rfl⟩ := hw.exists_eq_mul
  rw [mul_le_mul_iff_of_pos_right (zpow_pos zero_lt_two _), Nat.cast_le] at h
  exact .inr ⟨k - k', by rw [Nat.cast_sub h, sub_mul]⟩

end

/-! ## Operations -/

/-- The value of a number; nothing, if it is none. -/
def value (x : Float) : Rat := (value? x.toModel.unpack).getD 0

section

variable {x y : Float}

theorem Unsigned.value_eq {v : Rat} (h : Unsigned x.toModel.unpack v) : value x = v := by
  rw [value, h.value?_eq, Option.getD_some]

theorem unsigned_value (h : PermitArith.Unsigned x) : Unsigned x.toModel.unpack (value x) := by
  obtain ⟨v, hv⟩ := unsigned_iff.1 h
  rw [hv.value_eq]
  exact hv

theorem value_nonneg (h : PermitArith.Unsigned x) : 0 ≤ value x := (unsigned_value h).nonneg

theorem isFinite_iff (h : PermitArith.Unsigned x) : isFinite x = true ↔ value x < top :=
  (unsigned_value h).isFinite_iff

theorem value_le_of_atMost (h : AtMost x y) (hx : PermitArith.Unsigned x)
    (hy : PermitArith.Unsigned y) : value x ≤ value y :=
  ((unsigned_value hx).atMost_iff (unsigned_value hy)).1 h

/-- A whole number of sixty-four bits as a real one. -/
theorem value_ofNat_near {n : Nat} (h : n < UInt64.size) :
    value (ofNat n) ≤ slack * n ∧ n ≤ slack * value (ofNat n) := by
  have hvalue : value (ofNat n) = kept n := (unsigned_ofNat n).value_eq
  have hfinite : kept (n : Rat) < top := kept_natCast_lt_top (h.trans (by decide))
  rw [hvalue]
  exact ⟨kept_le (roundsWell_natCast n), le_kept (roundsWell_natCast n) hfinite⟩

theorem value_add_le (hx : PermitArith.Unsigned x) (hy : PermitArith.Unsigned y) :
    value (x + y) ≤ slack * (value x + value y) := by
  have hx := unsigned_value hx
  have hy := unsigned_value hy
  have hsum : Unsigned (x + y).toModel.unpack (kept (value x + value y)) := hx.add hy
  rw [hsum.value_eq]
  exact kept_le (hx.roundsWell_add hy)

theorem value_sub_near (hx : PermitArith.Unsigned x) (hy : PermitArith.Unsigned y)
    (hle : value y ≤ value x) (hfinite : value x < top) :
    value (x - y) ≤ slack * (value x - value y) ∧
      value x - value y ≤ slack * value (x - y) := by
  have hx := unsigned_value hx
  have hy := unsigned_value hy
  have hleft : Unsigned (x - y).toModel.unpack (difference (value x) (value y)) :=
    hx.sub hy hle (hle.trans_lt hfinite)
  have hless := difference_le hx.kept_eq hy.nonneg hle
  have hwell := hx.roundsWell_sub hy hle
  rw [hleft.value_eq]
  rw [difference, if_neg hfinite.ne] at hless ⊢
  exact ⟨kept_le hwell, le_kept hwell (hless.trans_lt hfinite)⟩

theorem value_div_near {low high low' high' : Int} (hx : Ranges low high x)
    (hy : Ranges low' high' y) (hleast : -1022 ≤ low - high') (hmost : high - low' ≤ 1023)
    (hhigh : high ≤ 1023) (hhigh' : high' ≤ 1023) :
    value (x / y) ≤ slack * (value x / value y) ∧ value x / value y ≤ slack * value (x / y) := by
  have hfinite := (hx.div hy hleast hmost hhigh hhigh').isFinite hmost
  have hfinite' := hy.isFinite hhigh'
  have hfinite'' := hx.isFinite hhigh
  obtain ⟨v, hx, hlowv, -⟩ := hx
  obtain ⟨w, hy, hloww, hhighw⟩ := hy
  have hv : 0 < v := (zpow_pos zero_lt_two low).trans_le hlowv
  have hw : 0 < w := (zpow_pos zero_lt_two low').trans_le hloww
  have hquotient : Unsigned (x / y).toModel.unpack (quotient v w) :=
    hx.div hy (hx.isFinite_iff.1 hfinite'') (.inl hv)
  rw [quotient, if_neg hw.ne', if_neg (hy.isFinite_iff.1 hfinite').ne] at hquotient
  have hwell : RoundsWell (v / w) := by
    refine .inl (le_trans (zpow_le_zpow_right₀ one_le_two hleast) ?_)
    rw [zpow_sub₀ two_ne_zero]
    exact div_le_div₀ hv.le hlowv hw hhighw
  rw [hx.value_eq, hy.value_eq, hquotient.value_eq]
  exact ⟨kept_le hwell, le_kept hwell (hquotient.isFinite_iff.1 hfinite)⟩

/-- The whole part of a product falls short by less than one and a slack. -/
theorem mul_le_wholePart (hx : PermitArith.Unsigned x) (hy : PermitArith.Unsigned y)
    (hfinite : isFinite (x * y) = true) (h : (wholePart (x * y)).toNat < UInt64.size - 1) :
    value x * value y ≤ slack * ((wholePart (x * y)).toNat + 1) := by
  have hx := unsigned_value hx
  have hy := unsigned_value hy
  obtain ⟨hxtop, hytop⟩ := hx.lt_top_of_mul hy hfinite
  have hproduct : Unsigned (x * y).toModel.unpack (kept (value x * value y)) :=
    hx.mul hy hxtop hytop
  have hwhole : (wholePart (x * y)).toNat =
      min ⌊kept (value x * value y)⌋₊ (UInt64.size - 1) := hproduct.toNat_toUInt64
  have hfloor : kept (value x * value y) ≤ (wholePart (x * y)).toNat + 1 := by
    have hlt := Nat.lt_floor_add_one (kept (value x * value y))
    rw [hwhole, min_eq_left (by omega)]
    exact hlt.le
  rcases le_total 1 (value x * value y) with hone | hone
  · calc value x * value y
        ≤ slack * kept (value x * value y) :=
          le_kept (roundsWell_of_one_le hone) (hproduct.isFinite_iff.1 hfinite)
      _ ≤ slack * ((wholePart (x * y)).toNat + 1) :=
          mul_le_mul_of_nonneg_left hfloor slack_pos.le
  · have hnonneg : (0 : Rat) ≤ (wholePart (x * y)).toNat := Nat.cast_nonneg _
    calc value x * value y ≤ (wholePart (x * y)).toNat + 1 := by linarith
      _ ≤ slack * ((wholePart (x * y)).toNat + 1) := le_slack_mul (by linarith)

theorem value_least (hx : PermitArith.Unsigned x) (hy : PermitArith.Unsigned y) :
    value (least x y) = min (value x) (value y) := by
  by_cases h : below y x = true
  · rw [least_of_below h, min_eq_right (value_le_of_atMost (atMost_of_below h) hy hx)]
  · have hle : AtMost x y := ⟨hx.isNumber, hy.isNumber, Bool.eq_false_iff.2 h⟩
    rw [least_of_not_below hx.isNumber h, min_eq_left (value_le_of_atMost hle hx hy)]

end

/-! ## Many roundings -/

/-- As long as the roundings are few, none of them adds more than two parts in `2 ^ 53`. -/
theorem slack_pow_le {k : Nat} (h : k ≤ 2 ^ 52) : slack ^ k ≤ 1 + k / 2 ^ 52 := by
  have hfew : (k : Rat) ≤ 2 ^ 52 := by exact_mod_cast h
  -- the factors `1 - 1 / 2 ^ 53` take back more than the slack adds
  have hless : 1 - k / 2 ^ 53 ≤ (1 - 1 / 2 ^ 53 : Rat) ^ k := by
    have hbernoulli := one_add_mul_le_pow (a := (-(1 / 2 ^ 53) : Rat)) (by norm_num) k
    calc (1 - k / 2 ^ 53 : Rat) = 1 + k * -(1 / 2 ^ 53) := by ring
      _ ≤ (1 + -(1 / 2 ^ 53)) ^ k := hbernoulli
      _ = (1 - 1 / 2 ^ 53) ^ k := by rw [sub_eq_add_neg]
  have hproduct : slack ^ k * (1 - 1 / 2 ^ 53) ^ k ≤ 1 := by
    rw [← mul_pow]
    exact pow_le_one₀ (by norm_num [slack]) (by norm_num [slack])
  have hslack : slack ^ k * (1 - k / 2 ^ 53) ≤ 1 :=
    (mul_le_mul_of_nonneg_left hless (pow_pos slack_pos k).le).trans hproduct
  have hpart : (k : Rat) / 2 ^ 53 ≤ 1 / 2 := by linarith
  have hone : 1 ≤ (1 + k / 2 ^ 52) * (1 - k / 2 ^ 53 : Rat) := by
    have hpart' : (0 : Rat) ≤ k / 2 ^ 53 := by positivity
    calc (1 : Rat) ≤ 1 + k / 2 ^ 53 * (1 - 2 * (k / 2 ^ 53)) :=
          le_add_of_nonneg_right (mul_nonneg hpart' (by linarith))
      _ = (1 + k / 2 ^ 52) * (1 - k / 2 ^ 53) := by ring
  exact le_of_mul_le_mul_right (hslack.trans hone) (by linarith)

end Binary64

end Admission
