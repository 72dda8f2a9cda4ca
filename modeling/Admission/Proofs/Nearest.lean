import Mathlib.Data.Int.Log
import Mathlib.Data.Rat.Floor
import Mathlib.Tactic.Linarith
import Mathlib.Tactic.NormNum
import Mathlib.Tactic.Ring

/-!
# The nearest number of fifty-three bits

Real numbers of sixty-four bits keep fifty-three bits of a value and a power of two, and no power
below `2 ^ -1074`.  Here this is said of rational numbers, without any bits.

* **whole numbers** — `halfEven` rounds to the nearest whole number, and to the even one of two that
  are equally near; `halfEven_mono` is why it never turns an order around;
* **places** — `place v` is the power of two down to which `v` is kept, and `nearest v` what is kept
  of it.  Within one place that is `halfEven`; from one place to the next a power of two stands
  between any two values, and rounding does not pass it.  So `nearest_mono`;
* **what is kept** — `exists_canonical`: it has fifty-three bits again, so that it can be stored;
  `nearest_of_canonical`: what can be stored is not rounded at all.
-/

namespace Admission

namespace Binary64

/-! ## Whole numbers -/

/-- The whole number nearest to a number that is not negative; the even one of two. -/
def halfEven (x : Rat) : Nat :=
  if x < ⌊x⌋₊ + 1 / 2 then ⌊x⌋₊
  else if x = ⌊x⌋₊ + 1 / 2 then ⌊x⌋₊ + ⌊x⌋₊ % 2
  else ⌊x⌋₊ + 1

theorem floor_le_halfEven (x : Rat) : ⌊x⌋₊ ≤ halfEven x := by
  unfold halfEven
  split
  · exact le_rfl
  · split <;> omega

theorem halfEven_le_floor_add_one (x : Rat) : halfEven x ≤ ⌊x⌋₊ + 1 := by
  unfold halfEven
  split
  · omega
  · split <;> omega

/-- Whole numbers are not rounded. -/
@[simp] theorem halfEven_natCast (n : Nat) : halfEven (n : Rat) = n := by
  unfold halfEven
  rw [Nat.floor_natCast, if_pos (by linarith)]

/-- Rounding to whole numbers keeps the order. -/
theorem halfEven_mono {x y : Rat} (h : x ≤ y) : halfEven x ≤ halfEven y := by
  have hfloor : ⌊x⌋₊ ≤ ⌊y⌋₊ := Nat.floor_mono h
  rcases hfloor.lt_or_eq with hlt | heq
  · calc halfEven x ≤ ⌊x⌋₊ + 1 := halfEven_le_floor_add_one x
      _ ≤ ⌊y⌋₊ := hlt
      _ ≤ halfEven y := floor_le_halfEven y
  · -- both lie above one whole number, and `x` is not past the middle unless `y` is
    by_cases hx : x < ⌊x⌋₊ + 1 / 2
    · calc halfEven x = ⌊x⌋₊ := if_pos hx
        _ = ⌊y⌋₊ := heq
        _ ≤ halfEven y := floor_le_halfEven y
    · have hy : ¬ y < ⌊y⌋₊ + 1 / 2 := by
        rw [← heq]
        linarith
      unfold halfEven
      rw [if_neg hx, if_neg hy, heq]
      by_cases hmiddle : x = ⌊y⌋₊ + 1 / 2
      · rw [if_pos hmiddle]
        split <;> omega
      · have hpast : y ≠ ⌊y⌋₊ + 1 / 2 := by
          rintro hy'
          rw [← heq] at hy' hmiddle
          exact hmiddle (le_antisymm (by linarith) (not_lt.1 hx))
        rw [if_neg hmiddle, if_neg hpast]

theorem halfEven_le {x : Rat} {n : Nat} (h : x ≤ n) : halfEven x ≤ n :=
  (halfEven_mono h).trans_eq (halfEven_natCast n)

theorem le_halfEven {x : Rat} {n : Nat} (h : n ≤ x) : n ≤ halfEven x :=
  (halfEven_natCast n).symm.trans_le (halfEven_mono h)

/-! ## Places -/

/-- The power of two down to which a positive value is kept. -/
def place (v : Rat) : Int := max (Int.log 2 v - 52) (-1074)

/-- What is kept of a value that is not negative. -/
def nearest (v : Rat) : Rat := halfEven (v / 2 ^ place v) * 2 ^ place v

@[simp] theorem nearest_zero : nearest 0 = 0 := by
  have hzero : halfEven 0 = 0 := halfEven_natCast 0
  rw [nearest, zero_div, hzero, Nat.cast_zero, zero_mul]

theorem nearest_nonneg (v : Rat) : 0 ≤ nearest v :=
  mul_nonneg (Nat.cast_nonneg _) (zpow_pos zero_lt_two _).le

/-- A multiple of the place that is not below a value is not below what is kept of it. -/
theorem nearest_le {v : Rat} {n : Nat} (h : v ≤ n * 2 ^ place v) :
    nearest v ≤ n * 2 ^ place v := by
  have hpos : (0 : Rat) < 2 ^ place v := zpow_pos zero_lt_two _
  have hle : halfEven (v / 2 ^ place v) ≤ n := halfEven_le ((div_le_iff₀ hpos).2 h)
  exact mul_le_mul_of_nonneg_right (Nat.cast_le.2 hle) hpos.le

/-- A multiple of the place that is not above a value is not above what is kept of it. -/
theorem le_nearest {v : Rat} {n : Nat} (h : n * 2 ^ place v ≤ v) :
    n * 2 ^ place v ≤ nearest v := by
  have hpos : (0 : Rat) < 2 ^ place v := zpow_pos zero_lt_two _
  have hle : n ≤ halfEven (v / 2 ^ place v) := le_halfEven ((le_div_iff₀ hpos).2 h)
  exact mul_le_mul_of_nonneg_right (Nat.cast_le.2 hle) hpos.le

theorem two_pow_mul_zpow (n : Nat) (e : Int) :
    ((2 ^ n : Nat) : Rat) * 2 ^ e = 2 ^ (n + e) := by
  rw [zpow_add₀ two_ne_zero, zpow_natCast, Nat.cast_pow, Nat.cast_two]

/-- A positive value lies below the power of two with fifty-three more bits than its place. -/
theorem lt_zpow_place (v : Rat) : v < 2 ^ (53 + place v) := by
  have hlog : v < (2 : Nat) ^ (Int.log 2 v + 1) := Int.lt_zpow_succ_log_self (by decide) v
  rw [Nat.cast_two] at hlog
  refine hlog.trans_le (zpow_le_zpow_right₀ one_le_two ?_)
  unfold place
  omega

/-- Unless the place is the last one, a value has all fifty-three bits. -/
theorem zpow_place_le {v : Rat} (hv : 0 < v) (h : place v ≠ -1074) : 2 ^ (52 + place v) ≤ v := by
  have hlog : ((2 : Nat) : Rat) ^ Int.log 2 v ≤ v := Int.zpow_log_le_self (by decide) hv
  rw [Nat.cast_two] at hlog
  refine le_trans (zpow_le_zpow_right₀ one_le_two ?_) hlog
  unfold place at h ⊢
  omega

theorem place_mono {v w : Rat} (hv : 0 < v) (h : v ≤ w) : place v ≤ place w := by
  have hlog : Int.log 2 v ≤ Int.log 2 w := Int.log_mono_right hv h
  unfold place
  omega

/-- What is kept has no more than fifty-three bits, or is the next power of two. -/
theorem halfEven_le_two_pow (v : Rat) : halfEven (v / 2 ^ place v) ≤ 2 ^ 53 := by
  refine halfEven_le ?_
  have hpos : (0 : Rat) < 2 ^ place v := zpow_pos zero_lt_two _
  rw [div_le_iff₀ hpos, two_pow_mul_zpow]
  exact (lt_zpow_place v).le

/-- Unless the place is the last one, all fifty-three bits are kept. -/
theorem two_pow_le_halfEven {v : Rat} (hv : 0 < v) (h : place v ≠ -1074) :
    2 ^ 52 ≤ halfEven (v / 2 ^ place v) := by
  refine le_halfEven ?_
  have hpos : (0 : Rat) < 2 ^ place v := zpow_pos zero_lt_two _
  rw [le_div_iff₀ hpos, two_pow_mul_zpow]
  exact zpow_place_le hv h

/-- **Rounding keeps the order.** -/
theorem nearest_mono {v w : Rat} (hv : 0 ≤ v) (h : v ≤ w) : nearest v ≤ nearest w := by
  rcases hv.eq_or_lt with rfl | hv
  · rw [nearest_zero]
    exact nearest_nonneg w
  rcases (place_mono hv h).eq_or_lt with heq | hlt
  · have hpos : (0 : Rat) < 2 ^ place w := zpow_pos zero_lt_two _
    unfold nearest
    rw [heq]
    exact mul_le_mul_of_nonneg_right
      (Nat.cast_le.2 (halfEven_mono (div_le_div_of_nonneg_right h hpos.le))) hpos.le
  · -- the power of two at which the place of `w` begins stands between the two
    have hlast : place w ≠ -1074 := by
      have : -1074 ≤ place v := le_max_right ..
      omega
    have hnext : ((2 ^ 53 : Nat) : Rat) * 2 ^ place v ≤ (2 ^ 52 : Nat) * 2 ^ place w := by
      rw [two_pow_mul_zpow, two_pow_mul_zpow]
      exact zpow_le_zpow_right₀ one_le_two (by push_cast; omega)
    calc nearest v ≤ (2 ^ 53 : Nat) * 2 ^ place v := by
          refine nearest_le ?_
          rw [two_pow_mul_zpow]
          exact (lt_zpow_place v).le
      _ ≤ (2 ^ 52 : Nat) * 2 ^ place w := hnext
      _ ≤ nearest w := by
          refine le_nearest ?_
          rw [two_pow_mul_zpow]
          exact zpow_place_le (hv.trans_le h) hlast

/-! ## What is kept -/

/-- A mantissa and an exponent as they are stored: fifty-three bits, the highest of which is set
unless the exponent is the last one. -/
structure Canonical (mantissa : Nat) (exponent : Int) : Prop where
  /-- There are fifty-three bits at most. -/
  lt : mantissa < 2 ^ 53
  /-- The exponent is not below the last one. -/
  le : -1074 ≤ exponent
  /-- The highest bit is set, or the exponent is the last one. -/
  full : 2 ^ 52 ≤ mantissa ∨ exponent = -1074

/-- The place of a value with so many whole units of `2 ^ e`. -/
theorem place_eq {v : Rat} {m : Nat} {e : Int} (hm : 0 < m) (hle : m * 2 ^ e ≤ v)
    (hlt : v < (m + 1) * 2 ^ e) : place v = max (m.log2 + e - 52) (-1074) := by
  have hpos : (0 : Rat) < 2 ^ e := zpow_pos zero_lt_two _
  have hv : 0 < v := lt_of_lt_of_le (mul_pos (Nat.cast_pos.2 hm) hpos) hle
  have hlow : ((2 : Nat) : Rat) ^ ((m.log2 : Int) + e) ≤ v := by
    rw [Nat.cast_two, ← two_pow_mul_zpow]
    exact le_trans (mul_le_mul_of_nonneg_right (Nat.cast_le.2 (Nat.log2_self_le hm.ne')) hpos.le)
      hle
  have hhigh : v < ((2 : Nat) : Rat) ^ ((m.log2 : Int) + e + 1) := by
    have hnext : m + 1 ≤ 2 ^ (m.log2 + 1) := Nat.lt_log2_self
    have hsum : (m.log2 : Int) + e + 1 = ((m.log2 + 1 : Nat) : Int) + e := by push_cast; ring
    rw [Nat.cast_two, hsum, ← two_pow_mul_zpow]
    refine lt_of_lt_of_le hlt (mul_le_mul_of_nonneg_right ?_ hpos.le)
    exact_mod_cast hnext
  have hlog : Int.log 2 v = m.log2 + e := by
    have h₁ := (Int.zpow_le_iff_le_log Nat.one_lt_two hv).1 hlow
    have h₂ := (Int.lt_zpow_iff_log_lt Nat.one_lt_two hv).1 hhigh
    omega
  rw [place, hlog]

theorem place_of_canonical {m : Nat} {e : Int} (hm : 0 < m) (h : Canonical m e) :
    place (m * 2 ^ e) = e := by
  have hpos : (0 : Rat) < 2 ^ e := zpow_pos zero_lt_two _
  rw [place_eq hm le_rfl (mul_lt_mul_of_pos_right (lt_add_one _) hpos)]
  have hbits : m.log2 < 53 := (Nat.log2_lt hm.ne').2 h.lt
  have hle := h.le
  rcases h.full with hfull | hlast
  · have hlog : 52 ≤ m.log2 := (Nat.le_log2 hm.ne').2 hfull
    omega
  · omega

/-- What can be stored is kept as it is. -/
theorem nearest_of_canonical {m : Nat} {e : Int} (hm : 0 < m) (h : Canonical m e) :
    nearest (m * 2 ^ e) = m * 2 ^ e := by
  have hne : (2 : Rat) ^ e ≠ 0 := zpow_ne_zero e two_ne_zero
  rw [nearest, place_of_canonical hm h, mul_div_cancel_right₀ _ hne, halfEven_natCast]

/-- What is kept can be stored, with an exponent that is not below the place. -/
theorem exists_canonical {v : Rat} (hv : 0 < v) (h : nearest v ≠ 0) :
    ∃ (m : Nat) (e : Int), 0 < m ∧ Canonical m e ∧ place v ≤ e ∧ nearest v = m * 2 ^ e := by
  have hlast : -1074 ≤ place v := le_max_right ..
  have hpos : 0 < halfEven (v / 2 ^ place v) := by
    refine Nat.pos_of_ne_zero fun hzero => h ?_
    rw [nearest, hzero, Nat.cast_zero, zero_mul]
  rcases (halfEven_le_two_pow v).lt_or_eq with hlt | heq
  · refine ⟨halfEven (v / 2 ^ place v), place v, hpos, ⟨hlt, hlast, ?_⟩, le_rfl, rfl⟩
    by_cases hfull : place v = -1074
    · exact .inr hfull
    · exact .inl (two_pow_le_halfEven hv hfull)
  · -- the next power of two takes one bit only, and the exponent goes up by one
    refine ⟨2 ^ 52, place v + 1, by decide, ⟨by decide, by omega, .inl le_rfl⟩, by omega, ?_⟩
    rw [nearest, heq, two_pow_mul_zpow, two_pow_mul_zpow]
    congr 1
    push_cast
    omega

end Binary64

end Admission
