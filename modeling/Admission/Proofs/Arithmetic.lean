import Admission.Proofs.Values

/-!
# Arithmetic on values

An operation on numbers without a sign gives again such a number, and its value is what is kept of
the exact result.

* **rounding** — `unsigned_pack_roundWithAccuracy`, for a mantissa whose bits read the exact result;
* **operations** — `Unsigned.add`, `Unsigned.sub`, `Unsigned.mul` and `Unsigned.div`.  More than any
  finite number stays so when something finite is taken from it, and what is divided by zero becomes
  so: that is in `difference` and `quotient`, which keep the order as well;
* **whole numbers** — `unsigned_ofNat` and `Unsigned.toNat_toUInt64` lead to real numbers and back.
-/

namespace Admission

namespace Binary64

open Float.Model
open Float.Model.UnpackedFloat hiding pack unpack

/-! ## Rounding -/

section

variable {m : Nat} {e : Int}

/-- A positive number is stored, or it becomes infinite. -/
theorem unsigned_pack_finite (hpos : 0 < m) (h : Canonical m e) :
    Unsigned (Float.Model.pack (.finite .positive m e hpos)).unpack (min (m * 2 ^ e) top) := by
  by_cases he : e ≤ 971
  · rw [unpack_pack_finite .positive hpos h he, min_eq_left (mul_zpow_lt_top h he).le]
    exact .finite hpos h he
  · have hfull : 2 ^ 52 ≤ m := h.full.resolve_right (by omega)
    have hle : top ≤ m * 2 ^ e :=
      le_trans (zpow_le_zpow_right₀ one_le_two (by omega)) (zpow_le_mul hfull)
    rw [unpack_pack_finite_of_lt .positive hpos (not_le.1 he), min_eq_right hle]
    exact .infinity

/-- **What reads a value is rounded to what is kept of it.** -/
theorem unsigned_pack_roundWithAccuracy {v : Rat} {accuracy : Accuracy} (hv : 0 < v)
    (hreads : Reads (.ofMantissaAndAccuracy m accuracy) (v / 2 ^ e)) (he : e ≤ place v) :
    Unsigned (Float.Model.pack (roundWithAccuracy format .positive m e accuracy)).unpack
      (kept v) := by
  rcases roundWithAccuracy_cases .positive hv hreads he with
    ⟨hzero, hround⟩ | ⟨m', e', hpos, hcanonical, heq, hround⟩
  · rw [hround, kept, hzero, min_eq_left top_pos.le, unpack_pack_of_stored Unsigned.zero.stored]
    exact .zero
  · rw [hround, kept, heq]
    exact unsigned_pack_finite hpos hcanonical

theorem reads_exact_mul_zpow (m : Nat) (e : Int) :
    Reads (.ofMantissaAndAccuracy m .exact) (m * 2 ^ e / 2 ^ e) := by
  rw [mul_div_cancel_right₀ _ (zpow_ne_zero e two_ne_zero)]
  exact reads_exact m

/-- To shift a mantissa to the left and lower its exponent by as much changes no value. -/
theorem shiftLeft_mul_zpow (m : Nat) (e : Int) (k : Nat) :
    ((m <<< k : Nat) : Rat) * 2 ^ (e - k) = m * 2 ^ e := by
  rw [Nat.shiftLeft_eq, Nat.cast_mul, mul_assoc, two_pow_mul_zpow]
  congr 2
  omega

theorem unsigned_pack_round (hpos : 0 < m) (e : Int) :
    Unsigned (Float.Model.pack (UnpackedFloat.round format .positive m e)).unpack
      (kept (m * 2 ^ e)) := by
  have hplace : format.targetExponent (totalExponent m e) = place (m * 2 ^ e) := by
    rw [targetExponent_eq]
    exact (place_eq hpos le_rfl (mul_lt_mul_of_pos_right (lt_add_one _)
      (zpow_pos zero_lt_two e))).symm
  have hreads := reads_exact_mul_zpow (m <<< (e - place (m * 2 ^ e)).toNat)
    (e - (e - place (m * 2 ^ e)).toNat)
  rw [shiftLeft_mul_zpow] at hreads
  unfold UnpackedFloat.round decreaseExponent
  rw [hplace]
  exact unsigned_pack_roundWithAccuracy (mul_zpow_pos hpos e) hreads (by omega)

theorem unsigned_pack_normalize (n : Nat) (e : Int) :
    Unsigned (Float.Model.pack (UnpackedFloat.normalize format n e .positive)).unpack
      (kept (n * 2 ^ e)) := by
  unfold UnpackedFloat.normalize
  rcases Nat.eq_zero_or_pos n with rfl | hpos
  · have hnone : ((0 : Nat) : Rat) * 2 ^ e = 0 := by rw [Nat.cast_zero, zero_mul]
    rw [hnone]
    exact Unsigned.zero.pack
  · rw [Int.compare_eq_gt.2 (Int.natCast_pos.2 hpos)]
    exact unsigned_pack_round hpos e

theorem decreaseExponent_mul_zpow (m : Nat) {e lower : Int} (h : lower ≤ e) :
    ((decreaseExponent m e lower).1 : Rat) * 2 ^ lower = m * 2 ^ e := by
  have hlower : lower = e - (e - lower).toNat := by omega
  calc ((decreaseExponent m e lower).1 : Rat) * 2 ^ lower
      = (m <<< (e - lower).toNat : Nat) * 2 ^ (e - (e - lower).toNat : Int) := by
        rw [← hlower]
        rfl
    _ = m * 2 ^ e := shiftLeft_mul_zpow m e _

end

/-! ## Arithmetic -/

section

variable {u w : UnpackedFloat} {v x : Rat}

theorem Unsigned.add (hu : Unsigned u v) (hw : Unsigned w x) :
    Unsigned (Float.Model.pack (UnpackedFloat.add format u w)).unpack (kept (v + x)) := by
  cases hu with
  | zero =>
    rw [zero_add]
    cases hw with
    | zero => exact Unsigned.zero.pack
    | finite hpos h he => exact (Unsigned.finite hpos h he).pack
    | infinity => exact Unsigned.infinity.pack
  | infinity =>
    rw [kept_of_top_le (le_add_of_nonneg_right hw.nonneg), ← kept_of_top_le le_rfl]
    cases hw <;> exact Unsigned.infinity.pack
  | @finite m e hpos h he =>
    have hv := (mul_zpow_pos hpos e).le
    cases hw with
    | zero =>
      rw [add_zero]
      exact (Unsigned.finite hpos h he).pack
    | infinity =>
      rw [kept_of_top_le (le_add_of_nonneg_left hv), ← kept_of_top_le le_rfl]
      exact Unsigned.infinity.pack
    | @finite m' e' =>
      rw [← decreaseExponent_mul_zpow m (min_le_left e e'),
        ← decreaseExponent_mul_zpow m' (min_le_right e e'), ← add_mul, ← Nat.cast_add]
      exact unsigned_pack_normalize _ _

/-- The value of a difference: more than any finite number stays so. -/
def difference (v x : Rat) : Rat := if v = top then top else kept (v - x)

theorem difference_le (hv : kept v = v) (hx : 0 ≤ x) (hle : x ≤ v) : difference v x ≤ v := by
  unfold difference
  split
  · next htop => exact htop.ge
  · calc kept (v - x) ≤ kept v := kept_mono (sub_nonneg.2 hle) (sub_le_self v hx)
      _ = v := hv

theorem difference_mono {v' : Rat} (hle : x ≤ v) (h : v ≤ v') (htop : v' ≤ top) :
    difference v x ≤ difference v' x := by
  unfold difference
  by_cases hv' : v' = top
  · rw [if_pos hv']
    split
    · exact le_rfl
    · exact min_le_right _ _
  · have hv : v ≠ top := fun hv => hv' (le_antisymm htop (hv ▸ h))
    rw [if_neg hv, if_neg hv']
    exact kept_mono (sub_nonneg.2 hle) (sub_le_sub_right h x)

/-- A finite number can be taken from one that is no smaller. -/
theorem Unsigned.sub (hu : Unsigned u v) (hw : Unsigned w x) (hle : x ≤ v) (hx : x < top) :
    Unsigned (Float.Model.pack (UnpackedFloat.sub format u w)).unpack (difference v x) := by
  cases hw with
  | infinity => exact absurd hx (lt_irrefl top)
  | zero =>
    have hkept : difference v 0 = kept v := by
      rw [difference, sub_zero]
      split
      · next htop => rw [htop, kept_of_top_le le_rfl]
      · rfl
    rw [hkept]
    cases hu with
    | zero => exact Unsigned.zero.pack
    | finite hpos h he => exact (Unsigned.finite hpos h he).pack
    | infinity => exact Unsigned.infinity.pack
  | @finite m' e' hpos' h' he' =>
    cases hu with
    | zero => exact absurd hle (mul_zpow_pos hpos' _).not_ge
    | infinity =>
      rw [difference, if_pos rfl, ← kept_of_top_le le_rfl]
      exact Unsigned.infinity.pack
    | @finite m e hpos h he =>
      rw [difference, if_neg (mul_zpow_lt_top h he).ne]
      have hless : (decreaseExponent m' e' (min e e')).1 ≤ (decreaseExponent m e (min e e')).1 := by
        rw [← decreaseExponent_mul_zpow m (min_le_left e e'),
          ← decreaseExponent_mul_zpow m' (min_le_right e e'),
          mul_le_mul_iff_of_pos_right (zpow_pos zero_lt_two _)] at hle
        exact_mod_cast hle
      rw [← decreaseExponent_mul_zpow m (min_le_left e e'),
        ← decreaseExponent_mul_zpow m' (min_le_right e e'), ← sub_mul, ← Nat.cast_sub hless]
      have hnormal := unsigned_pack_normalize
        ((decreaseExponent m e (min e e')).1 - (decreaseExponent m' e' (min e e')).1) (min e e')
      rw [Int.ofNat_sub hless] at hnormal
      exact hnormal

/-- Unless both exponents are the last one, a product has fifty-two bits more than it needs. -/
theorem add_le_place {m m' : Nat} {e e' : Int} (hpos : 0 < m) (h : Canonical m e) (hpos' : 0 < m')
    (h' : Canonical m' e') : e + e' ≤ place ((m * m' : Nat) * 2 ^ (e + e')) := by
  have hprod : 0 < m * m' := Nat.mul_pos hpos hpos'
  rw [place_eq hprod le_rfl (mul_lt_mul_of_pos_right (lt_add_one _) (zpow_pos zero_lt_two _))]
  by_cases hfull : 2 ^ 52 ≤ m * m'
  · have hlog : 52 ≤ (m * m').log2 := (Nat.le_log2 hprod.ne').2 hfull
    omega
  · have hlast : e = -1074 := h.full.resolve_left fun hm =>
      hfull (hm.trans (Nat.le_mul_of_pos_right m hpos'))
    have hlast' : e' = -1074 := h'.full.resolve_left fun hm =>
      hfull (hm.trans (Nat.le_mul_of_pos_left m' hpos))
    omega

theorem Unsigned.mul (hu : Unsigned u v) (hw : Unsigned w x) (hv : v < top) (hx : x < top) :
    Unsigned (Float.Model.pack (UnpackedFloat.mul format u w)).unpack (kept (v * x)) := by
  cases hu with
  | infinity => exact absurd hv (lt_irrefl top)
  | zero =>
    rw [zero_mul]
    cases hw with
    | infinity => exact absurd hx (lt_irrefl top)
    | zero | finite => exact Unsigned.zero.pack
  | @finite m e hpos h =>
    cases hw with
    | infinity => exact absurd hx (lt_irrefl top)
    | zero =>
      rw [mul_zero]
      exact Unsigned.zero.pack
    | @finite m' e' hpos' h' =>
      have hprod : (m * 2 ^ e * (m' * 2 ^ e') : Rat) = (m * m' : Nat) * 2 ^ (e + e') := by
        rw [zpow_add₀ two_ne_zero, Nat.cast_mul]
        ring
      rw [hprod]
      exact unsigned_pack_roundWithAccuracy (mul_zpow_pos (Nat.mul_pos hpos hpos') _)
        (reads_exact_mul_zpow _ _) (add_le_place hpos h hpos' h')

/-- Only finite numbers have a finite product. -/
theorem Unsigned.lt_top_of_mul (hu : Unsigned u v) (hw : Unsigned w x)
    (hfinite : (Float.Model.pack (UnpackedFloat.mul format u w)).unpack.isFinite = true) :
    v < top ∧ x < top := by
  have htop : ¬ kept top < top := (kept_of_top_le le_rfl).not_lt
  cases hu with
  | infinity =>
    cases hw with
    | infinity | zero => exact absurd hfinite Bool.false_ne_true
    | finite => exact absurd (Unsigned.infinity.pack.isFinite_iff.1 hfinite) htop
  | zero =>
    cases hw with
    | infinity => exact absurd hfinite Bool.false_ne_true
    | zero => exact ⟨top_pos, top_pos⟩
    | finite _ h' he' => exact ⟨top_pos, mul_zpow_lt_top h' he'⟩
  | finite _ h he =>
    refine ⟨mul_zpow_lt_top h he, ?_⟩
    cases hw with
    | infinity => exact absurd (Unsigned.infinity.pack.isFinite_iff.1 hfinite) htop
    | zero => exact top_pos
    | finite _ h' he' => exact mul_zpow_lt_top h' he'

/-- A quotient has at least the bits of the numerator less those of the denominator. -/
theorem log2_sub_log2_le {m m' : Nat} (hpos : 0 < m) (hpos' : 0 < m') (e e' : Int) :
    (m.log2 : Int) + e - (m'.log2 + 1 + e') ≤ Int.log 2 (m * 2 ^ e / (m' * 2 ^ e') : Rat) := by
  have hden := mul_zpow_pos hpos' e'
  rw [← Int.zpow_le_iff_le_log Nat.one_lt_two (div_pos (mul_zpow_pos hpos e) hden), Nat.cast_two,
    le_div_iff₀ hden]
  have hnum : ((2 ^ m.log2 : Nat) : Rat) ≤ m := Nat.cast_le.2 (Nat.log2_self_le hpos.ne')
  have hless : (m' : Rat) ≤ (2 ^ (m'.log2 + 1) : Nat) := Nat.cast_le.2 Nat.lt_log2_self.le
  have htwo (k : Int) : (0 : Rat) < 2 ^ k := zpow_pos zero_lt_two k
  calc (2 : Rat) ^ ((m.log2 : Int) + e - (m'.log2 + 1 + e')) * (m' * 2 ^ e')
      ≤ 2 ^ ((m.log2 : Int) + e - (m'.log2 + 1 + e')) * ((2 ^ (m'.log2 + 1) : Nat) * 2 ^ e') :=
        mul_le_mul_of_nonneg_left (mul_le_mul_of_nonneg_right hless (htwo e').le) (htwo _).le
    _ = (2 ^ m.log2 : Nat) * 2 ^ e := by
        rw [two_pow_mul_zpow, two_pow_mul_zpow, ← zpow_add₀ two_ne_zero]
        congr 1
        push_cast
        ring
    _ ≤ m * 2 ^ e := mul_le_mul_of_nonneg_right hnum (htwo e).le

theorem unsigned_pack_divCore {m m' : Nat} {e e' : Int} (hpos : 0 < m) (hpos' : 0 < m') :
    Unsigned (Float.Model.pack (UnpackedFloat.div format (.finite .positive m e hpos)
      (.finite .positive m' e' hpos'))).unpack (kept (m * 2 ^ e / (m' * 2 ^ e'))) := by
  have hlog := log2_sub_log2_le hpos hpos' e e'
  have htarget : format.targetExponent (totalExponent m e - totalExponent m' e') =
      max (m.log2 + 1 + e - (m'.log2 + 1 + e') - 53) (-1074) := rfl
  generalize ht : min (e - e') (format.targetExponent (totalExponent m e - totalExponent m' e')) = t
  rw [htarget] at ht
  have hshift : t = e - e' - (e - e' - t).toNat := by omega
  have hvalue : (m * 2 ^ e / (m' * 2 ^ e') / 2 ^ t : Rat) =
      (m <<< (e - e' - t).toNat : Nat) / m' := by
    have hexponent : e - (e - e' - t).toNat = e' + t := by omega
    have hne (k : Int) : (2 : Rat) ^ k ≠ 0 := zpow_ne_zero k two_ne_zero
    rw [div_div, mul_assoc, ← zpow_add₀ two_ne_zero, ← hexponent, ← shiftLeft_mul_zpow m e,
      mul_div_mul_right _ _ (hne _)]
  have hcore : UnpackedFloat.div format (.finite .positive m e hpos)
      (.finite .positive m' e' hpos') = roundWithAccuracy format .positive
        (m <<< (e - e' - t).toNat / m') t
        (accuracyOfFraction (m <<< (e - e' - t).toNat % m') m') := by
    rw [← ht]
    rfl
  rw [hcore]
  refine unsigned_pack_roundWithAccuracy
    (div_pos (mul_zpow_pos hpos e) (mul_zpow_pos hpos' e')) ?_ ?_
  · rw [hvalue]
    exact reads_fraction _ hpos'
  · unfold place
    omega

/-- The value of a quotient: nothing is less than its half, and to share something among none leaves
more than any finite number. -/
def quotient (v x : Rat) : Rat := if x = 0 then top else if x = top then 0 else kept (v / x)

theorem quotient_mono {v v' : Rat} (hv : 0 ≤ v) (h : v ≤ v') (hx : 0 ≤ x) :
    quotient v x ≤ quotient v' x := by
  unfold quotient
  split
  · exact le_rfl
  · split
    · exact le_rfl
    · exact kept_mono (div_nonneg hv hx) (div_le_div_of_nonneg_right h hx)

theorem Unsigned.div (hu : Unsigned u v) (hw : Unsigned w x) (hv : v < top) (hpos : 0 < v ∨ 0 < x) :
    Unsigned (Float.Model.pack (UnpackedFloat.div format u w)).unpack (quotient v x) := by
  have hzero : kept 0 = 0 := kept_zero
  have htop : kept top = top := kept_of_top_le le_rfl
  cases hu with
  | infinity => exact absurd hv (lt_irrefl top)
  | zero =>
    have hx : 0 < x := hpos.resolve_left (lt_irrefl 0)
    have hquotient : quotient 0 x = 0 := by
      rw [quotient, if_neg hx.ne', zero_div, hzero, ite_self]
    rw [hquotient, ← hzero]
    cases hw with
    | zero => exact absurd hx (lt_irrefl 0)
    | finite | infinity => exact Unsigned.zero.pack
  | finite hm =>
    cases hw with
    | zero =>
      rw [quotient, if_pos rfl, ← htop]
      exact Unsigned.infinity.pack
    | infinity =>
      rw [quotient, if_neg top_pos.ne', if_pos rfl, ← hzero]
      exact Unsigned.zero.pack
    | finite hm' h' he' =>
      rw [quotient, if_neg (mul_zpow_pos hm' _).ne', if_neg (mul_zpow_lt_top h' he').ne]
      exact unsigned_pack_divCore hm hm'

/-- A quotient that is a number has no sign. -/
theorem Unsigned.exists_div (hu : Unsigned u v) (hw : Unsigned w x) {q : Rat}
    (h : value? (Float.Model.pack (UnpackedFloat.div format u w)).unpack = some q) :
    ∃ r, Unsigned (Float.Model.pack (UnpackedFloat.div format u w)).unpack r := by
  cases hu with
  | finite hm hm' he =>
    have hu := Unsigned.finite hm hm' he
    exact ⟨_, hu.div hw (mul_zpow_lt_top hm' he) (.inl (mul_zpow_pos hm _))⟩
  | zero =>
    by_cases hpos : 0 < x
    · exact ⟨_, Unsigned.zero.div hw top_pos (.inr hpos)⟩
    · cases hw with
      | zero => exact absurd h.symm (Option.some_ne_none q)
      | finite hm => exact absurd (mul_zpow_pos hm _) hpos
      | infinity => exact absurd top_pos hpos
  | infinity =>
    cases hw with
    | infinity => exact absurd h.symm (Option.some_ne_none q)
    | zero | finite => exact ⟨_, Unsigned.infinity.pack⟩

end

/-! ## Whole numbers -/

/-- Powers of two are kept as they are. -/
theorem kept_two_zpow {k : Int} (hlow : -1022 ≤ k) (hhigh : k ≤ 1023) :
    kept (2 ^ k) = 2 ^ k := by
  have hcanonical : Canonical (2 ^ 52) (k - 52) := ⟨by decide, by omega, .inl le_rfl⟩
  have hvalue : ((2 ^ 52 : Nat) * 2 ^ (k - 52) : Rat) = 2 ^ k := by
    rw [two_pow_mul_zpow, Nat.cast_ofNat, add_sub_cancel]
  have hkept := (Unsigned.finite (by decide) hcanonical (by omega)).kept_eq
  rwa [hvalue] at hkept

/-- What is kept of a value is finite unless the value is close to the largest. -/
theorem kept_lt_top {v : Rat} (hv : 0 ≤ v) (h : v ≤ 2 ^ (1023 : Int)) : kept v < top :=
  calc kept v ≤ kept (2 ^ (1023 : Int)) := kept_mono hv h
    _ = 2 ^ (1023 : Int) := kept_two_zpow (by decide) le_rfl
    _ < top := zpow_lt_zpow_right₀ one_lt_two (by decide)

theorem natCast_le_zpow {n : Nat} {k : Int} (h : n < 2 ^ 128) (hk : 128 ≤ k) :
    (n : Rat) ≤ 2 ^ k :=
  calc (n : Rat) ≤ (2 ^ 128 : Nat) := Nat.cast_le.2 h.le
    _ = 2 ^ (128 : Int) := by rw [Nat.cast_pow, Nat.cast_two]; rfl
    _ ≤ 2 ^ k := zpow_le_zpow_right₀ one_le_two hk

theorem kept_natCast_lt_top {n : Nat} (h : n < 2 ^ 128) : kept n < top :=
  kept_lt_top (Nat.cast_nonneg n) (natCast_le_zpow h (by decide))

theorem unsigned_one : Unsigned (Float.ofBits 0x3FF0000000000000).toModel.unpack 1 := by
  have hvalue : ((2 ^ 52 : Nat) * 2 ^ (-52 : Int) : Rat) = 1 := two_pow_mul_zpow 52 (-52)
  rw [← hvalue]
  exact .finite (by decide) ⟨by decide, by decide, .inl le_rfl⟩ (by decide)

theorem kept_one : kept 1 = 1 := unsigned_one.kept_eq

theorem kept_natCast_pos {n : Nat} (h : 0 < n) : 0 < kept n :=
  calc (0 : Rat) < kept 1 := zero_lt_one.trans_eq kept_one.symm
    _ ≤ kept n := kept_mono zero_le_one (Nat.one_le_cast.2 h)

theorem unsigned_toFloat (n : UInt64) : Unsigned n.toFloat.toModel.unpack (kept n.toNat) := by
  have hnormal := unsigned_pack_normalize n.toNat 0
  rw [zpow_zero, mul_one] at hnormal
  exact hnormal

theorem mul_finite {m m' : Nat} {e e' : Int} (hpos : 0 < m) (hpos' : 0 < m') :
    UnpackedFloat.mul format (.finite .positive m e hpos) (.finite .positive m' e' hpos') =
      roundWithAccuracy format .positive (m * m') (e + e') .exact := rfl

/-- What a whole number is as a real one. -/
theorem unsigned_ofNat (n : Nat) : Unsigned (Float.ofNat n).toModel.unpack (kept n) := by
  change Unsigned (Float.ofScientific n false 0).toModel.unpack (kept n)
  unfold Float.ofScientific
  split
  · next hsmall =>
    -- the number itself, times one
    have hword : n.toUInt64.toNat = n := Nat.mod_eq_of_lt (by omega)
    have hn := unsigned_toFloat n.toUInt64
    rw [hword] at hn
    have hone : (1 : Rat) < top := unsigned_one.isFinite_iff.1 rfl
    have hproduct := hn.mul unsigned_one (kept_natCast_lt_top (by omega)) hone
    rw [mul_one, hn.kept_eq] at hproduct
    exact hproduct
  · next hlarge =>
    -- a multiple of it, times a power of ten that is one
    change Unsigned (Float.Model.pack (UnpackedFloat.ofScientific format n 0)).unpack (kept n)
    have hpos : n ≠ 0 := by
      rintro rfl
      exact hlarge ⟨by decide, by decide⟩
    have hpower : (2 ^ format.exponentBits : Int) = 2048 := rfl
    have hbits : format.mantissaBits = 53 := rfl
    have hten : 10 ^ (0 : Int).toNat = 1 := rfl
    unfold UnpackedFloat.ofScientific
    rw [dif_neg hpos, hpower, if_neg (by omega), if_neg (by omega), if_pos (Int.le_refl 0),
      mul_finite, hten, hbits, Nat.mul_one, Int.add_zero]
    have hreads := reads_exact_mul_zpow (n <<< 53) (0 - (53 : Nat))
    rw [shiftLeft_mul_zpow, zpow_zero, mul_one, zero_sub] at hreads
    have hplace : -((53 : Nat) : Int) ≤ place (n : Rat) := by
      rw [place_eq (m := n) (e := 0) (Nat.pos_of_ne_zero hpos) (by rw [zpow_zero, mul_one])
        (by rw [zpow_zero, mul_one]; exact lt_add_one _)]
      omega
    exact unsigned_pack_roundWithAccuracy (Nat.cast_pos.2 (Nat.pos_of_ne_zero hpos)) hreads hplace

theorem toNat_roundToInt (m : Nat) (e : Int) :
    (roundToInt .positive m e).toNat = ⌊(m * 2 ^ e : Rat)⌋₊ := by
  have hexponent : e - (e - 0).toNat = -((0 - (e - (e - 0).toNat)).toNat : Int) := by omega
  have hreads := (reads_exact (m <<< (e - 0).toNat)).shiftRight (0 - (e - (e - 0).toNat)).toNat
  rw [div_eq_mul_inv, ← zpow_natCast, ← zpow_neg, ← hexponent, shiftLeft_mul_zpow] at hreads
  rw [hreads.floor]
  exact Int.toNat_natCast _

/-- The whole part of a real number, held at the largest word. -/
theorem Unsigned.toNat_toUInt64 {u : UnpackedFloat} {v : Rat} (h : Unsigned u v) :
    u.toUInt64.toNat = min ⌊v⌋₊ (UInt64.size - 1) := by
  have hclamp : u.toUInt64.toNat = min (toInt 0 (UInt64.size - 1) u).toNat (UInt64.size - 1) :=
    Micros.toNat_ofNat _
  rw [hclamp]
  cases h with
  | zero =>
    rw [Nat.floor_zero]
    rfl
  | finite hpos =>
    rw [← toNat_roundToInt]
    rfl
  | infinity =>
    have hlarge : UInt64.size - 1 ≤ ⌊top⌋₊ :=
      Nat.le_floor (natCast_le_zpow (k := 1024) (by decide) (by decide))
    rw [min_eq_right hlarge]
    rfl

end Binary64

end Admission
