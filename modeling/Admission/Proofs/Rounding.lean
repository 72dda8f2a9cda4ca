import Admission.Proofs.Binary64
import Admission.Proofs.Nearest

/-!
# What rounding computes

The arithmetic of real numbers shifts a mantissa to the right until fifty-three bits are left, keeps
one bit of what fell out and whether there was more, and rounds by these.  That is `nearest`.

* **the bits behind a mantissa** — `Reads` says what they tell of the value; shifting keeps it, and
  `Reads.roundedMantissa` is the whole number nearest to it;
* **rounding** — `roundWithAccuracy_cases`: a mantissa and an exponent that read a value `v` are
  rounded to `nearest v`;
* **storing** — `unpack_pack_finite`: a number that can be stored is read back, and one whose
  exponent is too high becomes infinite.
-/

namespace Admission

namespace Binary64

open Float.Model
open Float.Model.UnpackedFloat hiding pack unpack

/-! ## The bits behind a mantissa -/

/-- What a mantissa, the first bit behind it, and whether there is more behind that bit tell of a
number. -/
def Reads : ExtendedMantissa → Rat → Prop
  | ⟨m, false, false⟩, x => x = m
  | ⟨m, false, true⟩, x => m < x ∧ x < m + 1 / 2
  | ⟨m, true, false⟩, x => x = m + 1 / 2
  | ⟨m, true, true⟩, x => m + 1 / 2 < x ∧ x < m + 1

theorem reads_exact (m : Nat) : Reads (.ofMantissaAndAccuracy m .exact) m := rfl

/-- The mantissa is the whole part of the number. -/
theorem Reads.bounds {em : ExtendedMantissa} {x : Rat} (h : Reads em x) :
    em.mantissa ≤ x ∧ x < em.mantissa + 1 := by
  match em, h with
  | ⟨m, false, false⟩, h =>
    obtain rfl : x = m := h
    exact ⟨le_rfl, by linarith⟩
  | ⟨m, false, true⟩, h => exact ⟨h.1.le, by linarith [h.2]⟩
  | ⟨m, true, false⟩, h =>
    obtain rfl : x = m + 1 / 2 := h
    exact ⟨by linarith, by linarith⟩
  | ⟨m, true, true⟩, h => exact ⟨by linarith [h.1], h.2⟩

theorem Reads.floor {em : ExtendedMantissa} {x : Rat} (h : Reads em x) : ⌊x⌋₊ = em.mantissa :=
  (Nat.floor_eq_iff (le_trans (Nat.cast_nonneg _) h.bounds.1)).2 h.bounds

/-- Rounding by the bits gives the nearest whole number. -/
theorem Reads.roundedMantissa {em : ExtendedMantissa} {x : Rat} (h : Reads em x) :
    em.roundedMantissa = halfEven x := by
  unfold halfEven
  rw [h.floor]
  match em, h with
  | ⟨m, false, false⟩, h =>
    obtain rfl : x = m := h
    exact (if_pos (by linarith)).symm
  | ⟨m, false, true⟩, h => exact (if_pos h.2).symm
  | ⟨m, true, false⟩, h =>
    obtain rfl : x = m + 1 / 2 := h
    rw [if_neg (lt_irrefl _), if_pos rfl]
    rfl
  | ⟨m, true, true⟩, h =>
    rw [if_neg h.1.not_gt, if_neg h.1.ne']
    rfl

/-- A step to the right halves the number. -/
theorem Reads.shiftRightOne {em : ExtendedMantissa} {x : Rat} (h : Reads em x) :
    Reads em.shiftRightOne (x / 2) := by
  obtain ⟨m, first, more⟩ := em
  obtain ⟨half, rfl | rfl⟩ : ∃ half, m = 2 * half ∨ m = 2 * half + 1 :=
    ⟨m / 2, by omega⟩
  · -- the bit that falls out is not set
    have hshift : (⟨2 * half, first, more⟩ : ExtendedMantissa).shiftRightOne =
        ⟨half, false, first || more⟩ := by
      simp [ExtendedMantissa.shiftRightOne]
    rw [hshift]
    cases first <;> cases more <;> simp only [Reads, Bool.or_true, Bool.or_false] at h ⊢ <;>
      push_cast at h <;> grind
  · have hshift : (⟨2 * half + 1, first, more⟩ : ExtendedMantissa).shiftRightOne =
        ⟨half, true, first || more⟩ := by
      have hhalf : (2 * half + 1) / 2 = half := by omega
      simp [ExtendedMantissa.shiftRightOne, hhalf]
    rw [hshift]
    cases first <;> cases more <;> simp only [Reads, Bool.or_true, Bool.or_false] at h ⊢ <;>
      push_cast at h <;> grind

theorem Reads.shiftRight {em : ExtendedMantissa} {x : Rat} (h : Reads em x) (n : Nat) :
    Reads (em >>> n) (x / 2 ^ n) := by
  change Reads (n.repeat ExtendedMantissa.shiftRightOne em) _
  induction n with
  | zero => rwa [pow_zero, div_one]
  | succ n ih =>
    rw [Nat.repeat, pow_succ, ← div_div]
    exact ih.shiftRightOne

/-- A quotient and what its remainder tells read the fraction. -/
theorem reads_fraction (n : Nat) {d : Nat} (hd : 0 < d) :
    Reads (.ofMantissaAndAccuracy (n / d) (accuracyOfFraction (n % d) d)) (n / d) := by
  have hpos : (0 : Rat) < d := Nat.cast_pos.2 hd
  have hparts : (n : Rat) / d = (n / d : Nat) + (n % d : Nat) / (d : Rat) := by
    have hsum : (n : Rat) = d * (n / d : Nat) + (n % d : Nat) := by
      exact_mod_cast (Nat.div_add_mod n d).symm
    rw [hsum, add_div, mul_div_cancel_left₀ _ hpos.ne']
  have hless : ((n % d : Nat) : Rat) < d := Nat.cast_lt.2 (Nat.mod_lt n hd)
  have hmore : ((n % d : Nat) : Rat) / d < 1 := (div_lt_one hpos).2 hless
  rw [hparts]
  unfold accuracyOfFraction
  by_cases hzero : n % d = 0
  · rw [if_pos hzero, hzero, Nat.cast_zero, zero_div, add_zero]
    exact reads_exact _
  · rw [if_neg hzero]
    have hrest : (0 : Rat) < (n % d : Nat) / (d : Rat) :=
      div_pos (Nat.cast_pos.2 (Nat.pos_of_ne_zero hzero)) hpos
    rcases lt_trichotomy (2 * (n % d)) d with hlt | heq | hgt
    · rw [Nat.compare_eq_lt.2 hlt]
      have hhalf : ((n % d : Nat) : Rat) / d < 1 / 2 := by
        rw [div_lt_div_iff₀ hpos two_pos]
        exact_mod_cast (by omega : n % d * 2 < 1 * d)
      exact ⟨by linarith, by linarith⟩
    · rw [Nat.compare_eq_eq.2 heq]
      have hhalf : ((n % d : Nat) : Rat) / d = 1 / 2 := by
        rw [div_eq_div_iff hpos.ne' two_ne_zero]
        exact_mod_cast (by omega : n % d * 2 = 1 * d)
      exact congrArg _ hhalf
    · rw [Nat.compare_eq_gt.2 hgt]
      have hhalf : 1 / 2 < ((n % d : Nat) : Rat) / d := by
        rw [div_lt_div_iff₀ two_pos hpos]
        exact_mod_cast (by omega : 1 * d < n % d * 2)
      exact ⟨by linarith, by linarith⟩

/-! ## Rounding -/

/-- A mantissa and an exponent make one number. -/
theorem finite_congr {sign : Sign} {m m' : Nat} {e e' : Int} {hpos : 0 < m} {hpos' : 0 < m'}
    (hmantissa : m = m') (hexponent : e = e') :
    UnpackedFloat.finite sign m e hpos = .finite sign m' e' hpos' := by
  subst hmantissa hexponent
  rfl

/-- The exponent that a mantissa is shifted to. -/
theorem targetExponent_eq (m : Nat) (e : Int) :
    format.targetExponent (totalExponent m e) = max (m.log2 + e - 52) (-1074) := by
  have htarget : format.targetExponent (totalExponent m e) = max (m.log2 + 1 + e - 53) (-1074) :=
    rfl
  rw [htarget]
  omega

section

variable {v : Rat} {m : Nat} {e : Int} {accuracy : Accuracy}

/-- A mantissa that reads a value is shifted to the place of the value. -/
theorem targetExponent_eq_place (hv : 0 < v)
    (hreads : Reads (.ofMantissaAndAccuracy m accuracy) (v / 2 ^ e)) (he : e ≤ place v) :
    format.targetExponent (totalExponent m e) = place v := by
  have hpos : (0 : Rat) < 2 ^ e := zpow_pos zero_lt_two e
  have hbounds := hreads.bounds
  rw [mantissa_ofMantissaAndAccuracy, le_div_iff₀ hpos, div_lt_iff₀ hpos] at hbounds
  rw [targetExponent_eq]
  rcases Nat.eq_zero_or_pos m with rfl | hm
  · -- nothing is left of the value above its exponent, which is then the last place
    have hlt : v < ((2 : Nat) : Rat) ^ e := by
      rw [Nat.cast_two]
      simpa using hbounds.2
    have hlog := (Int.lt_zpow_iff_log_lt Nat.one_lt_two hv).1 hlt
    have hzero : Nat.log2 0 = 0 := by decide
    unfold place at he ⊢
    rw [hzero]
    omega
  · exact (place_eq hm hbounds.1 hbounds.2).symm

theorem shiftToTargetExponent_reads (hv : 0 < v)
    (hreads : Reads (.ofMantissaAndAccuracy m accuracy) (v / 2 ^ e)) (he : e ≤ place v) :
    Reads (shiftToTargetExponent format m e accuracy).1 (v / 2 ^ place v) ∧
      (shiftToTargetExponent format m e accuracy).2 = place v := by
  unfold shiftToTargetExponent shiftToExponent
  rw [targetExponent_eq_place hv hreads he]
  have hsum : e + ((place v - e).toNat : Int) = place v := by omega
  refine ⟨?_, hsum⟩
  have hshift := hreads.shiftRight (place v - e).toNat
  rw [div_div, ← zpow_natCast, ← zpow_add₀ two_ne_zero, hsum] at hshift
  exact hshift

/-- **A mantissa that reads a value is rounded to what is kept of the value.** -/
theorem roundWithAccuracy_cases (sign : Sign) (hv : 0 < v)
    (hreads : Reads (.ofMantissaAndAccuracy m accuracy) (v / 2 ^ e)) (he : e ≤ place v) :
    (nearest v = 0 ∧ roundWithAccuracy format sign m e accuracy = .zero sign) ∨
      ∃ (m' : Nat) (e' : Int) (hpos : 0 < m'), Canonical m' e' ∧ nearest v = m' * 2 ^ e' ∧
        roundWithAccuracy format sign m e accuracy = .finite sign m' e' hpos := by
  obtain ⟨hfirst, hplace⟩ := shiftToTargetExponent_reads hv hreads he
  have hrounded : rounded m e accuracy =
      shiftToTargetExponent format (halfEven (v / 2 ^ place v)) (place v) .exact := by
    unfold rounded
    dsimp only
    rw [hplace, hfirst.roundedMantissa]
  rw [roundWithAccuracy_eq]
  by_cases hzero : nearest v = 0
  · refine .inl ⟨hzero, ?_⟩
    have hnone : halfEven (v / 2 ^ place v) = 0 := by
      have hne : (2 : Rat) ^ place v ≠ 0 := zpow_ne_zero _ two_ne_zero
      exact_mod_cast (mul_eq_zero.1 hzero).resolve_right hne
    rw [hnone] at hrounded
    refine dif_pos (Nat.le_zero.1 ?_)
    rw [hrounded]
    exact mantissa_shiftRight_le _ _
  · -- the second shift only takes back the carry of the rounding
    obtain ⟨m', e', hpos, hcanonical, hle, heq⟩ := exists_canonical hv hzero
    have hv' : (0 : Rat) < m' * 2 ^ e' := mul_pos (Nat.cast_pos.2 hpos) (zpow_pos two_pos e')
    have hplace' : place (m' * 2 ^ e' : Rat) = e' := place_of_canonical hpos hcanonical
    have hne : ∀ k : Int, (2 : Rat) ^ k ≠ 0 := fun k => zpow_ne_zero k two_ne_zero
    have hwhole : Reads (.ofMantissaAndAccuracy (halfEven (v / 2 ^ place v)) .exact)
        (m' * 2 ^ e' / 2 ^ place v) := by
      rw [← heq, nearest, mul_div_cancel_right₀ _ (hne _)]
      exact reads_exact _
    obtain ⟨hsecond, hexponent⟩ :=
      shiftToTargetExponent_reads hv' hwhole (hle.trans_eq hplace'.symm)
    rw [hplace', mul_div_cancel_right₀ _ (hne _)] at hsecond
    have hmantissa := hsecond.floor
    rw [Nat.floor_natCast, ← hrounded] at hmantissa
    rw [hplace', ← hrounded] at hexponent
    refine .inr ⟨m', e', hpos, hcanonical, heq, ?_⟩
    rw [dif_neg (hmantissa ▸ hpos.ne')]
    exact finite_congr hmantissa.symm hexponent

end

/-! ## Storing -/

/-- The sign is the highest bit, above the exponent and the mantissa. -/
theorem unpackSign_packComponents (sign : Sign) (exponent : BitVec 11) (mantissa : BitVec 52) :
    unpackSign (packComponents format sign exponent mantissa) = sign.toBitVec := by
  have hbit : BitVec.extractLsb' 63 1 (sign.toBitVec ++ exponent ++ mantissa) = sign.toBitVec := by
    rw [BitVec.extractLsb'_append_eq_of_le (by decide),
      BitVec.extractLsb'_append_eq_of_le (by decide)]
    exact BitVec.extractLsb'_eq_self
  exact hbit

theorem ofBitVec_toBitVec (sign : Sign) : Sign.ofBitVec sign.toBitVec = sign := by
  cases sign <;> rfl

/-- What is stored with an exponent that is neither the first nor the last one. -/
theorem unpack_packComponents_normal (sign : Sign) (exponent : BitVec 11) (mantissa : BitVec 52)
    (hzero : exponent.toNat ≠ 0) (hlast : exponent.toNat ≠ 2047) :
    ∃ h, UnpackedFloat.unpack format (packComponents format sign exponent mantissa) =
      .finite sign (2 ^ 52 + mantissa.toNat) (exponent.toNat - 1075) h := by
  have hexponent : unpackExponent (packComponents format sign exponent mantissa) = exponent :=
    unpackExponent_packComponents ..
  have hmantissa : unpackMantissa (packComponents format sign exponent mantissa) = mantissa :=
    unpackMantissa_packComponents ..
  have hbits : (1#1 ++ unpackMantissa (packComponents format sign exponent mantissa)).toNat =
      2 ^ 52 + mantissa.toNat := by
    rw [hmantissa, BitVec.toNat_append, ← Nat.shiftLeft_add_eq_or_of_lt mantissa.isLt]
    rfl
  have hzero : exponent ≠ 0#11 := fun h => hzero (congrArg BitVec.toNat h)
  have hlast : exponent ≠ -1#11 := fun h => hlast (congrArg BitVec.toNat h)
  refine ⟨by omega, ?_⟩
  unfold UnpackedFloat.unpack
  dsimp only
  rw [hexponent, unpackSign_packComponents, ofBitVec_toBitVec]
  rw [if_neg hlast, if_neg hzero]
  exact finite_congr hbits rfl

/-- What is stored with the first exponent. -/
theorem unpack_packComponents_zero (sign : Sign) {mantissa : BitVec 52}
    (hpos : 0 < mantissa.toNat) :
    UnpackedFloat.unpack format (packComponents format sign 0#11 mantissa) =
      .finite sign mantissa.toNat (-1074) hpos := by
  have hexponent : unpackExponent (packComponents format sign 0#11 mantissa) = 0#11 :=
    unpackExponent_packComponents ..
  have hmantissa : unpackMantissa (packComponents format sign 0#11 mantissa) = mantissa :=
    unpackMantissa_packComponents ..
  have hzero : mantissa ≠ 0#52 := fun h => hpos.ne' (congrArg BitVec.toNat h)
  unfold UnpackedFloat.unpack
  dsimp only
  rw [hexponent, unpackSign_packComponents, ofBitVec_toBitVec, if_neg (by decide), if_pos rfl,
    dif_neg (hmantissa.trans_ne hzero)]
  exact finite_congr (congrArg BitVec.toNat hmantissa) rfl

/-- The bits of a number: its exponent is stored with an offset, its mantissa without the
highest bit. -/
theorem pack_finite_eq (sign : Sign) {m : Nat} {e : Int} (hpos : 0 < m) :
    UnpackedFloat.pack format (.finite sign m e hpos) =
      if 2048 ≤ (e + 1075).toNat + 1 then packedInfinity format sign
      else if m.log2 + 1 = format.mantissaBits then
        packComponents format sign (.ofNat 11 (e + 1075).toNat) (.ofNat 52 m)
      else packComponents format sign 0#11 (.ofNat 52 m) := by
  rw [← toNat_biased]
  rfl

/-- A number that can be stored, unless its exponent is too high, is read back. -/
theorem unpack_pack_finite (sign : Sign) {m : Nat} {e : Int} (hpos : 0 < m) (h : Canonical m e)
    (he : e ≤ 971) :
    (Float.Model.pack (.finite sign m e hpos)).unpack = .finite sign m e hpos := by
  change UnpackedFloat.unpack format (UnpackedFloat.pack format (.finite sign m e hpos)) = _
  have hle := h.le
  have hlt := h.lt
  rw [pack_finite_eq, if_neg (by omega)]
  by_cases hfull : 2 ^ 52 ≤ m
  · have hlog : m.log2 + 1 = format.mantissaBits :=
      congrArg (· + 1) ((Nat.log2_eq_iff hpos.ne').2 ⟨hfull, h.lt⟩)
    have hexponent : (BitVec.ofNat 11 (e + 1075).toNat).toNat = (e + 1075).toNat :=
      Nat.mod_eq_of_lt (by omega)
    have hmantissa : (BitVec.ofNat 52 m).toNat = m - 2 ^ 52 := by
      rw [BitVec.toNat_ofNat, Nat.mod_eq_sub_mod hfull, Nat.mod_eq_of_lt (by omega)]
    obtain ⟨_, hunpack⟩ := unpack_packComponents_normal sign (.ofNat 11 (e + 1075).toNat)
      (.ofNat 52 m) (by omega) (by omega)
    rw [if_pos hlog]
    exact hunpack.trans (finite_congr (by omega) (by omega))
  · obtain rfl : e = -1074 := h.full.resolve_left hfull
    have hlog : ¬ m.log2 + 1 = format.mantissaBits := by
      have : m.log2 < 52 := (Nat.log2_lt hpos.ne').2 (by omega)
      change ¬ m.log2 + 1 = 53
      omega
    have hmantissa : (BitVec.ofNat 52 m).toNat = m := Nat.mod_eq_of_lt (by omega)
    rw [if_neg hlog]
    exact (unpack_packComponents_zero sign (by omega)).trans (finite_congr hmantissa rfl)

/-- A number whose exponent is too high becomes infinite. -/
theorem unpack_pack_finite_of_lt (sign : Sign) {m : Nat} {e : Int} (hpos : 0 < m) (he : 971 < e) :
    (Float.Model.pack (.finite sign m e hpos)).unpack = .infinity sign := by
  change UnpackedFloat.unpack format (UnpackedFloat.pack format (.finite sign m e hpos)) = _
  rw [pack_finite_eq, if_pos (by omega)]
  cases sign <;> rfl

/-- What is read can be stored. -/
theorem canonical_of_unpack {bits : BitVec format.numBits} {sign : Sign} {m : Nat} {e : Int}
    {hpos : 0 < m} (h : UnpackedFloat.unpack format bits = .finite sign m e hpos) :
    Canonical m e ∧ e ≤ 971 := by
  have hexponent : (unpackExponent bits).toNat < 2048 := (unpackExponent bits).isLt
  have hmantissa : (unpackMantissa bits).toNat < 2 ^ 52 := (unpackMantissa bits).isLt
  unfold UnpackedFloat.unpack at h
  dsimp only at h
  by_cases hall : unpackExponent bits = -1#11
  · rw [if_pos hall] at h
    by_cases hnone : unpackMantissa bits = 0#52
    · rw [if_pos hnone] at h
      cases h
    · rw [if_neg hnone] at h
      cases h
  · have hlast : (unpackExponent bits).toNat ≠ 2047 := fun heq =>
      hall (BitVec.eq_of_toNat_eq heq)
    rw [if_neg hall] at h
    by_cases hzero : unpackExponent bits = 0#11
    · rw [if_pos hzero] at h
      by_cases hnone : unpackMantissa bits = 0#52
      · rw [dif_pos hnone] at h
        cases h
      · rw [dif_neg hnone] at h
        cases h
        rw [hzero, exponentBias_format]
        exact ⟨⟨by omega, by decide, .inr (by decide)⟩, by decide⟩
    · have hpositive : (unpackExponent bits).toNat ≠ 0 := fun heq =>
        hzero (BitVec.eq_of_toNat_eq heq)
      rw [if_neg hzero] at h
      cases h
      have hbits : (1#1 ++ unpackMantissa bits).toNat = 2 ^ 52 + (unpackMantissa bits).toNat := by
        rw [BitVec.toNat_append, ← Nat.shiftLeft_add_eq_or_of_lt hmantissa]
        rfl
      rw [hbits, exponentBias_format]
      exact ⟨⟨by omega, by omega, .inl (by omega)⟩, by omega⟩

end Binary64

end Admission
