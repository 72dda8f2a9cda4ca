import Admission.Document.Basic
import Admission.Meter.Bucket
import Mathlib.Algebra.GroupWithZero.Nat

/-!
# Finite numbers

Two facts about rounded arithmetic: a whole number of sixty-four bits is finite as a real one, and
the steady interval of a bucket is finite or positive infinity, but nothing else.

* **bounds** — `Binary64.Within` bounds the mantissa and the exponent of an unpacked number.  The
  bounds need not be sharp: the largest exponent is far above all that occur here;
* **packing** — a number within the largest exponent stays finite when it is packed
  (`Binary64.within_pack`), and any other one becomes the infinity of its sign
  (`Binary64.pack_finite`);
* **rounding** — a rounded mantissa is at most one bit longer and moves the exponent by no more than
  it has bits (`Binary64.within_roundWithAccuracy`), so products and whole numbers are within bounds
  again.
-/

namespace Admission

namespace Binary64

open Float.Model
open Float.Model.UnpackedFloat hiding pack unpack

/-- The format of real numbers. -/
abbrev format : Format := Format.binary64

/-! ## Packed numbers -/

/-- A finite number whose mantissa has at most so many bits and whose exponent is at most so high. -/
def Within (bits high : Nat) : UnpackedFloat → Prop
  | .zero _ => True
  | .finite _ mantissa exponent _ => mantissa < 2 ^ bits ∧ exponent ≤ high
  | _ => False

theorem Within.isFinite {bits high : Nat} {u : UnpackedFloat} (h : Within bits high u) :
    u.isFinite = true := by
  cases u with
  | zero | finite => rfl
  | infinity | notANumber => exact h.elim

theorem Within.mono {bits high high' : Nat} {u : UnpackedFloat} (h : Within bits high u)
    (hle : high ≤ high') : Within bits high' u := by
  match u, h with
  | .zero _, _ => trivial
  | .finite .., h => exact ⟨h.1, by have := h.2; omega⟩

theorem exponentBias_format :
    (format.exponentBias : Int) + format.mantissaBitsWithoutImplicit = 1075 := rfl

/-- Bits of an exponent that are not all set are those of a finite number. -/
theorem within_unpack {bits : BitVec format.numBits} {high : Nat}
    (h : unpackExponent bits ≠ -1#11) (hhigh : (unpackExponent bits).toNat ≤ high + 1075) :
    Within 53 high (UnpackedFloat.unpack format bits) := by
  unfold UnpackedFloat.unpack
  dsimp only
  rw [if_neg h]
  by_cases hzero : unpackExponent bits = 0#11
  · rw [if_pos hzero]
    by_cases hm : unpackMantissa bits = 0#52
    · rw [dif_pos hm]
      trivial
    · rw [dif_neg hm]
      refine ⟨?_, ?_⟩
      · have : (unpackMantissa bits).toNat < 2 ^ 52 := (unpackMantissa bits).isLt
        omega
      · rw [hzero, exponentBias_format, BitVec.toNat_zero]
        omega
  · rw [if_neg hzero]
    refine ⟨(1#1 ++ unpackMantissa bits).isLt, ?_⟩
    rw [exponentBias_format]
    omega

theorem within_unpack_packComponents (sign : Sign) {exponent : BitVec 11} (mantissa : BitVec 52)
    {high : Nat} (h : exponent ≠ -1#11) (hhigh : exponent.toNat ≤ high + 1075) :
    Within 53 high (UnpackedFloat.unpack format (packComponents format sign exponent mantissa)) := by
  have hexponent : unpackExponent (packComponents format sign exponent mantissa) = exponent :=
    unpackExponent_packComponents ..
  refine within_unpack (hexponent.trans_ne h) ?_
  rw [hexponent]
  exact hhigh

/-- The exponent that is stored for a number. -/
theorem toNat_biased (exponent : Int) :
    (exponent + format.exponentBias + (52 : Nat)).toNat = (exponent + 1075).toNat := by
  have : exponent + format.exponentBias + (52 : Nat) = exponent + 1075 :=
    (Int.add_assoc ..).trans (congrArg _ exponentBias_format)
  rw [this]

theorem within_pack_finite (sign : Sign) {mantissa : Nat} {exponent : Int} (hpos : 0 < mantissa)
    {high : Nat} (he : exponent ≤ 971) (hhigh : exponent ≤ high) :
    Within 53 high (Float.Model.pack (.finite sign mantissa exponent hpos)).unpack := by
  change Within 53 high (UnpackedFloat.unpack format (UnpackedFloat.pack format _))
  have hsmall : (exponent + 1075).toNat < 2047 := by omega
  unfold UnpackedFloat.pack
  simp only [toNat_biased]
  rw [if_neg (by change ¬ 2048 ≤ _; omega)]
  split
  · apply within_unpack_packComponents
    · intro hall
      have := congrArg BitVec.toNat hall
      change (exponent + 1075).toNat % 2048 = 2047 at this
      omega
    · change (exponent + 1075).toNat % 2048 ≤ _
      omega
  · apply within_unpack_packComponents
    · decide
    · simp

/-- A number within the largest exponent stays finite. -/
theorem within_pack {bits high : Nat} {u : UnpackedFloat} (h : Within bits high u)
    (hhigh : high ≤ 971) : Within 53 high (Float.Model.pack u).unpack := by
  match u, h with
  | .zero sign, _ => exact within_unpack_packComponents sign 0 (by decide) (Nat.zero_le _)
  | .finite sign _ _ hpos, h => exact within_pack_finite sign hpos (by have := h.2; omega) h.2

theorem isFinite_pack_zero (sign : Sign) : (Float.Model.pack (.zero sign)).isFinite = true := by
  cases sign <;> decide

/-- A number above the largest exponent becomes the infinity of its sign. -/
theorem pack_finite (sign : Sign) {mantissa : Nat} {exponent : Int} (hpos : 0 < mantissa) :
    (Float.Model.pack (.finite sign mantissa exponent hpos)).isFinite = true ∨
      Float.Model.pack (.finite sign mantissa exponent hpos) = Float.Model.pack (.infinity sign) := by
  by_cases h : exponent ≤ 971
  · have hhigh : exponent ≤ (971 : Nat) := h
    exact .inl (within_pack_finite sign hpos h hhigh).isFinite
  · right
    have hpack : UnpackedFloat.pack format (.finite sign mantissa exponent hpos) =
        packedInfinity format sign := by
      unfold UnpackedFloat.pack
      simp only [toNat_biased]
      rw [if_pos (by change 2048 ≤ _; omega)]
    unfold Float.Model.pack
    congr 2

/-! ## Rounding -/

theorem mantissa_shiftRight_le (m : ExtendedMantissa) (n : Nat) :
    (m >>> n).mantissa ≤ m.mantissa := by
  change (n.repeat ExtendedMantissa.shiftRightOne m).mantissa ≤ m.mantissa
  induction n with
  | zero => exact Nat.le_refl _
  | succ n ih =>
    rw [Nat.repeat]
    exact Nat.le_trans (Nat.div_le_self _ 2) ih

theorem roundedMantissa_le (m : ExtendedMantissa) : m.roundedMantissa ≤ m.mantissa + 1 := by
  obtain ⟨mantissa, round, sticky⟩ := m
  have : mantissa % 2 < 2 := Nat.mod_lt _ Nat.two_pos
  cases round <;> cases sticky <;>
    simp only [ExtendedMantissa.roundedMantissa, ExtendedMantissa.accuracy,
      Accuracy.roundToNearestEven] <;> omega

theorem mantissa_ofMantissaAndAccuracy (mantissa : Nat) (accuracy : Accuracy) :
    (ExtendedMantissa.ofMantissaAndAccuracy mantissa accuracy).mantissa = mantissa := by
  unfold ExtendedMantissa.ofMantissaAndAccuracy
  split <;> rfl

theorem shiftToTargetExponent_le {bits high mantissa : Nat} {exponent : Int} (accuracy : Accuracy)
    (hm : mantissa < 2 ^ bits) (he : exponent ≤ high) :
    (shiftToTargetExponent format mantissa exponent accuracy).1.mantissa ≤ mantissa ∧
      (shiftToTargetExponent format mantissa exponent accuracy).2 ≤ (high + bits : Nat) := by
  have hlog : mantissa.log2 ≤ bits := by
    rcases Nat.eq_zero_or_pos mantissa with rfl | hpos
    · simp
    · exact Nat.le_of_lt ((Nat.log2_lt (Nat.ne_of_gt hpos)).2 hm)
  have htarget : format.targetExponent (totalExponent mantissa exponent) =
      max (mantissa.log2 + 1 + exponent - 53) (-1074) := rfl
  unfold shiftToTargetExponent shiftToExponent
  refine ⟨?_, ?_⟩
  · exact Nat.le_trans (mantissa_shiftRight_le _ _)
      (Nat.le_of_eq (mantissa_ofMantissaAndAccuracy _ _))
  · simp only [htarget]
    omega

/-- What rounding makes of a mantissa and an exponent. -/
def rounded (mantissa : Nat) (exponent : Int) (accuracy : Accuracy) : ExtendedMantissa × Int :=
  let shifted := shiftToTargetExponent format mantissa exponent accuracy
  shiftToTargetExponent format shifted.1.roundedMantissa shifted.2 .exact

theorem roundWithAccuracy_eq (sign : Sign) (mantissa : Nat) (exponent : Int)
    (accuracy : Accuracy) :
    roundWithAccuracy format sign mantissa exponent accuracy =
      if h : (rounded mantissa exponent accuracy).1.mantissa = 0 then .zero sign
      else .finite sign (rounded mantissa exponent accuracy).1.mantissa
        (rounded mantissa exponent accuracy).2 (Nat.pos_of_ne_zero h) :=
  rfl

theorem within_roundWithAccuracy {bits high mantissa : Nat} {exponent : Int} (sign : Sign)
    (accuracy : Accuracy) (hm : mantissa < 2 ^ bits) (he : exponent ≤ high) :
    Within (bits + 1) (high + bits + (bits + 1))
      (roundWithAccuracy format sign mantissa exponent accuracy) := by
  obtain ⟨hm₁, he₁⟩ := shiftToTargetExponent_le accuracy hm he
  have hround := roundedMantissa_le (shiftToTargetExponent format mantissa exponent accuracy).1
  have hrounded : (shiftToTargetExponent format mantissa exponent accuracy).1.roundedMantissa <
      2 ^ (bits + 1) := by
    rw [Nat.pow_succ]
    omega
  obtain ⟨hm₂, he₂⟩ := shiftToTargetExponent_le .exact hrounded he₁
  rw [roundWithAccuracy_eq]
  by_cases hzero : (rounded mantissa exponent accuracy).1.mantissa = 0
  · rw [dif_pos hzero]
    trivial
  · rw [dif_neg hzero]
    exact ⟨Nat.lt_of_le_of_lt hm₂ hrounded, he₂⟩

/-! ## Operations -/

theorem within_mul {bits high bits' high' : Nat} {x y : UnpackedFloat} (hx : Within bits high x)
    (hy : Within bits' high' y) :
    Within (bits + bits' + 1) (high + high' + (bits + bits') + (bits + bits' + 1))
      (UnpackedFloat.mul format x y) := by
  match x, y, hx, hy with
  | .zero _, .zero _, _, _ => trivial
  | .zero _, .finite .., _, _ => trivial
  | .finite .., .zero _, _, _ => trivial
  | .finite _ m e _, .finite _ m' e' _, hx, hy =>
    apply within_roundWithAccuracy
    · rw [Nat.pow_add]
      exact Nat.mul_lt_mul'' hx.1 hy.1
    · have := hx.2
      have := hy.2
      omega

/-- A number below `2 ^ 64` keeps a small exponent when it is rounded. -/
theorem within_ofNat {n : Nat} (h : n < 2 ^ 64) : Within 117 233 (UnpackedFloat.ofNat format n) := by
  unfold UnpackedFloat.ofNat UnpackedFloat.ofInt UnpackedFloat.normalize
  split
  · next hlt => exact absurd (Int.compare_eq_lt.1 hlt) (by omega)
  · trivial
  · have hlog : n.log2 < 64 := by
      rcases Nat.eq_zero_or_pos n with rfl | hpos
      · decide
      · exact (Nat.log2_lt (Nat.ne_of_gt hpos)).2 h
    have htarget : format.targetExponent (totalExponent n 0) =
        max ((n.log2 : Int) + 1 + 0 - 53) (-1074) := rfl
    rw [Int.toNat_natCast]
    unfold UnpackedFloat.round decreaseExponent
    dsimp only
    rw [htarget]
    have hm : n <<< (0 - max ((n.log2 : Int) + 1 + 0 - 53) (-1074)).toNat < 2 ^ 116 := by
      rw [Nat.shiftLeft_eq]
      calc n * 2 ^ (0 - max ((n.log2 : Int) + 1 + 0 - 53) (-1074)).toNat
          ≤ n * 2 ^ 52 := Nat.mul_le_mul_left _ (Nat.pow_le_pow_right Nat.two_pos (by omega))
        _ < 2 ^ 116 := by omega
    have he : 0 - ((0 - max ((n.log2 : Int) + 1 + 0 - 53) (-1074)).toNat : Int) ≤ (0 : Nat) := by
      omega
    exact within_roundWithAccuracy .positive .exact hm he

theorem within_neg {bits high : Nat} {u : UnpackedFloat} (h : Within bits high u) :
    Within bits high u.neg := by
  match u, h with
  | .zero _, _ => trivial
  | .finite .., h => exact h

/-- A whole number below `2 ^ 64` is finite as a real one, and far from the largest. -/
theorem within_toModel_ofNat {n : Nat} (h : n < 2 ^ 64) :
    Within 53 446 (Float.ofNat n).toModel.unpack := by
  change Within 53 446 (Float.ofScientific n false 0).toModel.unpack
  unfold Float.ofScientific
  split
  · -- the number itself, times one
    have hword : n.toUInt64.toNat = n := Nat.mod_eq_of_lt h
    have hn : Within 53 233 n.toUInt64.toFloat.toModel.unpack :=
      within_pack (within_ofNat (hword.symm ▸ h)) (by decide)
    have hone : Within 53 0 (Float.ofBits 0x3FF0000000000000).toModel.unpack := ⟨by decide, by decide⟩
    exact within_pack (within_mul hn hone) (by decide)
  · next hlarge =>
    -- a multiple of it, times a power of ten that is one
    change Within 53 446 (Float.Model.pack (UnpackedFloat.ofScientific format n 0)).unpack
    have hpos : n ≠ 0 := by
      rintro rfl
      exact hlarge ⟨by decide, by decide⟩
    have hpower : (2 ^ format.exponentBits : Int) = 2048 := rfl
    have hshift : n <<< format.mantissaBits < 2 ^ 117 := by
      rw [Nat.shiftLeft_eq]
      change n * 2 ^ 53 < 2 ^ 117
      omega
    unfold UnpackedFloat.ofScientific
    rw [dif_neg hpos, hpower, if_neg (by omega), if_neg (by omega), if_pos (Int.le_refl 0)]
    generalize hx : UnpackedFloat.finite .positive (n <<< format.mantissaBits) _ _ = x
    generalize hy : UnpackedFloat.finite .positive (10 ^ (0 : Int).toNat) 0 _ = y
    have hn : Within 117 0 x := hx ▸ ⟨hshift, by decide⟩
    have hone : Within 1 0 y := hy ▸ ⟨by decide, by decide⟩
    exact (within_pack (within_mul hn hone) (by decide)).mono (by decide)

/-- Whole numbers of sixty-four bits are finite as real ones. -/
theorem isFinite_ofInt {n : Int} (h : Document.isWord64 n = true) :
    (Numeral.ofInt n).isFinite = true := by
  have hbound : -(2 ^ 63 : Int) ≤ n ∧ n < 2 ^ 64 := by
    simp only [Document.isWord64, Numeral.isSigned, Numeral.isUnsigned, Bool.or_eq_true,
      Bool.and_eq_true, decide_eq_true_eq] at h
    have hsigned : ((Nat.pow 2 (64 - 1) : Nat) : Int) = 2 ^ 63 := rfl
    have hunsigned : ((Nat.pow 2 64 : Nat) : Int) = 2 ^ 64 := rfl
    omega
  unfold Numeral.ofInt
  split
  · exact (within_toModel_ofNat (by omega)).isFinite
  · exact (within_pack (within_neg (within_toModel_ofNat (by omega))) (by decide)).isFinite

/-- Rounding keeps the sign. -/
theorem pack_roundWithAccuracy (sign : Sign) (mantissa : Nat) (exponent : Int)
    (accuracy : Accuracy) :
    (Float.Model.pack (roundWithAccuracy format sign mantissa exponent accuracy)).isFinite = true ∨
      Float.Model.pack (roundWithAccuracy format sign mantissa exponent accuracy) =
        Float.Model.pack (.infinity sign) := by
  rw [roundWithAccuracy_eq]
  by_cases hzero : (rounded mantissa exponent accuracy).1.mantissa = 0
  · rw [dif_pos hzero]
    exact .inl (isFinite_pack_zero sign)
  · rw [dif_neg hzero]
    exact pack_finite sign _

/-! ## Quotients -/

/-- A positive number divided by a positive one is finite or positive infinity. -/
theorem div_of_pos {x y : Float} (hx : 0 < x) (hfinite : x.isFinite = true) (hy : 0 < y) :
    (x / y).isFinite = true ∨ x / y = 1.0 / 0.0 := by
  have hpositive {z : Float} (h : 0 < z) :
      z.toModel.unpack = .infinity .positive ∨
        ∃ m e hm, z.toModel.unpack = .finite .positive m e hm := by
    have hlt : ((UnpackedFloat.zero .positive).compare z.toModel.unpack == some .lt) = true :=
      of_decide_eq_true h
    cases hz : z.toModel.unpack with
    | infinity sign => cases sign with
      | positive => exact .inl rfl
      | negative => rw [hz] at hlt; cases hlt
    | notANumber | zero => rw [hz] at hlt; cases hlt
    | finite sign m e hm => cases sign with
      | positive => exact .inr ⟨m, e, hm, rfl⟩
      | negative => rw [hz] at hlt; cases hlt
  obtain hinf | ⟨m, e, hm, hx⟩ := hpositive hx
  · have hunpack : x.toModel.unpack.isFinite = true := hfinite
    rw [hinf] at hunpack
    cases hunpack
  have hdiv : x / y = .ofModel (Float.Model.pack
      (UnpackedFloat.div format x.toModel.unpack y.toModel.unpack)) := rfl
  rw [hdiv, hx]
  obtain hinf | ⟨m', e', hm', hy⟩ := hpositive hy
  · rw [hinf]
    exact .inl (isFinite_pack_zero .positive)
  · rw [hy]
    rcases pack_roundWithAccuracy .positive (divCore format m e m' e').1
      (divCore format m e m' e').2.1 (divCore format m e m' e').2.2 with h | h
    · exact .inl h
    · exact .inr (congrArg Float.ofModel h)

end Binary64

namespace Bucket

theorem interval_steady (perSecond : Float) :
    (steadyInterval perSecond).isFinite = true ∨ steadyInterval perSecond = 1.0 / 0.0 := by
  unfold steadyInterval
  split
  · next h =>
    exact Binary64.div_of_pos (x := Float.ofNat 1000000) (by decide) (by decide) (of_decide_eq_true h)
  · exact .inr rfl

end Bucket
end Admission
