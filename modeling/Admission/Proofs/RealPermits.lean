import Admission.Proofs.Arithmetic
import Admission.Proofs.PermitOrder

/-!
# Permits as real numbers

Real numbers of sixty-four bits obey the laws of signs and order.  Each law is read off the values:
an operation keeps of the exact result what is nearest to it, and to keep the nearest value turns no
order around.

* **order** — `Binary64.below_iff`, `Binary64.atMost_iff` and `Binary64.unsigned_iff` say what the
  relations mean of values;
* **laws** — the instance `PermitLaws Float`.
-/

namespace Admission

open PermitArith

namespace Binary64

open Float.Model
open Float.Model.UnpackedFloat hiding pack unpack

variable {x y z : Float}

theorem below_iff :
    below x y = true ↔ ∃ v w, value? x.toModel.unpack = some v ∧ value? y.toModel.unpack = some w ∧
      v < w := by
  rw [← compare_eq_lt_iff (stored_unpack _) (stored_unpack _)]
  change decide (x < y) = true ↔ _
  rw [decide_eq_true_eq]
  exact decide_eq_true_iff.trans beq_iff_eq

theorem isNumber_iff : isNumber x = true ↔ ∃ v, value? x.toModel.unpack = some v := by
  change (!x.toModel.unpack.isNaN) = true ↔ _
  cases x.toModel.unpack with
  | notANumber => exact iff_of_false Bool.false_ne_true fun ⟨v, h⟩ => Option.some_ne_none v h.symm
  | infinity | zero | finite => exact iff_of_true rfl ⟨_, rfl⟩

theorem unpack_of_not_isNumber (h : ¬ isNumber x = true) : x.toModel.unpack = .notANumber := by
  rw [isNumber_iff] at h
  cases hx : x.toModel.unpack with
  | notANumber => rfl
  | infinity | zero | finite => rw [hx] at h; exact absurd ⟨_, rfl⟩ h

theorem atMost_iff :
    AtMost x y ↔ ∃ v w, value? x.toModel.unpack = some v ∧ value? y.toModel.unpack = some w ∧
      v ≤ w := by
  rw [AtMost, isNumber_iff, isNumber_iff, Bool.eq_false_iff, Ne, below_iff]
  constructor
  · rintro ⟨⟨v, hv⟩, ⟨w, hw⟩, hnot⟩
    exact ⟨v, w, hv, hw, not_lt.1 fun hlt => hnot ⟨w, v, hw, hv, hlt⟩⟩
  · rintro ⟨v, w, hv, hw, hle⟩
    refine ⟨⟨v, hv⟩, ⟨w, hw⟩, ?_⟩
    rintro ⟨w', v', hw', hv', hlt⟩
    rw [hw] at hw'
    rw [hv] at hv'
    obtain rfl := Option.some.inj hw'
    obtain rfl := Option.some.inj hv'
    exact hle.not_gt hlt

/-- The values that are compared are those of the numbers. -/
theorem atMost_iff_le {v w : Rat} (hx : value? x.toModel.unpack = some v)
    (hy : value? y.toModel.unpack = some w) : AtMost x y ↔ v ≤ w := by
  rw [atMost_iff, hx, hy]
  constructor
  · rintro ⟨v', w', hv, hw, hle⟩
    rwa [Option.some.inj hv, Option.some.inj hw]
  · exact fun hle => ⟨v, w, rfl, rfl, hle⟩

theorem value?_zero : value? (zero : Float).toModel.unpack = some 0 :=
  kept_zero ▸ (unsigned_ofNat 0).value?_eq

theorem isPositive_iff :
    isPositive x = true ↔ ∃ v, value? x.toModel.unpack = some v ∧ 0 < v := by
  rw [isPositive, below_iff, value?_zero]
  constructor
  · rintro ⟨v, w, hv, hw, hlt⟩
    obtain rfl := Option.some.inj hv
    exact ⟨w, hw, hlt⟩
  · exact fun ⟨w, hw, hlt⟩ => ⟨0, w, rfl, hw, hlt⟩

theorem unsigned_iff : PermitArith.Unsigned x ↔ ∃ v, Unsigned x.toModel.unpack v := by
  constructor
  · rintro ⟨hle, hinverse⟩
    obtain ⟨v, w, hv, hw, hle⟩ := atMost_iff.1 hle
    rw [value?_zero] at hv
    obtain rfl := Option.some.inj hv
    rcases hle.eq_or_lt with rfl | hpos
    · obtain ⟨sign, hx⟩ := exists_zero hw
      cases sign with
      | positive => exact ⟨0, hx ▸ .zero⟩
      | negative =>
        -- one divided by the negative zero is below zero
        have hbelow : value? (one / x).toModel.unpack = some (-top) := by
          change value? (Float.Model.pack (UnpackedFloat.div format _ x.toModel.unpack)).unpack = _
          rw [hx]
          rfl
        exact absurd ((atMost_iff_le value?_zero hbelow).1 hinverse) (neg_lt_zero.2 top_pos).not_ge
    · exact ⟨w, unsigned_of_pos (stored_unpack _) hw hpos⟩
  · rintro ⟨v, hv⟩
    refine ⟨(atMost_iff_le value?_zero hv.value?_eq).2 hv.nonneg, ?_⟩
    have hinverse := (unsigned_ofNat 1).div hv (kept_natCast_lt_top (by decide))
      (.inl (kept_natCast_pos Nat.one_pos))
    exact (atMost_iff_le value?_zero hinverse.value?_eq).2 hinverse.nonneg

theorem Unsigned.isPositive_iff {v : Rat} (hx : Unsigned x.toModel.unpack v) :
    isPositive x = true ↔ 0 < v := by
  rw [Binary64.isPositive_iff, hx.value?_eq]
  constructor
  · rintro ⟨w, hw, hpos⟩
    rwa [Option.some.inj hw]
  · exact fun hpos => ⟨v, rfl, hpos⟩

theorem Unsigned.atMost_iff {v w : Rat} (hx : Unsigned x.toModel.unpack v)
    (hy : Unsigned y.toModel.unpack w) : AtMost x y ↔ v ≤ w :=
  atMost_iff_le hx.value?_eq hy.value?_eq

/-- An operation that makes no number of what is none. -/
theorem isNumber_right {op : UnpackedFloat → UnpackedFloat → UnpackedFloat}
    (hop : ∀ u, op u .notANumber = .notANumber)
    (hz : z.toModel.unpack = (Float.Model.pack (op x.toModel.unpack y.toModel.unpack)).unpack)
    (h : isNumber z = true) : isNumber y = true := by
  by_contra hy
  obtain ⟨v, hv⟩ := isNumber_iff.1 h
  have hstored : Stored .notANumber := trivial
  rw [hz, unpack_of_not_isNumber hy, hop, unpack_pack_of_stored hstored] at hv
  exact absurd hv.symm (Option.some_ne_none v)

end Binary64

open Binary64 Float.Model

instance : PermitLaws Float where
  isNumber_of_below h := by
    obtain ⟨v, w, hv, hw, -⟩ := below_iff.1 h
    exact ⟨isNumber_iff.2 ⟨v, hv⟩, isNumber_iff.2 ⟨w, hw⟩⟩
  below_asymm h := by
    obtain ⟨v, w, hv, hw, hlt⟩ := below_iff.1 h
    exact ((atMost_iff_le hv hw).2 hlt.le).2.2
  atMost_trans hxy hyz := by
    obtain ⟨u, v, hu, hv, huv⟩ := atMost_iff.1 hxy
    obtain ⟨w, hw⟩ := isNumber_iff.1 hyz.2.1
    rw [atMost_iff_le hv hw] at hyz
    exact atMost_iff.2 ⟨u, w, hu, hw, huv.trans hyz⟩
  unsigned_of_isPositive h := by
    obtain ⟨v, hv, hpos⟩ := isPositive_iff.1 h
    exact unsigned_iff.2 ⟨v, unsigned_of_pos (stored_unpack _) hv hpos⟩
  isFinite_of_atMost hx hy hxy hfinite := by
    obtain ⟨v, hv⟩ := unsigned_iff.1 hx
    obtain ⟨w, hw⟩ := unsigned_iff.1 hy
    rw [hv.atMost_iff hw] at hxy
    exact hv.isFinite_iff.2 (hxy.trans_lt (hw.isFinite_iff.1 hfinite))
  unsigned_ofNat n := unsigned_iff.2 ⟨_, Binary64.unsigned_ofNat n⟩
  ofNat_mono {m n} h := by
    refine ((Binary64.unsigned_ofNat m).atMost_iff (Binary64.unsigned_ofNat n)).2 ?_
    exact kept_mono (Nat.cast_nonneg m) (Nat.cast_le.2 h)
  isPositive_ofNat {n} h := (Binary64.unsigned_ofNat n).isPositive_iff.2 (kept_natCast_pos h)
  isFinite_ofNat {n} h :=
    (Binary64.unsigned_ofNat n).isFinite_iff.2 (kept_natCast_lt_top (h.trans (by decide)))
  unsigned_infinity := unsigned_iff.2 ⟨top, .infinity⟩
  unsigned_add hx hy := by
    obtain ⟨v, hv⟩ := unsigned_iff.1 hx
    obtain ⟨w, hw⟩ := unsigned_iff.1 hy
    exact unsigned_iff.2 ⟨_, hv.add hw⟩
  atMost_add hx hy := by
    obtain ⟨v, hv⟩ := unsigned_iff.1 hx
    obtain ⟨w, hw⟩ := unsigned_iff.1 hy
    refine (hv.atMost_iff (hv.add hw)).2 ?_
    calc v = kept v := hv.kept_eq.symm
      _ ≤ kept (v + w) := kept_mono hv.nonneg (le_add_of_nonneg_right hw.nonneg)
  add_mono hx hy hz hyz := by
    obtain ⟨u, hu⟩ := unsigned_iff.1 hx
    obtain ⟨v, hv⟩ := unsigned_iff.1 hy
    obtain ⟨w, hw⟩ := unsigned_iff.1 hz
    rw [hv.atMost_iff hw] at hyz
    refine ((hu.add hv).atMost_iff (hu.add hw)).2 ?_
    exact kept_mono (add_nonneg hu.nonneg hv.nonneg) (by linarith)
  isNumber_of_add h := isNumber_right (fun u => by cases u <;> rfl) rfl h
  unsigned_sub hx hy hyx hfinite := by
    obtain ⟨v, hv⟩ := unsigned_iff.1 hx
    obtain ⟨w, hw⟩ := unsigned_iff.1 hy
    rw [hw.atMost_iff hv] at hyx
    exact unsigned_iff.2 ⟨_, hv.sub hw hyx (hw.isFinite_iff.1 hfinite)⟩
  sub_atMost hx hy hyx hfinite := by
    obtain ⟨v, hv⟩ := unsigned_iff.1 hx
    obtain ⟨w, hw⟩ := unsigned_iff.1 hy
    rw [hw.atMost_iff hv] at hyx
    exact ((hv.sub hw hyx (hw.isFinite_iff.1 hfinite)).atMost_iff hv).2
      (difference_le hv.kept_eq hw.nonneg hyx)
  sub_mono hx hy hz hzx hxy hfinite := by
    obtain ⟨u, hu⟩ := unsigned_iff.1 hx
    obtain ⟨v, hv⟩ := unsigned_iff.1 hy
    obtain ⟨w, hw⟩ := unsigned_iff.1 hz
    rw [hw.atMost_iff hu] at hzx
    rw [hu.atMost_iff hv] at hxy
    have hw' := hw.isFinite_iff.1 hfinite
    exact ((hu.sub hw hzx hw').atMost_iff (hv.sub hw (hzx.trans hxy) hw')).2
      (difference_mono hzx hxy hv.le_top)
  sub_self hx hfinite := by
    obtain ⟨v, hv⟩ := unsigned_iff.1 hx
    have hfinite := hv.isFinite_iff.1 hfinite
    have hself := hv.sub hv le_rfl hfinite
    rw [difference, if_neg hfinite.ne, sub_self, kept_zero] at hself
    exact Bool.eq_false_iff.2 fun hpos => lt_irrefl 0 (hself.isPositive_iff.1 hpos)
  mul_mono hx hy hz hxy hfinite := by
    obtain ⟨u, hu⟩ := unsigned_iff.1 hx
    obtain ⟨v, hv⟩ := unsigned_iff.1 hy
    obtain ⟨w, hw⟩ := unsigned_iff.1 hz
    rw [hu.atMost_iff hv] at hxy
    obtain ⟨hv', hw'⟩ := hv.lt_top_of_mul hw hfinite
    have hproduct := hu.mul hw (hxy.trans_lt hv') hw'
    refine ⟨unsigned_iff.2 ⟨_, hproduct⟩, (hproduct.atMost_iff (hv.mul hw hv' hw')).2 ?_⟩
    exact kept_mono (mul_nonneg hu.nonneg hw.nonneg) (mul_le_mul_of_nonneg_right hxy hw.nonneg)
  unsigned_div hx hy hnumber := by
    obtain ⟨v, hv⟩ := unsigned_iff.1 hx
    obtain ⟨w, hw⟩ := unsigned_iff.1 hy
    obtain ⟨q, hq⟩ := isNumber_iff.1 hnumber
    exact unsigned_iff.2 (hv.exists_div hw hq)
  isNumber_div {x y} hpos hfinite hy := by
    obtain ⟨v, hv, hpos⟩ := isPositive_iff.1 hpos
    obtain ⟨w, hw⟩ := unsigned_iff.1 hy
    have hv := unsigned_of_pos (stored_unpack _) hv hpos
    have hquotient := hv.div hw (hv.isFinite_iff.1 hfinite) (.inl hpos)
    exact isNumber_iff.2 ⟨_, hquotient.value?_eq⟩
  div_mono hpos hfinite hz hxy := by
    obtain ⟨u, hu, hpos⟩ := isPositive_iff.1 hpos
    obtain ⟨v, hv⟩ := isNumber_iff.1 hxy.2.1
    obtain ⟨w, hw⟩ := unsigned_iff.1 hz
    rw [atMost_iff_le hu hv] at hxy
    have hu := unsigned_of_pos (stored_unpack _) hu hpos
    have hv := unsigned_of_pos (stored_unpack _) hv (hpos.trans_le hxy)
    have hfinite := hv.isFinite_iff.1 hfinite
    refine ((hu.div hw (hxy.trans_lt hfinite) (.inl hpos)).atMost_iff
      (hv.div hw hfinite (.inl (hpos.trans_le hxy)))).2 ?_
    exact quotient_mono hpos.le hxy hw.nonneg
  isNumber_of_div h := isNumber_right (fun u => by cases u <;> rfl) rfl h
  wholePart_zero := rfl
  wholePart_mono {x y} hx hy hxy := by
    obtain ⟨v, hv⟩ := unsigned_iff.1 hx
    obtain ⟨w, hw⟩ := unsigned_iff.1 hy
    rw [hv.atMost_iff hw] at hxy
    have hle : x.toModel.unpack.toUInt64.toNat ≤ y.toModel.unpack.toUInt64.toNat := by
      rw [hv.toNat_toUInt64, hw.toNat_toUInt64]
      exact min_le_min_right _ (Nat.floor_mono hxy)
    exact UInt64.le_iff_toNat_le.2 hle

end Admission
