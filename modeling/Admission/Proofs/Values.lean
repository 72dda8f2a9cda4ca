import Admission.Proofs.Rounding

/-!
# Values of real numbers

Every real number of sixty-four bits that is a number has a rational value, if the infinite ones
count as `2 ^ 1024`, above all others.

* **order** — `compare_eq_lt_iff`: comparing numbers compares values, because numbers are stored so
  that a higher exponent makes a larger value;
* **what is kept** — `kept v` is the nearest value, or `top`; `kept_mono` says that this keeps the
  order;
* **no sign** — `Unsigned u v`: the number is zero or above zero, with the value `v`, which is kept
  as it is.
-/

namespace Admission

namespace Binary64

open Float.Model
open Float.Model.UnpackedFloat hiding pack unpack

/-! ## Values -/

/-- What the infinite numbers count as. -/
def top : Rat := 2 ^ (1024 : Int)

/-- A value with a sign. -/
def signed : Sign → Rat → Rat
  | .positive, v => v
  | .negative, v => -v

/-- The value of a number, if it is one. -/
def value? : UnpackedFloat → Option Rat
  | .notANumber => none
  | .infinity sign => some (signed sign top)
  | .zero _ => some 0
  | .finite sign m e _ => some (signed sign (m * 2 ^ e))

/-- Numbers as they are stored. -/
def Stored : UnpackedFloat → Prop
  | .finite _ m e _ => Canonical m e ∧ e ≤ 971
  | _ => True

theorem stored_unpack (x : Float.Model) : Stored x.unpack := by
  cases h : x.unpack with
  | finite sign m e hpos => exact canonical_of_unpack h
  | zero | infinity | notANumber => trivial

/-- What can be stored is read back. -/
theorem unpack_pack_of_stored {u : UnpackedFloat} (h : Stored u) :
    (Float.Model.pack u).unpack = u := by
  match u, h with
  | .notANumber, _ => rfl
  | .infinity sign, _ => cases sign <;> rfl
  | .zero sign, _ => cases sign <;> rfl
  | .finite sign _ _ hpos, h => exact unpack_pack_finite sign hpos h.1 h.2

theorem top_pos : 0 < top := zpow_pos zero_lt_two _

section

variable {m m' : Nat} {e e' : Int}

theorem mul_zpow_pos (hpos : 0 < m) (e : Int) : (0 : Rat) < m * 2 ^ e :=
  mul_pos (Nat.cast_pos.2 hpos) (zpow_pos zero_lt_two e)

theorem mul_zpow_lt (h : Canonical m e) : (m * 2 ^ e : Rat) < 2 ^ (53 + e) := by
  have hle : (m : Rat) < (2 ^ 53 : Nat) := Nat.cast_lt.2 h.lt
  calc (m * 2 ^ e : Rat) < (2 ^ 53 : Nat) * 2 ^ e :=
        mul_lt_mul_of_pos_right hle (zpow_pos zero_lt_two e)
    _ = 2 ^ (53 + e) := two_pow_mul_zpow 53 e

theorem zpow_le_mul (h : 2 ^ 52 ≤ m) : (2 ^ (52 + e) : Rat) ≤ m * 2 ^ e := by
  have hle : ((2 ^ 52 : Nat) : Rat) ≤ m := Nat.cast_le.2 h
  calc (2 ^ (52 + e) : Rat) = (2 ^ 52 : Nat) * 2 ^ e := (two_pow_mul_zpow 52 e).symm
    _ ≤ m * 2 ^ e := mul_le_mul_of_nonneg_right hle (zpow_pos zero_lt_two e).le

/-- Finite numbers are below the infinite one. -/
theorem mul_zpow_lt_top (h : Canonical m e) (he : e ≤ 971) : (m * 2 ^ e : Rat) < top :=
  (mul_zpow_lt h).trans_le (zpow_le_zpow_right₀ one_le_two (by omega))

/-- Finite numbers lie between the two infinite ones. -/
theorem signed_mul_zpow_bounds (sign : Sign) (hpos : 0 < m) (h : Canonical m e) (he : e ≤ 971) :
    -top < signed sign (m * 2 ^ e) ∧ signed sign (m * 2 ^ e) < top := by
  have hpos := mul_zpow_pos hpos e
  have hlt := mul_zpow_lt_top h he
  cases sign with
  | positive => exact ⟨(neg_neg_of_pos top_pos).trans hpos, hlt⟩
  | negative => exact ⟨neg_lt_neg hlt, (neg_neg_of_pos hpos).trans top_pos⟩

/-- A higher exponent makes a larger value. -/
theorem mul_zpow_lt_of_lt (h : Canonical m e) (h' : Canonical m' e') (hlt : e < e') :
    (m * 2 ^ e : Rat) < m' * 2 ^ e' := by
  have hle := h.le
  have hfull : 2 ^ 52 ≤ m' := h'.full.resolve_right (by omega)
  calc (m * 2 ^ e : Rat) < 2 ^ (53 + e) := mul_zpow_lt h
    _ ≤ 2 ^ (52 + e') := zpow_le_zpow_right₀ one_le_two (by omega)
    _ ≤ m' * 2 ^ e' := zpow_le_mul hfull

/-- Values compare by exponents first and then by mantissas. -/
theorem mul_zpow_lt_iff (h : Canonical m e) (h' : Canonical m' e') :
    (m * 2 ^ e : Rat) < m' * 2 ^ e' ↔ e < e' ∨ e = e' ∧ m < m' := by
  rcases lt_trichotomy e e' with hlt | rfl | hgt
  · exact iff_of_true (mul_zpow_lt_of_lt h h' hlt) (.inl hlt)
  · rw [mul_lt_mul_iff_of_pos_right (zpow_pos zero_lt_two e), Nat.cast_lt]
    exact ⟨fun hlt => .inr ⟨rfl, hlt⟩, fun hor => by omega⟩
  · exact iff_of_false (mul_zpow_lt_of_lt h' h hgt).not_gt (by omega)

theorem compare_then_eq_lt_iff (h : Canonical m e) (h' : Canonical m' e') :
    (compare e e').then (compare m m') = .lt ↔ (m * 2 ^ e : Rat) < m' * 2 ^ e' := by
  rw [Ordering.then_eq_lt, Int.compare_eq_lt, Int.compare_eq_eq, Nat.compare_eq_lt,
    mul_zpow_lt_iff h h']

theorem compare_then_eq_gt_iff (h : Canonical m e) (h' : Canonical m' e') :
    (compare e e').then (compare m m') = .gt ↔ (m' * 2 ^ e' : Rat) < m * 2 ^ e := by
  rw [Ordering.then_eq_gt, Int.compare_eq_gt, Int.compare_eq_eq, Nat.compare_eq_gt,
    mul_zpow_lt_iff h' h, eq_comm (a := e)]

end

theorem exists_values_iff {a b : Rat} :
    (∃ a' b', some a = some a' ∧ some b = some b' ∧ a' < b') ↔ a < b := by
  simp

/-- **Comparing numbers compares values.** -/
theorem compare_eq_lt_iff {u w : UnpackedFloat} (hu : Stored u) (hw : Stored w) :
    u.compare w = some .lt ↔ ∃ a b, value? u = some a ∧ value? w = some b ∧ a < b := by
  match u, w, hu, hw with
  | .notANumber, _, _, _ => exact iff_of_false nofun fun ⟨_, _, hnone, _⟩ => nomatch hnone
  | .infinity _, .notANumber, _, _
  | .zero _, .notANumber, _, _
  | .finite .., .notANumber, _, _ =>
    exact iff_of_false nofun fun ⟨_, _, _, hnone, _⟩ => nomatch hnone
  | .zero _, .zero _, _, _ =>
    refine Iff.trans ?_ exists_values_iff.symm
    exact iff_of_false nofun (lt_irrefl 0)
  | .infinity s, .infinity s', _, _ =>
    have hlt : -top < top := (neg_neg_of_pos top_pos).trans top_pos
    refine Iff.trans ?_ exists_values_iff.symm
    cases s with
    | positive =>
      cases s' with
      | positive => exact iff_of_false (by decide) (lt_irrefl top)
      | negative => exact iff_of_false (by decide) hlt.not_gt
    | negative =>
      cases s' with
      | positive => exact iff_of_true rfl hlt
      | negative => exact iff_of_false (by decide) (lt_irrefl (-top))
  | .infinity s, .zero _, _, _ =>
    refine Iff.trans ?_ exists_values_iff.symm
    cases s with
    | positive => exact iff_of_false nofun top_pos.not_gt
    | negative => exact iff_of_true rfl (neg_neg_of_pos top_pos)
  | .zero _, .infinity s, _, _ =>
    refine Iff.trans ?_ exists_values_iff.symm
    cases s with
    | positive => exact iff_of_true rfl top_pos
    | negative => exact iff_of_false nofun (neg_neg_of_pos top_pos).not_gt
  | .infinity s, .finite s' m e hpos, _, hw =>
    have hbounds := signed_mul_zpow_bounds s' hpos hw.1 hw.2
    refine Iff.trans ?_ exists_values_iff.symm
    cases s with
    | positive => exact iff_of_false nofun hbounds.2.not_gt
    | negative => exact iff_of_true rfl hbounds.1
  | .finite s m e hpos, .infinity s', hu, _ =>
    have hbounds := signed_mul_zpow_bounds s hpos hu.1 hu.2
    refine Iff.trans ?_ exists_values_iff.symm
    cases s' with
    | positive => exact iff_of_true rfl hbounds.2
    | negative => exact iff_of_false nofun hbounds.1.not_gt
  | .zero _, .finite s m e hpos, _, _ =>
    have hpos := mul_zpow_pos hpos e
    refine Iff.trans ?_ exists_values_iff.symm
    cases s with
    | positive => exact iff_of_true rfl hpos
    | negative => exact iff_of_false nofun (neg_neg_of_pos hpos).not_gt
  | .finite s m e hpos, .zero _, _, _ =>
    have hpos := mul_zpow_pos hpos e
    refine Iff.trans ?_ exists_values_iff.symm
    cases s with
    | positive => exact iff_of_false nofun hpos.not_gt
    | negative => exact iff_of_true rfl (neg_neg_of_pos hpos)
  | .finite s m e hpos, .finite s' m' e' hpos', hu, hw =>
    have hlt := compare_then_eq_lt_iff hu.1 hw.1
    have hgt := compare_then_eq_gt_iff hu.1 hw.1
    have hpos := mul_zpow_pos hpos e
    have hpos' := mul_zpow_pos hpos' e'
    refine Iff.trans ?_ exists_values_iff.symm
    cases s with
    | positive =>
      cases s' with
      | positive => exact Option.some_inj.trans hlt
      | negative => exact iff_of_false nofun ((neg_neg_of_pos hpos').trans hpos).not_gt
    | negative =>
      cases s' with
      | positive => exact iff_of_true rfl ((neg_neg_of_pos hpos).trans hpos')
      | negative =>
        -- among negative numbers the larger one is the one closer to zero
        exact Option.some_inj.trans
          (Ordering.swap_eq_lt.trans (hgt.trans neg_lt_neg_iff.symm))

/-! ## What is kept -/

/-- What arithmetic keeps of a value that is not negative; it is infinite from `top` on. -/
def kept (v : Rat) : Rat := min (nearest v) top

theorem kept_mono {v w : Rat} (hv : 0 ≤ v) (h : v ≤ w) : kept v ≤ kept w :=
  min_le_min_right top (nearest_mono hv h)

@[simp] theorem kept_zero : kept 0 = 0 := by
  rw [kept, nearest_zero, min_eq_left top_pos.le]

theorem nearest_top : nearest top = top := by
  have htop : top = (2 ^ 52 : Nat) * 2 ^ (972 : Int) := (two_pow_mul_zpow 52 972).symm
  rw [htop]
  exact nearest_of_canonical (by decide) ⟨by decide, by decide, .inl le_rfl⟩

theorem kept_of_top_le {v : Rat} (h : top ≤ v) : kept v = top :=
  min_eq_right (nearest_top.symm.trans_le (nearest_mono top_pos.le h))

/-- Numbers without a sign, with their values: zero, and the positive numbers. -/
inductive Unsigned : UnpackedFloat → Rat → Prop
  /-- Nothing. -/
  | zero : Unsigned (.zero .positive) 0
  /-- A finite number. -/
  | finite {m : Nat} {e : Int} (hpos : 0 < m) (h : Canonical m e) (he : e ≤ 971) :
    Unsigned (.finite .positive m e hpos) (m * 2 ^ e)
  /-- More than any finite number. -/
  | infinity : Unsigned (.infinity .positive) top

section

variable {u w : UnpackedFloat} {v x : Rat}

theorem Unsigned.stored (h : Unsigned u v) : Stored u := by
  cases h with
  | zero | infinity => trivial
  | finite _ h he => exact ⟨h, he⟩

theorem Unsigned.value?_eq (h : Unsigned u v) : value? u = some v := by
  cases h <;> rfl

theorem Unsigned.nonneg (h : Unsigned u v) : 0 ≤ v := by
  cases h with
  | zero => exact le_rfl
  | finite hpos => exact (mul_zpow_pos hpos _).le
  | infinity => exact top_pos.le

theorem Unsigned.le_top (h : Unsigned u v) : v ≤ top := by
  cases h with
  | zero => exact top_pos.le
  | finite _ h he => exact (mul_zpow_lt_top h he).le
  | infinity => exact le_rfl

/-- The value of a number is kept as it is. -/
theorem Unsigned.kept_eq (h : Unsigned u v) : kept v = v := by
  cases h with
  | zero => exact kept_zero
  | finite hpos h he =>
    rw [kept, nearest_of_canonical hpos h, min_eq_left (mul_zpow_lt_top h he).le]
  | infinity => exact kept_of_top_le le_rfl

/-- A number without a sign is stored as it is. -/
theorem Unsigned.pack (h : Unsigned u v) : Unsigned (Float.Model.pack u).unpack (kept v) := by
  rw [unpack_pack_of_stored h.stored, h.kept_eq]
  exact h

/-- A finite number is finite. -/
theorem Unsigned.isFinite_iff (h : Unsigned u v) : u.isFinite = true ↔ v < top := by
  cases h with
  | zero => exact iff_of_true rfl top_pos
  | finite _ h he => exact iff_of_true rfl (mul_zpow_lt_top h he)
  | infinity => exact iff_of_false (fun h => nomatch h) (lt_irrefl top)

/-- A number with a positive value has no sign. -/
theorem unsigned_of_pos (hu : Stored u) (h : value? u = some v) (hv : 0 < v) : Unsigned u v := by
  match u, hu with
  | .notANumber, _ => exact absurd h.symm (Option.some_ne_none v)
  | .zero _, _ => exact absurd (Option.some.inj h) hv.ne
  | .infinity .positive, _ =>
    obtain rfl := Option.some.inj h
    exact .infinity
  | .finite .positive _ _ hpos, hu =>
    obtain rfl := Option.some.inj h
    exact .finite hpos hu.1 hu.2
  | .infinity .negative, _ =>
    obtain rfl := Option.some.inj h
    exact absurd hv (neg_lt_zero.2 top_pos).not_gt
  | .finite .negative _ e hpos, _ =>
    obtain rfl := Option.some.inj h
    exact absurd hv (neg_lt_zero.2 (mul_zpow_pos hpos e)).not_gt

/-- A number with the value zero is zero or the negative zero. -/
theorem exists_zero (h : value? u = some 0) : ∃ sign, u = .zero sign := by
  match u with
  | .notANumber => exact absurd h.symm (Option.some_ne_none 0)
  | .zero sign => exact ⟨sign, rfl⟩
  | .infinity sign =>
    have hzero : signed sign top = 0 := Option.some.inj h
    have hpos := top_pos
    cases sign <;> simp only [signed] at hzero <;> linarith
  | .finite sign m e hm =>
    have hzero : signed sign (m * 2 ^ e) = 0 := Option.some.inj h
    have hpos := mul_zpow_pos hm e
    cases sign <;> simp only [signed] at hzero <;> linarith

end

end Binary64

end Admission
