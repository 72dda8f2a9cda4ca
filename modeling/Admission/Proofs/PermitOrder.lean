import Admission.Meter.PermitArith

/-!
# The order of fractional permits

Fractional permits are not ordered: some values are not numbers, and those are neither above nor
below any other.  What arithmetic keeps all the same is the order of numbers without a sign.

* **order** — `AtMost` compares two values that are numbers; `Unsigned` says that a number is not
  below zero, and that it is not the negative zero either;
* **laws** — `PermitLaws` says of each operation that it leads from numbers without a sign to such a
  number, and which order it keeps.  Sums and quotients that involve no number are none;
* **the smaller of two** — `atMost_least_left`, `atMost_least`, `least_mono` and others follow.
-/

namespace Admission

namespace PermitArith

variable {α : Type} [PermitArith α] {x y z : α}

/-- Two numbers, the first of which is not above the second. -/
def AtMost (x y : α) : Prop := isNumber x = true ∧ isNumber y = true ∧ below y x = false

/-- A number that is not below zero, and whose inverse is not either: the inverse tells zero from
the negative zero. -/
def Unsigned (x : α) : Prop := AtMost zero x ∧ AtMost zero (one / x)

theorem Unsigned.isNumber (h : Unsigned x) : isNumber x = true := h.1.2.1

/-- What is not above either of two values is not above the smaller one. -/
theorem atMost_least (hy : AtMost x y) (hz : AtMost x z) : AtMost x (least y z) := by
  unfold least
  split
  · exact hz
  · exact hy

theorem least_of_below (h : below y x = true) : least x y = y :=
  if_pos (by rw [h, Bool.or_true])

theorem least_of_not_below (hx : isNumber x = true) (h : ¬ below y x = true) : least x y = x := by
  refine if_neg ?_
  rw [hx, Bool.not_true, Bool.false_or]
  exact h

/-- The larger of two values is the first one, unless that is below the other one. -/
theorem most_of_atMost (h : AtMost y x) : most x y = x := by
  refine if_neg ?_
  rw [h.2.1, h.2.2]
  exact Bool.false_ne_true

theorem unsigned_least (hx : Unsigned x) (hy : Unsigned y) : Unsigned (least x y) := by
  unfold least
  split
  · exact hy
  · exact hx

end PermitArith

open PermitArith

/-- Laws of signs and order. -/
class PermitLaws (α : Type) [PermitArith α] : Prop where
  /-- Only numbers compare. -/
  isNumber_of_below {x y : α} : below x y = true → isNumber x = true ∧ isNumber y = true
  /-- No two values are each below the other. -/
  below_asymm {x y : α} : below x y = true → below y x = false
  /-- Numbers are ordered. -/
  atMost_trans {x y z : α} : AtMost x y → AtMost y z → AtMost x z
  /-- What is above zero has no sign. -/
  unsigned_of_isPositive {x : α} : isPositive x = true → Unsigned x
  /-- What is not above a finite number is finite. -/
  isFinite_of_atMost {x y : α} : Unsigned x → Unsigned y → AtMost x y → isFinite y = true →
    isFinite x = true
  /-- Whole numbers have no sign. -/
  unsigned_ofNat (n : Nat) : Unsigned (ofNat n : α)
  /-- Whole numbers keep their order. -/
  ofNat_mono {m n : Nat} : m ≤ n → AtMost (ofNat m : α) (ofNat n)
  /-- Whole numbers but zero are above zero. -/
  isPositive_ofNat {n : Nat} : 0 < n → isPositive (ofNat n : α) = true
  /-- Words are finite. -/
  isFinite_ofNat {n : Nat} : n < UInt64.size → isFinite (ofNat n : α) = true
  /-- More than any finite number has no sign. -/
  unsigned_infinity : Unsigned (infinity : α)
  /-- Sums have no sign. -/
  unsigned_add {x y : α} : Unsigned x → Unsigned y → Unsigned (x + y)
  /-- A sum is not below its parts. -/
  atMost_add {x y : α} : Unsigned x → Unsigned y → AtMost x (x + y)
  /-- Sums keep the order. -/
  add_mono {x y z : α} : Unsigned x → Unsigned y → Unsigned z → AtMost y z →
    AtMost (x + y) (x + z)
  /-- To add what is not a number gives none. -/
  isNumber_of_add {x y : α} : isNumber (x + y) = true → isNumber y = true
  /-- What is left has no sign. -/
  unsigned_sub {x y : α} : Unsigned x → Unsigned y → AtMost y x → isFinite y = true →
    Unsigned (x - y)
  /-- What is left is not above what was there. -/
  sub_atMost {x y : α} : Unsigned x → Unsigned y → AtMost y x → isFinite y = true →
    AtMost (x - y) x
  /-- More is left of more. -/
  sub_mono {x y z : α} : Unsigned x → Unsigned y → Unsigned z → AtMost z x → AtMost x y →
    isFinite z = true → AtMost (x - z) (y - z)
  /-- Nothing is left when all is taken. -/
  sub_self {x : α} : Unsigned x → isFinite x = true → isPositive (x - x) = false
  /-- A finite product grows with its factors. -/
  mul_mono {x y z : α} : Unsigned x → Unsigned y → Unsigned z → AtMost x y →
    isFinite (y * z) = true → Unsigned (x * z) ∧ AtMost (x * z) (y * z)
  /-- A quotient has no sign, if it is a number. -/
  unsigned_div {x y : α} : Unsigned x → Unsigned y → isNumber (x / y) = true → Unsigned (x / y)
  /-- The quotient of a finite number above zero is a number. -/
  isNumber_div {x y : α} : isPositive x = true → isFinite x = true → Unsigned y →
    isNumber (x / y) = true
  /-- Quotients keep the order. -/
  div_mono {x y z : α} : isPositive x = true → isFinite y = true → Unsigned z → AtMost x y →
    AtMost (x / z) (y / z)
  /-- To divide by what is not a number gives none. -/
  isNumber_of_div {x y : α} : isNumber (x / y) = true → isNumber y = true
  /-- The whole part of nothing. -/
  wholePart_zero : wholePart (zero : α) = 0
  /-- Whole parts keep the order. -/
  wholePart_mono {x y : α} : Unsigned x → Unsigned y → AtMost x y → wholePart x ≤ wholePart y

namespace PermitArith

open PermitLaws

variable {α : Type} [PermitArith α] [PermitLaws α] {x y z : α}

theorem AtMost.refl (h : isNumber x = true) : AtMost x x := by
  refine ⟨h, h, Bool.eq_false_iff.2 fun hbelow => ?_⟩
  rw [below_asymm hbelow] at hbelow
  cases hbelow

theorem atMost_of_below (h : below x y = true) : AtMost x y :=
  ⟨(isNumber_of_below h).1, (isNumber_of_below h).2, below_asymm h⟩

/-- What is below a value is below what that value is at most. -/
theorem below_of_atMost (hxy : below x y = true) (hyz : AtMost y z) : below x z = true := by
  refine Decidable.byContradiction fun hnot => ?_
  have hzx : AtMost z x := ⟨hyz.2.1, (isNumber_of_below hxy).1, Bool.eq_false_iff.2 hnot⟩
  have hyx := (atMost_trans hyz hzx).2.2
  rw [hxy] at hyx
  cases hyx

theorem unsigned_zero : Unsigned (zero : α) := unsigned_ofNat 0

theorem unsigned_one : Unsigned (one : α) := unsigned_ofNat 1

/-- What is not below one has no sign. -/
theorem unsigned_of_one_atMost (h : AtMost one x) : Unsigned x := by
  have hone : isPositive (one : α) = true := isPositive_ofNat Nat.one_pos
  exact unsigned_of_isPositive (below_of_atMost hone h)

/-! ## The smaller and the larger of two -/

theorem atMost_least_left (hx : isNumber x = true) : AtMost (least x y) x := by
  unfold least
  rw [hx, Bool.not_true, Bool.false_or]
  split
  · next h => exact atMost_of_below h
  · exact .refl hx

theorem atMost_least_right (hx : isNumber x = true) (hy : isNumber y = true) :
    AtMost (least x y) y := by
  unfold least
  rw [hx, Bool.not_true, Bool.false_or]
  split
  · exact .refl hy
  · next h => exact ⟨hx, hy, Bool.eq_false_iff.2 h⟩

theorem least_mono (hx : isNumber x = true) (h : AtMost y z) :
    AtMost (least x y) (least x z) :=
  atMost_least (atMost_least_left hx) (atMost_trans (atMost_least_right hx h.1) h)

/-- What is not a number is no smaller than anything. -/
theorem least_of_not_isNumber (hx : isNumber x = true) (hy : isNumber y = false) :
    least x y = x := by
  refine if_neg ?_
  rw [hx, Bool.not_true, Bool.false_or]
  intro h
  rw [(isNumber_of_below h).1] at hy
  cases hy

/-- Nothing is left of a value once the smaller of it and another one is gone, unless the other one
is below it. -/
theorem below_of_isPositive_sub_least (hx : Unsigned x) (hfinite : isFinite x = true)
    (h : isPositive (x - least x y) = true) : below y x = true := by
  refine Decidable.byContradiction fun hnot => ?_
  rw [least_of_not_below hx.isNumber hnot, sub_self hx hfinite] at h
  cases h

/-- The larger of a value and one is at least one, whatever the value. -/
theorem one_atMost_most : AtMost one (most x one) := by
  have hone : isNumber (one : α) = true := unsigned_one.isNumber
  unfold most
  split
  · exact .refl hone
  · next h =>
    rw [Bool.or_eq_true, not_or, Bool.not_eq_true', Bool.not_eq_false] at h
    exact ⟨hone, h.1, Bool.eq_false_iff.2 h.2⟩

end PermitArith

end Admission
