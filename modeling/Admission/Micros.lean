/-!
# Microsecond readings

Clock readings and waits are whole microseconds in sixty-four bits.  A clock does not wrap: a sum
past the largest reading stays there, and a difference below zero is zero.

* **sums** — `Micros.toNat_later`: the reading `b` microseconds after `a` is `a + b`, held at the
  largest reading;
* **differences** — `Micros.toNat_since`: the time from `a` to `b` is `b - a`, and zero when `b`
  comes first.
-/

namespace Admission

/-- A clock reading or a wait, in whole microseconds. -/
abbrev Micros := UInt64

namespace Micros

/-- The largest reading. -/
def top : Micros := 18446744073709551615

/-- `n` microseconds, held at the largest reading. -/
def ofNat (n : Nat) : Micros := UInt64.ofNatClamp n

/-- The reading `wait` after `reading`, held at the largest reading. -/
def later (reading wait : Micros) : Micros := ofNat (reading.toNat + wait.toNat)

/-- The time from `start` to `now`; zero when `now` comes first. -/
def since (start now : Micros) : Micros := ofNat (now.toNat - start.toNat)

theorem toNat_ofNat (n : Nat) : (ofNat n).toNat = min n (UInt64.size - 1) := by
  unfold ofNat UInt64.ofNatClamp
  split
  · next h =>
    rw [UInt64.toNat_ofNatLT]
    have : n < UInt64.size := h
    omega
  · next h =>
    rw [UInt64.toNat_ofNatLT]
    have : ¬ n < UInt64.size := h
    have : UInt64.size = 18446744073709551616 := rfl
    omega

@[simp] theorem toNat_top : top.toNat = UInt64.size - 1 := rfl

theorem toNat_later (a b : Micros) :
    (later a b).toNat = min (a.toNat + b.toNat) (UInt64.size - 1) :=
  toNat_ofNat _

@[simp] theorem later_zero (a : Micros) : later a 0 = a := by
  have ha := a.toNat_lt_size
  rw [← UInt64.toNat_inj, toNat_later, UInt64.toNat_zero]
  omega

theorem toNat_max (a b : Micros) : (max a b).toNat = max a.toNat b.toNat := by
  change (if a ≤ b then b else a).toNat = _
  split
  · next h => have := UInt64.le_iff_toNat_le.1 h; omega
  · next h => have := mt UInt64.le_iff_toNat_le.2 h; omega

theorem toNat_since (start now : Micros) : (since start now).toNat = now.toNat - start.toNat := by
  rw [since, toNat_ofNat]
  have := now.toNat_lt_size
  omega

end Micros

end Admission
