import Admission.Proofs.Creation
import Admission.Proofs.Queue
import Admission.Proofs.RealPermits

/-!
# Stored permits

What a bucket stores is a number between nothing and its capacity, and it only grows while nobody
asks.  That is not clear in advance: the steady interval of a zero rate is infinite, the capacity of
a very high one is, and permits of a bucket that warms up in less than a microsecond come back in no
time at all, which is a division by zero.

* **bounds** — `Bucket.InBounds` is what a bucket is like when it is created,
  `Bucket.inBounds_flat` and `Bucket.inBounds_warmingUp`, whatever the rate and the parameters;
* **accrual** — `Bucket.InBounds.storedAt_mono`: stored permits grow with time, and stay within the
  capacity;
* **a run** — `Bucket.InBounds.next` carries the bounds through a demand and
  `Bucket.InBounds.after` through a run; `Catalog.stored_within_capacity` says it of every bucket
  that a catalog creates.

Nothing is used of real numbers but `PermitLaws`.
-/

namespace Admission

open PermitArith PermitLaws

namespace Bucket

variable {α : Type} [PermitArith α]

/-! ## Bounds -/

/-- A bucket that stores no more than its capacity.  How fast permits come back may not be a number;
then they are back at once. -/
structure InBounds (b : Bucket α) : Prop where
  /-- What is stored is a number, and not below zero. -/
  stored : Unsigned b.stored
  /-- The capacity is a number, and not below zero. -/
  capacity : Unsigned b.capacity
  /-- There is room for what is stored. -/
  le : AtMost b.stored b.capacity
  /-- The steady interval is a number, and not below zero. -/
  interval : Unsigned b.interval
  /-- The time in which one permit comes back is not below zero. -/
  refill : isNumber b.refillInterval = true → Unsigned b.refillInterval

variable [PermitLaws α]

theorem unsigned_steadyInterval (perSecond : α) : Unsigned (steadyInterval perSecond) := by
  unfold steadyInterval microsPerSecond
  split
  · next hpos =>
    have hrate : Unsigned perSecond := unsigned_of_isPositive hpos
    have hsecond : isPositive (ofNat 1000000 : α) = true := isPositive_ofNat (by decide)
    exact unsigned_div (unsigned_ofNat _) hrate
      (isNumber_div hsecond (isFinite_ofNat (by decide)) hrate)
  · exact unsigned_infinity

theorem unsigned_room (permits interval : α) : Unsigned (room permits interval) := by
  unfold room
  split
  · exact unsigned_of_one_atMost one_atMost_most
  · exact unsigned_zero

/-- A full bucket is within its bounds. -/
theorem inBounds_full {capacity interval : α} {now : Micros} {ramp : Ramp α}
    (hcapacity : Unsigned capacity) (hinterval : Unsigned interval)
    (hrefill : let b : Bucket α := ⟨capacity, capacity, interval, now, ramp⟩
      isNumber b.refillInterval = true → Unsigned b.refillInterval) :
    InBounds ⟨capacity, capacity, interval, now, ramp⟩ :=
  ⟨hcapacity, hcapacity, .refl hcapacity.isNumber, hinterval, hrefill⟩

theorem inBounds_flat (perSecond burst : α) (now : Micros) : (flat perSecond burst now).InBounds :=
  inBounds_full (unsigned_room _ _) (unsigned_steadyInterval _) fun _ => unsigned_steadyInterval _

/-- The permits of a bucket that warms up come back in the time that this takes. -/
theorem unsigned_refillInterval_rising {capacity interval threshold slope : α} {now : Micros}
    {warmUp : Nat} :
    let b : Bucket α := ⟨capacity, capacity, interval, now, .rising (ofNat warmUp) threshold slope⟩
    isNumber b.refillInterval = true → Unsigned b.refillInterval := by
  intro b hnumber
  unfold refillInterval at hnumber ⊢
  dsimp only [b] at hnumber ⊢
  split at hnumber
  · next hpos =>
    rw [if_pos hpos]
    exact unsigned_div (unsigned_ofNat _) (unsigned_of_isPositive hpos) hnumber
  · next hzero =>
    rw [if_neg hzero]
    exact unsigned_infinity

theorem inBounds_warmingUp (perSecond : α) (period : Duration) (cold : α) (now : Micros) :
    (warmingUp perSecond period cold now).InBounds := by
  unfold warmingUp
  dsimp only
  split
  · exact inBounds_full (unsigned_room _ _) (unsigned_steadyInterval _)
      unsigned_refillInterval_rising
  · exact inBounds_full unsigned_zero (unsigned_steadyInterval _) unsigned_refillInterval_rising

/-! ## Accrual -/

/-- What is stored some microseconds after the bucket was free. -/
def refilled (b : Bucket α) (elapsed : Nat) : α :=
  least b.capacity (b.stored + ofNat elapsed / b.refillInterval)

section

variable {b : Bucket α} (h : b.InBounds)

include h

theorem InBounds.unsigned_accrued {elapsed : Nat} (hpos : 0 < elapsed)
    (hword : elapsed < UInt64.size) (hrefill : isNumber b.refillInterval = true) :
    Unsigned (ofNat elapsed / b.refillInterval) :=
  unsigned_div (unsigned_ofNat elapsed) (h.refill hrefill)
    (isNumber_div (isPositive_ofNat hpos) (isFinite_ofNat hword) (h.refill hrefill))

/-- If the time in which a permit comes back is not a number, all of them are back at once. -/
theorem InBounds.refilled_of_not_isNumber (elapsed : Nat)
    (hrefill : ¬ isNumber b.refillInterval = true) : b.refilled elapsed = b.capacity := by
  refine least_of_not_isNumber h.capacity.isNumber (Bool.eq_false_iff.2 fun hsum => ?_)
  exact hrefill (isNumber_of_div (isNumber_of_add hsum))

theorem InBounds.refilled_spec {elapsed : Nat} (hpos : 0 < elapsed)
    (hword : elapsed < UInt64.size) :
    Unsigned (b.refilled elapsed) ∧ AtMost b.stored (b.refilled elapsed) ∧
      AtMost (b.refilled elapsed) b.capacity := by
  by_cases hrefill : isNumber b.refillInterval = true
  · have haccrued := h.unsigned_accrued hpos hword hrefill
    exact ⟨unsigned_least h.capacity (unsigned_add h.stored haccrued),
      atMost_least h.le (atMost_add h.stored haccrued), atMost_least_left h.capacity.isNumber⟩
  · rw [h.refilled_of_not_isNumber elapsed hrefill]
    exact ⟨h.capacity, h.le, .refl h.capacity.isNumber⟩

theorem InBounds.refilled_mono {m n : Nat} (hpos : 0 < m) (hle : m ≤ n) (hword : n < UInt64.size) :
    AtMost (b.refilled m) (b.refilled n) := by
  by_cases hrefill : isNumber b.refillInterval = true
  · have haccrued : AtMost (ofNat m / b.refillInterval) (ofNat n / b.refillInterval) :=
      div_mono (isPositive_ofNat hpos) (isFinite_ofNat hword) (h.refill hrefill) (ofNat_mono hle)
    have hm := h.unsigned_accrued hpos (hle.trans_lt hword) hrefill
    have hn := h.unsigned_accrued (hpos.trans_le hle) hword hrefill
    exact least_mono h.capacity.isNumber (add_mono h.stored hm hn haccrued)
  · rw [h.refilled_of_not_isNumber m hrefill, h.refilled_of_not_isNumber n hrefill]
    exact .refl h.capacity.isNumber

omit h [PermitLaws α] in
theorem storedAt_of_lt {now : Micros} (hlt : b.nextFree < now) :
    b.storedAt now = b.refilled (now.toNat - b.nextFree.toNat) := by
  rw [storedAt, if_pos hlt, UInt64.toNat_sub_of_le _ _ (UInt64.le_of_lt hlt)]
  rfl

omit h [PermitLaws α] in
theorem storedAt_of_not_lt {now : Micros} (hlt : ¬ b.nextFree < now) : b.storedAt now = b.stored :=
  if_neg hlt

/-- What is stored at any instant is within the bounds, and not less than what was stored before. -/
theorem InBounds.storedAt_spec (now : Micros) :
    Unsigned (b.storedAt now) ∧ AtMost b.stored (b.storedAt now) ∧
      AtMost (b.storedAt now) b.capacity := by
  by_cases hlt : b.nextFree < now
  · rw [storedAt_of_lt hlt]
    have hfree := UInt64.lt_iff_toNat_lt.1 hlt
    exact h.refilled_spec (by omega) (by have := now.toNat_lt_size; omega)
  · rw [storedAt_of_not_lt hlt]
    exact ⟨h.stored, .refl h.stored.isNumber, h.le⟩

/-- **Stored permits grow with time.** -/
theorem InBounds.storedAt_mono {earlier later : Micros} (hle : earlier ≤ later) :
    AtMost (b.storedAt earlier) (b.storedAt later) := by
  rw [UInt64.le_iff_toNat_le] at hle
  by_cases hlt : b.nextFree < earlier
  · have hfree := UInt64.lt_iff_toNat_lt.1 hlt
    rw [storedAt_of_lt hlt, storedAt_of_lt (UInt64.lt_iff_toNat_lt.2 (by omega))]
    exact h.refilled_mono (by omega) (by omega) (by have := later.toNat_lt_size; omega)
  · rw [storedAt_of_not_lt hlt]
    exact (h.storedAt_spec later).2.1

/-! ## A run -/

theorem InBounds.settle (now : Micros) : (b.settle now).InBounds where
  stored := by
    rw [stored_settle]
    exact (h.storedAt_spec now).1
  capacity := by
    rw [capacity_settle]
    exact h.capacity
  le := by
    rw [stored_settle, capacity_settle]
    exact (h.storedAt_spec now).2.2
  interval := by
    rw [interval_settle]
    exact h.interval
  refill := by
    rw [refillInterval_settle]
    exact h.refill

/-- What is spent of the stored permits is finite, and is there. -/
theorem InBounds.spent_spec (permits : UInt64) :
    let spent := least (ofNat permits.toNat) b.stored
    Unsigned spent ∧ AtMost spent b.stored ∧ isFinite spent = true := by
  have hasked : Unsigned (ofNat permits.toNat : α) := unsigned_ofNat _
  have hspent := unsigned_least hasked h.stored
  have hfinite : isFinite (ofNat permits.toNat : α) = true := isFinite_ofNat permits.toNat_lt_size
  exact ⟨hspent, atMost_least_right hasked.isNumber h.stored.isNumber,
    isFinite_of_atMost hspent hasked (atMost_least_left hasked.isNumber) hfinite⟩

theorem InBounds.taken (permits : UInt64) (now : Micros) : (b.taken permits now).InBounds := by
  have hsettle := h.settle now
  obtain ⟨hspent, hle, hfinite⟩ := hsettle.spent_spec permits
  exact
    { stored := unsigned_sub hsettle.stored hspent hle hfinite
      capacity := hsettle.capacity
      le := atMost_trans (sub_atMost hsettle.stored hspent hle hfinite) hsettle.le
      interval := hsettle.interval
      refill := hsettle.refill }

theorem InBounds.next (d : Demand) : (b.next d).InBounds := by
  rw [next_eq]
  split
  · exact h.taken d.permits d.now
  · exact h.settle d.now

end

theorem InBounds.after {b : Bucket α} (h : b.InBounds) (past : List Demand) :
    (b.after past).InBounds := by
  induction past generalizing b with
  | nil => exact h
  | cons d past ih => exact ih (h.next d)

end Bucket

namespace Catalog

variable {κ : Type} {c : Catalog κ} {rate : Rate} {start : Micros} {b : Bucket Float}

/-- What a catalog creates is within its bounds. -/
theorem inBounds_of_create (h : c.create rate start = .ok (.bucket b)) : b.InBounds := by
  obtain ⟨-, hcreate⟩ := create_eq_ok_iff.1 h
  split at hcreate
  · cases hcreate
  · cases hcreate
    exact Bucket.inBounds_flat _ _ _
  · cases hcreate
    exact Bucket.inBounds_warmingUp _ _ _ _
  · obtain ⟨_, _, -, -, hcustom⟩ := hcreate
    cases hcustom

/-- **Stored permits stay within the capacity and accrue.**  Let a catalog create a bucket of any
rate, bursty or warming up, and let it receive any demands at any instants.  What it stores then is
a number, not below zero and not above the capacity, which is still the one of the beginning.  Until
the next demand, what is stored grows with time, and it never exceeds the capacity. -/
theorem stored_within_capacity (h : c.create rate start = .ok (.bucket b)) (past : List Demand) :
    let left := b.after past
    left.capacity = b.capacity ∧
      (isNumber left.stored = true ∧ AtMost zero left.stored ∧ AtMost left.stored left.capacity) ∧
      ∀ earlier later : Micros, earlier ≤ later →
        AtMost zero (left.storedAt earlier) ∧
          AtMost (left.storedAt earlier) (left.storedAt later) ∧
          AtMost (left.storedAt later) left.capacity := by
  intro left
  have hleft : left.InBounds := (inBounds_of_create h).after past
  refine ⟨Bucket.kept_after Bucket.capacity (fun _ _ => Bucket.capacity_reserve ..) b past,
    ⟨hleft.stored.isNumber, hleft.stored.1, hleft.le⟩, fun earlier later hle => ?_⟩
  obtain ⟨-, -, hbound⟩ := hleft.storedAt_spec later
  exact ⟨(hleft.storedAt_spec earlier).1.1, hleft.storedAt_mono hle, hbound⟩

/-- A warm-up of less than a microsecond: what was taken is back as soon as the cold start is paid
for. -/
theorem stored_within_capacity_quickWarmUp :
    let rate : Rate := ⟨5, .ofSeconds 1, some (.warmingUp ⟨500⟩ 3.0)⟩
    let b : Bucket Float := .warmingUp rate.permitsPerSecond ⟨500⟩ 3.0 0
    let left := b.after [⟨1, .zero, 0⟩]
    (Catalog.standard : Catalog Empty).create rate 0 = .ok (.bucket b) ∧
      (b.stored = 1.0 ∧ left.storedAt 400000 = 0.0 ∧ left.storedAt 400001 = 1.0) ∧
      AtMost (left.storedAt 400000) (left.storedAt 400001) ∧
      AtMost (left.storedAt 400001) left.capacity := by
  intro rate b left
  have hcreate : (Catalog.standard : Catalog Empty).create rate 0 = .ok (.bucket b) :=
    create_eq_ok_iff.2 ⟨by decide +kernel, rfl⟩
  refine ⟨hcreate, by decide +kernel, ?_⟩
  exact ((stored_within_capacity hcreate [⟨1, .zero, 0⟩]).2.2 400000 400001 (by decide)).2

end Catalog

end Admission
