import Admission.Proofs.ExactPermits
import Admission.Proofs.StoredPermits

/-!
# Rejections leave no trace

A rejection does change a window or a bucket: it starts the window that holds the present instant,
or brings the stored permits up to date.  Nobody who comes later can tell, because to settle at one
instant and then at a later one is to settle at the later one.

* **`outcomes`** — what each of some demands is answered, and what it leaves behind; it depends on
  what the first of them finds only through its outcome;
* **windows** — `Window.settle_settle`: a start moves by whole lengths, in one step or in two;
* **buckets** — `Bucket.settle_settle_self` for one instant, whatever the bucket holds.  From one
  instant to another real numbers are rounded on the way; over exact ones `Bucket.settle_settle`
  says that what accrues does so in one step or in two, up to the capacity;
* **the law** — `rejections_leave_no_trace`.
-/

namespace Admission

open PermitArith

/-! ## Outcomes -/

/-- What each of some demands is answered, and what it leaves behind. -/
def outcomes {S : Type} (outcome : S → Demand → Option Micros × S) :
    S → List Demand → List (Option Micros × S)
  | _, [] => []
  | s, d :: demands => outcome s d :: outcomes outcome (outcome s d).2 demands

/-- If the first demand has the same outcome, so have all that follow. -/
theorem outcomes_congr {S : Type} {outcome : S → Demand → Option Micros × S} {s s' : S}
    {demands : List Demand} (h : ∀ d ∈ demands.head?, outcome s d = outcome s' d) :
    outcomes outcome s demands = outcomes outcome s' demands := by
  cases demands with
  | nil => rfl
  | cons d demands => rw [outcomes, outcomes, h d rfl]

/-- What is at the head of demands in order does not come before what they follow. -/
theorem le_head_of_pairwise {instant : Micros} {demands : List Demand}
    (h : (instant :: demands.map Demand.now).Pairwise (· ≤ ·)) :
    ∀ d ∈ demands.head?, instant ≤ d.now := by
  intro d hd
  have hmem : d ∈ demands := List.mem_of_mem_head? hd
  exact (List.pairwise_cons.1 h).1 d.now (List.mem_map_of_mem hmem)

/-! ## Windows -/

namespace Window

theorem hasPassed_iff (w : Window) (now : Micros) :
    w.hasPassed now = true ↔ w.length.toNat ≤ now.toNat - w.start.toNat := by
  rw [hasPassed, decide_eq_true_eq, UInt64.le_iff_toNat_le, Micros.toNat_since]

theorem eq_of_start_of_remaining {v w : Window} (hpermits : v.permits = w.permits)
    (hlength : v.length = w.length) (hstart : v.start = w.start)
    (hremaining : v.remaining = w.remaining) : v = w := by
  cases v
  cases w
  cases hpermits
  cases hlength
  cases hstart
  cases hremaining
  rfl

/-- A start moves by whole lengths. -/
theorem toNat_start_settle {w : Window} {now : Micros} (hle : w.start ≤ now) :
    (w.settle now).start.toNat =
      w.start.toNat + w.length.toNat * ((now.toNat - w.start.toNat) / w.length.toNat) := by
  have hdiv := Nat.div_add_mod (now.toNat - w.start.toNat) w.length.toNat
  have hstart := UInt64.le_iff_toNat_le.1 hle
  unfold settle
  split
  · have hgone : (now - w.start).toNat = now.toNat - w.start.toNat :=
      UInt64.toNat_sub_of_le _ _ hle
    have hrest : ((now - w.start) % w.length).toNat =
        (now.toNat - w.start.toNat) % w.length.toNat := by
      rw [UInt64.toNat_mod, hgone]
    have hless : (now - w.start) % w.length ≤ now := by
      rw [UInt64.le_iff_toNat_le, hrest]
      omega
    change (now - (now - w.start) % w.length).toNat = _
    rw [UInt64.toNat_sub_of_le _ _ hless, hrest]
    omega
  · next h =>
    rw [hasPassed_iff] at h
    rw [Nat.div_eq_of_lt (not_le.1 h), Nat.mul_zero, Nat.add_zero]

/-- **Windows stay aligned, in one step or in two.** -/
theorem settle_settle {w : Window} (hpos : 0 < w.length.toNat) {earlier later : Micros}
    (hle : earlier ≤ later) : (w.settle earlier).settle later = w.settle later := by
  by_cases hpassed : w.hasPassed earlier = true
  · have hgone := (w.hasPassed_iff earlier).1 hpassed
    have horder := UInt64.le_iff_toNat_le.1 hle
    have hbegun : w.start ≤ earlier := UInt64.le_iff_toNat_le.2 (by omega)
    have hstart := toNat_start_settle hbegun
    have hdiv := Nat.div_add_mod (earlier.toNat - w.start.toNat) w.length.toNat
    have hfull : (w.settle earlier).remaining = w.permits := by
      rw [remaining_settle, left, if_pos hpassed]
    refine eq_of_start_of_remaining (by simp) (by simp) ?_ ?_
    · have hsettled : (w.settle earlier).start ≤ later := UInt64.le_iff_toNat_le.2 (by omega)
      have hgap : later.toNat - w.start.toNat =
          w.length.toNat * ((earlier.toNat - w.start.toNat) / w.length.toNat) +
            (later.toNat - (w.settle earlier).start.toNat) := by omega
      rw [← UInt64.toNat_inj, toNat_start_settle hsettled,
        toNat_start_settle (UInt64.le_trans hbegun hle), length_settle, hgap,
        Nat.mul_add_div hpos, Nat.mul_add, hstart, Nat.add_assoc]
    · have hlater : w.hasPassed later = true := (w.hasPassed_iff later).2 (by omega)
      rw [remaining_settle, remaining_settle, left, left, permits_settle, hfull, ite_self,
        if_pos hlater]
  · have hearlier : w.settle earlier = w := if_neg hpassed
    rw [hearlier]

/-- What a window makes of a demand. -/
def outcome (w : Window) (d : Demand) : Option Micros × Window := w.reserve d.permits d.now

/-- A rejection settles a window, and no more. -/
theorem snd_outcome_of_none {w : Window} {d : Demand} (h : (w.outcome d).1 = none) :
    (w.outcome d).2 = w.settle d.now := by
  unfold outcome at h ⊢
  rcases UInt64.lt_or_le (w.left d.now) d.permits with hlt | hle
  · rw [w.reserve_of_lt hlt]
  · rw [w.reserve_of_le hle] at h
    cases h

/-- What a demand finds is the settled window. -/
theorem outcome_congr {w w' : Window} {d : Demand} (h : w.settle d.now = w'.settle d.now) :
    w.outcome d = w'.outcome d := by
  unfold outcome reserve
  rw [h]

end Window

/-! ## Buckets -/

namespace Bucket

section

variable {α : Type} [PermitArith α]

/-- To settle twice at one instant is to settle once. -/
theorem settle_settle_self (b : Bucket α) (now : Micros) :
    (b.settle now).settle now = b.settle now := by
  refine if_neg ?_
  rw [nextFree_settle]
  split
  · exact UInt64.lt_irrefl now
  · assumption

/-- What a bucket makes of a demand. -/
def outcome (b : Bucket α) (d : Demand) : Option Micros × Bucket α :=
  b.reserve d.permits d.timeout.micros d.now

/-- A rejection settles a bucket, and no more. -/
theorem snd_outcome_of_none {b : Bucket α} {d : Demand} (h : (b.outcome d).1 = none) :
    (b.outcome d).2 = b.settle d.now := by
  unfold outcome at h ⊢
  rw [reserve_eq] at h ⊢
  split at h
  · cases h
  · next hrejected => rw [if_neg hrejected]

/-- What a demand finds is the settled bucket. -/
theorem outcome_congr {b b' : Bucket α} {d : Demand} (h : b.settle d.now = b'.settle d.now) :
    b.outcome d = b'.outcome d := by
  unfold outcome reserve
  rw [h]

end

/-- Over exact numbers, what accrues does so in one step or in two, up to the capacity. -/
theorem min_refilled_add {b : Bucket Rat} (hrefill : 0 < b.refillInterval) (m n : Nat) :
    min b.capacity (b.refilled m + n / b.refillInterval) = b.refilled (m + n) := by
  have hmore : (0 : Rat) ≤ n / b.refillInterval := div_nonneg (Nat.cast_nonneg n) hrefill.le
  have hrefilled (k : Nat) : b.refilled k = min b.capacity (b.stored + k / b.refillInterval) :=
    least_eq_min _ _
  calc min b.capacity (b.refilled m + n / b.refillInterval)
      = min b.capacity (min (b.capacity + n / b.refillInterval)
          (b.stored + m / b.refillInterval + n / b.refillInterval)) := by
        rw [hrefilled, min_add_add_right]
    _ = min b.capacity (b.stored + m / b.refillInterval + n / b.refillInterval) := by
        rw [← min_assoc, min_eq_left (le_add_of_nonneg_right hmore)]
    _ = b.refilled (m + n) := by
        rw [hrefilled, Nat.cast_add, add_div, add_assoc]

theorem storedAt_settle {b : Bucket Rat} (hrefill : 0 < b.refillInterval) {earlier later : Micros}
    (hfree : b.nextFree < earlier) (hlt : earlier < later) :
    (b.settle earlier).storedAt later = b.storedAt later := by
  have hnext : (b.settle earlier).nextFree = earlier := by rw [nextFree_settle, if_pos hfree]
  have hsettled : (b.settle earlier).nextFree < later := by rwa [hnext]
  have hfree' := UInt64.lt_iff_toNat_lt.1 hfree
  have hlt' := UInt64.lt_iff_toNat_lt.1 hlt
  have hgap : later.toNat - b.nextFree.toNat =
      (earlier.toNat - b.nextFree.toNat) + (later.toNat - earlier.toNat) := by omega
  rw [storedAt_of_lt hsettled, storedAt_of_lt (UInt64.lt_trans hfree hlt), hgap,
    ← min_refilled_add hrefill, ← storedAt_of_lt hfree, hnext, refilled, least_eq_min,
    capacity_settle, stored_settle, refillInterval_settle]
  rfl

/-- **Over exact numbers, a bucket is settled in one step or in two.** -/
theorem settle_settle {b : Bucket Rat} (hrefill : 0 < b.refillInterval) {earlier later : Micros}
    (hle : earlier ≤ later) : (b.settle earlier).settle later = b.settle later := by
  by_cases hfree : b.nextFree < earlier
  · rcases UInt64.lt_or_eq_of_le hle with hlt | rfl
    · have hearlier : b.settle earlier =
          { b with stored := b.storedAt earlier, nextFree := earlier } := if_pos hfree
      have hsettled : (b.settle earlier).nextFree < later := by rwa [hearlier]
      calc (b.settle earlier).settle later
          = { b.settle earlier with
              stored := (b.settle earlier).storedAt later, nextFree := later } := if_pos hsettled
        _ = { b with stored := b.storedAt later, nextFree := later } := by
            rw [storedAt_settle hrefill hfree hlt, hearlier]
        _ = b.settle later := (if_pos (UInt64.lt_trans hfree hlt)).symm
    · exact b.settle_settle_self earlier
  · have hearlier : b.settle earlier = b := if_neg hfree
    rw [hearlier]

end Bucket

/-! ## The law -/

/-- **Rejections leave no trace.**  Let a window that takes time, in any state, reject a demand.
All demands that follow, in order and not before it, are answered, and leave the window, as if the
rejected one had never been made.  The same holds of a bucket in any state and whatever its permits
are counted in, if the demands that follow come at the same instant; and over exact numbers, if
permits come back at a positive rate, of all demands that follow in order. -/
theorem rejections_leave_no_trace :
    (∀ (w : Window) (d : Demand), 1 ≤ w.length → (w.outcome d).1 = none →
      ∀ later : List Demand, (d.now :: later.map Demand.now).Pairwise (· ≤ ·) →
        outcomes Window.outcome (w.outcome d).2 later = outcomes Window.outcome w later) ∧
    (∀ (α : Type) [PermitArith α] (b : Bucket α) (d : Demand), (b.outcome d).1 = none →
      ∀ later : List Demand, (∀ other ∈ later, other.now = d.now) →
        outcomes Bucket.outcome (b.outcome d).2 later = outcomes Bucket.outcome b later) ∧
    ∀ (b : Bucket Rat) (d : Demand), 0 < b.refillInterval → (b.outcome d).1 = none →
      ∀ later : List Demand, (d.now :: later.map Demand.now).Pairwise (· ≤ ·) →
        outcomes Bucket.outcome (b.outcome d).2 later = outcomes Bucket.outcome b later := by
  refine ⟨fun w d hlength hreject later hlater => ?_, fun α _ b d hreject later hsame => ?_,
    fun b d hrefill hreject later hlater => ?_⟩
  · rw [Window.snd_outcome_of_none hreject]
    have hpos : 0 < w.length.toNat := UInt64.le_iff_toNat_le.1 hlength
    exact outcomes_congr fun other hother =>
      Window.outcome_congr (Window.settle_settle hpos (le_head_of_pairwise hlater other hother))
  · rw [Bucket.snd_outcome_of_none hreject]
    refine outcomes_congr fun other hother => Bucket.outcome_congr ?_
    rw [hsame other (List.mem_of_mem_head? hother)]
    exact b.settle_settle_self d.now
  · rw [Bucket.snd_outcome_of_none hreject]
    exact outcomes_congr fun other hother =>
      Bucket.outcome_congr (Bucket.settle_settle hrefill (le_head_of_pairwise hlater other hother))

/-- A window and two buckets, the second of them exact, that have no permits left and reject one. -/
theorem rejections_leave_no_trace_empty :
    let w : Window := ⟨1, 1000000, 0, 0⟩
    let b : Bucket Float := ⟨0.0, 3.0, 250000.0, 0, .flat⟩
    let counted : Bucket Rat := ⟨0, 3, 250000, 0, .flat⟩
    let rejected : Demand := ⟨1, .zero, 5⟩
    let same : List Demand := [⟨1, .ofSeconds 1, 5⟩]
    let later : List Demand := [⟨1, .ofSeconds 1, 7⟩, ⟨1, .zero, 1000003⟩]
    ((w.outcome rejected).1 = none ∧
        outcomes Window.outcome (w.outcome rejected).2 later = outcomes Window.outcome w later) ∧
      ((b.outcome rejected).1 = none ∧
        outcomes Bucket.outcome (b.outcome rejected).2 same = outcomes Bucket.outcome b same) ∧
      (counted.outcome rejected).1 = none ∧
        outcomes Bucket.outcome (counted.outcome rejected).2 later =
          outcomes Bucket.outcome counted later := by
  intro w b counted rejected same later
  have hw : (w.outcome rejected).1 = none := by decide +kernel
  have hb : (b.outcome rejected).1 = none := by decide +kernel
  have hexact : (counted.outcome rejected).1 = none := by decide +kernel
  have hlater : (rejected.now :: later.map Demand.now).Pairwise (· ≤ ·) := by decide
  obtain ⟨hwindow, hbucket, hexactly⟩ := rejections_leave_no_trace
  refine ⟨⟨hw, hwindow w rejected (by decide) hw later hlater⟩,
    ⟨hb, hbucket Float b rejected hb same (fun other hother => ?_)⟩,
    hexact, hexactly counted rejected (by decide +kernel) hexact later hlater⟩
  rw [List.mem_singleton.1 hother]

end Admission
