import Admission.Proofs.BurstBound

/-!
# Reservations queue up

A bucket keeps one instant, the earliest at which a new reservation may start.  Whatever else the
bucket holds, be it infinite or not a number at all, and however the clock jumps back and forth,
this instant makes a queue of the reservations: nobody starts before somebody who came earlier.

* **one demand** — `Bucket.moment` is the instant at which a demand can be met, and
  `Bucket.reserve_eq` says that a reservation compares it with the timeout and otherwise only
  settles; `Bucket.le_moment` is why the wait until then never comes out below zero;
* **a run** — `Bucket.nextFree_le_next` carries the instant through a run of demands, and
  `Bucket.pairwise_start_grants` puts the grants of a run in order;
* **the law** — `Bucket.reservations_queue_up` says all of it of every demand of every run.
-/

namespace Admission

open PermitArith

namespace Bucket

variable {α : Type} [PermitArith α]

/-! ## One demand -/

/-- The instant at which the permits that are asked for can be had: the missing ones accrue from the
earliest instant at which a reservation may start. -/
def moment (b : Bucket α) (permits : UInt64) (now : Micros) : Micros :=
  Micros.later (b.settle now).nextFree
    (wholePart (accrual (b.settle now).stored b.interval permits))

/-- The bucket once the permits are taken: what they cost is charged to whoever comes next. -/
def taken (b : Bucket α) (permits : UInt64) (now : Micros) : Bucket α :=
  let spent := least (ofNat permits.toNat) (b.settle now).stored
  { b.settle now with
    nextFree := Micros.later (b.moment permits now)
      (wholePart ((b.settle now).cost (b.settle now).stored spent))
    stored := (b.settle now).stored - spent }

/-- A reservation waits for the moment at which its permits can be had, if they ever can and the
wait is not above the timeout.  Otherwise the bucket is brought up to date, and no more. -/
theorem reserve_eq (b : Bucket α) (permits : UInt64) (timeout now : Micros) :
    b.reserve permits timeout now =
      if isFinite (accrual (b.settle now).stored b.interval permits) = true ∧
          b.moment permits now - now ≤ timeout
      then (some (b.moment permits now - now), b.taken permits now)
      else (none, b.settle now) := by
  unfold reserve taken moment accrual
  dsimp only
  rw [interval_settle]
  generalize (if isPositive (_ : α) = true then _ else zero : α) = time
  by_cases hfinite : isFinite time = true
  · rw [hfinite, Bool.not_true, if_neg Bool.false_ne_true]
    by_cases hlate : timeout < Micros.later (b.settle now).nextFree (wholePart time) - now
    · rw [if_pos hlate, if_neg fun h => UInt64.not_le.2 hlate h.2]
    · rw [if_neg hlate, if_pos ⟨rfl, UInt64.not_lt.1 hlate⟩]
  · rw [Bool.not_eq_true] at hfinite
    rw [hfinite, Bool.not_false, if_pos rfl, if_neg fun h => Bool.false_ne_true h.1]

theorem toNat_nextFree_settle (b : Bucket α) (now : Micros) :
    (b.settle now).nextFree.toNat = max b.nextFree.toNat now.toNat := by
  rw [nextFree_settle]
  split
  · next h => have := UInt64.lt_iff_toNat_lt.1 h; omega
  · next h => have := mt UInt64.lt_iff_toNat_lt.2 h; omega

/-- No reservation starts in the past, nor before the bucket is free. -/
theorem le_moment (b : Bucket α) (permits : UInt64) (now : Micros) :
    max b.nextFree.toNat now.toNat ≤ (b.moment permits now).toNat := by
  have hsettle := b.toNat_nextFree_settle now
  have hlt := (b.settle now).nextFree.toNat_lt_size
  rw [moment, Micros.toNat_later]
  omega

/-- The wait until the moment ends at that moment. -/
theorem toNat_add_wait (b : Bucket α) (permits : UInt64) (now : Micros) :
    now.toNat + (b.moment permits now - now).toNat = (b.moment permits now).toNat := by
  have hle := b.le_moment permits now
  rw [UInt64.toNat_sub_of_le _ _ (UInt64.le_iff_toNat_le.2 (by omega))]
  omega

/-- Nobody comes before the reservation that was made last. -/
theorem moment_le_nextFree_taken (b : Bucket α) (permits : UInt64) (now : Micros) :
    (b.moment permits now).toNat ≤ (b.taken permits now).nextFree.toNat := by
  have hlt := (b.moment permits now).toNat_lt_size
  rw [taken, Micros.toNat_later]
  omega

/-! ## A run -/

/-- The bucket after a demand. -/
def next (b : Bucket α) (d : Demand) : Bucket α :=
  (b.reserve d.permits d.timeout.micros d.now).2

/-- The bucket after some demands. -/
def after (b : Bucket α) (demands : List Demand) : Bucket α := demands.foldl next b

theorem after_append_singleton (b : Bucket α) (past : List Demand) (d : Demand) :
    b.after (past ++ [d]) = (b.after past).next d := List.foldl_append

/-- What a demand leaves behind: the bucket brought up to date, or the bucket once the permits are
taken. -/
theorem next_eq (b : Bucket α) (d : Demand) :
    b.next d =
      if isFinite (accrual (b.settle d.now).stored b.interval d.permits) = true ∧
          b.moment d.permits d.now - d.now ≤ d.timeout.micros
      then b.taken d.permits d.now else b.settle d.now := by
  rw [next, reserve_eq]
  split <;> rfl

/-- The instant at which a bucket is free never comes closer. -/
theorem nextFree_le_next (b : Bucket α) (d : Demand) :
    b.nextFree.toNat ≤ (b.next d).nextFree.toNat := by
  have hsettle := b.toNat_nextFree_settle d.now
  have hmoment := b.le_moment d.permits d.now
  have htaken := b.moment_le_nextFree_taken d.permits d.now
  rw [next_eq]
  split <;> omega

/-- What no demand changes, a run does not change. -/
theorem kept_after {β : Type} (part : Bucket α → β) (h : ∀ b d, part (next b d) = part b)
    (b : Bucket α) (demands : List Demand) : part (b.after demands) = part b := by
  induction demands generalizing b with
  | nil => rfl
  | cons d demands ih => exact (ih (b.next d)).trans (h b d)

/-- A demand adds no grant, or one that starts when the bucket is free and not after it is free
again. -/
theorem grants_cons (b : Bucket α) (d : Demand) (demands : List Demand) :
    b.grants (d :: demands) = (b.next d).grants demands ∨
      ∃ g : Grant, b.grants (d :: demands) = g :: (b.next d).grants demands ∧
        b.nextFree.toNat ≤ g.start ∧ g.start ≤ (b.next d).nextFree.toNat := by
  have hreserve := b.reserve_eq d.permits d.timeout.micros d.now
  split at hreserve
  · next hgranted =>
    have hstart := b.toNat_add_wait d.permits d.now
    have hmoment := b.le_moment d.permits d.now
    have htaken := b.moment_le_nextFree_taken d.permits d.now
    refine .inr ⟨_, by rw [grants_cons_of_some hreserve, next, hreserve], ?_, ?_⟩
    · dsimp only
      omega
    · rw [next, hreserve]
      dsimp only
      omega
  · exact .inl (by rw [grants_cons_of_none hreserve, next, hreserve])

/-- No grant of a run starts before the bucket is free. -/
theorem nextFree_le_start (b : Bucket α) (demands : List Demand) :
    ∀ g ∈ b.grants demands, b.nextFree.toNat ≤ g.start := by
  induction demands generalizing b with
  | nil => exact fun g hg => absurd hg List.not_mem_nil
  | cons d demands ih =>
    intro g hg
    have hnext := b.nextFree_le_next d
    rcases b.grants_cons d demands with hgrants | ⟨first, hgrants, hstart, -⟩
    · rw [hgrants] at hg
      exact le_trans hnext (ih (b.next d) g hg)
    · rw [hgrants] at hg
      rcases List.mem_cons.1 hg with rfl | hg
      · exact hstart
      · exact le_trans hnext (ih (b.next d) g hg)

/-- Grants start in the order in which they were made. -/
theorem pairwise_start_grants (b : Bucket α) (demands : List Demand) :
    (b.grants demands).Pairwise fun earlier later => earlier.start ≤ later.start := by
  induction demands generalizing b with
  | nil => exact .nil
  | cons d demands ih =>
    rcases b.grants_cons d demands with hgrants | ⟨first, hgrants, -, hfree⟩
    · rw [hgrants]
      exact ih (b.next d)
    · rw [hgrants]
      refine .cons (fun g hg => ?_) (ih (b.next d))
      exact le_trans hfree ((b.next d).nextFree_le_start demands g hg)

/-! ## The law -/

/-- **Reservations form one queue.**  Let any bucket, flat or rising and whatever numbers it holds,
receive any demands `past` and then one more, with the clock going back as well as forth.  The
moment at which the permits can be had is not in the past, so the wait until then is a difference
that does not wrap.  The bucket is never free sooner than it was.  A grant waits no longer than its
timeout, starts neither in the past nor before the bucket was free, and the bucket is not free again
before it has started; a rejection leaves the bucket free at the later of that instant and now.
Over the whole run grants start in the order in which they were made, and the capacity, the steady
interval and the ramp stay what they were. -/
theorem reservations_queue_up (b : Bucket α) (past : List Demand) (d : Demand) :
    let before := b.after past
    let after := b.after (past ++ [d])
    let timeout := d.timeout.micros
    let moment := before.moment d.permits d.now
    (before.reserve d.permits timeout d.now =
        if isFinite (accrual (before.settle d.now).stored before.interval d.permits) = true ∧
            moment - d.now ≤ timeout
        then (some (moment - d.now), after) else (none, after)) ∧
      d.now ≤ moment ∧
      before.nextFree ≤ after.nextFree ∧
      (∀ wait, (before.reserve d.permits timeout d.now).1 = some wait →
        wait ≤ timeout ∧ d.now.toNat + wait.toNat = moment.toNat ∧
          max before.nextFree.toNat d.now.toNat ≤ d.now.toNat + wait.toNat ∧
          d.now.toNat + wait.toNat ≤ after.nextFree.toNat) ∧
      ((before.reserve d.permits timeout d.now).1 = none →
        after.nextFree.toNat = max before.nextFree.toNat d.now.toNat) ∧
      ((b.grants (past ++ [d])).Pairwise fun earlier later => earlier.start ≤ later.start) ∧
      after.capacity = b.capacity ∧ after.interval = b.interval ∧ after.ramp = b.ramp := by
  intro before after timeout moment
  have hafter : after = before.next d := b.after_append_singleton past d
  have hreserve := before.reserve_eq d.permits timeout d.now
  have hnext := before.next_eq d
  have hmoment : max before.nextFree.toNat d.now.toNat ≤ moment.toNat :=
    before.le_moment d.permits d.now
  have hwait : d.now.toNat + (moment - d.now).toNat = moment.toNat :=
    before.toNat_add_wait d.permits d.now
  have hfree := before.nextFree_le_next d
  rw [← hafter] at hnext hfree
  refine ⟨?_, UInt64.le_iff_toNat_le.2 (by omega), UInt64.le_iff_toNat_le.2 hfree, ?_, ?_,
    b.pairwise_start_grants _, kept_after capacity (fun _ _ => capacity_reserve ..) b _,
    kept_after interval (fun _ _ => interval_reserve ..) b _,
    kept_after ramp (fun _ _ => ramp_reserve ..) b _⟩
  · rw [hreserve]
    split
    · next hgranted => rw [hnext, if_pos hgranted]
    · next hrejected => rw [hnext, if_neg hrejected]
  · intro wait hgrant
    rw [hreserve] at hgrant
    split at hgrant
    · next hgranted =>
      have htaken : moment.toNat ≤ (before.taken d.permits d.now).nextFree.toNat :=
        before.moment_le_nextFree_taken d.permits d.now
      obtain rfl : moment - d.now = wait := Option.some.inj hgrant
      rw [if_pos hgranted] at hnext
      rw [hnext, hwait]
      exact ⟨hgranted.2, rfl, hmoment, htaken⟩
    · cases hgrant
  · intro hreject
    rw [hreserve] at hreject
    split at hreject
    · cases hreject
    · next hrejected =>
      rw [hnext, if_neg hrejected]
      exact before.toNat_nextFree_settle d.now

end Bucket

end Admission
