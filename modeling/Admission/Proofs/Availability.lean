import Admission.Proofs.ClosedQuota
import Admission.Proofs.NextPermit

/-!
# Availability

Whether a meter is available is looked up, not tried: a window tells when the present one ends, and
a bucket when it is free.  Both agree with what a request then gets if the rate has any permits.

* **buckets** — `Bucket.IsSupplied`: where permits come at a finite interval, a bucket that is free
  grants one within that interval (`Bucket.IsSupplied.reserve_one`);
* **windows** — what `Window.earliest_le_iff` says: a window holds a permit from the instant on that
  it names, as long as the end of the present one is an instant that the clock can show;
* **the law** — `available_meters_grant`, for meters and for groups that all have to agree;
* **without permits** — the same questions have the same answers, but there is nothing to be had:
  `available_in_vain`.
-/

namespace Admission

open PermitArith PermitLaws

/-! ## Buckets -/

namespace Bucket

/-- A bucket within its bounds whose permits come at a finite interval. -/
structure IsSupplied (b : Bucket Float) : Prop where
  /-- The bucket is within its bounds. -/
  bounds : b.InBounds
  /-- Permits come at an interval. -/
  interval : isFinite b.interval = true

theorem IsSupplied.next {b : Bucket Float} (h : b.IsSupplied) (d : Demand) :
    (b.next d).IsSupplied := by
  refine ⟨h.bounds.next d, ?_⟩
  rw [Bucket.next, interval_reserve]
  exact h.interval

/-- No more than one of something finite is not above it. -/
theorem atMost_of_mul_of_atMost_one {x y : Float} (hx : Unsigned x) (hle : AtMost x one)
    (hy : Unsigned y) (hfinite : isFinite y = true) :
    isFinite (x * y) = true ∧ Unsigned (x * y) ∧ AtMost (x * y) y := by
  obtain ⟨v, hv⟩ := Binary64.unsigned_iff.1 hx
  obtain ⟨w, hw⟩ := Binary64.unsigned_iff.1 hy
  have hone := Binary64.unsigned_ofNat 1
  rw [Nat.cast_one, Binary64.kept_one] at hone
  have hsmall : v ≤ 1 := (hv.atMost_iff hone).1 hle
  have hbound : w < Binary64.top := hw.isFinite_iff.1 hfinite
  have htop : (1 : Rat) < Binary64.top := hone.isFinite_iff.1 rfl
  have hproduct := hv.mul hw (hsmall.trans_lt htop) hbound
  have hkept : Binary64.kept (v * w) ≤ w :=
    calc Binary64.kept (v * w) ≤ Binary64.kept w :=
          Binary64.kept_mono (mul_nonneg hv.nonneg hw.nonneg)
            (mul_le_of_le_one_left hw.nonneg hsmall)
      _ = w := hw.kept_eq
  exact ⟨hproduct.isFinite_iff.2 (hkept.trans_lt hbound), Binary64.unsigned_iff.2 ⟨_, hproduct⟩,
    (hproduct.atMost_iff hw).2 hkept⟩

/-- One permit accrues within the steady interval. -/
theorem IsSupplied.accrual_one {b : Bucket Float} (h : b.IsSupplied) :
    isFinite (accrual b.stored b.interval 1) = true ∧
      wholePart (accrual b.stored b.interval 1) ≤ wholePart b.interval := by
  have hone : Unsigned (one : Float) := unsigned_one
  obtain ⟨hspent, -, hfinite⟩ := h.bounds.spent_spec 1
  have hle : AtMost (least one b.stored) one := atMost_least_left hone.isNumber
  have hfresh : Unsigned (one - least one b.stored) := unsigned_sub hone hspent hle hfinite
  have hsmall : AtMost (one - least one b.stored) one := sub_atMost hone hspent hle hfinite
  unfold accrual
  dsimp only
  split
  · obtain ⟨hfiniteTime, htime, hbound⟩ :=
      atMost_of_mul_of_atMost_one hfresh hsmall h.bounds.interval h.interval
    exact ⟨hfiniteTime, wholePart_mono htime h.bounds.interval hbound⟩
  · rw [wholePart_zero]
    exact ⟨isFinite_ofNat (by decide), UInt64.zero_le⟩

/-- A bucket that is free grants one permit within the steady interval. -/
theorem IsSupplied.reserve_one {b : Bucket Float} (h : b.IsSupplied) {now timeout : Micros}
    (hfree : b.nextFree ≤ now) (htimeout : wholePart b.interval ≤ timeout) :
    (b.reserve 1 timeout now).1.isSome = true := by
  have hsettle : (b.settle now).IsSupplied :=
    ⟨h.bounds.settle now, (b.interval_settle now).symm ▸ h.interval⟩
  obtain ⟨hfinite, htime⟩ := hsettle.accrual_one
  rw [interval_settle] at hfinite htime
  have hwait : b.moment 1 now - now ≤ timeout := by
    have hsum := b.toNat_add_wait 1 now
    have hmoment : (b.moment 1 now).toNat ≤
        now.toNat + (wholePart (accrual (b.settle now).stored b.interval 1)).toNat := by
      rw [moment, nextFree_settle_of_le hfree, Micros.toNat_later]
      exact min_le_left _ _
    rw [UInt64.le_iff_toNat_le] at htime htimeout ⊢
    omega
  rw [reserve_eq, if_pos ⟨hfinite, hwait⟩]
  rfl

end Bucket

/-! ## Meters -/

variable {κ : Type}

namespace Meter

/-- The time within which an available meter grants one permit: none, or that in which one
accrues. -/
def permitTime : Meter κ → Micros
  | .window _ => 0
  | .bucket b => wholePart b.interval
  | .custom _ => 0

/-- Whether the end of the present window, where there is one, is an instant that the clock can
show. -/
def EndsOnClock : Meter κ → Prop
  | .window w => w.EndsOnClock
  | _ => True

/-- A meter whose windows hold permits, or into which permits come. -/
def HasSupply : Meter κ → Prop
  | .window w => 1 ≤ w.permits
  | .bucket b => b.IsSupplied
  | .custom _ => False

/-- A rate with permits supplies its meter. -/
theorem IsFresh.hasSupply {rate : Rate} {start : Micros} {m : Meter κ} (h : m.IsFresh rate start)
    (hpermits : 1 ≤ rate.permits) (hperiod : 0 < rate.period.nanos)
    (hword : rate.period.seconds < UInt64.size) : m.HasSupply := by
  cases m with
  | window w =>
    obtain rfl := h
    exact hpermits
  | bucket b =>
    obtain ⟨hfresh, hbounds⟩ := h
    refine ⟨hbounds, ?_⟩
    rw [hfresh.interval]
    exact Rate.isFinite_steadyInterval hpermits hperiod hword
  | custom c => exact h.elim

variable [CustomMeter κ]

/-- A meter that a catalog has made of a rate with permits, and that has received some demands
since. -/
def IsSupplied (m : Meter κ) : Prop :=
  ∃ (c : Catalog κ) (rate : Rate) (start : Micros) (first : Meter κ) (past : List Demand),
    (1 ≤ rate.permits ∧ 0 < rate.period.nanos ∧ rate.period.seconds < UInt64.size) ∧
      (rate.algorithm.getD c.fallback).IsBuiltIn ∧ c.create rate start = .ok first ∧
      m = first.after past

/-- No demand cuts off the supply. -/
theorem HasSupply.next {m : Meter κ} (h : m.HasSupply) (d : Demand) : (m.next d).HasSupply := by
  refine next_induct h fun _ => ?_
  cases m with
  | window w =>
    change 1 ≤ (w.reserve d.permits d.now).2.permits
    rw [Window.permits_reserve]
    exact h
  | bucket b => exact Bucket.IsSupplied.next h d
  | custom c => exact h.elim

theorem IsSupplied.hasSupply {m : Meter κ} (h : m.IsSupplied) : m.HasSupply := by
  obtain ⟨c, rate, start, first, past, ⟨hpermits, hperiod, hword⟩, hbuiltIn, hcreate, rfl⟩ := h
  have hfresh := Catalog.isFresh_of_create hbuiltIn hcreate
  exact after_induct (fun _ d h => h.next d) (hfresh.hasSupply hpermits hperiod hword) past

/-- **An available meter grants a permit**, if it has a supply. -/
theorem HasSupply.reserve_one {m : Meter κ} (h : m.HasSupply) (hends : m.EndsOnClock) {now : Micros}
    (havailable : m.isAvailable now = true) {timeout : Duration}
    (htimeout : m.permitTime ≤ timeout.micros) : (m.reserve 1 timeout now).1.isSome = true := by
  have hnow : m.earliest now ≤ now := of_decide_eq_true havailable
  rw [reserve_of_ne _ (by decide)]
  cases m with
  | window w =>
    have hleft := (Window.earliest_le_iff h hends (UInt64.le_refl now)).1 hnow
    change (w.reserve 1 now).1.isSome = true
    rw [w.reserve_of_le hleft]
    rfl
  | bucket b => exact Bucket.IsSupplied.reserve_one h hnow htimeout
  | custom c => exact h.elim

end Meter

/-! ## The law -/

variable [CustomMeter κ]

/-- **What is available can be had**, where there is anything.  Let a catalog have made a meter of a
rate with permits, over any period, by an algorithm of the library, and let the meter have received
any demands at any instants.  If it says at some instant that it is available, and the present
window of a window ends on the clock, then it grants one permit at that instant: a window whatever
the timeout is, and a bucket within the time in which one permit accrues.  A group of such meters
that all have to agree grants one permit when it says that it is available, within the longest of
these times. -/
theorem available_meters_grant (now : Micros) :
    (∀ m : Meter κ, m.IsSupplied → m.EndsOnClock → m.isAvailable now = true →
      ∀ timeout : Duration, m.permitTime ≤ timeout.micros →
        (m.reserve 1 timeout now).1.isSome = true) ∧
    ∀ g : MeterGroup κ, g.operator = .and → (∀ m ∈ g.members, m.IsSupplied ∧ m.EndsOnClock) →
      g.isAvailable now = true →
      ∀ timeout : Duration, (∀ m ∈ g.members, m.permitTime ≤ timeout.micros) →
        (g.reserve 1 timeout now).1.isSome = true := by
  refine ⟨fun m hm hends hnow timeout => hm.hasSupply.reserve_one hends hnow, ?_⟩
  intro g hand hmembers hnow timeout htimeout
  have hall : ∀ m ∈ g.members, m.isAvailable now = true := by
    unfold MeterGroup.isAvailable at hnow
    rw [hand] at hnow
    exact List.all_eq_true.1 hnow
  have hanswer := g.answer_eq ⟨1, timeout, now⟩
  change (g.reserve 1 timeout now).1 = _ at hanswer
  rw [hanswer, MeterGroup.isSome_combine_iff]
  refine .inr (.inr (.inl ⟨hand, List.forall_mem_map.2 fun m hm => ?_⟩))
  obtain ⟨hsupplied, hends⟩ := hmembers m hm
  exact hsupplied.hasSupply.reserve_one hends (hall m hm) (htimeout m hm)

/-- Two permits a second, one of which is gone, next to a window of three a second. -/
theorem available_meters_grant_pair :
    let c : Catalog Empty := .standard
    let rate : Rate := .perSecond 2
    let rate' : Rate := ⟨3, .ofSeconds 1, some .allOrNothing⟩
    let bucket : Meter Empty := .bucket (.flat rate.permitsPerSecond 1.0 0)
    let window : Meter Empty := .window (.begin 3 (.ofSeconds 1) 0)
    let g : MeterGroup Empty := ⟨.and, [bucket.after [⟨1, .zero, 0⟩], window]⟩
    (c.create rate 0 = .ok bucket ∧ c.create rate' 0 = .ok window) ∧
      g.isAvailable 5 = true ∧ g.members.map Meter.permitTime = [500000, 0] ∧
      (g.reserve 1 (.ofMillis 500) 5).1.isSome = true := by
  intro c rate rate' bucket window g
  have hbucket : c.create rate 0 = .ok bucket := Catalog.create_perSecond 2 0
  have hwindow : c.create rate' 0 = .ok window := rfl
  have hnow : g.isAvailable 5 = true := by decide +kernel
  have htimes : g.members.map Meter.permitTime = [500000, 0] := by decide +kernel
  have hbuiltIn : (rate.algorithm.getD c.fallback).IsBuiltIn := trivial
  have hbuiltIn' : (rate'.algorithm.getD c.fallback).IsBuiltIn := trivial
  have hends : window.EndsOnClock := show 0 + 1000000 < UInt64.size by decide
  have hmembers : ∀ m ∈ g.members, m.IsSupplied ∧ m.EndsOnClock := by
    simp only [g, List.forall_mem_cons]
    exact ⟨⟨⟨c, rate, 0, bucket, _, by decide, hbuiltIn, hbucket, rfl⟩, trivial⟩,
      ⟨⟨c, rate', 0, window, [], by decide, hbuiltIn', hwindow, rfl⟩, hends⟩,
      fun m hm => absurd hm List.not_mem_nil⟩
  have htimeout : ∀ time ∈ g.members.map Meter.permitTime,
      time ≤ (Duration.ofMillis 500).micros := by
    simp only [htimes, List.forall_mem_cons]
    exact ⟨by decide +kernel, by decide +kernel, fun _ h => absurd h List.not_mem_nil⟩
  exact ⟨⟨hbucket, hwindow⟩, hnow, htimes,
    (available_meters_grant 5).2 g rfl hmembers hnow _ (List.forall_mem_map.1 htimeout)⟩

/-! ## Without permits -/

/-- A bucket of no permits a second is free from the beginning, and a window without permits says
that there is one when the present window is over.  So both are available, and so is a group of the
two, but neither grants a permit, whatever the timeout is. -/
theorem available_in_vain :
    let c : Catalog Empty := .standard
    let rate : Rate := .perSecond 0
    let rate' : Rate := ⟨0, .ofSeconds 1, some .allOrNothing⟩
    let bucket : Meter Empty := .bucket (.flat rate.permitsPerSecond 1.0 0)
    let window : Meter Empty := .window (.begin 0 (.ofSeconds 1) 0)
    let g : MeterGroup Empty := ⟨.and, [bucket, window]⟩
    (c.create rate 0 = .ok bucket ∧ c.create rate' 0 = .ok window) ∧
      (bucket.isAvailable 1000000 = true ∧ window.isAvailable 1000000 = true ∧
        g.isAvailable 1000000 = true) ∧
      ∀ timeout : Duration, (bucket.reserve 1 timeout 1000000).1 = none ∧
        (window.reserve 1 timeout 1000000).1 = none ∧ (g.reserve 1 timeout 1000000).1 = none := by
  intro c rate rate' bucket window g
  have hbucket : c.create rate 0 = .ok bucket := Catalog.create_perSecond 0 0
  have hwindow : c.create rate' 0 = .ok window := rfl
  have hbuiltIn : (rate.algorithm.getD c.fallback).IsBuiltIn := trivial
  have hbuiltIn' : (rate'.algorithm.getD c.fallback).IsBuiltIn := trivial
  have hclosed : bucket.IsClosed := (Catalog.isFresh_of_create hbuiltIn hbucket).isClosed rfl
  have hclosed' : window.IsClosed := (Catalog.isFresh_of_create hbuiltIn' hwindow).isClosed rfl
  have hgroup : g.IsClosed := ⟨rfl, bucket, List.mem_cons_self, hclosed⟩
  have hone : (1 : UInt64) ≠ 0 := by decide
  refine ⟨⟨hbucket, hwindow⟩, by decide +kernel, fun timeout => ⟨?_, ?_, ?_⟩⟩
  · exact hclosed.reserve hone timeout 1000000
  · exact hclosed'.reserve hone timeout 1000000
  · exact hgroup.reserve hone timeout 1000000

end Admission
