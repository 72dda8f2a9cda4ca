import Admission.Proofs.EasierDemands
import Admission.Proofs.SteadyPace

/-!
# Fresh meters

A meter that has just been created is full.  Whoever comes first gets all of it at once, and that is
at least one permit if the rate has any.

* **creation** — `Catalog.exists_create`: the algorithms of the library always make a meter of a
  rate if their parameters make sense, and `Meter.IsFresh` says what kind of meter that is;
* **what is stored** — `Bucket.reserve_of_stored`: once a bucket is free it grants what it
  stores without a wait;
* **the law** — `Catalog.fresh_meters_grant_at_once`.  Windows hold whole permits.  The room of a
  bucket is a product or a sum of quotients that may be zero, infinite or no number at all; there is
  room for one permit all the same, unless the interval is infinite.
-/

namespace Admission

open PermitArith PermitLaws

/-- An algorithm that is not the application's. -/
def Algorithm.IsBuiltIn : Algorithm → Prop
  | .custom _ => False
  | _ => True

/-! ## Buckets -/

namespace Bucket

section

variable {α : Type} [PermitArith α]

/-- A bucket as it is created: full, and free at once. -/
structure IsFresh (b : Bucket α) (perSecond : α) (start : Micros) : Prop where
  /-- The bucket is full. -/
  full : b.stored = b.capacity
  /-- A reservation may start at once. -/
  free : b.nextFree = start
  /-- Permits come at the rate. -/
  interval : b.interval = steadyInterval perSecond
  /-- There is room for one permit if permits come at all. -/
  roomy : isFinite b.interval = true → AtMost one b.capacity
  /-- There is no room if none come. -/
  closed : isFinite b.interval = false → b.capacity = zero

variable [PermitLaws α]

theorem one_atMost_room {permits interval : α} (h : isFinite interval = true) :
    AtMost one (room permits interval) := by
  rw [room, if_pos h]
  exact one_atMost_most

omit [PermitLaws α] in
theorem room_of_not_isFinite {permits interval : α} (h : isFinite interval = false) :
    room permits interval = zero := by
  rw [room, h]
  rfl

theorem isFresh_flat (perSecond burst : α) (now : Micros) :
    (flat perSecond burst now).IsFresh perSecond now :=
  ⟨rfl, rfl, rfl, one_atMost_room, room_of_not_isFinite⟩

theorem isFresh_warmingUp (perSecond : α) (period : Duration) (cold : α) (now : Micros) :
    (warmingUp perSecond period cold now).IsFresh perSecond now := by
  unfold warmingUp
  dsimp only
  split
  · exact ⟨rfl, rfl, rfl, one_atMost_room, room_of_not_isFinite⟩
  · next hinfinite => exact ⟨rfl, rfl, rfl, fun h => absurd h hinfinite, fun _ => rfl⟩

/-- Nothing has to accrue for what is stored. -/
theorem accrual_of_atMost {stored interval : α} {permits : UInt64}
    (h : AtMost (ofNat permits.toNat) stored) : accrual stored interval permits = zero := by
  have hasked : Unsigned (ofNat permits.toNat : α) := unsigned_ofNat _
  have hword : isFinite (ofNat permits.toNat : α) = true := isFinite_ofNat permits.toNat_lt_size
  refine if_neg fun hfresh => ?_
  have hbelow := below_of_isPositive_sub_least hasked hword hfresh
  rw [h.2.2] at hbelow
  cases hbelow

omit [PermitLaws α] in
theorem nextFree_settle_of_le {b : Bucket α} {now : Micros} (hfree : b.nextFree ≤ now) :
    (b.settle now).nextFree = now := by
  have hmax := b.toNat_nextFree_settle now
  rw [UInt64.le_iff_toNat_le] at hfree
  exact UInt64.toNat_inj.1 (by omega)

/-- A bucket that is free grants what it stores without a wait. -/
theorem reserve_of_stored {b : Bucket α} {now : Micros} (hfree : b.nextFree ≤ now)
    {permits : UInt64} (hstored : AtMost (ofNat permits.toNat) (b.storedAt now))
    (timeout : Micros) : (b.reserve permits timeout now).1 = some 0 := by
  have haccrual : accrual (b.settle now).stored b.interval permits = zero := by
    rw [stored_settle]
    exact accrual_of_atMost hstored
  have hmoment : b.moment permits now = now := by
    rw [moment, haccrual, wholePart_zero, Micros.later_zero, nextFree_settle_of_le hfree]
  have hfinite : isFinite (zero : α) = true := isFinite_ofNat (by decide)
  have htimeout : now - now ≤ timeout := by
    rw [UInt64.sub_self]
    exact UInt64.zero_le
  rw [reserve_eq, haccrual, hmoment, if_pos ⟨hfinite, htimeout⟩, UInt64.sub_self]

/-- A fresh bucket grants what there is room for, at any time. -/
theorem IsFresh.reserve {b : Bucket α} {perSecond : α} {start now : Micros}
    (h : b.IsFresh perSecond start) (hbounds : b.InBounds) (hle : start ≤ now) {permits : UInt64}
    (hroom : AtMost (ofNat permits.toNat) b.capacity) (timeout : Micros) :
    (b.reserve permits timeout now).1 = some 0 := by
  have hgrown := (hbounds.storedAt_spec now).2.1
  rw [h.full] at hgrown
  exact reserve_of_stored (h.free.symm ▸ hle) (atMost_trans hroom hgrown) timeout

end

end Bucket

/-! ## Windows -/

/-- A fresh window holds all its permits, whether or not it has passed. -/
theorem Window.left_begin (permits : UInt64) (period : Duration) (start now : Micros) :
    (begin permits period start).left now = permits :=
  ite_self permits

/-! ## Meters -/

variable {κ : Type}

namespace Meter

/-- A meter that has just been created for a rate. -/
def IsFresh (rate : Rate) (start : Micros) : Meter κ → Prop
  | .window w => w = .begin rate.permits rate.period start
  | .bucket b => b.IsFresh rate.permitsPerSecond start ∧ b.InBounds
  | .custom _ => False

/-- Whether a meter has room for so many permits. -/
def HasRoom (permits : UInt64) : Meter κ → Prop
  | .window w => permits ≤ w.permits
  | .bucket b => AtMost (PermitArith.ofNat permits.toNat) b.capacity
  | .custom _ => False

/-- A fresh meter has room for one permit if its rate has any. -/
theorem IsFresh.hasRoom_one {rate : Rate} {start : Micros} {m : Meter κ} (h : m.IsFresh rate start)
    (hpermits : 1 ≤ rate.permits) (hperiod : 0 < rate.period.nanos)
    (hword : rate.period.seconds < UInt64.size) : m.HasRoom 1 := by
  cases m with
  | window w =>
    obtain rfl := h
    exact hpermits
  | bucket b =>
    obtain ⟨hfresh, -⟩ := h
    apply hfresh.roomy
    rw [hfresh.interval]
    exact Rate.isFinite_steadyInterval hpermits hperiod hword
  | custom c => exact h.elim

/-- A fresh meter grants at once what it has room for. -/
theorem IsFresh.reserve [CustomMeter κ] {rate : Rate} {start now : Micros} {m : Meter κ}
    (h : m.IsFresh rate start) (hle : start ≤ now) {permits : UInt64} (hroom : m.HasRoom permits)
    (timeout : Duration) : (m.reserve permits timeout now).1 = some 0 := by
  by_cases hzero : permits = 0
  · rw [hzero, reserve_zero]
  · rw [reserve_of_ne _ hzero]
    cases m with
    | window w =>
      obtain rfl := h
      have hleft : permits ≤ (Window.begin rate.permits rate.period start).left now := by
        rw [Window.left_begin]
        exact hroom
      exact congrArg Prod.fst (Window.reserve_of_le _ hleft)
    | bucket b => exact h.1.reserve h.2 hle hroom timeout.micros
    | custom c => exact h.elim

end Meter

namespace Catalog

variable {c : Catalog κ} {rate : Rate}

/-- What the algorithms of the library make of a rate. -/
theorem exists_create (start : Micros) (hbuiltIn : (rate.algorithm.getD c.fallback).IsBuiltIn)
    (hvalid : (rate.algorithm.getD c.fallback).validate = .ok ()) :
    ∃ m, c.create rate start = .ok m ∧ m.IsFresh rate start := by
  simp only [create_eq_ok_iff]
  cases halgorithm : rate.algorithm.getD c.fallback with
  | allOrNothing => exact ⟨_, ⟨halgorithm ▸ hvalid, rfl⟩, rfl⟩
  | bursty burst =>
    exact ⟨_, ⟨halgorithm ▸ hvalid, rfl⟩, Bucket.isFresh_flat _ _ _, Bucket.inBounds_flat _ _ _⟩
  | warmingUp period cold =>
    exact ⟨_, ⟨halgorithm ▸ hvalid, rfl⟩, Bucket.isFresh_warmingUp _ _ _ _,
      Bucket.inBounds_warmingUp _ _ _ _⟩
  | custom name =>
    rw [halgorithm] at hbuiltIn
    exact hbuiltIn.elim

theorem isFresh_of_create {start : Micros} {m : Meter κ}
    (hbuiltIn : (rate.algorithm.getD c.fallback).IsBuiltIn) (h : c.create rate start = .ok m) :
    m.IsFresh rate start := by
  obtain ⟨m', hcreate, hfresh⟩ := exists_create start hbuiltIn (create_eq_ok_iff.1 h).1
  rw [h] at hcreate
  obtain rfl := Except.ok.inj hcreate
  exact hfresh

/-- **A fresh meter grants at once all that it holds.**  Let a rate with a period that is not empty
ask for an algorithm of the library, or leave it to the catalog, and let the parameters make sense.
Then the meter is created, and the first request is granted without a wait, at any instant from the
creation on and within any timeout, if there is room for it: in a window if it does not exceed the
permits of one, in a bucket if as a real number it does not exceed the capacity.  If the rate has
any permits at all, there is room for one, however slow the rate is and however extreme the
parameters. -/
theorem fresh_meters_grant_at_once [CustomMeter κ]
    (hbuiltIn : (rate.algorithm.getD c.fallback).IsBuiltIn)
    (hvalid : (rate.algorithm.getD c.fallback).validate = .ok ())
    (hperiod : 0 < rate.period.nanos) (hword : rate.period.seconds < UInt64.size)
    (start : Micros) :
    ∃ m, c.create rate start = .ok m ∧
      (∀ now, start ≤ now → ∀ permits timeout, m.HasRoom permits →
        (m.reserve permits timeout now).1 = some 0) ∧
      (1 ≤ rate.permits → m.HasRoom 1) := by
  obtain ⟨m, hcreate, hfresh⟩ := exists_create start hbuiltIn hvalid
  refine ⟨m, hcreate, fun now hle permits timeout hroom => hfresh.reserve hle hroom timeout, ?_⟩
  exact fun hpermits => hfresh.hasRoom_one hpermits hperiod hword

/-- One permit in the longest period there is, which warms up over a nanosecond from almost
nothing: it is granted at once, the second time the clock is read. -/
theorem fresh_meters_grant_at_once_slowest :
    let c : Catalog Empty := .standard
    let rate : Rate := ⟨1, ⟨18446744073709551615999999999⟩, some (.warmingUp ⟨1⟩ 1e308)⟩
    (rate.algorithm.getD c.fallback).IsBuiltIn ∧
      (rate.algorithm.getD c.fallback).validate = .ok () ∧
      0 < rate.period.nanos ∧ rate.period.seconds < UInt64.size ∧
      ∃ m, c.create rate 5 = .ok m ∧ m.HasRoom 1 ∧ (m.reserve 1 .zero 6).1 = some 0 := by
  intro c rate
  have hvalid : (rate.algorithm.getD c.fallback).validate = .ok () := by decide +kernel
  have hperiod : 0 < rate.period.nanos := by decide
  have hword : rate.period.seconds < UInt64.size := by decide
  have hbuiltIn : (rate.algorithm.getD c.fallback).IsBuiltIn := trivial
  obtain ⟨m, hcreate, hgrant, hone⟩ := fresh_meters_grant_at_once hbuiltIn hvalid hperiod hword 5
  have hroom : m.HasRoom 1 := hone (by decide)
  exact ⟨hbuiltIn, hvalid, hperiod, hword, m, hcreate, hroom, hgrant 6 (by decide) 1 .zero hroom⟩

end Catalog

end Admission
