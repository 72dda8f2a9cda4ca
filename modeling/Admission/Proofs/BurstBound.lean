import Admission.Meter.Catalog
import Admission.Proofs.Members
import Mathlib.Algebra.Order.Ring.Nat

/-!
# What a bucket gives out

A bucket is full at first, and more permits accrue at a steady rate.  What starts by an instant
should therefore be no more than what the bucket held, and what has accrued since.

* **grants** — `grantsOf` lists what is granted in a run of demands, and `startedBy` picks what may
  start by an instant;
* **above a permit per microsecond** — the time that fresh permits take is rounded down to whole
  microseconds.  At such a rate less than a microsecond may be several permits, which then cost
  nothing.  `rush_without_end`: a bucket of ten million permits a second gives out nine permits at
  one instant as often as it is asked to, and so `rate_exceeded`.

What does hold at any rate is `Catalog.rate_kept`.
-/

namespace Admission

open PermitArith

/-! ## Grants -/

/-- A demand that was granted. -/
structure Grant where
  /-- The permits. -/
  permits : Nat
  /-- The instant at which it may start. -/
  start : Nat
  deriving DecidableEq, Repr

/-- What is granted in a run of demands, in order. -/
def grantsOf {S : Type} (reserve : S → Demand → Option Micros × S) :
    S → List Demand → List Grant
  | _, [] => []
  | s, d :: demands =>
    match reserve s d with
    | (none, s) => grantsOf reserve s demands
    | (some wait, s) => ⟨d.permits.toNat, d.now.toNat + wait.toNat⟩ :: grantsOf reserve s demands

/-- What a meter grants. -/
def Meter.grants {κ : Type} [CustomMeter κ] (m : Meter κ) (demands : List Demand) : List Grant :=
  grantsOf (fun m d => m.reserve d.permits d.timeout d.now) m demands

/-- What a bucket grants. -/
def Bucket.grants {α : Type} [PermitArith α] (b : Bucket α) (demands : List Demand) : List Grant :=
  grantsOf (fun b d => b.reserve d.permits d.timeout.micros d.now) b demands

/-- The grants that may start by an instant. -/
def startedBy (instant : Nat) (grants : List Grant) : List Grant :=
  grants.filter (·.start ≤ instant)

/-- The permits of some grants. -/
def permitsOf (grants : List Grant) : Nat := (grants.map Grant.permits).sum

section

variable {S : Type} {reserve : S → Demand → Option Micros × S} {s after : S} {d : Demand}

theorem grantsOf_cons_of_none (h : reserve s d = (none, after)) (demands : List Demand) :
    grantsOf reserve s (d :: demands) = grantsOf reserve after demands := by
  rw [grantsOf, h]

theorem grantsOf_cons_of_some {wait : Micros} (h : reserve s d = (some wait, after))
    (demands : List Demand) :
    grantsOf reserve s (d :: demands) =
      ⟨d.permits.toNat, d.now.toNat + wait.toNat⟩ :: grantsOf reserve after demands := by
  rw [grantsOf, h]

theorem startedBy_cons_of_le {g : Grant} {instant : Nat} (h : g.start ≤ instant)
    (grants : List Grant) : startedBy instant (g :: grants) = g :: startedBy instant grants :=
  List.filter_cons_of_pos (decide_eq_true h)

theorem startedBy_cons_of_lt {g : Grant} {instant : Nat} (h : instant < g.start)
    (grants : List Grant) : startedBy instant (g :: grants) = startedBy instant grants :=
  List.filter_cons_of_neg (by simpa using h)

theorem permitsOf_cons (g : Grant) (grants : List Grant) :
    permitsOf (g :: grants) = g.permits + permitsOf grants := by
  rw [permitsOf, List.map_cons, List.sum_cons]
  rfl

end

theorem Meter.grants_cons_of_some {κ : Type} [CustomMeter κ] {m after : Meter κ} {d : Demand}
    {wait : Micros} (h : m.reserve d.permits d.timeout d.now = (some wait, after))
    (demands : List Demand) :
    m.grants (d :: demands) =
      ⟨d.permits.toNat, d.now.toNat + wait.toNat⟩ :: after.grants demands :=
  grantsOf_cons_of_some h demands

namespace Bucket

section

variable {α : Type} [PermitArith α]

/-- The time in which the permits accrue that are asked for beyond the stored ones. -/
def accrual (stored interval : α) (permits : UInt64) : α :=
  let fresh := ofNat permits.toNat - least (ofNat permits.toNat) stored
  if isPositive fresh then fresh * interval else zero

theorem grants_cons_of_none {b after : Bucket α} {d : Demand}
    (h : b.reserve d.permits d.timeout.micros d.now = (none, after)) (demands : List Demand) :
    b.grants (d :: demands) = after.grants demands :=
  grantsOf_cons_of_none h demands

theorem grants_cons_of_some {b after : Bucket α} {d : Demand} {wait : Micros}
    (h : b.reserve d.permits d.timeout.micros d.now = (some wait, after))
    (demands : List Demand) :
    b.grants (d :: demands) =
      ⟨d.permits.toNat, d.now.toNat + wait.toNat⟩ :: after.grants demands :=
  grantsOf_cons_of_some h demands

/-- Permits that accrue in less than a microsecond are granted at once. -/
theorem reserve_at_once {stored interval : α} (capacity : α) {permits : UInt64}
    (timeout now : Micros) (hfinite : isFinite (accrual stored interval permits) = true)
    (hwhole : wholePart (accrual stored interval permits) = 0)
    (hzero : wholePart (zero : α) = 0) :
    (⟨stored, capacity, interval, now, .flat⟩ : Bucket α).reserve permits timeout now =
      (some 0, ⟨stored - least (ofNat permits.toNat) stored, capacity, interval, now, .flat⟩) := by
  have hsettle : (⟨stored, capacity, interval, now, .flat⟩ : Bucket α).settle now =
      ⟨stored, capacity, interval, now, .flat⟩ := if_neg (UInt64.lt_irrefl now)
  have hwait : ¬ timeout < now - now := by
    rw [UInt64.sub_self]
    exact UInt64.not_lt_zero
  rw [accrual] at hfinite hwhole
  rw [Bucket.reserve, hsettle]
  dsimp only [cost] at hfinite hwhole ⊢
  rw [hfinite, hwhole, hzero, Micros.later_zero, Micros.later_zero, if_neg hwait, UInt64.sub_self,
    Bool.not_true, if_neg Bool.false_ne_true]

end

end Bucket

/-! ## Above a permit per microsecond -/

theorem Catalog.create_perSecond {κ : Type} (n : UInt64) (t₀ : Micros) :
    (Catalog.standard : Catalog κ).create (.perSecond n) t₀ =
      .ok (.bucket (.flat (Rate.perSecond n).permitsPerSecond 1.0 t₀)) := by
  have hvalid : Algorithm.standard.validate = .ok () := by
    rw [Algorithm.standard, Algorithm.validate]
    exact if_neg (by decide +kernel)
  change (do
    Except.mapError Fault.invalidRate Algorithm.standard.validate
    pure (.bucket (.flat (Rate.perSecond n).permitsPerSecond 1.0 t₀)) : Except Fault (Meter κ)) = _
  rw [hvalid]
  rfl

/-- The bucket of ten million permits a second, with so many of them left. -/
def rush (stored : Float) (t₀ : Micros) : Bucket Float := ⟨stored, 10000000.0, 0.1, t₀, .flat⟩

theorem flat_rush (t₀ : Micros) :
    Bucket.flat (Rate.perSecond 10000000).permitsPerSecond 1.0 t₀ = rush 10000000.0 t₀ := by
  have hinterval : Bucket.steadyInterval (Rate.perSecond 10000000).permitsPerSecond = 0.1 := by
    decide +kernel
  have hroom : Bucket.room ((Rate.perSecond 10000000).permitsPerSecond * 1.0) 0.1 = 10000000.0 := by
    decide +kernel
  rw [Bucket.flat, hinterval, hroom, rush]

theorem reserve_rush_full (timeout t₀ : Micros) :
    (rush 10000000.0 t₀).reserve 10000000 timeout t₀ = (some 0, rush 0.0 t₀) := by
  have hleft : (10000000.0 : Float) - least (ofNat (10000000 : UInt64).toNat) 10000000.0 = 0.0 := by
    decide +kernel
  rw [rush, Bucket.reserve_at_once 10000000.0 timeout t₀ (by decide +kernel) (by decide +kernel)
    (by decide +kernel), hleft, rush]

/-- Nine permits accrue in less than a microsecond, and so they cost an empty bucket nothing. -/
theorem reserve_rush_empty (timeout t₀ : Micros) :
    (rush 0.0 t₀).reserve 9 timeout t₀ = (some 0, rush 0.0 t₀) := by
  have hleft : (0.0 : Float) - least (ofNat (9 : UInt64).toNat) 0.0 = 0.0 := by decide +kernel
  rw [rush, Bucket.reserve_at_once 10000000.0 timeout t₀ (by decide +kernel) (by decide +kernel)
    (by decide +kernel), hleft]

/-- **There is no end to what a fast bucket gives out at one instant.**  Whenever the bucket of ten
million permits a second is created, it gives out all of them at that instant, and then nine more as
often as it is asked to, without any wait. -/
theorem rush_without_end {κ : Type} [CustomMeter κ] (t₀ : Micros) (k : Nat) :
    ∃ m : Meter κ, (Catalog.standard : Catalog κ).create (.perSecond 10000000) t₀ = .ok m ∧
      m.grants (⟨10000000, .zero, t₀⟩ :: List.replicate k ⟨9, .zero, t₀⟩) =
        ⟨10000000, t₀.toNat⟩ :: List.replicate k ⟨9, t₀.toNat⟩ := by
  have hempty : ∀ k, (Meter.bucket (rush 0.0 t₀) : Meter κ).grants
      (List.replicate k ⟨9, .zero, t₀⟩) = List.replicate k ⟨9, t₀.toNat⟩ := by
    intro k
    induction k with
    | zero => rfl
    | succ k ih =>
      have hreserve : (Meter.bucket (rush 0.0 t₀) : Meter κ).reserve 9 .zero t₀ =
          (some 0, .bucket (rush 0.0 t₀)) := by
        rw [Meter.reserve_of_ne _ (by decide), Meter.attempt, reserve_rush_empty]
      rw [List.replicate_succ, List.replicate_succ, ← ih]
      exact Meter.grants_cons_of_some (d := ⟨9, .zero, t₀⟩) hreserve _
  refine ⟨.bucket (rush 10000000.0 t₀), ?_, ?_⟩
  · rw [Catalog.create_perSecond, flat_rush]
  · have hreserve : (Meter.bucket (rush 10000000.0 t₀) : Meter κ).reserve 10000000 .zero t₀ =
        (some 0, .bucket (rush 0.0 t₀)) := by
      rw [Meter.reserve_of_ne _ (by decide), Meter.attempt, reserve_rush_full]
    rw [← hempty k]
    exact Meter.grants_cons_of_some (d := ⟨10000000, .zero, t₀⟩) hreserve _

/-- So the bucket of a rate may give out more than the permits of a second, what has accrued since,
rounded up, and one permit. -/
theorem rate_exceeded :
    ¬ ∀ (n : UInt64) (t₀ : Micros) (m : Meter Empty) (demands : List Demand) (T : Nat),
      1 ≤ n.toNat → (Catalog.standard : Catalog Empty).create (.perSecond n) t₀ = .ok m →
      (t₀ :: demands.map Demand.now).Pairwise (· ≤ ·) →
      permitsOf (startedBy (t₀.toNat + T) (m.grants demands)) ≤
        n.toNat + (n.toNat * T + 999999) / 1000000 + 1 := by
  intro hrate
  obtain ⟨m, hcreate, hgrants⟩ := rush_without_end (κ := Empty) 0 1
  have hsum := hrate 10000000 0 m [⟨10000000, .zero, 0⟩, ⟨9, .zero, 0⟩] 0 (by decide) hcreate
    (by decide)
  change permitsOf (startedBy _ (m.grants (_ :: List.replicate 1 _))) ≤ _ at hsum
  rw [hgrants] at hsum
  exact absurd hsum (by decide)

end Admission
