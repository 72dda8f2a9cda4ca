import Admission.Proofs.StoreLaws

/-!
# Worlds that look alike

Two worlds may keep their live state in different stores, and may differ in what they hold for some
accounts.  What is decided for the others cannot tell them apart.

* **`Alike`** — the two worlds show the same clock, and the same state for certain accounts;
* **one reservation** — `Alike.reserve`: a limiter that is asked under one of these accounts gives
  the same answer in both worlds, and leaves them alike; `Alike.put_elsewhere`: what happens to the
  state of other accounts does not matter.
-/

namespace Admission

variable {η κ σ τ : Type} [MeterStore σ η κ] [MeterStore τ η κ]

/-- Worlds with the same clock and the same state for certain accounts. -/
structure Alike (among : Account η → Prop) (w : World σ) (v : World τ) : Prop where
  /-- The clocks agree. -/
  clock : w.clock = v.clock
  /-- So does what is found under each of the accounts. -/
  found : ∀ account, among account →
    MeterStore.get? (κ := κ) w.store account = MeterStore.get? v.store account

namespace Alike

variable {among : Account η → Prop} {w : World σ} {v : World τ}

omit [MeterStore τ η κ] in
theorem refl (w : World σ) : Alike among w w := ⟨rfl, fun _ _ => rfl⟩

theorem advance (h : Alike among w v) (d : Duration) :
    Alike among { w with clock := w.clock.advance d } { v with clock := v.clock.advance d } :=
  ⟨congrArg (Clock.advance · d) h.clock, h.found⟩

/-- A request meets the same meters. -/
theorem meters_eq (h : Alike among w v) (l : Limiter κ) (key : η)
    (hamong : among ⟨l.limit.resource, key⟩) : l.meters w key = l.meters v key := by
  rw [Limiter.meters, Limiter.meters, h.clock]
  exact Limiter.metersAt_congr (h.found _ hamong) _

variable [DecidableEq η]

/-- State that is put under another account makes no difference. -/
theorem put_elsewhere [LawfulStore σ] (h : Alike among w v) {account : Account η}
    (helsewhere : ¬ among account) (g : MeterGroup κ) :
    Alike among { w with store := MeterStore.put w.store account g } v where
  clock := h.clock
  found other hother := by
    have hne : account ≠ other := fun heq => helsewhere (heq ▸ hother)
    rw [LawfulStore.get?_put, if_neg hne]
    exact h.found other hother

variable [CustomMeter κ] [LawfulStore σ] [LawfulStore τ]

/-- A reservation under one of the accounts gets the same answer, and leaves the worlds alike. -/
theorem reserve (h : Alike among w v) (l : Limiter κ) (key : η)
    (hamong : among ⟨l.limit.resource, key⟩) (permits : UInt64) (timeout : Duration) :
    (l.reserve w key permits timeout).1 = (l.reserve v key permits timeout).1 ∧
      Alike among (l.reserve w key permits timeout).2 (l.reserve v key permits timeout).2 := by
  have hmeters := h.meters_eq l key hamong
  cases hv : l.meters v key with
  | error fault =>
    rw [hv] at hmeters
    rw [Limiter.reserve_of_error hmeters, Limiter.reserve_of_error hv]
    exact ⟨rfl, h⟩
  | ok g =>
    rw [hv] at hmeters
    rw [Limiter.reserve_of_ok hmeters, Limiter.reserve_of_ok hv, h.clock]
    refine ⟨rfl, ⟨rfl, fun account haccount => ?_⟩⟩
    dsimp only
    rw [LawfulStore.get?_put, LawfulStore.get?_put, h.found account haccount]

end Alike

end Admission
