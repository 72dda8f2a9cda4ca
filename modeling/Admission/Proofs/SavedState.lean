import Admission.Meter.Saved
import Admission.Proofs.Creation
import Admission.Proofs.ReadBack

/-!
# Saved state returns

What has been saved as a document reads back as what it was, exactly where that is possible at all;
and what has been read from a document, in whichever form, can be saved and read again.

* **conditions** — `Bucket.HasInterval` holds of all buckets there are: the steady interval is
  finite or, at a zero rate, infinite.  `Bucket.IsFinite` says which other numbers of a bucket have
  to be finite for the bucket to read back;
* **layer by layer** — for each part of a saved group one lemma says exactly when and as what it
  reads back: `Ramp.restore?_save_eq_some_iff`, `Bucket.restore?_save_eq_some_iff`,
  `Meter.restore?_save_eq_some_iff`, and `MeterGroup.restore?_save_eq_some_iff` for the whole;
* **accepted documents** — the numbers of a meter that was read from a written document are finite
  (`Bucket.isFinite_of_restore?`), whatever the form of the document;
* **texts** — the text of a saved group says all of it (`MeterGroup.isSaid_save?`), if its numbers
  survive as texts.

`MeterGroup.saved_state_returns` puts these together.
-/

namespace Admission

open Document

/-! ## Conditions -/

/-- Whether the numbers of a ramp are finite. -/
def Ramp.IsFinite : Ramp Float → Prop
  | flat => True
  | rising warmUp threshold slope =>
    warmUp.isFinite = true ∧ threshold.isFinite = true ∧ slope.isFinite = true

/-- The numbers of a ramp. -/
def Ramp.numbers : Ramp Float → List Float
  | flat => []
  | rising warmUp threshold slope => [warmUp, threshold, slope]

namespace Bucket

/-- The real numbers of a bucket. -/
def numbers (b : Bucket Float) : List Float :=
  b.stored :: b.capacity :: b.interval :: b.ramp.numbers

/-- Whether the numbers of a bucket other than its interval are finite. -/
def IsFinite (b : Bucket Float) : Prop :=
  b.stored.isFinite = true ∧ b.capacity.isFinite = true ∧ b.ramp.IsFinite

/-- The interval of a bucket is finite or, at a zero rate, infinite. -/
def HasInterval (b : Bucket Float) : Prop :=
  b.interval.isFinite = true ∨ b.interval = 1.0 / 0.0

theorem hasInterval_flat (perSecond burst : Float) (now : Micros) :
    (flat perSecond burst now).HasInterval :=
  interval_steady perSecond

theorem hasInterval_warmingUp (perSecond : Float) (period : Duration) (cold : Float)
    (now : Micros) : (warmingUp perSecond period cold now).HasInterval := by
  have hsteady : (warmingUp perSecond period cold now).interval = steadyInterval perSecond := by
    unfold warmingUp
    dsimp only
    split <;> rfl
  unfold HasInterval
  rw [hsteady]
  exact interval_steady perSecond

theorem HasInterval.reserve {b : Bucket Float} (h : b.HasInterval) (permits : UInt64)
    (timeout now : Micros) : (b.reserve permits timeout now).2.HasInterval := by
  unfold HasInterval
  rw [interval_reserve]
  exact h

end Bucket

namespace MeterGroup

variable {κ : Type}

/-- Whether all buckets of a group have intervals. -/
def HasIntervals (g : MeterGroup κ) : Prop := ∀ b, Meter.bucket b ∈ g.members → b.HasInterval

/-- Whether all buckets of a group are finite. -/
def IsFinite (g : MeterGroup κ) : Prop := ∀ b, Meter.bucket b ∈ g.members → b.IsFinite

/-- Whether the finite numbers of a group survive as JSON, each by itself. -/
def NumbersReadBack (g : MeterGroup κ) : Prop :=
  ∀ b, Meter.bucket b ∈ g.members → ∀ x ∈ b.numbers, x.isFinite = true → Json.ReadsBack x

end MeterGroup

theorem Catalog.hasInterval_create {κ : Type} {c : Catalog κ} {rate : Rate} {now : Micros}
    {b : Bucket Float} (h : c.create rate now = .ok (.bucket b)) : b.HasInterval := by
  obtain ⟨-, h⟩ := create_eq_ok_iff.1 h
  split at h
  · cases h
  · cases h
    exact Bucket.hasInterval_flat ..
  · cases h
    exact Bucket.hasInterval_warmingUp ..
  · obtain ⟨build, state, -, -, h⟩ := h
    cases h

/-! ## Reading back what was saved -/

theorem Window.restore?_save (w : Window) : restore? w.save = some w := by
  have h : restore? w.save = (do
      let permits ← (ofWord64 w.permits).asWord64?
      let length ← (ofWord64 w.length).asWord64?
      let remaining ← (ofWord64 w.remaining).asWord64?
      let start ← (ofWord64 w.start).asWord64?
      pure ⟨permits, length, remaining, start⟩) := rfl
  simp only [h, asWord64?_ofWord64]
  rfl

theorem Ramp.restore?_save_eq_some_iff {r r' : Ramp Float} :
    restore? r.save = some r' ↔ r.IsFinite ∧ r' = r := by
  cases r with
  | flat =>
    have h : restore? (save flat) = some flat := rfl
    rw [h, Option.some_inj, eq_comm]
    exact ⟨fun hr => ⟨trivial, hr⟩, And.right⟩
  | rising warmUp threshold slope =>
    have h : restore? (save (rising warmUp threshold slope)) = (do
        let warmUp ← (ofReal warmUp).asReal?
        let threshold ← (ofReal threshold).asReal?
        let slope ← (ofReal slope).asReal?
        pure (rising warmUp threshold slope)) := rfl
    simp only [h, Option.bind_eq_bind, Option.bind_eq_some_iff, asReal?_ofReal_eq_some_iff]
    constructor
    · rintro ⟨_, ⟨hwarmUp, rfl⟩, _, ⟨hthreshold, rfl⟩, _, ⟨hslope, rfl⟩, ⟨⟩⟩
      exact ⟨⟨hwarmUp, hthreshold, hslope⟩, rfl⟩
    · rintro ⟨⟨hwarmUp, hthreshold, hslope⟩, rfl⟩
      exact ⟨_, ⟨hwarmUp, rfl⟩, _, ⟨hthreshold, rfl⟩, _, ⟨hslope, rfl⟩, rfl⟩

namespace Bucket

theorem restoreInterval?_ofReal {x : Float} (h : x.isFinite = true ∨ x = 1.0 / 0.0) :
    restoreInterval? (ofReal x) = some x := by
  rcases h with h | rfl
  · rw [ofReal, if_pos h]
    rfl
  · rfl

/-- A saved bucket reads back exactly if its numbers are finite, and then as what it was. -/
theorem restore?_save_eq_some_iff {b b' : Bucket Float} (hinterval : b.HasInterval) :
    restore? b.save = some b' ↔ b.IsFinite ∧ b' = b := by
  have h : restore? b.save = (do
      let stored ← (ofReal b.stored).asReal?
      let capacity ← (ofReal b.capacity).asReal?
      let interval ← restoreInterval? (ofReal b.interval)
      let nextFree ← (ofWord64 b.nextFree).asWord64?
      let ramp ← Ramp.restore? b.ramp.save
      pure ⟨stored, capacity, interval, nextFree, ramp⟩) := rfl
  simp only [h, Option.bind_eq_bind, Option.bind_eq_some_iff, asReal?_ofReal_eq_some_iff,
    restoreInterval?_ofReal hinterval, asWord64?_ofWord64, Ramp.restore?_save_eq_some_iff]
  constructor
  · rintro ⟨_, ⟨hstored, rfl⟩, _, ⟨hcapacity, rfl⟩, _, ⟨⟩, _, ⟨⟩, _, ⟨hramp, rfl⟩, ⟨⟩⟩
    exact ⟨⟨hstored, hcapacity, hramp⟩, rfl⟩
  · rintro ⟨⟨hstored, hcapacity, hramp⟩, rfl⟩
    exact ⟨_, ⟨hstored, rfl⟩, _, ⟨hcapacity, rfl⟩, _, rfl, _, rfl, _, ⟨hramp, rfl⟩, rfl⟩

end Bucket

namespace Meter

variable {κ : Type}

/-- A meter can be saved exactly if it is no custom one. -/
theorem exists_save?_iff {m : Meter κ} : (∃ d, m.save? = some d) ↔ ∀ c, m ≠ custom c := by
  cases m with
  | window w => exact ⟨fun _ _ h => (nomatch h), fun _ => ⟨_, rfl⟩⟩
  | bucket b => exact ⟨fun _ _ h => (nomatch h), fun _ => ⟨_, rfl⟩⟩
  | custom c => exact ⟨fun ⟨_, h⟩ => (nomatch h), fun h => absurd rfl (h c)⟩

/-- A saved meter reads back exactly if it is a window or the numbers of its bucket are finite, and
then as what it was. -/
theorem restore?_save_eq_some_iff {m m' : Meter κ} {d : Document}
    (hinterval : ∀ b, m = bucket b → b.HasInterval) (hsave : m.save? = some d) :
    restore? d = some m' ↔ (∀ b, m = bucket b → b.IsFinite) ∧ m' = m := by
  cases m with
  | window w =>
    cases hsave
    have h : restore? (.record [("fixed_window", w.save)]) =
        (Window.restore? w.save).map (window : Window → Meter κ) := rfl
    rw [h, Window.restore?_save, Option.map_some, Option.some_inj, eq_comm]
    exact ⟨fun hm => ⟨fun _ hb => (nomatch hb), hm⟩, And.right⟩
  | bucket b =>
    cases hsave
    have h : restore? (.record [("smooth", b.save)]) =
        (Bucket.restore? b.save).map (bucket : Bucket Float → Meter κ) := rfl
    simp only [h, Option.map_eq_some_iff,
      Bucket.restore?_save_eq_some_iff (hinterval b rfl)]
    constructor
    · rintro ⟨_, ⟨hfinite, rfl⟩, rfl⟩
      exact ⟨fun _ hb => Meter.bucket.inj hb ▸ hfinite, rfl⟩
    · rintro ⟨hfinite, rfl⟩
      exact ⟨b, ⟨hfinite b rfl, rfl⟩, rfl⟩
  | custom c => cases hsave

end Meter

/-! ## Groups -/

theorem mapM_cons_eq_some_iff {α β : Type} {f : α → Option β} {x : α} {xs : List α}
    {ys : List β} :
    (x :: xs).mapM f = some ys ↔ ∃ y zs, f x = some y ∧ xs.mapM f = some zs ∧ ys = y :: zs := by
  simp only [List.mapM_cons, Option.bind_eq_bind, Option.bind_eq_some_iff]
  constructor
  · rintro ⟨y, hy, zs, hzs, ⟨⟩⟩
    exact ⟨y, zs, hy, hzs, rfl⟩
  · rintro ⟨y, zs, hy, hzs, rfl⟩
    exact ⟨y, hy, zs, hzs, rfl⟩

theorem mapM_eq_some_iff {α β : Type} {f : α → Option β} {xs : List α} {ys : List β} :
    xs.mapM f = some ys ↔ List.Forall₂ (fun x y => f x = some y) xs ys := by
  induction xs generalizing ys with
  | nil =>
    rw [List.forall₂_nil_left_iff]
    exact ⟨fun h => (Option.some.inj h).symm, fun h => h ▸ rfl⟩
  | cons x xs ih =>
    rw [mapM_cons_eq_some_iff, List.forall₂_cons_left_iff]
    constructor
    · rintro ⟨y, zs, hy, hzs, rfl⟩
      exact ⟨y, zs, hy, ih.1 hzs, rfl⟩
    · rintro ⟨y, zs, hy, hzs, rfl⟩
      exact ⟨y, zs, hy, ih.2 hzs, rfl⟩

/-- What is made of each item, in a row, is made of one of them. -/
theorem exists_of_mapM {α β : Type} {f : α → Option β} {xs : List α} {ys : List β}
    (h : xs.mapM f = some ys) : ∀ y ∈ ys, ∃ x ∈ xs, f x = some y :=
  exists_of_forall₂ (mapM_eq_some_iff.1 h).flip

/-- Of each item something is made. -/
theorem exists_mem_of_mapM {α β : Type} {f : α → Option β} {xs : List α} {ys : List β}
    (h : xs.mapM f = some ys) : ∀ x ∈ xs, ∃ y ∈ ys, f x = some y :=
  exists_of_forall₂ (mapM_eq_some_iff.1 h)

namespace MeterGroup

variable {κ : Type}

theorem exists_mapM_save?_iff {members : List (Meter κ)} :
    (∃ ds, members.mapM Meter.save? = some ds) ↔ ∀ c, Meter.custom c ∉ members := by
  simp only [mapM_eq_some_iff, exists_forall₂_iff, Meter.exists_save?_iff]
  constructor
  · intro h c hc
    exact h _ hc c rfl
  · rintro h m hm c rfl
    exact h c hm

theorem mapM_restore?_eq_some_iff {members : List (Meter κ)}
    (hintervals : ∀ b, Meter.bucket b ∈ members → b.HasInterval) {ds : List Document}
    (hsave : members.mapM Meter.save? = some ds) {others : List (Meter κ)} :
    ds.mapM Meter.restore? = some others ↔
      (∀ b, Meter.bucket b ∈ members → b.IsFinite) ∧ others = members := by
  induction members generalizing ds others with
  | nil =>
    cases hsave
    constructor
    · rintro ⟨⟩
      exact ⟨fun _ hb => absurd hb List.not_mem_nil, rfl⟩
    · rintro ⟨-, rfl⟩
      rfl
  | cons m members ih =>
    obtain ⟨d, rest, hd, hrest, rfl⟩ := mapM_cons_eq_some_iff.1 hsave
    have hfirst {m' : Meter κ} : Meter.restore? d = some m' ↔
        (∀ b, m = .bucket b → b.IsFinite) ∧ m' = m :=
      Meter.restore?_save_eq_some_iff (fun b hb => hintervals b (hb ▸ List.mem_cons_self)) hd
    have hothers {others : List (Meter κ)} : rest.mapM Meter.restore? = some others ↔
        (∀ b, Meter.bucket b ∈ members → b.IsFinite) ∧ others = members :=
      ih (fun b hb => hintervals b (List.mem_cons_of_mem _ hb)) hrest
    simp only [mapM_cons_eq_some_iff, hfirst, hothers]
    constructor
    · rintro ⟨_, _, ⟨hm, rfl⟩, ⟨hmembers, rfl⟩, rfl⟩
      refine ⟨fun b hb => ?_, rfl⟩
      rcases List.mem_cons.1 hb with hb | hb
      · exact hm b hb.symm
      · exact hmembers b hb
    · rintro ⟨h, rfl⟩
      exact ⟨m, members, ⟨fun b hb => h b (hb ▸ List.mem_cons_self), rfl⟩,
        ⟨fun b hb => h b (List.mem_cons_of_mem _ hb), rfl⟩, rfl⟩

/-- A group can be saved exactly if none of its members is a custom meter. -/
theorem exists_save?_iff {g : MeterGroup κ} :
    (∃ d, g.save? = some d) ↔ ∀ c, Meter.custom c ∉ g.members := by
  rw [← exists_mapM_save?_iff]
  constructor
  · rintro ⟨d, h⟩
    obtain ⟨ds, hds, -⟩ := Option.bind_eq_some_iff.1 h
    exact ⟨ds, hds⟩
  · rintro ⟨ds, hds⟩
    exact ⟨_, Option.bind_eq_some_iff.2 ⟨ds, hds, rfl⟩⟩

/-- A saved group reads back exactly if the numbers of its buckets are finite, and then as what it
was. -/
theorem restore?_save_eq_some_iff {g g' : MeterGroup κ} {d : Document}
    (hintervals : g.HasIntervals) (hsave : g.save? = some d) :
    restore? d = some g' ↔ g.IsFinite ∧ g' = g := by
  obtain ⟨ds, hds, hd⟩ := Option.bind_eq_some_iff.1 hsave
  cases hd
  have h : (restore? (.record [("operator", .text g.operator.keyword), ("members", .list ds)]) :
      Option (MeterGroup κ)) = (do
        let operator ← Operator.ofKeyword? g.operator.keyword
        let members ← ds.mapM Meter.restore?
        pure ⟨operator, members⟩) := rfl
  simp only [h, Option.bind_eq_bind, Option.bind_eq_some_iff, Operator.ofKeyword?_keyword,
    mapM_restore?_eq_some_iff hintervals hds]
  constructor
  · rintro ⟨_, ⟨⟩, _, ⟨hfinite, rfl⟩, ⟨⟩⟩
    exact ⟨hfinite, rfl⟩
  · rintro ⟨hfinite, rfl⟩
    exact ⟨_, rfl, _, ⟨hfinite, rfl⟩, rfl⟩

end MeterGroup

/-! ## Accepted documents -/

theorem Ramp.isFinite_of_restore? {d : Document} {r : Ramp Float} (hd : d.isWritten = true)
    (h : restore? d = some r) : r.IsFinite := by
  unfold restore? at h
  split at h
  · next body =>
    have hbody : body.isWritten = true := isWritten_record.1 hd ("warming_up", body) List.mem_cons_self
    simp only [Option.bind_eq_bind, Option.bind_eq_some_iff] at h
    obtain ⟨parts, hparts, warmUp, hwarmUp, threshold, hthreshold, slope, hslope, h⟩ := h
    cases h
    have hfinite {name : String} {x : Float} (hx : required? parts name asReal? = some x) :
        x.isFinite = true := by
      obtain ⟨part, hpart, hread⟩ := exists_of_required? (isWritten_of_parts? hbody hparts) hx
      exact isFinite_of_asReal? hpart hread
    exact ⟨hfinite hwarmUp, hfinite hthreshold, hfinite hslope⟩
  · split at h
    · cases h
      trivial
    · cases h

namespace Bucket

theorem interval_of_restoreInterval? {d : Document} {x : Float} (hd : d.isWritten = true)
    (h : restoreInterval? d = some x) : x.isFinite = true ∨ x = 1.0 / 0.0 := by
  obtain ⟨y, hy, rfl⟩ := Option.map_eq_some_iff.1 h
  unfold asOptional? at hy
  split at hy
  · cases hy
    exact .inr rfl
  · obtain ⟨z, hz, rfl⟩ := Option.map_eq_some_iff.1 hy
    exact .inl (isFinite_of_asReal? hd hz)

/-- A bucket that was read from a written document can be saved and read again. -/
theorem isFinite_of_restore? {d : Document} {b : Bucket Float} (hd : d.isWritten = true)
    (h : restore? d = some b) : b.IsFinite ∧ b.HasInterval := by
  simp only [restore?, Option.bind_eq_bind, Option.bind_eq_some_iff] at h
  obtain ⟨parts, hparts, stored, hstored, capacity, hcapacity, interval, hinterval, nextFree, -,
    ramp, hramp, h⟩ := h
  cases h
  have hwritten := isWritten_of_parts? hd hparts
  obtain ⟨_, hstoredWritten, hstored⟩ := exists_of_required? hwritten hstored
  obtain ⟨_, hcapacityWritten, hcapacity⟩ := exists_of_required? hwritten hcapacity
  obtain ⟨_, hintervalWritten, hinterval⟩ := exists_of_required? hwritten hinterval
  obtain ⟨_, hrampWritten, hramp⟩ := exists_of_required? hwritten hramp
  exact ⟨⟨isFinite_of_asReal? hstoredWritten hstored, isFinite_of_asReal? hcapacityWritten hcapacity,
    Ramp.isFinite_of_restore? hrampWritten hramp⟩,
    interval_of_restoreInterval? hintervalWritten hinterval⟩

end Bucket

/-! ## What is saved -/

theorem Window.isWritten_save (w : Window) : w.save.isWritten = true := by
  simp [save, isWritten_ofWord64]

theorem Ramp.isWritten_save (r : Ramp Float) : r.save.isWritten = true := by
  cases r with
  | flat => rfl
  | rising => simp [save, isWritten_ofReal]

theorem Bucket.isWritten_save (b : Bucket Float) : b.save.isWritten = true := by
  simp [save, isWritten_ofReal, isWritten_ofWord64, Ramp.isWritten_save]

theorem Meter.isWritten_save? {κ : Type} {m : Meter κ} {d : Document} (h : m.save? = some d) :
    d.isWritten = true := by
  cases m with
  | window w =>
    cases h
    simp [w.isWritten_save]
  | bucket b =>
    cases h
    simp [b.isWritten_save]
  | custom => cases h

/-! ## What is said -/

section

variable {P : Float → Prop}

theorem isSaid_ofReal {x : Float} (h : x.isFinite = true → P x) : Json.IsSaid P (ofReal x) := by
  unfold ofReal
  split
  · next hx => exact ⟨hx, h hx⟩
  · trivial

theorem isSaid_ofWord64 (n : UInt64) : Json.IsSaid P (ofWord64 n) := isWritten_ofWord64 n

theorem Window.isSaid_save (w : Window) : Json.IsSaid P w.save := by
  refine Json.isSaid_record.2 ⟨show savedNames.Nodup by decide, ?_⟩
  simp only [List.forall_mem_cons]
  exact ⟨isSaid_ofWord64 _, isSaid_ofWord64 _, isSaid_ofWord64 _, isSaid_ofWord64 _,
    fun _ h => absurd h List.not_mem_nil⟩

theorem Ramp.isSaid_save {r : Ramp Float} (h : ∀ x ∈ r.numbers, x.isFinite = true → P x) :
    Json.IsSaid P r.save := by
  cases r with
  | flat => trivial
  | rising warmUp threshold slope =>
    simp only [numbers, List.forall_mem_cons] at h
    obtain ⟨hwarmUp, hthreshold, hslope, -⟩ := h
    have hbody : Json.IsSaid P (.record
        [("warmup_period_micros", .ofReal warmUp), ("threshold_permits", .ofReal threshold),
          ("slope", .ofReal slope)]) := by
      refine Json.isSaid_record.2 ⟨show savedNames.Nodup by decide, ?_⟩
      simp only [List.forall_mem_cons]
      exact ⟨isSaid_ofReal hwarmUp, isSaid_ofReal hthreshold, isSaid_ofReal hslope,
        fun _ h => absurd h List.not_mem_nil⟩
    exact Json.isSaid_single hbody _

theorem Bucket.isSaid_save {b : Bucket Float} (h : ∀ x ∈ b.numbers, x.isFinite = true → P x) :
    Json.IsSaid P b.save := by
  simp only [numbers, List.forall_mem_cons] at h
  obtain ⟨hstored, hcapacity, hinterval, hramp⟩ := h
  refine Json.isSaid_record.2 ⟨show savedNames.Nodup by decide, ?_⟩
  simp only [List.forall_mem_cons]
  exact ⟨isSaid_ofReal hstored, isSaid_ofReal hcapacity, isSaid_ofReal hinterval,
    isSaid_ofWord64 _, Ramp.isSaid_save hramp, fun _ h => absurd h List.not_mem_nil⟩

theorem Meter.isSaid_save? {κ : Type} {m : Meter κ} {d : Document} (hsave : m.save? = some d)
    (h : ∀ b, m = bucket b → ∀ x ∈ b.numbers, x.isFinite = true → P x) : Json.IsSaid P d := by
  cases m with
  | window w => cases hsave; exact Json.isSaid_single w.isSaid_save _
  | bucket b => cases hsave; exact Json.isSaid_single (Bucket.isSaid_save (h b rfl)) _
  | custom c => cases hsave

/-- The text of a saved group says all of it. -/
theorem MeterGroup.isSaid_save? {κ : Type} {g : MeterGroup κ} {d : Document}
    (hsave : g.save? = some d)
    (h : ∀ b, Meter.bucket b ∈ g.members → ∀ x ∈ b.numbers, x.isFinite = true → P x) :
    Json.IsSaid P d := by
  obtain ⟨ds, hds, hd⟩ := Option.bind_eq_some_iff.1 hsave
  cases hd
  have hitems : ∀ item ∈ ds, Json.IsSaid P item := by
    intro item hitem
    obtain ⟨m, hmem, hm⟩ := exists_of_mapM hds item hitem
    exact Meter.isSaid_save? hm fun b hb => h b (hb ▸ hmem)
  refine Json.isSaid_record.2 ⟨show ["operator", "members"].Nodup by decide, ?_⟩
  simp only [List.forall_mem_cons]
  exact ⟨trivial, Json.isSaid_list.2 hitems, fun _ h => absurd h List.not_mem_nil⟩

end

/-! ## Accepted meters -/

namespace Meter

variable {κ : Type}

theorem bucket_of_restore? {d : Document} {b : Bucket Float} (hd : d.isWritten = true)
    (h : restore? d = some (bucket b : Meter κ)) : b.IsFinite ∧ b.HasInterval := by
  unfold restore? at h
  split at h
  · obtain ⟨w, -, h⟩ := Option.map_eq_some_iff.1 h
    cases h
  · next body =>
    obtain ⟨b, hb, h⟩ := Option.map_eq_some_iff.1 h
    cases h
    exact Bucket.isFinite_of_restore? (isWritten_record.1 hd ("smooth", body) List.mem_cons_self) hb
  · cases h

theorem restore?_ne_custom {d : Document} {c : κ} : restore? d ≠ some (custom c) := by
  intro h
  unfold restore? at h
  split at h
  · obtain ⟨w, -, h⟩ := Option.map_eq_some_iff.1 h
    cases h
  · obtain ⟨b, -, h⟩ := Option.map_eq_some_iff.1 h
    cases h
  · cases h

end Meter

namespace MeterGroup

variable {κ : Type}

/-- Each member of a group that was read from a written document was read from one, too. -/
theorem members_of_restore? {d : Document} {g : MeterGroup κ} (hd : d.isWritten = true)
    (h : restore? d = some g) :
    ∀ m ∈ g.members, ∃ d : Document, d.isWritten = true ∧ Meter.restore? d = some m := by
  simp only [restore?, Option.bind_eq_bind, Option.bind_eq_some_iff] at h
  obtain ⟨parts, hparts, operator, -, members, hmembers, h⟩ := h
  cases h
  obtain ⟨list, hlist, hmembers⟩ := exists_of_required? (isWritten_of_parts? hd hparts) hmembers
  obtain ⟨ds, hds, hmembers⟩ := Option.bind_eq_some_iff.1 hmembers
  cases list with
  | list items =>
    cases hds
    intro m hm
    obtain ⟨d, hd, hrestore⟩ := exists_of_mapM hmembers m hm
    exact ⟨d, isWritten_list.1 hlist d hd, hrestore⟩
  | null | truth | whole | real | text | record => cases hds

/-- Saving writes nothing that a text could not say. -/
theorem isWritten_save? {g : MeterGroup κ} {d : Document} (hsave : g.save? = some d) :
    d.isWritten = true := by
  obtain ⟨ds, hds, hd⟩ := Option.bind_eq_some_iff.1 hsave
  cases hd
  have hitems : ∀ item ∈ ds, item.isWritten = true := by
    intro item hitem
    obtain ⟨m, -, hm⟩ := exists_of_mapM hds item hitem
    exact Meter.isWritten_save? hm
  rw [isWritten_record]
  simp only [List.forall_mem_cons]
  exact ⟨rfl, isWritten_list.2 hitems, fun _ h => absurd h List.not_mem_nil⟩

/-- The buckets that a catalog builds have intervals. -/
theorem hasIntervals_createAll {c : Catalog κ} {quota : Quota} {now : Micros} {g : MeterGroup κ}
    (h : c.createAll quota now = .ok g) : g.HasIntervals := by
  intro b hb
  obtain ⟨rate, -, hrate⟩ := exists_of_forall₂ (Catalog.createAll_eq_ok_iff.1 h).2.flip _ hb
  exact Catalog.hasInterval_create hrate

theorem HasIntervals.reserve [CustomMeter κ] {g : MeterGroup κ} (h : g.HasIntervals)
    (permits : UInt64) (timeout : Duration) (now : Micros) :
    (g.reserve permits timeout now).2.HasIntervals := by
  intro b hb
  rw [members_reserve] at hb
  obtain ⟨m, hm, hreserve⟩ := List.mem_map.1 hb
  unfold Meter.reserve at hreserve
  split at hreserve
  · exact h b (hreserve ▸ hm)
  · cases m with
    | window | custom => cases hreserve
    | bucket b =>
      cases hreserve
      exact (h b hm).reserve permits timeout.micros now

/-- **Saved state returns.**  Take any group whose buckets have intervals that are finite or
infinite, as the groups that catalogs build have them and as reservations leave them.  The group can
be saved exactly if none of its members is a custom meter.  What has been saved reads back exactly if
the stored permits, the capacity and the numbers of the ramp of each bucket are finite, and then as
the very same group: operator, order and state of the members, infinite intervals included.
Conversely, whatever has been read from a document that a text can say, be it made of records or of
lists, with unknown parts or with whole numbers for real ones, can be saved again, and what is saved
then reads back as the same group.  Whatever a text says is such a document, and what is saved of any
group is the same document after it has been written as a text and read, if each finite number of the
group survives that by itself. -/
theorem saved_state_returns [CustomMeter κ] (g : MeterGroup κ) (hintervals : g.HasIntervals) :
    ((∃ d, g.save? = some d) ↔ ∀ c, Meter.custom c ∉ g.members) ∧
      (∀ d, g.save? = some d → ∀ g', restore? d = some g' ↔ g.IsFinite ∧ g' = g) ∧
      (∀ (d : Document) (g' : MeterGroup κ), d.isWritten = true → restore? d = some g' →
        ∃ d', g'.save? = some d' ∧ d'.isWritten = true ∧ restore? d' = some g') ∧
      (∀ s d, Json.read? s = some d → d.isWritten = true) ∧
      (∀ (g' : MeterGroup κ) d, g'.save? = some d → g'.NumbersReadBack →
        Json.read? (Json.write d) = some d) ∧
      (∀ (c : Catalog κ) (quota : Quota) (now : Micros) (g' : MeterGroup κ),
        c.createAll quota now = .ok g' → g'.HasIntervals) ∧
      ∀ permits timeout now, (g.reserve permits timeout now).2.HasIntervals := by
  refine ⟨exists_save?_iff, fun d hsave g' => restore?_save_eq_some_iff hintervals hsave, ?_,
    fun _ _ => Json.isWritten_of_read?,
    fun _ _ hsave hnumbers => Json.read?_write (isSaid_save? hsave hnumbers),
    fun _ _ _ _ => hasIntervals_createAll, fun permits timeout now => hintervals.reserve permits timeout now⟩
  intro d g' hd hrestore
  have hmembers := members_of_restore? hd hrestore
  have hplain : ∀ c, Meter.custom c ∉ g'.members := by
    intro c hc
    obtain ⟨_, -, hcustom⟩ := hmembers _ hc
    exact Meter.restore?_ne_custom hcustom
  have hbuckets : ∀ b, Meter.bucket b ∈ g'.members → b.IsFinite ∧ b.HasInterval := by
    intro b hb
    obtain ⟨_, hwritten, hbucket⟩ := hmembers _ hb
    exact Meter.bucket_of_restore? hwritten hbucket
  obtain ⟨d', hsave⟩ := exists_save?_iff.2 hplain
  have hback : restore? d' = some g' :=
    (restore?_save_eq_some_iff (fun b hb => (hbuckets b hb).2) hsave).2
      ⟨fun b hb => (hbuckets b hb).1, rfl⟩
  exact ⟨d', hsave, isWritten_save? hsave, hback⟩

/-- A window, a bucket at two permits per second, and one at a zero rate. -/
def threeMeters : MeterGroup Empty :=
  ⟨.and, [.window (.begin 3 (.ofSeconds 1) 5), .bucket (.flat 2.0 1.0 7), .bucket (.flat 0.0 1.0 9)]⟩

/-- A group as a list of its parts: an operator that says nothing else, and a bucket at a zero rate
with a part that no bucket has and with whole numbers for real ones. -/
def listedGroup : Document :=
  .list
    [.record [("or", .null)],
      .list [.record [("smooth", .record
        [("stored_permits", .whole 1), ("max_permits", .whole 2), ("color", .text "red"),
          ("stable_interval_micros", .null), ("next_free_micros", .whole 4),
          ("ramp", .text "bursty")])]]]

/-- The three meters return although the interval of the last one is infinite, also through a text,
and the listed group is read and saved. -/
theorem saved_state_returns_threeMeters :
    (∃ d, threeMeters.save? = some d ∧ restore? d = some threeMeters ∧
      Json.read? (Json.write d) = some d) ∧
      ∃ g : MeterGroup Empty, restore? listedGroup = some g ∧
        ∃ d, g.save? = some d ∧ restore? d = some g := by
  have hbuckets : ∀ b, Meter.bucket b ∈ threeMeters.members →
      b = .flat 2.0 1.0 7 ∨ b = .flat 0.0 1.0 9 := by
    intro b hb
    rcases List.mem_cons.1 hb with hb | hb
    · cases hb
    rcases List.mem_cons.1 hb with hb | hb
    · exact .inl (Meter.bucket.inj hb)
    · exact .inr (Meter.bucket.inj (List.mem_singleton.1 hb))
  have hintervals : threeMeters.HasIntervals := by
    intro b hb
    rcases hbuckets b hb with rfl | rfl <;> exact Bucket.hasInterval_flat ..
  have hfinite : threeMeters.IsFinite := by
    intro b hb
    rcases hbuckets b hb with rfl | rfl <;> exact ⟨by decide, by decide, trivial⟩
  have hrunning : (Bucket.flat 2.0 1.0 7).numbers = [2.0, 2.0, 500000.0] := by decide +kernel
  have hstanding : (Bucket.flat 0.0 1.0 9).numbers = [0.0, 0.0, 1.0 / 0.0] := by decide +kernel
  have hnumbers : threeMeters.NumbersReadBack := by
    intro b hb
    rcases hbuckets b hb with rfl | rfl
    · rw [hrunning]
      simp only [List.forall_mem_cons]
      exact ⟨fun _ => rfl, fun _ => rfl, fun _ => rfl, fun _ h => absurd h List.not_mem_nil⟩
    · rw [hstanding]
      simp only [List.forall_mem_cons]
      exact ⟨fun _ => rfl, fun _ => rfl, fun h => absurd h (by decide),
        fun _ h => absurd h List.not_mem_nil⟩
  obtain ⟨hsave, hrestore, hdocument, -, htext, -⟩ := saved_state_returns threeMeters hintervals
  obtain ⟨d, hd⟩ := hsave.2 fun c => c.elim
  refine ⟨⟨d, hd, (hrestore d hd threeMeters).2 ⟨hfinite, rfl⟩, htext _ d hd hnumbers⟩, ?_⟩
  refine ⟨⟨.or, [.bucket ⟨1.0, 2.0, 1.0 / 0.0, 4, .flat⟩]⟩, ?_, ?_⟩
  · rfl
  · obtain ⟨d, hd, -, hback⟩ := hdocument listedGroup _ (by decide) rfl
    exact ⟨d, hd, hback⟩

end MeterGroup

end Admission
