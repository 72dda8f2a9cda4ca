import Admission.Proofs.FreshMeters
import Admission.Proofs.SavedState
import Mathlib.Logic.Relation

/-!
# Closed quotas

A rate without permits closes a resource.  Its meter has nothing to give, and nothing ever accrues:
the steady interval of a bucket is infinite, so what comes back in any time is nothing, and what is
asked for takes for ever.

* **what can happen** — `Happens`: a demand, or that the state is saved as a text and read from it.
  `keeps_of_happens` goes from one such step to all of them;
* **closed buckets** — `Bucket.IsClosed`.  Time leaves nothing behind (`Bucket.IsClosed.settle`),
  permits never accrue (`Bucket.IsClosed.not_isFinite_accrual`), and the text of a closed bucket
  reads as a closed bucket (`Bucket.IsClosed.restored`), whatever becomes of its ramp;
* **closed meters** — `Meter.IsClosed` and `MeterGroup.IsClosed` are what nothing that happens
  changes;
* **the law** — `Catalog.closed_quotas_stay_closed`.
-/

namespace Admission

open PermitArith PermitLaws Document

/-! ## What can happen -/

/-- What can happen to a state: a demand, or that it is saved as a text and read from that text. -/
inductive Happens {S : Type} (next : S → Demand → S) (save? : S → Option Document)
    (restore? : Document → Option S) (before : S) : S → Prop
  /-- A demand. -/
  | demand (d : Demand) : Happens next save? restore? before (next before d)
  /-- The state is saved as a text and read from it. -/
  | saved {d e : Document} {after : S} (hsave : save? before = some d)
    (hread : Json.read? (Json.write d) = some e) (hrestore : restore? e = some after) :
    Happens next save? restore? before after

/-- What each demand keeps, and each way through the text of a document, is kept by all that can
happen, if all of a saved document can be said in a text. -/
theorem keeps_of_happens {S : Type} {next : S → Demand → S} {save? : S → Option Document}
    {restore? : Document → Option S} {P : S → Prop} {s s' : S}
    (hhappens : Relation.ReflTransGen (Happens next save? restore?) s s') (h : P s)
    (hsaid : ∀ {s d}, save? s = some d → Json.IsSaid (fun _ => True) d)
    (hnext : ∀ {s}, P s → ∀ d, P (next s d))
    (hreread : ∀ {s s'}, P s → ∀ {d e}, save? s = some d → Json.reread? d = some e →
      restore? e = some s' → P s') : P s' := by
  induction hhappens with
  | refl => exact h
  | tail _ hstep ih =>
    cases hstep with
    | demand d => exact hnext ih d
    | saved hsave hread hrestore =>
      rw [Json.read?_write_eq (hsaid hsave)] at hread
      exact hreread ih hsave hread hrestore

section

variable {κ : Type} [CustomMeter κ]

/-- What becomes of a meter. -/
def Meter.Becomes : Meter κ → Meter κ → Prop :=
  Relation.ReflTransGen (Happens Meter.next Meter.save? Meter.restore?)

/-- What becomes of a group. -/
def MeterGroup.Becomes : MeterGroup κ → MeterGroup κ → Prop :=
  Relation.ReflTransGen (Happens MeterGroup.next MeterGroup.save? MeterGroup.restore?)

end

/-! ## Closed buckets -/

namespace Bucket

/-- A bucket that holds no permits and never will. -/
structure IsClosed (b : Bucket Float) : Prop where
  /-- Nothing is stored. -/
  stored : b.stored = zero
  /-- There is no room. -/
  capacity : b.capacity = zero
  /-- No permits come. -/
  interval : b.interval = infinity

theorem IsFresh.isClosed {b : Bucket Float} {r : Rate} {start : Micros}
    (h : b.IsFresh r.permitsPerSecond start) (hpermits : r.permits = 0) : b.IsClosed := by
  have hinterval : b.interval = infinity := by
    rw [h.interval, Rate.steadyInterval_of_no_permits hpermits]
  have hcapacity : b.capacity = zero := by
    apply h.closed
    rw [hinterval]
    rfl
  exact ⟨h.full.trans hcapacity, hcapacity, hinterval⟩

/-- In any time nothing comes back of what takes for ever. -/
theorem ofNat_div_infinity {n : Nat} (h : n < UInt64.size) :
    (PermitArith.ofNat n / infinity : Float) = zero := by
  have hn := Binary64.unsigned_ofNat n
  have hfinite := Binary64.kept_natCast_lt_top (h.trans (by decide))
  have hinfinity : (infinity : Float).toModel.unpack = .infinity .positive := rfl
  have hdiv (x y : Float) : x / y = .ofModel (Float.Model.pack
    (.div Binary64.format x.toModel.unpack y.toModel.unpack)) := rfl
  change Float.ofNat n / infinity = zero
  rw [hdiv, hinfinity]
  generalize (Float.ofNat n).toModel.unpack = u at hn
  generalize Binary64.kept n = v at hn hfinite
  cases hn with
  | zero => rfl
  | finite => rfl
  | infinity => exact absurd hfinite (lt_irrefl _)

/-- More than nothing takes for ever. -/
theorem not_isFinite_mul_infinity {x : Float} (hx : Unsigned x) :
    ¬ isFinite (x * infinity) = true := by
  intro hfinite
  obtain ⟨v, hv⟩ := Binary64.unsigned_iff.1 hx
  obtain ⟨w, hw⟩ := Binary64.unsigned_iff.1 (unsigned_infinity : Unsigned (infinity : Float))
  have hinfinity : isFinite (infinity : Float) = true :=
    hw.isFinite_iff.2 (hv.lt_top_of_mul hw hfinite).2
  cases hinfinity

/-- What is asked for is missing as a whole. -/
theorem isPositive_ofNat_sub_zero {n : Nat} (hpos : 0 < n) :
    isPositive (PermitArith.ofNat n - zero : Float) = true := by
  have hn := Binary64.unsigned_ofNat n
  have hkept : 0 < Binary64.kept n := Binary64.kept_natCast_pos hpos
  have hzero := Binary64.unsigned_ofNat 0
  rw [Nat.cast_zero, Binary64.kept_zero] at hzero
  have hdifference := hn.sub hzero hkept.le Binary64.top_pos
  rw [Binary64.difference, sub_zero, hn.kept_eq, ite_eq_right_iff.2 Eq.symm] at hdifference
  exact hdifference.isPositive_iff.2 hkept

namespace IsClosed

variable {b : Bucket Float}

theorem refillInterval (h : b.IsClosed) : b.refillInterval = infinity := by
  unfold Bucket.refillInterval
  split
  · exact h.interval
  · rw [h.capacity]
    rfl

/-- Time leaves nothing behind. -/
theorem settle (h : b.IsClosed) (now : Micros) : (b.settle now).IsClosed := by
  have hstored : b.storedAt now = zero := by
    unfold storedAt
    split
    · rw [h.refillInterval, h.stored, h.capacity, ofNat_div_infinity (UInt64.toNat_lt_size _)]
      decide +kernel
    · exact h.stored
  refine ⟨?_, ?_, ?_⟩
  · rw [stored_settle, hstored]
  · rw [capacity_settle, h.capacity]
  · rw [interval_settle, h.interval]

/-- Permits never accrue. -/
theorem not_isFinite_accrual (h : b.IsClosed) {permits : UInt64} (hsome : permits ≠ 0) :
    ¬ isFinite (accrual b.stored b.interval permits) = true := by
  have hpos : 0 < permits.toNat := UInt64.lt_iff_toNat_lt.1 (UInt64.pos_iff_ne_zero.2 hsome)
  have hnone : least (PermitArith.ofNat permits.toNat : Float) zero = zero :=
    least_of_below (isPositive_ofNat hpos)
  have hfresh := isPositive_ofNat_sub_zero hpos
  rw [h.stored, h.interval, accrual, hnone, if_pos hfresh]
  exact not_isFinite_mul_infinity (unsigned_of_isPositive hfresh)

/-- A closed bucket rejects every request for permits, and stays closed. -/
theorem reserve (h : b.IsClosed) {permits : UInt64} (hsome : permits ≠ 0) (timeout now : Micros) :
    b.reserve permits timeout now = (none, b.settle now) := by
  rw [reserve_eq, if_neg]
  rintro ⟨hfinite, -⟩
  rw [← b.interval_settle now] at hfinite
  exact (h.settle now).not_isFinite_accrual hsome hfinite

/-- The text of a closed bucket says that it is closed. -/
theorem reread?_save (h : b.IsClosed) :
    Json.reread? b.save = (Json.reread? b.ramp.save).map fun ramp => .record
      [("stored_permits", .real zero), ("max_permits", .real zero),
        ("stable_interval_micros", .null), ("next_free_micros", .ofWord64 b.nextFree),
        ("ramp", ramp)] := by
  have hzero : ofReal (zero : Float) = .real zero := rfl
  have hinfinity : ofReal (infinity : Float) = .null := rfl
  have hread : Json.reread? (.real zero) = some (.real zero) := rfl
  rw [save, h.stored, h.capacity, h.interval, hzero, hinfinity, Json.reread?]
  simp only [Json.rereadParts?, hread]
  cases Json.reread? b.ramp.save <;> rfl

/-- What is read from the text of a closed bucket is a closed bucket, whatever its ramp is read
as. -/
theorem restored (h : b.IsClosed) {e : Document} {b' : Bucket Float}
    (hread : Json.reread? b.save = some e) (hrestore : restore? e = some b') : b'.IsClosed := by
  rw [h.reread?_save, Option.map_eq_some_iff] at hread
  obtain ⟨ramp, -, rfl⟩ := hread
  have hparts : restore? (.record
      [("stored_permits", .real zero), ("max_permits", .real zero),
        ("stable_interval_micros", .null), ("next_free_micros", .ofWord64 b.nextFree),
        ("ramp", ramp)]) = (do
      let nextFree ← (ofWord64 b.nextFree).asWord64?
      let ramp ← Ramp.restore? ramp
      pure ⟨zero, zero, infinity, nextFree, ramp⟩) := rfl
  simp only [hparts, Option.bind_eq_bind, Option.bind_eq_some_iff] at hrestore
  obtain ⟨_, -, _, -, ⟨⟩⟩ := hrestore
  exact ⟨rfl, rfl, rfl⟩

/-- A closed bucket reads back as it is if the numbers of its ramp do. -/
theorem returns (h : b.IsClosed)
    (hramp : ∀ x ∈ b.ramp.numbers, x.isFinite = true ∧ Json.ReadsBack x) :
    b.IsFinite ∧ b.HasInterval ∧ ∀ x ∈ b.numbers, x.isFinite = true → Json.ReadsBack x := by
  have hfinite : (zero : Float).isFinite = true := rfl
  have hzero : Json.ReadsBack zero := rfl
  refine ⟨⟨?_, ?_, ?_⟩, .inr h.interval, ?_⟩
  · rw [h.stored]
    exact hfinite
  · rw [h.capacity]
    exact hfinite
  · cases hkind : b.ramp with
    | flat => trivial
    | rising warmUp threshold slope =>
      simp only [hkind, Ramp.numbers, List.forall_mem_cons] at hramp
      exact ⟨hramp.1.1, hramp.2.1.1, hramp.2.2.1.1⟩
  · simp only [numbers, List.forall_mem_cons, h.stored, h.capacity, h.interval]
    have hinfinite : ¬ (infinity : Float).isFinite = true := Bool.false_ne_true
    exact ⟨fun _ => hzero, fun _ => hzero, fun h => absurd h hinfinite,
      fun x hx _ => (hramp x hx).2⟩

end IsClosed

end Bucket

/-! ## Closed windows -/

namespace Window

/-- A window that holds no permits, and whose windows never do. -/
structure IsClosed (w : Window) : Prop where
  /-- No window has permits. -/
  permits : w.permits = 0
  /-- The present window has none left. -/
  remaining : w.remaining = 0

namespace IsClosed

variable {w : Window}

theorem left (h : w.IsClosed) (now : Micros) : w.left now = 0 := by
  unfold Window.left
  split
  · exact h.permits
  · exact h.remaining

theorem settle (h : w.IsClosed) (now : Micros) : (w.settle now).IsClosed :=
  ⟨(w.permits_settle now).trans h.permits, (w.remaining_settle now).trans (h.left now)⟩

/-- A closed window rejects every request for permits, and stays closed. -/
theorem reserve (h : w.IsClosed) {permits : UInt64} (hsome : permits ≠ 0) (now : Micros) :
    w.reserve permits now = (none, w.settle now) := by
  apply w.reserve_of_lt
  rw [h.left]
  exact UInt64.pos_iff_ne_zero.2 hsome

end IsClosed

end Window

/-! ## Closed meters -/

variable {κ : Type}

namespace Meter

/-- A meter that will never grant a permit. -/
def IsClosed : Meter κ → Prop
  | .window w => w.IsClosed
  | .bucket b => b.IsClosed
  | .custom _ => False

/-- A rate without permits makes a closed meter. -/
theorem IsFresh.isClosed {rate : Rate} {start : Micros} {m : Meter κ} (h : m.IsFresh rate start)
    (hpermits : rate.permits = 0) : m.IsClosed := by
  cases m with
  | window w =>
    obtain rfl := h
    exact ⟨hpermits, hpermits⟩
  | bucket b => exact Bucket.IsFresh.isClosed h.1 hpermits
  | custom c => exact h.elim

/-- What is read from the text of a window is the window. -/
theorem eq_window_of_reread {w : Window} {m : Meter κ} {d e : Document}
    (hsave : (window w : Meter κ).save? = some d) (hread : Json.reread? d = some e)
    (hrestore : restore? e = some m) : m = window w := by
  cases hsave
  have hsaid : Json.IsSaid Json.ReadsBack w.save := w.isSaid_save
  rw [Json.reread?_single, Json.reread?_eq_some hsaid, Option.map_some] at hread
  cases hread
  obtain ⟨w', hw', rfl⟩ := Option.map_eq_some_iff.1 hrestore
  rw [Window.restore?_save] at hw'
  rw [Option.some.inj hw']

/-- What is read from the text of a bucket is a bucket. -/
theorem exists_bucket_of_reread {b : Bucket Float} {m : Meter κ} {d e : Document}
    (hsave : (bucket b : Meter κ).save? = some d) (hread : Json.reread? d = some e)
    (hrestore : restore? e = some m) :
    ∃ body b', Json.reread? b.save = some body ∧ Bucket.restore? body = some b' ∧
      m = bucket b' := by
  cases hsave
  rw [Json.reread?_single, Option.map_eq_some_iff] at hread
  obtain ⟨body, hbody, rfl⟩ := hread
  obtain ⟨b', hb', rfl⟩ := Option.map_eq_some_iff.1 hrestore
  exact ⟨body, b', hbody, hb', rfl⟩

/-- What is read from the text of a closed meter is a closed meter. -/
theorem IsClosed.restored {m m' : Meter κ} (h : m.IsClosed) {d e : Document}
    (hsave : m.save? = some d) (hread : Json.reread? d = some e) (hrestore : restore? e = some m') :
    m'.IsClosed := by
  cases m with
  | window w =>
    obtain rfl := eq_window_of_reread hsave hread hrestore
    exact h
  | bucket b =>
    obtain ⟨body, b', hbody, hb', rfl⟩ := exists_bucket_of_reread hsave hread hrestore
    exact Bucket.IsClosed.restored h hbody hb'
  | custom c => exact h.elim

/-- A closed meter can be saved and returns, if the numbers of a ramp do. -/
theorem IsClosed.returns {m : Meter κ} (h : m.IsClosed)
    (hramp : ∀ b, m = .bucket b → ∀ x ∈ b.ramp.numbers, x.isFinite = true ∧ Json.ReadsBack x) :
    ∃ d, m.save? = some d ∧ Json.read? (Json.write d) = some d ∧ restore? d = some m := by
  obtain ⟨d, hsave⟩ : ∃ d, m.save? = some d := by
    refine exists_save?_iff.2 ?_
    rintro c rfl
    exact h
  have hbucket : ∀ b, m = .bucket b → b.IsFinite ∧ b.HasInterval ∧
      ∀ x ∈ b.numbers, x.isFinite = true → Json.ReadsBack x := by
    rintro b rfl
    exact Bucket.IsClosed.returns h (hramp b rfl)
  refine ⟨d, hsave, ?_, ?_⟩
  · exact Json.read?_write (Meter.isSaid_save? hsave fun b hb => (hbucket b hb).2.2)
  · exact (restore?_save_eq_some_iff (fun b hb => (hbucket b hb).2.1) hsave).2
      ⟨fun b hb => (hbucket b hb).1, rfl⟩

variable [CustomMeter κ]

/-- A closed meter rejects every request for permits. -/
theorem IsClosed.reserve {m : Meter κ} (h : m.IsClosed) {permits : UInt64} (hsome : permits ≠ 0)
    (timeout : Duration) (now : Micros) : (m.reserve permits timeout now).1 = none := by
  rw [reserve_of_ne _ hsome]
  cases m with
  | window w => exact congrArg Prod.fst (Window.IsClosed.reserve h hsome now)
  | bucket b => exact congrArg Prod.fst (Bucket.IsClosed.reserve h hsome timeout.micros now)
  | custom c => exact h.elim

/-- No demand opens a closed meter. -/
theorem IsClosed.next {m : Meter κ} (h : m.IsClosed) (d : Demand) : (m.next d).IsClosed := by
  refine next_induct h fun hsome => ?_
  cases m with
  | window w =>
    change (w.reserve d.permits d.now).2.IsClosed
    rw [Window.IsClosed.reserve h hsome]
    exact Window.IsClosed.settle h d.now
  | bucket b =>
    change (b.reserve d.permits d.timeout.micros d.now).2.IsClosed
    rw [Bucket.IsClosed.reserve h hsome]
    exact Bucket.IsClosed.settle h d.now
  | custom c => exact h.elim

/-- **Nothing that happens opens a closed meter.** -/
theorem IsClosed.becomes {m m' : Meter κ} (h : m.IsClosed) (hbecomes : m.Becomes m') :
    m'.IsClosed :=
  keeps_of_happens hbecomes h (fun hsave => isSaid_save? hsave fun _ _ _ _ _ => trivial)
    IsClosed.next IsClosed.restored

end Meter

namespace MeterGroup

/-- A group whose members all have to agree, and one of which never will. -/
def IsClosed (g : MeterGroup κ) : Prop := g.operator = .and ∧ ∃ m ∈ g.members, m.IsClosed

/-- The members of a group are saved, read and restored each by itself, under the same operator. -/
theorem mapM_of_reread {g g' : MeterGroup κ} {d e : Document} (hsave : g.save? = some d)
    (hread : Json.reread? d = some e) (hrestore : restore? e = some g') :
    g'.operator = g.operator ∧ ∃ ds es, g.members.mapM Meter.save? = some ds ∧
      ds.mapM Json.reread? = some es ∧ es.mapM Meter.restore? = some g'.members := by
  obtain ⟨ds, hds, ⟨⟩⟩ := Option.bind_eq_some_iff.1 hsave
  have hparts : Json.reread? (.record
      [("operator", .text g.operator.keyword), ("members", .list ds)]) =
        (ds.mapM Json.reread?).map fun es =>
          .record [("operator", .text g.operator.keyword), ("members", .list es)] := by
    simp only [Json.reread?, Json.rereadParts?, Json.rereadItems?_eq]
    cases ds.mapM Json.reread? <;> rfl
  rw [hparts, Option.map_eq_some_iff] at hread
  obtain ⟨es, hes, rfl⟩ := hread
  have hbody : (restore? (.record
      [("operator", .text g.operator.keyword), ("members", .list es)]) :
        Option (MeterGroup κ)) = (do
      let operator ← Operator.ofKeyword? g.operator.keyword
      let members ← es.mapM Meter.restore?
      pure ⟨operator, members⟩) := rfl
  simp only [hbody, Option.bind_eq_bind, Option.bind_eq_some_iff, Operator.ofKeyword?_keyword]
    at hrestore
  obtain ⟨_, ⟨⟩, members, hmembers, ⟨⟩⟩ := hrestore
  exact ⟨rfl, ds, es, hds, hes, hmembers⟩

/-- What is read from the text of a closed group is a closed group. -/
theorem IsClosed.restored {g g' : MeterGroup κ} (h : g.IsClosed) {d e : Document}
    (hsave : g.save? = some d) (hread : Json.reread? d = some e) (hrestore : restore? e = some g') :
    g'.IsClosed := by
  obtain ⟨hand, m, hm, hclosed⟩ := h
  obtain ⟨hoperator, ds, es, hds, hes, hmembers⟩ := mapM_of_reread hsave hread hrestore
  -- the closed member leads to its document, to what that reads as, and to what is restored
  obtain ⟨saved, hsaved, hsave⟩ := exists_mem_of_mapM hds m hm
  obtain ⟨read, hread, hreread⟩ := exists_mem_of_mapM hes saved hsaved
  obtain ⟨m', hm', hrestore⟩ := exists_mem_of_mapM hmembers read hread
  exact ⟨hoperator.trans hand, m', hm', hclosed.restored hsave hreread hrestore⟩

variable [CustomMeter κ]

/-- A closed group rejects every request for permits. -/
theorem IsClosed.reserve {g : MeterGroup κ} (h : g.IsClosed) {permits : UInt64}
    (hsome : permits ≠ 0) (timeout : Duration) (now : Micros) :
    (g.reserve permits timeout now).1 = none := by
  obtain ⟨hand, m, hm, hclosed⟩ := h
  let d : Demand := ⟨permits, timeout, now⟩
  have hanswer : (g.reserve permits timeout now).1 =
      combine .and (g.members.map fun m => m.answer d) := hand ▸ g.answer_eq d
  have hnone : m.answer d = none := hclosed.reserve hsome timeout now
  have hmem : m.answer d ∈ g.members.map fun m => m.answer d := List.mem_map_of_mem hm
  rw [hanswer]
  refine Option.not_isSome_iff_eq_none.1 fun hgranted => ?_
  have hsome := isSome_of_combine_and hgranted _ hmem
  rw [hnone] at hsome
  cases hsome

/-- No demand opens a closed group. -/
theorem IsClosed.next {g : MeterGroup κ} (h : g.IsClosed) (d : Demand) : (g.next d).IsClosed := by
  obtain ⟨hand, m, hm, hclosed⟩ := h
  refine ⟨hand, m.next d, ?_, hclosed.next d⟩
  rw [MeterGroup.next, members_reserve]
  exact List.mem_map_of_mem hm

/-- **Nothing that happens opens a closed group.** -/
theorem IsClosed.becomes {g g' : MeterGroup κ} (h : g.IsClosed) (hbecomes : g.Becomes g') :
    g'.IsClosed :=
  keeps_of_happens hbecomes h (fun hsave => isSaid_save? hsave fun _ _ _ _ _ => trivial)
    IsClosed.next IsClosed.restored

end MeterGroup

/-! ## The law -/

namespace Catalog

variable [CustomMeter κ] {c : Catalog κ} {rate : Rate}

/-- **A closed quota stays closed.**  Let a rate without permits, over any period, ask for an
algorithm of the library, or leave it to the catalog, and let the parameters make sense.  Then the
meter is created.  Whatever happens to it, be it demands at any instants or that it is saved as a
text and read from that text, it rejects every request for permits, whatever the timeout.  It can be
saved at any time, and returns as it was if the numbers of its ramp, of which only buckets that warm
up have any, survive as texts.  A group whose members all have to agree, one of which is such a
meter or what has become of it, rejects every request for permits, whatever happens to the group. -/
theorem closed_quotas_stay_closed (hbuiltIn : (rate.algorithm.getD c.fallback).IsBuiltIn)
    (hvalid : (rate.algorithm.getD c.fallback).validate = .ok ()) (hpermits : rate.permits = 0)
    (start : Micros) :
    ∃ m, c.create rate start = .ok m ∧
      (∀ m', m.Becomes m' → ∀ permits timeout now, permits ≠ 0 →
        (m'.reserve permits timeout now).1 = none) ∧
      (∀ m', m.Becomes m' →
        (∀ b, m' = .bucket b → ∀ x ∈ b.ramp.numbers, x.isFinite = true ∧ Json.ReadsBack x) →
        ∃ d, m'.save? = some d ∧ Json.read? (Json.write d) = some d ∧
          Meter.restore? d = some m') ∧
      ∀ g g' : MeterGroup κ, g.operator = .and → (∃ m' ∈ g.members, m.Becomes m') → g.Becomes g' →
        ∀ permits timeout now, permits ≠ 0 → (g'.reserve permits timeout now).1 = none := by
  obtain ⟨m, hcreate, hfresh⟩ := exists_create start hbuiltIn hvalid
  have hclosed := hfresh.isClosed hpermits
  refine ⟨m, hcreate, ?_, ?_, ?_⟩
  · intro m' hbecomes permits timeout now hsome
    exact (hclosed.becomes hbecomes).reserve hsome timeout now
  · intro m' hbecomes hramp
    exact (hclosed.becomes hbecomes).returns hramp
  · rintro g g' hand ⟨m', hm', hmember⟩ hbecomes permits timeout now hsome
    have hg : g.IsClosed := ⟨hand, m', hm', hclosed.becomes hmember⟩
    exact (hg.becomes hbecomes).reserve hsome timeout now

/-- A bucket of no permits per second, which has been asked for five, saved and restored, alone and
next to a window that has permits. -/
theorem closed_quotas_stay_closed_bursty :
    let c : Catalog Empty := .standard
    let rate : Rate := .perSecond 0
    (rate.algorithm.getD c.fallback).IsBuiltIn ∧
      (rate.algorithm.getD c.fallback).validate = .ok () ∧ rate.permits = 0 ∧
      ∃ m, c.create rate 0 = .ok m ∧
        let m' := m.next ⟨5, .ofSeconds 1, 7⟩
        let g : MeterGroup Empty := ⟨.and, [.window (.begin 3 (.ofSeconds 1) 0), m']⟩
        (∃ d, m'.save? = some d ∧ Json.read? (Json.write d) = some d ∧
          Meter.restore? d = some m') ∧
          (m'.reserve 1 (.ofSeconds 1000) 1000000).1 = none ∧
          (g.reserve 1 (.ofSeconds 1000) 1000000).1 = none := by
  intro c rate
  have hbuiltIn : (rate.algorithm.getD c.fallback).IsBuiltIn := trivial
  have hvalid : (rate.algorithm.getD c.fallback).validate = .ok () := by decide +kernel
  have hpermits : rate.permits = 0 := rfl
  obtain ⟨m, hcreate, hnever, hreturns, hgroup⟩ :=
    closed_quotas_stay_closed hbuiltIn hvalid hpermits 0
  refine ⟨hbuiltIn, hvalid, hpermits, m, hcreate, ?_⟩
  intro m' g
  have hflat : ∀ b, m' = .bucket b → b.ramp = .flat := by
    obtain ⟨-, hm⟩ := create_eq_ok_iff.1 hcreate
    obtain rfl : m = .bucket (.flat rate.permitsPerSecond 1.0 0) := hm
    rintro b hb
    rw [← Meter.bucket.inj hb]
    exact Bucket.ramp_reserve _ _ _ _
  -- the demand, and that the meter was saved and restored after it
  have hdemand : m.Becomes m' := .single (.demand _)
  obtain ⟨d, hsave, hread, hrestore⟩ := hreturns m' hdemand fun b hb x hx => by
    rw [hflat b hb] at hx
    cases hx
  have hsaved : m.Becomes m' := hdemand.tail (.saved hsave hread hrestore)
  have hone : (1 : UInt64) ≠ 0 := by decide
  exact ⟨⟨d, hsave, hread, hrestore⟩, hnever m' hsaved 1 _ _ hone,
    hgroup g g rfl ⟨m', List.mem_cons_of_mem _ List.mem_cons_self, hsaved⟩ .refl 1 _ _ hone⟩

end Catalog

end Admission
