import Admission.Meter.Checked
import Admission.Proofs.ClosedQuota
import Admission.Proofs.WindowCount

/-!
# What halts

A window takes differences of words, and a remainder by its length.  Its beginning sees to it that
there is a length, but what is read from a document is whatever the document says.

* **requests** — `Window.after?` takes a window through some requests with each step checked.
  `Window.neverHalts_iff`: a length is all it needs, whatever its other words are, and however the
  clock runs;
* **windows** — `Window.windows_with_length_never_halt`, and right after it the document of a window
  without a length;
* **groups** — `MeterGroup.reserve?_eq_ok_iff`: one such window halts all requests for permits to
  its group.  `MeterGroup.halts_at_once_or_never`: nothing that happens to a group, be it demands or
  that it is saved and restored, brings such a window about.
-/

namespace Admission

/-! ## Windows -/

namespace Window

/-- The window after some requests, or what one of them halts at. -/
def after? (w : Window) (asks : List Ask) : Except Halt Window :=
  asks.foldlM (fun w a => (w.reserve? a.permits a.now).map Prod.snd) w

/-- Whether a window goes through any requests without a halt, and answers the next one as ever. -/
def NeverHalts (w : Window) : Prop :=
  ∀ (past : List Ask) (ask : Ask), w.after? past = .ok (w.after past) ∧
    (w.after past).reserve? ask.permits ask.now =
      .ok ((w.after past).reserve ask.permits ask.now)

/-- The length of a window stays what it was at its beginning. -/
theorem length_after (w : Window) (asks : List Ask) : (w.after asks).length = w.length := by
  induction asks generalizing w with
  | nil => rfl
  | cons a asks ih => exact (ih _).trans (w.length_reserve a.permits a.now)

/-- What one request keeps, all of them keep. -/
theorem after?_of_length {w : Window} (h : w.length ≠ 0) (asks : List Ask) :
    w.after? asks = .ok (w.after asks) := by
  induction asks generalizing w with
  | nil => rfl
  | cons a asks ih =>
    have hnext : (w.reserve a.permits a.now).2.length ≠ 0 := by
      rw [length_reserve]
      exact h
    rw [after?, List.foldlM_cons, reserve?_of_length h]
    exact ih hnext

/-- A window needs a length, and nothing else, never to halt. -/
theorem neverHalts_iff {w : Window} : w.NeverHalts ↔ w.length ≠ 0 := by
  constructor
  · intro h hzero
    have hfirst : w.reserve? 0 0 = .ok (w.reserve 0 0) := (h [] ⟨0, 0⟩).2
    rw [reserve?_of_no_length hzero] at hfirst
    cases hfirst
  · intro h past ask
    have hafter : (w.after past).length ≠ 0 := by
      rw [length_after]
      exact h
    exact ⟨after?_of_length h past, reserve?_of_length hafter _ _⟩

theorem length_begin (permits : UInt64) (period : Duration) (now : Micros) :
    (begin permits period now).length ≠ 0 := by
  intro hzero
  have hlength := Micros.toNat_max period.micros 1
  have hword : (max period.micros 1).toNat = 0 := congrArg UInt64.toNat hzero
  have hone : (1 : UInt64).toNat = 1 := rfl
  omega

/-- **Only a window without a length halts.**  A document may describe any window whatever.  The
window never halts exactly if it has a length: it then goes through any requests, of any permits and
at instants in any order, with each difference and each remainder checked, and answers them as ever.
Without a length it halts at the very first request, at a difference below zero if the clock is
behind its start, and otherwise at a remainder by zero.  Permits are never taken below zero: with a
length or without, a request is answered as ever once the window that holds the present instant is
found.  A window that begins has a length, whatever its period, and so it never halts. -/
theorem windows_with_length_never_halt (w : Window) :
    (∃ d, restore? d = some w) ∧ (w.NeverHalts ↔ w.length ≠ 0) ∧
      (w.length = 0 → ∀ (permits : UInt64) (now : Micros),
        w.reserve? permits now = .error (if now < w.start then .belowZero else .byZero)) ∧
      (∀ (permits : UInt64) (now : Micros) (settled : Window), w.settle? now = .ok settled →
        w.reserve? permits now = .ok (w.reserve permits now)) ∧
      ∀ (permits : UInt64) (period : Duration) (t₀ : Micros),
        (begin permits period t₀).length ≠ 0 ∧ (begin permits period t₀).NeverHalts := by
  refine ⟨⟨w.save, restore?_save w⟩, neverHalts_iff, ?_, ?_, ?_⟩
  · exact fun hzero permits now => reserve?_of_no_length hzero permits now
  · intro permits now settled hsettled
    rw [reserve?_eq, hsettled]
    rfl
  · intro permits period t₀
    have hlength := length_begin permits period t₀
    exact ⟨hlength, neverHalts_iff.2 hlength⟩

/-- One permit a second, read from a list of the parts by a clock that then goes back behind the
start, next to a window without a length. -/
theorem windows_with_length_never_halt_listed :
    let d : Document := .list [.whole 1, .whole 1000000, .whole 0, .whole 5000000]
    let w : Window := ⟨1, 1000000, 0, 5000000⟩
    let asks : List Ask := [⟨1, 4000000⟩, ⟨1, 6500000⟩]
    let v : Window := ⟨1, 0, 1, 5⟩
    (restore? d = some w ∧ w.length ≠ 0 ∧ w.after? asks = .ok (w.after asks) ∧
        w.after asks = ⟨1, 1000000, 0, 6000000⟩) ∧
      (w.settle? 4000000 = .ok w ∧ w.reserve? 1 4000000 = .ok (none, w)) ∧
      v.length = 0 ∧ v.reserve? 0 7 = .error .byZero := by
  intro d w asks v
  have hrestore : restore? d = some w := by decide
  have hlength : w.length ≠ 0 := by decide
  have hsettle : w.settle? 4000000 = .ok w := rfl
  have hzero : v.length = 0 := rfl
  obtain ⟨-, hnever, -, htaken, -⟩ := windows_with_length_never_halt w
  obtain ⟨-, -, hhalts, -⟩ := windows_with_length_never_halt v
  exact ⟨⟨hrestore, hlength, (hnever.2 hlength asks ⟨0, 0⟩).1, by decide⟩,
    ⟨hsettle, htaken 1 4000000 w hsettle⟩, hzero, hhalts hzero 0 7⟩

/-- A document may say that a window has no length, and is read.  The first request then halts: at a
remainder by zero, or at a difference below zero when the clock has gone back. -/
theorem window_without_length_is_read :
    let d : Document := .record
      [("permits", .whole 1), ("window_micros", .whole 0), ("remaining", .whole 1),
        ("window_start", .whole 5)]
    ∃ w, restore? d = some w ∧ w.length = 0 ∧
      w.reserve? 1 5 = .error .byZero ∧ w.reserve? 1 4 = .error .belowZero :=
  ⟨⟨1, 0, 1, 5⟩, by decide, by decide, rfl, rfl⟩

end Window

/-! ## Groups -/

variable {κ : Type}

namespace MeterGroup

/-- Whether the windows of a group have lengths. -/
def HasLengths (g : MeterGroup κ) : Prop := ∀ w, Meter.window w ∈ g.members → w.length ≠ 0

/-- The windows that a catalog creates have lengths. -/
theorem hasLengths_createAll {c : Catalog κ} {quota : Quota} {now : Micros} {g : MeterGroup κ}
    (h : c.createAll quota now = .ok g) : g.HasLengths := by
  intro w hw
  obtain ⟨rate, -, hrate⟩ := exists_of_forall₂ (Catalog.createAll_eq_ok_iff.1 h).2.flip _ hw
  obtain ⟨-, hmeter⟩ := Catalog.create_eq_ok_iff.1 hrate
  split at hmeter
  · cases hmeter
    exact Window.length_begin _ _ _
  · cases hmeter
  · cases hmeter
  · obtain ⟨build, state, -, -, hmeter⟩ := hmeter
    cases hmeter

/-- What is read from the text of a group holds the windows of the group. -/
theorem HasLengths.restored {g g' : MeterGroup κ} (h : g.HasLengths) {d e : Document}
    (hsave : g.save? = some d) (hread : Json.reread? d = some e) (hrestore : restore? e = some g') :
    g'.HasLengths := by
  intro w hw
  obtain ⟨-, ds, es, hds, hes, hmembers⟩ := mapM_of_reread hsave hread hrestore
  -- back from the window to its document, to what was saved, and to the member that was saved
  obtain ⟨read, hread, hrestore⟩ := exists_of_mapM hmembers _ hw
  obtain ⟨saved, hsaved, hreread⟩ := exists_of_mapM hes read hread
  obtain ⟨m, hm, hsave⟩ := exists_of_mapM hds saved hsaved
  cases m with
  | window v =>
    cases Meter.eq_window_of_reread hsave hreread hrestore
    exact h w hm
  | bucket b =>
    obtain ⟨_, _, -, -, hbucket⟩ := Meter.exists_bucket_of_reread hsave hreread hrestore
    cases hbucket
  | custom c => cases hsave

variable [CustomMeter κ]

/-- No demand takes the length of a window away. -/
theorem HasLengths.next {g : MeterGroup κ} (h : g.HasLengths) (d : Demand) :
    (g.next d).HasLengths := by
  intro w hw
  rw [MeterGroup.next, members_reserve] at hw
  obtain ⟨m, hm, hreserve⟩ := List.mem_map.1 hw
  unfold Meter.reserve at hreserve
  split at hreserve
  · exact h w (hreserve ▸ hm)
  · cases m with
    | window v =>
      obtain rfl : (v.reserve d.permits d.now).2 = w := Meter.window.inj hreserve
      rw [Window.length_reserve]
      exact h v hm
    | bucket | custom => cases hreserve

theorem HasLengths.becomes {g g' : MeterGroup κ} (h : g.HasLengths) (hbecomes : g.Becomes g') :
    g'.HasLengths :=
  keeps_of_happens hbecomes h (fun hsave => isSaid_save? hsave fun _ _ _ _ _ => trivial)
    HasLengths.next HasLengths.restored

/-- A group whose windows have lengths answers as ever. -/
theorem HasLengths.reserve? {g : MeterGroup κ} (h : g.HasLengths) (permits : UInt64)
    (timeout : Duration) (now : Micros) :
    g.reserve? permits timeout now = .ok (g.reserve permits timeout now) := by
  have hmembers : (g.members.mapM fun m => m.reserve? permits timeout now) =
      .ok (g.members.map fun m => m.reserve permits timeout now) := by
    rw [mapM_eq_ok_iff, List.forall₂_map_right_iff, List.forall₂_same]
    intro m hm
    refine Meter.reserve?_of_length ?_ permits timeout now
    rintro w rfl
    exact h w hm
  rw [MeterGroup.reserve?, hmembers]
  rfl

/-- One window without a length halts all requests for permits to its group. -/
theorem reserve?_eq_ok_iff {g : MeterGroup κ} {permits : UInt64} (hsome : permits ≠ 0)
    (timeout : Duration) (now : Micros) :
    (∃ outcome, g.reserve? permits timeout now = .ok outcome) ↔ g.HasLengths := by
  constructor
  · rintro ⟨outcome, houtcome⟩ w hw hzero
    obtain ⟨outcomes, hmembers, -⟩ := bind_eq_ok_iff.1 houtcome
    obtain ⟨answer, -, hanswer⟩ := exists_of_forall₂ (mapM_eq_ok_iff.1 hmembers) _ hw
    rw [Meter.reserve?_of_no_length hzero hsome] at hanswer
    cases hanswer
  · exact fun h => ⟨_, h.reserve? permits timeout now⟩

/-- **A group halts at once or never.**  If its windows have lengths, then whatever happens to it,
be it demands at any instants or that it is saved as a text and read from that text, it answers
every request as ever.  If one of them has none, every request for permits halts.  The windows of a
group that a catalog creates have lengths. -/
theorem halts_at_once_or_never (g : MeterGroup κ) :
    (g.HasLengths → ∀ g', g.Becomes g' → ∀ permits timeout now,
      g'.reserve? permits timeout now = .ok (g'.reserve permits timeout now)) ∧
    (¬ g.HasLengths → ∀ permits timeout now, permits ≠ 0 →
      ∃ halt, g.reserve? permits timeout now = .error halt) ∧
    ∀ (c : Catalog κ) (quota : Quota) (start : Micros), c.createAll quota start = .ok g →
      g.HasLengths := by
  refine ⟨fun h g' hbecomes permits timeout now => ?_, fun h permits timeout now hsome => ?_,
    fun c quota start => hasLengths_createAll⟩
  · exact (h.becomes hbecomes).reserve? permits timeout now
  · cases houtcome : g.reserve? permits timeout now with
    | error halt => exact ⟨halt, rfl⟩
    | ok outcome => exact absurd ((reserve?_eq_ok_iff hsome timeout now).1 ⟨outcome, houtcome⟩) h

end MeterGroup

end Admission
