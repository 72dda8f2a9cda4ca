import Admission.Proofs.Rejections
import Admission.Proofs.WindowCount

/-!
# The next permit of a window

`Window.earliest` says when a window has a permit again.  It looks at a start that may lie many
windows back, or ahead of a clock that has gone back, and changes nothing.  What a request then gets
is up to `Window.reserve`, which first moves the start.  The two agree to the microsecond.

* **what is left** — `Window.one_le_left_iff`: at an instant there is a permit if the present window
  holds one or is over by then, so there still is one later (`Window.one_le_left_of_le`);
* **the instant** — `Window.le_earliest` says that it does not lie in the past, and
  `Window.earliest_le_iff` that from it on, and not before, a permit is left;
* **the law** — `Window.earliest_is_exact`.
-/

namespace Admission

namespace Window

/-- Whether the end of the present window is an instant that the clock can show. -/
def EndsOnClock (w : Window) : Prop := w.start.toNat + w.length.toNat < UInt64.size

variable {w : Window} {now instant : Micros}

theorem one_le_left_iff (hpermits : 1 ≤ w.permits) (instant : Micros) :
    1 ≤ w.left instant ↔ w.hasPassed instant = true ∨ 1 ≤ w.remaining := by
  rw [left]
  split
  · next hpassed => simp [hpassed, hpermits]
  · next hpassed => simp [hpassed]

/-- While nobody asks, a permit stays. -/
theorem one_le_left_of_le (hpermits : 1 ≤ w.permits) (h : now ≤ instant)
    (hleft : 1 ≤ w.left now) : 1 ≤ w.left instant := by
  rw [one_le_left_iff hpermits, hasPassed_iff] at hleft ⊢
  have hle := UInt64.le_iff_toNat_le.1 h
  exact hleft.imp_left fun hpassed => by omega

/-- A window without a permit still runs, and the next one follows it. -/
theorem earliest_of_left_lt (hpermits : 1 ≤ w.permits) (hends : w.EndsOnClock)
    (hleft : ¬ 1 ≤ w.left now) :
    w.remaining = 0 ∧ now.toNat - w.start.toNat < w.length.toNat ∧
      (w.earliest now).toNat = w.start.toNat + w.length.toNat := by
  have hnone : ¬ 0 < w.left now := fun hpos =>
    hleft (UInt64.le_iff_toNat_le.2 (UInt64.lt_iff_toNat_lt.1 hpos))
  rw [one_le_left_iff hpermits, not_or, hasPassed_iff, Nat.not_le] at hleft
  refine ⟨?_, hleft.1, ?_⟩
  · have hzero := mt UInt64.le_iff_toNat_le.2 hleft.2
    rw [← UInt64.toNat_inj]
    change w.remaining.toNat = 0
    change ¬ 1 ≤ w.remaining.toNat at hzero
    omega
  · rw [earliest, if_neg hnone, UInt64.toNat_add, Nat.mod_eq_of_lt hends]

/-- The next permit does not lie in the past. -/
theorem le_earliest (hpermits : 1 ≤ w.permits) (hends : w.EndsOnClock) (now : Micros) :
    now ≤ w.earliest now := by
  by_cases hleft : 1 ≤ w.left now
  · have hpos : 0 < w.left now := UInt64.lt_iff_toNat_lt.2 (UInt64.le_iff_toNat_le.1 hleft)
    rw [earliest, if_pos hpos]
    exact UInt64.le_refl now
  · obtain ⟨-, hruns, hearliest⟩ := earliest_of_left_lt hpermits hends hleft
    rw [UInt64.le_iff_toNat_le, hearliest]
    omega

/-- From that instant on, and not before, a permit is left. -/
theorem earliest_le_iff (hpermits : 1 ≤ w.permits) (hends : w.EndsOnClock) (h : now ≤ instant) :
    w.earliest now ≤ instant ↔ 1 ≤ w.left instant := by
  by_cases hleft : 1 ≤ w.left now
  · have hpos : 0 < w.left now := UInt64.lt_iff_toNat_lt.2 (UInt64.le_iff_toNat_le.1 hleft)
    rw [earliest, if_pos hpos]
    exact ⟨fun _ => one_le_left_of_le hpermits h hleft, fun _ => h⟩
  · obtain ⟨hremaining, hruns, hearliest⟩ := earliest_of_left_lt hpermits hends hleft
    rw [UInt64.le_iff_toNat_le, hearliest, one_le_left_iff hpermits, hasPassed_iff, hremaining]
    constructor
    · intro hover
      exact .inl (by omega)
    · rintro (hpassed | hheld)
      · omega
      · exact absurd hheld (by decide)

/-- One permit is granted if one is left. -/
theorem fst_reserve_one (w : Window) (instant : Micros) :
    (w.reserve 1 instant).1 = if 1 ≤ w.left instant then some 0 else none := by
  split
  · next hleft => rw [w.reserve_of_le hleft]
  · next hleft => rw [w.reserve_of_lt (UInt64.not_le.1 hleft)]

/-- The permits of a window stay what they were at its beginning. -/
theorem permits_after (w : Window) (asks : List Ask) : (w.after asks).permits = w.permits := by
  induction asks generalizing w with
  | nil => rfl
  | cons a asks ih => exact (ih _).trans (w.permits_reserve a.permits a.now)

/-- **A window knows when its next permit can be had.**  Let a window of at least one permit have
received any requests, at instants in any order, and let the end of the present window be an instant
of the clock.  Whatever the time is, the instant that the window names is not before it; whoever
asks for one permit from now on, but before that instant, is rejected; and whoever asks at that
instant, or later, is granted the permit at once. -/
theorem earliest_is_exact (permits : UInt64) (hpermits : 1 ≤ permits) (period : Duration)
    (t₀ : Micros) (past : List Ask) (hends : ((begin permits period t₀).after past).EndsOnClock)
    (now : Micros) :
    let w := (begin permits period t₀).after past
    now ≤ w.earliest now ∧
      (∀ instant, now ≤ instant → instant < w.earliest now → (w.reserve 1 instant).1 = none) ∧
      ∀ instant, w.earliest now ≤ instant → (w.reserve 1 instant).1 = some 0 := by
  intro w
  have hsupply : 1 ≤ w.permits := by
    rw [permits_after]
    exact hpermits
  have hnow : now ≤ w.earliest now := le_earliest hsupply hends now
  refine ⟨hnow, ?_, ?_⟩
  · intro instant hfrom hbefore
    have hnone : ¬ 1 ≤ w.left instant := fun hleft =>
      UInt64.not_le.2 hbefore ((earliest_le_iff hsupply hends hfrom).2 hleft)
    rw [fst_reserve_one, if_neg hnone]
  · intro instant hfrom
    rw [fst_reserve_one,
      if_pos ((earliest_le_iff hsupply hends (UInt64.le_trans hnow hfrom)).1 hfrom)]

/-- One permit a second, taken two and a half seconds after the beginning: the next one is there
after three seconds, also by a clock that has gone back to the beginning. -/
theorem earliest_is_exact_second :
    let w := (begin 1 (.ofSeconds 1) 0).after [⟨1, 0⟩, ⟨1, 2500000⟩]
    1 ≤ w.permits ∧ w.EndsOnClock ∧ w.earliest 2500000 = 3000000 ∧ w.earliest 0 = 3000000 ∧
      (w.reserve 1 2999999).1 = none ∧ (w.reserve 1 3000000).1 = some 0 := by
  intro w
  have hends : w.EndsOnClock := show w.start.toNat + w.length.toNat < UInt64.size by decide
  obtain ⟨-, hrejected, hgranted⟩ :=
    earliest_is_exact 1 (by decide) (.ofSeconds 1) 0 [⟨1, 0⟩, ⟨1, 2500000⟩] hends 0
  exact ⟨by decide, hends, by decide, by decide, hrejected 2999999 (by decide) (by decide),
    hgranted 3000000 (by decide)⟩

end Window

end Admission
