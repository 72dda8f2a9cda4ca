import Admission.Meter.Window
import Mathlib.Algebra.GroupWithZero.Nat
import Mathlib.Data.Nat.Basic

/-!
# What a window counts

A window keeps four words, and moves its start by a remainder over gaps of any number of windows.
Here it is held against a count on paper: number the stretches of `length` microseconds from the
instant `t₀` at which the window began, and file each request under the number of the stretch in
which the latest instant seen so far lies.  The clock may go back, and even behind `t₀`; the latest
instant does not.

* **the file** — `Window.file` runs a window through some requests and files each with its answer;
  `Window.takenIn` adds up what was granted under one number;
* **the invariant** — `Window.Counted` ties the four words to the file; `Counted.settle` and
  `Counted.reserve` keep it through one request, `Counted.run` through all of them;
* **the law** — `Window.reserve_eq_reference_count`: after any requests, the next one is granted
  exactly if what was taken under its number leaves room for it, and the start and what is left are
  what the count says.
-/

namespace Admission

namespace Window

/-- A request to a window. -/
structure Ask where
  /-- The permits that are asked for. -/
  permits : UInt64
  /-- The instant of the request. -/
  now : Micros

/-- A request that has been answered. -/
structure Record where
  /-- The permits that were asked for. -/
  permits : UInt64
  /-- The number of the stretch under which the request is filed. -/
  number : Nat
  /-- The answer. -/
  answer : Option Micros

/-- The latest instant of some requests, or `start` when that is later. -/
def latest (start : Nat) (asks : List Ask) : Nat :=
  asks.foldl (fun t a => max t a.now.toNat) start

/-- The window after some requests. -/
def after (w : Window) (asks : List Ask) : Window :=
  asks.foldl (fun w a => (w.reserve a.permits a.now).2) w

/-- The number of the stretch of `length` microseconds since `t₀` that holds an instant. -/
def numberOf (t₀ length instant : Nat) : Nat := (instant - t₀) / length

/-- Run a window through some requests, the latest instant so far being given, and file each with
its answer. -/
def file (t₀ length : Nat) (w : Window) (seen : Nat) : List Ask → List Record
  | [] => []
  | a :: asks =>
    ⟨a.permits, numberOf t₀ length (max seen a.now.toNat), (w.reserve a.permits a.now).1⟩ ::
      file t₀ length (w.reserve a.permits a.now).2 (max seen a.now.toNat) asks

/-- The permits that were granted under a number. -/
def takenIn (k : Nat) (records : List Record) : Nat :=
  ((records.filter fun r => r.number = k ∧ r.answer.isSome).map fun r => r.permits.toNat).sum

/-! ## The file -/

@[simp] theorem takenIn_nil (k : Nat) : takenIn k [] = 0 := rfl

theorem takenIn_append (k : Nat) (xs ys : List Record) :
    takenIn k (xs ++ ys) = takenIn k xs + takenIn k ys := by
  simp [takenIn]

theorem takenIn_singleton (k : Nat) (r : Record) :
    takenIn k [r] = if r.number = k ∧ r.answer.isSome then r.permits.toNat else 0 := by
  unfold takenIn
  by_cases h : r.number = k ∧ r.answer.isSome <;> simp [h]

/-- Nothing was taken under a number that is not on file. -/
theorem takenIn_eq_zero {k : Nat} {records : List Record} (h : ∀ r ∈ records, r.number ≠ k) :
    takenIn k records = 0 := by
  have hnone : records.filter (fun r => r.number = k ∧ r.answer.isSome) = [] := by
    refine List.filter_eq_nil_iff.2 fun r hr => ?_
    simp [h r hr]
  rw [takenIn, hnone]
  rfl

/-- What was granted under a number is part of what was taken under it. -/
theorem le_takenIn {k : Nat} {records : List Record} {r : Record} (hr : r ∈ records)
    (hnumber : r.number = k) (hgranted : r.answer.isSome) :
    r.permits.toNat ≤ takenIn k records := by
  obtain ⟨before, later, rfl⟩ := List.append_of_mem hr
  rw [takenIn_append, ← List.singleton_append, takenIn_append, takenIn_singleton,
    if_pos ⟨hnumber, hgranted⟩]
  omega

theorem latest_append (start : Nat) (xs ys : List Ask) :
    latest start (xs ++ ys) = latest (latest start xs) ys := List.foldl_append

theorem after_append (w : Window) (xs ys : List Ask) :
    w.after (xs ++ ys) = (w.after xs).after ys := List.foldl_append

/-! ## The numbers of stretches -/

/-- An instant lies in the stretch of its number. -/
theorem numberOf_bounds {t₀ length instant : Nat} (hpos : 0 < length) (h : t₀ ≤ instant) :
    t₀ + numberOf t₀ length instant * length ≤ instant ∧
      instant < t₀ + (numberOf t₀ length instant + 1) * length := by
  have hdiv := Nat.div_add_mod (instant - t₀) length
  have hmod := Nat.mod_lt (instant - t₀) hpos
  have hmul : length * ((instant - t₀) / length) = numberOf t₀ length instant * length :=
    Nat.mul_comm ..
  have hsucc : (numberOf t₀ length instant + 1) * length =
      numberOf t₀ length instant * length + length := Nat.succ_mul ..
  omega

/-- The stretch that holds an instant is that of its number. -/
theorem numberOf_eq {t₀ length k instant : Nat} (hstart : t₀ + k * length ≤ instant)
    (hstop : instant < t₀ + (k + 1) * length) : numberOf t₀ length instant = k :=
  Nat.div_eq_of_lt_le (by omega) (by omega)

theorem numberOf_mono (t₀ length : Nat) {a b : Nat} (h : a ≤ b) :
    numberOf t₀ length a ≤ numberOf t₀ length b :=
  Nat.div_le_div_right (Nat.sub_le_sub_right h t₀)

/-- An instant behind the end of a stretch has a larger number, and one before it has not. -/
theorem lt_numberOf_iff {t₀ length k instant : Nat} (hpos : 0 < length) (h : t₀ ≤ instant) :
    k < numberOf t₀ length instant ↔ t₀ + k * length + length ≤ instant := by
  have hsucc : (k + 1) * length = k * length + length := Nat.succ_mul ..
  rw [numberOf, ← Nat.succ_le_iff, Nat.le_div_iff_mul_le hpos, Nat.succ_eq_add_one, hsucc]
  omega

/-! ## The invariant -/

/-- What the words of a window say about a file of requests: the window holds `P` permits in each
stretch of `length` microseconds since `t₀`, and `seen` is the latest instant so far. -/
structure Counted (P length t₀ : Nat) (records : List Record) (seen : Nat) (w : Window) :
    Prop where
  /-- The permits of a window never change. -/
  permits : w.permits.toNat = P
  /-- Neither does its length. -/
  length_eq : w.length.toNat = length
  /-- A window takes time. -/
  length_pos : 0 < length
  /-- Nothing was seen before the window began. -/
  origin : t₀ ≤ seen
  /-- The start is that of the stretch that holds the latest instant. -/
  start : w.start.toNat = t₀ + numberOf t₀ length seen * length
  /-- What is left and what was taken in that stretch make up the permits. -/
  remaining : w.remaining.toNat + takenIn (numberOf t₀ length seen) records = P
  /-- No request is filed under a later stretch. -/
  numbers : ∀ r ∈ records, r.number ≤ numberOf t₀ length seen
  /-- No stretch gave more than the permits. -/
  bounded : ∀ k, takenIn k records ≤ P

theorem counted_begin (permits : UInt64) (period : Duration) (now : Micros) :
    Counted permits.toNat (max 1 period.micros.toNat) now.toNat [] now.toNat
      (begin permits period now) := by
  have hlength : (max period.micros 1).toNat = max 1 period.micros.toNat := by
    have hone : (1 : UInt64).toNat = 1 := rfl
    change (if period.micros ≤ 1 then 1 else period.micros).toNat = _
    split
    · next h => have := UInt64.le_iff_toNat_le.1 h; omega
    · next h => have := mt UInt64.le_iff_toNat_le.2 h; omega
  have hnumber : numberOf now.toNat (max 1 period.micros.toNat) now.toNat = 0 := by
    simp [numberOf]
  refine
    { permits := rfl
      length_eq := hlength
      length_pos := by omega
      origin := le_rfl
      start := ?_
      remaining := rfl
      numbers := fun r hr => absurd hr List.not_mem_nil
      bounded := fun k => Nat.zero_le _ }
  rw [hnumber, Nat.zero_mul]
  rfl

section

variable {P length t₀ seen : Nat} {records : List Record} {w : Window}

/-- A window is over exactly if the present instant has a larger number than the latest one. -/
theorem Counted.hasPassed_iff (h : Counted P length t₀ records seen w) (now : Micros) :
    w.hasPassed now = true ↔
      numberOf t₀ length seen < numberOf t₀ length (max seen now.toNat) := by
  have hbounds := numberOf_bounds h.length_pos h.origin
  have hsucc : (numberOf t₀ length seen + 1) * length =
      numberOf t₀ length seen * length + length := Nat.succ_mul ..
  have horigin : t₀ ≤ max seen now.toNat := le_trans h.origin (le_max_left ..)
  have hlength := h.length_eq
  have hstart := h.start
  rw [lt_numberOf_iff h.length_pos horigin, hasPassed, decide_eq_true_eq, UInt64.le_iff_toNat_le,
    Micros.toNat_since]
  omega

/-- Looking at a window tells what its present stretch still holds. -/
theorem Counted.left (h : Counted P length t₀ records seen w) (now : Micros) :
    (w.left now).toNat + takenIn (numberOf t₀ length (max seen now.toNat)) records = P := by
  rw [Window.left]
  by_cases hover : w.hasPassed now = true
  · -- a later stretch has nothing on file yet
    have hlater := (h.hasPassed_iff now).1 hover
    have hzero : takenIn (numberOf t₀ length (max seen now.toNat)) records = 0 :=
      takenIn_eq_zero fun r hr => by have := h.numbers r hr; omega
    rw [if_pos hover, hzero, h.permits, Nat.add_zero]
  · have hsame : numberOf t₀ length (max seen now.toNat) = numberOf t₀ length seen := by
      have hle := numberOf_mono t₀ length (le_max_left seen now.toNat)
      have hnot := mt (h.hasPassed_iff now).2 hover
      omega
    rw [if_neg hover, hsame]
    exact h.remaining

/-- The start moves by whole windows. -/
theorem Counted.start_settle (h : Counted P length t₀ records seen w) (now : Micros) :
    (w.settle now).start.toNat = t₀ + numberOf t₀ length (max seen now.toNat) * length := by
  rw [settle]
  by_cases hover : w.hasPassed now = true
  · rw [if_pos hover]
    have hlater := (h.hasPassed_iff now).1 hover
    have hlate : seen < now.toNat := by
      by_contra hnot
      rw [max_eq_left (by omega)] at hlater
      omega
    have hbounds := numberOf_bounds h.length_pos h.origin
    have hstart := h.start
    have hle : w.start ≤ now := UInt64.le_iff_toNat_le.2 (by omega)
    have helapsed : (now - w.start).toNat =
        now.toNat - t₀ - length * numberOf t₀ length seen := by
      rw [UInt64.toNat_sub_of_le _ _ hle, hstart, Nat.mul_comm]
      omega
    have hfits : length * numberOf t₀ length seen ≤ now.toNat - t₀ := by
      rw [Nat.mul_comm]
      omega
    have hmod : ((now - w.start) % w.length).toNat = (now.toNat - t₀) % length := by
      rw [UInt64.toNat_mod, helapsed, h.length_eq, Nat.sub_mul_mod hfits]
    have hsmall : (now - w.start) % w.length ≤ now := by
      rw [UInt64.le_iff_toNat_le, hmod]
      exact le_trans (Nat.mod_le ..) (Nat.sub_le ..)
    have hdiv := Nat.div_add_mod (now.toNat - t₀) length
    have hmul : length * ((now.toNat - t₀) / length) = numberOf t₀ length now.toNat * length :=
      Nat.mul_comm ..
    change (now - (now - w.start) % w.length).toNat = _
    rw [UInt64.toNat_sub_of_le _ _ hsmall, hmod, max_eq_right (Nat.le_of_lt hlate)]
    have := h.origin
    omega
  · have hle := numberOf_mono t₀ length (le_max_left seen now.toNat)
    have hnot := mt (h.hasPassed_iff now).2 hover
    have hsame : numberOf t₀ length (max seen now.toNat) = numberOf t₀ length seen := by omega
    rw [if_neg hover, hsame]
    exact h.start

/-- Settling a window files nothing. -/
theorem Counted.settle (h : Counted P length t₀ records seen w) (now : Micros) :
    Counted P length t₀ records (max seen now.toNat) (w.settle now) where
  permits := by rw [permits_settle]; exact h.permits
  length_eq := by rw [length_settle]; exact h.length_eq
  length_pos := h.length_pos
  origin := le_trans h.origin (le_max_left ..)
  start := h.start_settle now
  remaining := by rw [remaining_settle]; exact h.left now
  numbers := fun r hr => le_trans (h.numbers r hr) (numberOf_mono t₀ length (le_max_left ..))
  bounded := h.bounded

/-- A request is granted exactly if what was taken under its number leaves room for it. -/
theorem Counted.answer (h : Counted P length t₀ records seen w) (permits : UInt64)
    (now : Micros) :
    (w.reserve permits now).1 =
      if permits.toNat + takenIn (numberOf t₀ length (max seen now.toNat)) records ≤ P
      then some 0 else none := by
  have hleft := h.left now
  by_cases hroom : permits ≤ w.left now
  · have hle := UInt64.le_iff_toNat_le.1 hroom
    rw [reserve_of_le w hroom, if_pos (by omega)]
  · have hlt := UInt64.lt_iff_toNat_lt.1 (UInt64.not_le.1 hroom)
    rw [reserve_of_lt w (UInt64.not_le.1 hroom), if_neg (by omega)]

/-- One request, filed with its answer. -/
theorem Counted.reserve (h : Counted P length t₀ records seen w) (permits : UInt64)
    (now : Micros) :
    Counted P length t₀
      (records ++
        [⟨permits, numberOf t₀ length (max seen now.toNat), (w.reserve permits now).1⟩])
      (max seen now.toNat) (w.reserve permits now).2 := by
  have hleft := h.left now
  have hsettled := h.settle now
  have hnumbers : ∀ answer : Option Micros, ∀ r ∈ records ++
      [⟨permits, numberOf t₀ length (max seen now.toNat), answer⟩],
      r.number ≤ numberOf t₀ length (max seen now.toNat) := by
    intro answer r hr
    rcases List.mem_append.1 hr with hr | hr
    · exact hsettled.numbers r hr
    · rw [List.mem_singleton.1 hr]
  by_cases hroom : permits ≤ w.left now
  · have hle := UInt64.le_iff_toNat_le.1 hroom
    rw [reserve_of_le w hroom]
    refine
      { hsettled with
        remaining := ?_
        numbers := hnumbers _
        bounded := ?_ }
    · change (w.left now - permits).toNat + _ = P
      rw [UInt64.toNat_sub_of_le _ _ hroom, takenIn_append, takenIn_singleton,
        if_pos ⟨rfl, rfl⟩]
      change _ + (_ + permits.toNat) = P
      omega
    · intro k
      have hk := h.bounded k
      rw [takenIn_append, takenIn_singleton]
      split
      · next hfiled =>
        obtain ⟨rfl, -⟩ := hfiled
        change _ + permits.toNat ≤ P
        dsimp only
        omega
      · exact hk
  · rw [reserve_of_lt w (UInt64.not_le.1 hroom)]
    -- a rejected request is filed, but adds nothing to what was taken
    have hsame : ∀ k, takenIn k (records ++
        [⟨permits, numberOf t₀ length (max seen now.toNat), none⟩]) = takenIn k records := by
      intro k
      rw [takenIn_append, takenIn_singleton, if_neg (fun hfiled => Bool.noConfusion hfiled.2),
        Nat.add_zero]
    exact
      { hsettled with
        remaining := by rw [hsame]; exact hsettled.remaining
        numbers := hnumbers _
        bounded := fun k => by rw [hsame]; exact h.bounded k }

/-- All requests of a run, filed with their answers. -/
theorem Counted.run (h : Counted P length t₀ records seen w) (asks : List Ask) :
    Counted P length t₀ (records ++ file t₀ length w seen asks) (latest seen asks)
      (w.after asks) := by
  induction asks generalizing records seen w with
  | nil => rw [file, List.append_nil]; exact h
  | cons a asks ih =>
    have hnext := ih (h.reserve a.permits a.now)
    rw [List.append_assoc] at hnext
    exact hnext

end

/-! ## The law of a window -/

/-- **A window is a count of its stretches.**  Take a window of `permits` that begins at `t₀`, let
it answer any requests `past`, and ask once more.  With `number` the stretch of the latest instant
up to this request, the request is granted, at once, exactly if it and what was granted under
`number` so far make up at most `permits`.  The window then starts with stretch `number`, and at any
instant it shows the permits less what was granted in the stretch of the latest instant and that
one. -/
theorem reserve_eq_reference_count (permits : UInt64) (period : Duration) (t₀ : Micros)
    (past : List Ask) (ask : Ask) :
    let length := max 1 period.micros.toNat
    let w := begin permits period t₀
    let seen := latest t₀.toNat (past ++ [ask])
    let number := numberOf t₀.toNat length seen
    let next := (w.after past).reserve ask.permits ask.now
    (next.1 =
        if ask.permits.toNat + takenIn number (file t₀.toNat length w t₀.toNat past) ≤
          permits.toNat
        then some 0 else none) ∧
      next.2 = w.after (past ++ [ask]) ∧
      next.2.start.toNat = t₀.toNat + number * length ∧
      ∀ instant : Micros,
        (next.2.left instant).toNat +
            takenIn (numberOf t₀.toNat length (max seen instant.toNat))
              (file t₀.toNat length w t₀.toNat (past ++ [ask])) =
          permits.toNat := by
  intro length w seen number next
  have hbegin : Counted permits.toNat length t₀.toNat [] t₀.toNat w :=
    counted_begin permits period t₀
  have hpast := hbegin.run past
  rw [List.nil_append] at hpast
  have hseen : seen = max (latest t₀.toNat past) ask.now.toNat := latest_append ..
  have hnext : next.2 = w.after (past ++ [ask]) := (after_append w past [ask]).symm
  have hall := hbegin.run (past ++ [ask])
  rw [List.nil_append, ← hnext] at hall
  refine ⟨?_, hnext, hall.start, hall.left⟩
  have hanswer := hpast.answer ask.permits ask.now
  rwa [← hseen] at hanswer

/-- Two permits a second: the third request is refused, and half a window later there is room
again. -/
example :
    (file 0 1000000 (begin 2 (.ofSeconds 1) 0) 0
        [⟨1, 0⟩, ⟨1, 600000⟩, ⟨1, 999999⟩, ⟨2, 1500000⟩, ⟨1, 900000⟩]).map
      (fun r => (r.number, r.answer)) =
      [(0, some 0), (0, some 0), (0, none), (1, some 0), (1, none)] := by
  decide

end Window

end Admission
