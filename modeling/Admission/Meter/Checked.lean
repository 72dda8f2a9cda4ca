import Admission.Meter.Group

/-!
# Checked arithmetic

The words of a window wrap below zero, and what is left of a word that is divided by zero is the
word itself.  Live state that comes from elsewhere can lead there, and a program had better halt
than go on with such a number.  Here a window is asked with every difference and every remainder
checked.

* **`Halt`** — what the arithmetic of words halts at;
* **windows** — `Window.settle?_of_length` and `Window.settle?_of_no_length` say when a window
  halts; by `Window.reserve?_eq` it does so only where it settles, never where permits are taken;
* **meters and groups** — the members of a group are asked in order, and the first one that halts
  halts the group.  The differences that a bucket takes never fall below zero, because it looks at
  the order of the two instants first, so buckets are asked as they are.
-/

namespace Admission

/-- What the arithmetic of words halts at. -/
inductive Halt where
  /-- A difference below zero. -/
  | belowZero
  /-- A remainder by zero. -/
  | byZero
  deriving DecidableEq, Repr

namespace Word

/-- The difference of two words, if it is a word. -/
def minus? (a b : UInt64) : Except Halt UInt64 := if b ≤ a then .ok (a - b) else .error .belowZero

/-- What is left of a word that is divided by another, if anything can be. -/
def rest? (a b : UInt64) : Except Halt UInt64 := if b = 0 then .error .byZero else .ok (a % b)

theorem minus?_of_le {a b : UInt64} (h : b ≤ a) : minus? a b = .ok (a - b) := if_pos h

theorem minus?_of_lt {a b : UInt64} (h : a < b) : minus? a b = .error .belowZero :=
  if_neg (UInt64.not_le.2 h)

theorem rest?_of_ne {a b : UInt64} (h : b ≠ 0) : rest? a b = .ok (a % b) := if_neg h

end Word

namespace Window

/-- The window that holds the present instant, with each step checked. -/
def settle? (w : Window) (now : Micros) : Except Halt Window :=
  if w.hasPassed now then do
    let elapsed ← Word.minus? now w.start
    let rest ← Word.rest? elapsed w.length
    let start ← Word.minus? now rest
    pure { w with start, remaining := w.permits }
  else pure w

/-- Take `permits` from the present window, or nothing, with each step checked. -/
def reserve? (w : Window) (permits : UInt64) (now : Micros) :
    Except Halt (Option Micros × Window) := do
  let w ← w.settle? now
  if w.remaining < permits then pure (none, w)
  else
    let remaining ← Word.minus? w.remaining permits
    pure (some 0, { w with remaining })

/-- A window that has a length settles without a halt, also by a clock that has gone back. -/
theorem settle?_of_length {w : Window} (h : w.length ≠ 0) (now : Micros) :
    w.settle? now = .ok (w.settle now) := by
  unfold settle? settle
  split
  · next hpassed =>
    -- with a length, the present window is over only if its start lies behind
    have hlength : 0 < w.length.toNat := UInt64.lt_iff_toNat_lt.1 (UInt64.pos_iff_ne_zero.2 h)
    have hgone : w.length.toNat ≤ now.toNat - w.start.toNat := by
      rw [← Micros.toNat_since]
      exact UInt64.le_iff_toNat_le.1 (of_decide_eq_true hpassed)
    have hstart : w.start ≤ now := UInt64.le_iff_toNat_le.2 (by omega)
    have hrest : (now - w.start) % w.length ≤ now := by
      rw [UInt64.le_iff_toNat_le, UInt64.toNat_mod, UInt64.toNat_sub_of_le _ _ hstart]
      exact Nat.le_trans (Nat.mod_le ..) (Nat.sub_le ..)
    simp only [Word.minus?_of_le hstart, Word.rest?_of_ne h, Word.minus?_of_le hrest, bind,
      Except.bind]
    rfl
  · rfl

/-- A window without a length is always over, and there is no instant at which the next one could
start. -/
theorem settle?_of_no_length {w : Window} (h : w.length = 0) (now : Micros) :
    w.settle? now = .error (if now < w.start then .belowZero else .byZero) := by
  have hpassed : w.hasPassed now = true := by
    rw [hasPassed, h]
    exact decide_eq_true (UInt64.zero_le)
  rw [settle?, if_pos hpassed]
  split
  · next hbehind =>
    rw [Word.minus?_of_lt hbehind]
    rfl
  · next hahead =>
    rw [Word.minus?_of_le (UInt64.not_lt.1 hahead), h]
    rfl

/-- A request halts where settling does, and is answered as ever if that does not halt. -/
theorem reserve?_eq (w : Window) (permits : UInt64) (now : Micros) :
    w.reserve? permits now = (w.settle? now).map fun _ => w.reserve permits now := by
  by_cases h : w.length = 0
  · rw [reserve?, settle?_of_no_length h]
    rfl
  · simp only [reserve?, settle?_of_length h, reserve, bind, Except.bind, Except.map]
    split
    · rfl
    · next hroom =>
      rw [Word.minus?_of_le (UInt64.not_lt.1 hroom)]
      rfl

theorem reserve?_of_length {w : Window} (h : w.length ≠ 0) (permits : UInt64) (now : Micros) :
    w.reserve? permits now = .ok (w.reserve permits now) := by
  rw [reserve?_eq, settle?_of_length h]
  rfl

theorem reserve?_of_no_length {w : Window} (h : w.length = 0) (permits : UInt64) (now : Micros) :
    w.reserve? permits now = .error (if now < w.start then .belowZero else .byZero) := by
  rw [reserve?_eq, settle?_of_no_length h]
  rfl

end Window

namespace Meter

variable {κ : Type} [CustomMeter κ]

/-- What the meter's own algorithm answers, a request for no permits included, or what it halts
at. -/
def attempt? (m : Meter κ) (permits : UInt64) (timeout now : Micros) :
    Except Halt (Option Micros × Meter κ) :=
  match m with
  | window w => (w.reserve? permits now).map fun (wait, w) => (wait, window w)
  | m => .ok (m.attempt permits timeout now)

/-- Take `permits` if they can be had within `timeout`.  No permits at all are granted without a
look at the state. -/
def reserve? (m : Meter κ) (permits : UInt64) (timeout : Duration) (now : Micros) :
    Except Halt (Option Micros × Meter κ) :=
  if permits = 0 then .ok (some 0, m) else m.attempt? permits timeout.micros now

/-- A meter that is no window without a length answers as ever. -/
theorem reserve?_of_length {m : Meter κ} (h : ∀ w, m = window w → w.length ≠ 0) (permits : UInt64)
    (timeout : Duration) (now : Micros) :
    m.reserve? permits timeout now = .ok (m.reserve permits timeout now) := by
  unfold reserve? reserve
  split
  · rfl
  · cases m with
    | window w =>
      rw [attempt?, Window.reserve?_of_length (h w rfl)]
      rfl
    | bucket b => rfl
    | custom c => rfl

/-- A window without a length halts at every request for permits. -/
theorem reserve?_of_no_length {w : Window} (h : w.length = 0) {permits : UInt64}
    (hsome : permits ≠ 0) (timeout : Duration) (now : Micros) :
    (window w : Meter κ).reserve? permits timeout now =
      .error (if now < w.start then .belowZero else .byZero) := by
  rw [reserve?, if_neg hsome, attempt?, Window.reserve?_of_no_length h]
  rfl

end Meter

namespace MeterGroup

variable {κ : Type} [CustomMeter κ]

/-- Put a request to every member and combine the answers, unless a member halts. -/
def reserve? (g : MeterGroup κ) (permits : UInt64) (timeout : Duration) (now : Micros) :
    Except Halt (Option Micros × MeterGroup κ) := do
  let outcomes ← g.members.mapM fun m => m.reserve? permits timeout now
  pure (combine g.operator (outcomes.map Prod.fst), { g with members := outcomes.map Prod.snd })

end MeterGroup

end Admission
