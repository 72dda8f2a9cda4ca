import Admission.Duration

/-!
# Window meters

An all-or-nothing quota: each window of time starts with all its permits, a request takes the
permits it asks for or none, and nobody waits.

* **windows stay aligned** — `Window.settle` starts the window that holds the present instant at a
  whole number of window lengths after the first one, however long nobody asked;
* **answers** — `Window.reserve` grants at once or not at all; `Window.left` and `Window.earliest`
  look without changing anything.

A window has passed when its length has gone by since its start.  A clock that has gone back finds
the present window still running.
-/

namespace Admission

/-- The live state of an all-or-nothing quota. -/
structure Window where
  /-- The permits of each window. -/
  permits : UInt64
  /-- The length of each window. -/
  length : Micros
  /-- The permits left in the present window. -/
  remaining : UInt64
  /-- The start of the present window. -/
  start : Micros
  deriving DecidableEq, Repr

namespace Window

/-- A first window of `permits`, starting now.  A period too short for the clock lasts one
microsecond. -/
def begin (permits : UInt64) (period : Duration) (now : Micros) : Window :=
  ⟨permits, max period.micros 1, permits, now⟩

/-- Whether the present window is over. -/
def hasPassed (w : Window) (now : Micros) : Bool := w.length ≤ Micros.since w.start now

/-- The window that holds the present instant. -/
def settle (w : Window) (now : Micros) : Window :=
  if w.hasPassed now then
    { w with start := now - (now - w.start) % w.length, remaining := w.permits }
  else w

/-- Take `permits` from the present window, or nothing when it does not hold them.  A granted
request never waits. -/
def reserve (w : Window) (permits : UInt64) (now : Micros) : Option Micros × Window :=
  let w := w.settle now
  if w.remaining < permits then (none, w)
  else (some 0, { w with remaining := w.remaining - permits })

/-- The permits left at the present instant. -/
def left (w : Window) (now : Micros) : UInt64 :=
  if w.hasPassed now then w.permits else w.remaining

/-- The next instant at which a permit is left, as far as the present window tells. -/
def earliest (w : Window) (now : Micros) : Micros :=
  if 0 < w.left now then now else w.start + w.length

/-- The permits of a second. -/
def pace (w : Window) : Float := w.permits.toFloat * 1000000.0 / w.length.toFloat

theorem remaining_settle (w : Window) (now : Micros) : (w.settle now).remaining = w.left now := by
  unfold settle left
  split <;> rfl

@[simp] theorem permits_settle (w : Window) (now : Micros) :
    (w.settle now).permits = w.permits := by
  unfold settle
  split <;> rfl

@[simp] theorem length_settle (w : Window) (now : Micros) :
    (w.settle now).length = w.length := by
  unfold settle
  split <;> rfl

theorem reserve_of_le (w : Window) {permits : UInt64} {now : Micros} (h : permits ≤ w.left now) :
    w.reserve permits now =
      (some 0, { w.settle now with remaining := w.left now - permits }) := by
  rw [← remaining_settle] at h ⊢
  exact if_neg (UInt64.not_lt.mpr h)

theorem reserve_of_lt (w : Window) {permits : UInt64} {now : Micros} (h : w.left now < permits) :
    w.reserve permits now = (none, w.settle now) := by
  rw [← remaining_settle] at h
  exact if_pos h

@[simp] theorem permits_reserve (w : Window) (permits : UInt64) (now : Micros) :
    (w.reserve permits now).2.permits = w.permits := by
  unfold reserve
  dsimp only
  split <;> exact permits_settle w now

@[simp] theorem length_reserve (w : Window) (permits : UInt64) (now : Micros) :
    (w.reserve permits now).2.length = w.length := by
  unfold reserve
  dsimp only
  split <;> exact length_settle w now

end Window

end Admission
