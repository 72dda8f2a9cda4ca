import Admission.Limiter.Limiter

/-!
# Laws of stores

What evaluations rely on when they keep live state in a store.

* **`SteadyStore`** — an update is no more than to get the state or take fresh state, change it, and
  put it back.  All stores here are steady, whatever their cache;
* **`LawfulStore`** — moreover, what is put under a key is found under that key, and nothing else
  changes.  This holds of a store in memory, of one behind a `LawfulCache`, and of a plain one;
* **clocks** — `Clock.toNat_now_waitFor` and `Clock.toNat_slept_waitFor`: to wait moves a clock by
  the wait, up to its largest reading, and `Clock.waitFor_eq_self` not at all when there is no wait;
* **limiters** — `Limiter.metersAt` are the meters that a request meets, and `Limiter.take_of_ok`
  says what becomes of them and of the clock.
-/

namespace Admission

variable {η κ σ : Type}

/-- A store whose updates get the state, change it, and put it back. -/
class SteadyStore (σ : Type) {η κ : Type} [MeterStore σ η κ] : Prop where
  /-- What an update does. -/
  update_eq {β : Type} (s : σ) (key : Account η) (fresh : Except Fault (MeterGroup κ))
    (change : MeterGroup κ → β × MeterGroup κ) :
    MeterStore.update s key fresh change =
      getChangePut MeterStore.get? MeterStore.put s key fresh change

/-- A store that finds what was put into it last. -/
class LawfulStore (σ : Type) {η κ : Type} [DecidableEq η] [MeterStore σ η κ] : Prop
    extends SteadyStore σ where
  /-- What is found after some state has been put under a key. -/
  get?_put (s : σ) (key other : Account η) (state : MeterGroup κ) :
    MeterStore.get? (MeterStore.put s key state) other =
      if key = other then some state else MeterStore.get? s other

/-- A cache that finds what was put into it last. -/
class LawfulCache (γ : Type) {η κ : Type} [DecidableEq η] [Cache γ η κ] : Prop where
  /-- What is found after some state has been put under a key. -/
  get?_put (c : γ) (key other : Account η) (state : MeterGroup κ) :
    Cache.get? (Cache.put c key state) other =
      if key = other then some state else Cache.get? c other

/-! ## The stores -/

instance [DecidableEq η] : LawfulCache (MapCache η κ) where
  get?_put c key other state := c.entries.get?_put key other state

instance {γ : Type} [Cache γ η κ] : SteadyStore (CachedStore γ) where
  update_eq s key fresh change := by
    simp only [MeterStore.update, MeterStore.get?, MeterStore.put, getChangePut]
    cases Cache.get? s.cache key with
    | some state => rfl
    | none => cases fresh <;> rfl

instance {γ : Type} [DecidableEq η] [Cache γ η κ] [LawfulCache γ] :
    LawfulStore (CachedStore γ) where
  get?_put s key other state := LawfulCache.get?_put s.cache key other state

instance [DecidableEq η] : LawfulStore (PlainStore η κ) where
  update_eq _ _ _ _ := rfl
  get?_put s key other state := s.entries.get?_put key other state

/-- Fresh state goes into memory first, but only what it is changed to stays. -/
instance [DecidableEq η] : LawfulStore (MemoryStore η κ) where
  update_eq s key fresh change := by
    simp only [MeterStore.update, MeterStore.get?, MeterStore.put, MemoryStore.slot, getChangePut]
    cases s.slots.get? key with
    | some state => rfl
    | none =>
      cases fresh with
      | error fault => rfl
      | ok state =>
        dsimp only
        rw [Shelf.put_put]
        rfl
  get?_put s key other state := s.slots.get?_put key other state

/-! ## Clocks -/

namespace Clock

/-- The clock after a reservation was answered: a granted one has been waited for. -/
def waitFor (c : Clock) : Option Micros → Clock
  | none => c
  | some wait => c.sleep (.ofMicros wait)

theorem toNat_now_waitFor (c : Clock) (answer : Option Micros) :
    (c.waitFor answer).now.toNat =
      min (c.now.toNat + (answer.getD 0).toNat) (UInt64.size - 1) := by
  have hnow := c.now.toNat_lt_size
  cases answer with
  | none => change c.now.toNat = min (c.now.toNat + 0) _; omega
  | some wait =>
    change (Micros.later c.now (Duration.ofMicros wait).micros).toNat = _
    rw [Duration.micros_ofMicros, Micros.toNat_later]
    rfl

theorem toNat_slept_waitFor (c : Clock) (answer : Option Micros) :
    (c.waitFor answer).slept.toNat =
      min (c.slept.toNat + (answer.getD 0).toNat) (UInt64.size - 1) := by
  have hslept := c.slept.toNat_lt_size
  cases answer with
  | none => change c.slept.toNat = min (c.slept.toNat + 0) _; omega
  | some wait =>
    change (Micros.later c.slept (Duration.ofMicros wait).micros).toNat = _
    rw [Duration.micros_ofMicros, Micros.toNat_later]
    rfl

/-- Who does not wait does not move the clock. -/
theorem waitFor_eq_self (c : Clock) {answer : Option Micros}
    (h : (answer.getD 0).toNat = 0) : c.waitFor answer = c := by
  have hnow : (c.waitFor answer).now = c.now := by
    have hlt := c.now.toNat_lt_size
    rw [← UInt64.toNat_inj, c.toNat_now_waitFor, h]
    omega
  have hslept : (c.waitFor answer).slept = c.slept := by
    have hlt := c.slept.toNat_lt_size
    rw [← UInt64.toNat_inj, c.toNat_slept_waitFor, h]
    omega
  calc c.waitFor answer
      = ⟨(c.waitFor answer).now, (c.waitFor answer).slept⟩ := rfl
    _ = c := by rw [hnow, hslept]

end Clock

/-! ## Limiters -/

namespace Limiter

variable [CustomMeter κ] [MeterStore σ η κ]

/-- The meters that a request under a key meets: those in the store, or fresh ones. -/
def metersAt (l : Limiter κ) (s : σ) (key : η) (created : Micros) : Except Fault (MeterGroup κ) :=
  match MeterStore.get? s ⟨l.limit.resource, key⟩ with
  | some state => .ok state
  | none => l.catalog.createAll l.limit.quota created

omit [CustomMeter κ] in
/-- Stores that hold the same for an account show the same meters there. -/
theorem metersAt_congr {τ : Type} [MeterStore τ η κ] {l : Limiter κ} {s : σ} {t : τ} {key : η}
    (h : MeterStore.get? s ⟨l.limit.resource, key⟩ = MeterStore.get? t ⟨l.limit.resource, key⟩)
    (created : Micros) : l.metersAt s key created = l.metersAt t key created := by
  rw [metersAt, metersAt, h]

/-- The meters that are met by a clock that stands still meanwhile. -/
def meters (l : Limiter κ) (w : World σ) (key : η) : Except Fault (MeterGroup κ) :=
  l.metersAt w.store key w.clock.now

section

variable [SteadyStore σ] {l : Limiter κ} {w : World σ} {key : η} {created : Micros}

omit [CustomMeter κ] in
/-- An update under an account changes the meters that are met there, if there are any. -/
theorem update_eq {β : Type} (change : MeterGroup κ → β × MeterGroup κ) (s : σ) :
    MeterStore.update s ⟨l.limit.resource, key⟩ (l.catalog.createAll l.limit.quota created)
        change =
      (l.metersAt s key created).map fun g =>
        ((change g).1, MeterStore.put s ⟨l.limit.resource, key⟩ (change g).2) := by
  rw [SteadyStore.update_eq, getChangePut, metersAt]
  cases MeterStore.get? s ⟨l.limit.resource, key⟩ with
  | some state => rfl
  | none => cases l.catalog.createAll l.limit.quota created <;> rfl

theorem take_of_error {fault : Fault} (h : l.metersAt w.store key created = .error fault)
    (permits : UInt64) (timeout : Duration) :
    l.take w key permits timeout created = (.error fault, w) := by
  rw [take, update_eq, h]
  rfl

theorem take_of_ok {g : MeterGroup κ} (h : l.metersAt w.store key created = .ok g)
    (permits : UInt64) (timeout : Duration) :
    l.take w key permits timeout created =
      (.ok (g.reserve permits timeout w.clock.now).1,
        ⟨MeterStore.put w.store ⟨l.limit.resource, key⟩
            (g.reserve permits timeout w.clock.now).2,
          w.clock.waitFor (g.reserve permits timeout w.clock.now).1⟩) := by
  rw [take, update_eq, h, Except.map]
  cases (g.reserve permits timeout w.clock.now).1 <;> rfl

theorem reserve_of_error {fault : Fault} (h : l.meters w key = .error fault) (permits : UInt64)
    (timeout : Duration) : l.reserve w key permits timeout = (.error fault, w) :=
  take_of_error h permits timeout

theorem reserve_of_ok {g : MeterGroup κ} (h : l.meters w key = .ok g) (permits : UInt64)
    (timeout : Duration) :
    l.reserve w key permits timeout =
      (.ok (g.reserve permits timeout w.clock.now).1,
        ⟨MeterStore.put w.store ⟨l.limit.resource, key⟩
            (g.reserve permits timeout w.clock.now).2,
          w.clock.waitFor (g.reserve permits timeout w.clock.now).1⟩) :=
  take_of_ok h permits timeout

end

end Limiter

end Admission
