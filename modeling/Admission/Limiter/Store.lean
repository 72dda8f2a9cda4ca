import Admission.Limiter.Shelf
import Admission.Meter.Saved

/-!
# Stores of live state

Live state is kept per resource and caller, in a store.  Stores hold values: what is taken out is a
copy, and only what is put back counts.

* **`MeterStore`** — the operations of a store; `MeterStore.update` changes the state under a key,
  and starts from fresh state when there is none;
* **`MemoryStore`** — fresh state goes into the store before the change is made in place;
* **`CachedStore`** — every update reads the cache and writes the result back; `MapCache` keeps the
  state itself, `DocumentCache` saved state under the text of the key;
* **`PlainStore`** — does no more than what every store can do: get, change, put.

When fresh state cannot be created, an update reports that and leaves the store as it is.
-/

namespace Admission

/-- The resource and the caller that live state belongs to. -/
structure Account (η : Type) where
  /-- The resource. -/
  resource : String
  /-- The caller. -/
  key : η
  deriving DecidableEq, Repr

/-- The key as one text, as caches outside the program use it. -/
def Account.text (k : Account String) : String := k.resource ++ ":" ++ k.key

/-- The operations of a store. -/
class MeterStore (σ : Type) (η κ : outParam Type) where
  /-- A copy of the state under a key. -/
  get? : σ → Account η → Option (MeterGroup κ)
  /-- Put state under a key. -/
  put : σ → Account η → MeterGroup κ → σ
  /-- Change the state under a key, or fresh state when there is none. -/
  update {β : Type} : σ → Account η → (fresh : Except Fault (MeterGroup κ)) →
    (change : MeterGroup κ → β × MeterGroup κ) → Except Fault (β × σ)

variable {η κ : Type} [DecidableEq η]

/-- Get the state or take fresh state, change it, and put it back. -/
def getChangePut {σ η β : Type} (get? : σ → Account η → Option (MeterGroup κ))
    (put : σ → Account η → MeterGroup κ → σ) (s : σ) (key : Account η)
    (fresh : Except Fault (MeterGroup κ)) (change : MeterGroup κ → β × MeterGroup κ) :
    Except Fault (β × σ) := do
  let state ← match get? s key with
    | some state => pure state
    | none => fresh
  let (result, state) := change state
  pure (result, put s key state)

/-! ## In memory -/

/-- A store in the program's own memory. -/
structure MemoryStore (η κ : Type) where
  /-- The state under each key. -/
  slots : Shelf (Account η) (MeterGroup κ)

namespace MemoryStore

/-- A store that holds nothing. -/
def empty : MemoryStore η κ := ⟨.empty⟩

/-- The number of keys. -/
def size (s : MemoryStore η κ) : Nat := s.slots.size

/-- The state under a key, put there first when there is none. -/
def slot (s : MemoryStore η κ) (key : Account η) (fresh : Except Fault (MeterGroup κ)) :
    Except Fault (MeterGroup κ × MemoryStore η κ) :=
  match s.slots.get? key with
  | some state => .ok (state, s)
  | none =>
    match fresh with
    | .error fault => .error fault
    | .ok state => .ok (state, ⟨s.slots.put key state⟩)

instance : MeterStore (MemoryStore η κ) η κ where
  get? s key := s.slots.get? key
  put s key state := ⟨s.slots.put key state⟩
  update s key fresh change :=
    match s.slot key fresh with
    | .error fault => .error fault
    | .ok (state, s) =>
      let (result, state) := change state
      .ok (result, ⟨s.slots.put key state⟩)

end MemoryStore

/-! ## Behind a cache -/

/-- What a store needs of a cache outside the program. -/
class Cache (γ : Type) (η κ : outParam Type) where
  /-- A copy of the state under a key. -/
  get? : γ → Account η → Option (MeterGroup κ)
  /-- Put state under a key. -/
  put : γ → Account η → MeterGroup κ → γ

/-- A cache that keeps the state itself. -/
structure MapCache (η κ : Type) where
  /-- The state under each key. -/
  entries : Shelf (Account η) (MeterGroup κ)

instance : Cache (MapCache η κ) η κ where
  get? c key := c.entries.get? key
  put c key state := ⟨c.entries.put key state⟩

/-- A cache that keeps saved state under the text of the key.  What does not read back counts as
absent, and what cannot be saved is not kept. -/
structure DocumentCache (κ : Type) where
  /-- The saved state under each text. -/
  entries : Shelf String Document

instance : Cache (DocumentCache κ) String κ where
  get? c key := (c.entries.get? key.text).bind MeterGroup.restore?
  put c key state :=
    match state.save? with
    | some saved => ⟨c.entries.put key.text saved⟩
    | none => c

/-- A store that keeps its state in a cache. -/
structure CachedStore (γ : Type) where
  /-- The cache. -/
  cache : γ

instance {γ η : Type} [Cache γ η κ] : MeterStore (CachedStore γ) η κ where
  get? s key := Cache.get? s.cache key
  put s key state := ⟨Cache.put s.cache key state⟩
  update s key fresh change :=
    match Cache.get? s.cache key with
    | some state =>
      let (result, state) := change state
      .ok (result, ⟨Cache.put s.cache key state⟩)
    | none =>
      match fresh with
      | .error fault => .error fault
      | .ok state =>
        let (result, state) := change state
        .ok (result, ⟨Cache.put s.cache key state⟩)

/-! ## Without anything of its own -/

/-- A store that does no more than what every store can do. -/
structure PlainStore (η κ : Type) where
  /-- The state under each key. -/
  entries : Shelf (Account η) (MeterGroup κ)

instance : MeterStore (PlainStore η κ) η κ where
  get? s key := s.entries.get? key
  put s key state := ⟨s.entries.put key state⟩
  update :=
    getChangePut (fun s key => s.entries.get? key) (fun s key state => ⟨s.entries.put key state⟩)

end Admission
