import Admission.Limiter.Clock
import Admission.Limiter.Store
import Admission.Limiter.Usage
import Admission.Meter.Catalog

/-!
# Limiters

A limiter enforces the quota of one resource, separately for each caller.

* **lazily** — the first request under a key creates its meters, at that instant;
* **store first, wait later** — `Limiter.take` puts the new state into the store, and then waits on
  the clock for as long as the meters said;
* **no quota** — `NodeLimiter.idle` stands for a resource that nothing limits.
-/

namespace Admission

variable {η κ σ : Type} [CustomMeter κ] [MeterStore σ η κ]

/-- What a limiter reads and changes. -/
structure World (σ : Type) where
  /-- Where live state is kept. -/
  store : σ
  /-- The clock. -/
  clock : Clock

/-- Enforces the quota of one resource. -/
structure Limiter (κ : Type) where
  /-- The resource and its quota. -/
  limit : Limit
  /-- How meters are built. -/
  catalog : Catalog κ

namespace Limiter

/-- A limiter for one resource.  A quota whose meters cannot be built is refused. -/
def new (catalog : Catalog κ) (limit : Limit) : Except Fault (Limiter κ) := do
  let _ ← catalog.createAll limit.quota 0
  pure ⟨limit, catalog⟩

/-- Take permits for a caller within a timeout, and wait for them: how long that took, or nothing
when they cannot be had.  The clock is read twice and may move in between: meters that have to be
built are built at `created`, and the permits are taken at the time of the world. -/
def take (l : Limiter κ) (w : World σ) (key : η) (permits : UInt64) (timeout : Duration)
    (created : Micros) : Except Fault (Option Micros) × World σ :=
  let fresh := l.catalog.createAll l.limit.quota created
  match MeterStore.update w.store ⟨l.limit.resource, key⟩ fresh
      fun g => g.reserve permits timeout w.clock.now with
  | .error fault => (.error fault, w)
  | .ok (none, store) => (.ok none, { w with store })
  | .ok (some wait, store) => (.ok (some wait), ⟨store, w.clock.sleep (.ofMicros wait)⟩)

/-- Take permits by a clock that stands still meanwhile. -/
def reserve (l : Limiter κ) (w : World σ) (key : η) (permits : UInt64)
    (timeout : Duration) : Except Fault (Option Micros) × World σ :=
  l.take w key permits timeout w.clock.now

end Limiter

/-- What enforces the quota of a resource, if it has one. -/
inductive NodeLimiter (κ : Type) where
  /-- Nothing is limited. -/
  | idle
  /-- A quota is enforced. -/
  | limiting (l : Limiter κ)

namespace NodeLimiter

/-- The limit that is enforced. -/
def limit? : NodeLimiter κ → Option Limit
  | idle => none
  | limiting l => some l.limit

/-- Take permits for a caller within a timeout, and wait for them.  Where nothing is limited they
are granted at once. -/
def reserve (r : NodeLimiter κ) (w : World σ) (key : η) (permits : UInt64)
    (timeout : Duration) : Except Fault (Option Micros) × World σ :=
  match r with
  | idle => (.ok (some 0), w)
  | limiting l => l.reserve w key permits timeout

/-- The limiter with its parts. -/
def description : NodeLimiter κ → String
  | idle => "ResourceLimiter::NoOp"
  | limiting l =>
    Text.described "ResourceLimiter"
      [("resource", Text.quoted l.limit.resource), ("rates", l.limit.quota.description)]

end NodeLimiter

end Admission
