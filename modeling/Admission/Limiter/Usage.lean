import Admission.Rate

/-!
# Usage

What an evaluation reports: each attempt at a limited node as an event, and after it a second event
if the attempt was rejected.

* **`Limit`** — the resource and the quota that an event is about;
* **`Listener`** — who hears of events.  `Listener.heard` lists who has taken down which.
-/

namespace Admission

/-- A resource and the quota that it enforces. -/
structure Limit where
  /-- The resource. -/
  resource : String
  /-- What may be asked of it. -/
  quota : Quota
  deriving BEq, Repr

/-- What happened to an attempt. -/
inductive UsageKind where
  /-- It was made. -/
  | consumed
  /-- It was rejected. -/
  | rejected
  deriving DecidableEq, Repr

/-- What an evaluation reports. -/
structure UsageEvent (η : Type) where
  /-- What happened. -/
  kind : UsageKind
  /-- The key under which the caller is counted. -/
  key : η
  /-- The permits that were asked for. -/
  permits : UInt64
  /-- The limit that was tried. -/
  limit : Limit
  deriving BEq, Repr

/-- Who hears of events. -/
inductive Listener where
  /-- Ignores them. -/
  | silent
  /-- Writes them to a log that nobody reads back. -/
  | logging
  /-- Takes them down under a tag. -/
  | recorder (tag : Int)
  /-- Passes each one on to several listeners, in order. -/
  | several (listeners : List Listener)
  deriving Repr, Inhabited

namespace Listener

mutual

/-- The tags under which an event is taken down, in order. -/
def tags : Listener → List Int
  | silent => []
  | logging => []
  | recorder tag => [tag]
  | several listeners => tagsOf listeners

/-- The tags of each listener, in order. -/
def tagsOf : List Listener → List Int
  | [] => []
  | l :: ls => l.tags ++ tagsOf ls

end

/-- What is taken down of some events: each under every tag before the next. -/
def heard {η : Type} (l : Listener) (events : List (UsageEvent η)) : List (Int × UsageEvent η) :=
  events.flatMap fun event => l.tags.map (·, event)

/-- The number of listeners at the top level. -/
def size : Listener → Nat
  | several listeners => listeners.length
  | _ => 1

end Listener

end Admission
