import Admission.Meter.Basic
import Admission.Rate

/-!
# Groups of meters

One meter per rate of a quota, and the operator that combines their answers.

* **every member is asked** — `MeterGroup.reserve` puts each request to all members, whatever the
  others answer, and nothing is given back: when the group rejects, the members that granted keep
  what they gave;
* **the longest wait counts** — a granted request waits for the slowest member that granted it.
-/

namespace Admission

/-- One meter per rate, combined by an operator. -/
structure MeterGroup (κ : Type) where
  /-- How the answers combine. -/
  operator : Operator
  /-- The meters, in the order of the rates. -/
  members : List (Meter κ)
  deriving Repr

namespace MeterGroup

variable {κ : Type} [CustomMeter κ]

/-- A group that never limits. -/
def unlimited : MeterGroup κ := ⟨.none, []⟩

/-- Whether so many rejections among so many members exceed the quota. -/
def isExceeded (operator : Operator) (members rejections : Nat) : Bool :=
  match operator with
  | .and => 0 < rejections
  | .or => 0 < members && rejections == members
  | .none => false

/-- The longest of the waits; zero when there is none. -/
def longestWait (waits : List Micros) : Micros := waits.foldl max 0

/-- The answer to a request, given the answers of the members. -/
def combine (operator : Operator) (answers : List (Option Micros)) : Option Micros :=
  if isExceeded operator answers.length (answers.countP Option.isNone) then none
  else some (longestWait (answers.filterMap id))

/-- Put a request to every member and combine the answers. -/
def reserve (g : MeterGroup κ) (permits : UInt64) (timeout : Duration) (now : Micros) :
    Option Micros × MeterGroup κ :=
  let outcomes := g.members.map fun m => m.reserve permits timeout now
  (combine g.operator (outcomes.map Prod.fst), { g with members := outcomes.map Prod.snd })

/-- Whether a reservation could start now. -/
def isAvailable (g : MeterGroup κ) (now : Micros) : Bool :=
  match g.operator with
  | .and => g.members.all fun m => m.isAvailable now
  | .or => g.members.isEmpty || g.members.any fun m => m.isAvailable now
  | .none => true

@[simp] theorem operator_reserve (g : MeterGroup κ) (permits : UInt64) (timeout : Duration)
    (now : Micros) : (g.reserve permits timeout now).2.operator = g.operator := rfl

theorem members_reserve (g : MeterGroup κ) (permits : UInt64) (timeout : Duration)
    (now : Micros) :
    (g.reserve permits timeout now).2.members =
      g.members.map fun m => (m.reserve permits timeout now).2 :=
  List.map_map

/-- A request for no permits changes no member. -/
theorem snd_reserve_zero (g : MeterGroup κ) (timeout : Duration) (now : Micros) :
    (g.reserve 0 timeout now).2 = g := by
  have h : (g.reserve 0 timeout now).2.members = g.members := by
    rw [members_reserve]
    exact List.map_id _
  calc (g.reserve 0 timeout now).2
      = ⟨g.operator, (g.reserve 0 timeout now).2.members⟩ := rfl
    _ = g := by rw [h]

end MeterGroup

end Admission
