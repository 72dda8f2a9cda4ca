import Admission.Meter.Group

/-!
# Groups, member by member

A group puts every request to all its members and takes nothing back.  So no member ever notices
the others: each is at any time the meter it would be if it alone had received all the requests.

* **runs** — `Meter.after` and `MeterGroup.after` are what some demands make of a meter and of a
  group; `MeterGroup.members_after` says that the members of the one are the other;
* **answers** — `MeterGroup.isSome_combine_iff` says when answers combine to a grant, and
  `MeterGroup.longest_combine` how long the wait then is;
* **the law** — `MeterGroup.members_stand_alone` puts both together for every demand of every run.
-/

namespace Admission

/-- A request that a meter or a group of meters is asked for at an instant. -/
structure Demand where
  /-- The permits that are asked for. -/
  permits : UInt64
  /-- How long they may be waited for. -/
  timeout : Duration
  /-- The instant of the request. -/
  now : Micros

namespace Meter

variable {κ : Type} [CustomMeter κ]

/-- What a meter answers to a demand. -/
def answer (m : Meter κ) (d : Demand) : Option Micros := (m.reserve d.permits d.timeout d.now).1

/-- The meter after a demand. -/
def next (m : Meter κ) (d : Demand) : Meter κ := (m.reserve d.permits d.timeout d.now).2

/-- The meter after some demands. -/
def after (m : Meter κ) (demands : List Demand) : Meter κ := demands.foldl next m

/-- What a demand leaves is what there was, or what the meter's own algorithm leaves. -/
theorem next_induct {P : Meter κ → Prop} {m : Meter κ} {d : Demand} (hsame : P m)
    (hasked : d.permits ≠ 0 → P (m.attempt d.permits d.timeout.micros d.now).2) : P (m.next d) := by
  by_cases hnone : d.permits = 0
  · rw [next, hnone, reserve_zero]
    exact hsame
  · rw [next, reserve_of_ne _ hnone]
    exact hasked hnone

/-- What a demand keeps, a run keeps. -/
theorem after_induct {P : Meter κ → Prop} (hnext : ∀ m d, P m → P (next m d)) {m : Meter κ}
    (h : P m) (demands : List Demand) : P (m.after demands) := by
  induction demands generalizing m with
  | nil => exact h
  | cons d demands ih => exact ih (hnext m d h)

end Meter

namespace MeterGroup

variable {κ : Type}

/-! ## Answers -/

/-- The longest of the waits that were granted; zero when nothing was. -/
structure IsLongest (answers : List (Option Micros)) (wait : Micros) : Prop where
  /-- Nobody waits longer. -/
  above : ∀ other, some other ∈ answers → other ≤ wait
  /-- Somebody waits as long, or else nothing was granted. -/
  attained : some wait ∈ answers ∨ (wait = 0 ∧ ∀ a ∈ answers, a = none)

theorem isExceeded_and_iff (answers : List (Option Micros)) :
    isExceeded .and answers.length (answers.countP Option.isNone) = true ↔
      ∃ a ∈ answers, a = none := by
  rw [isExceeded, decide_eq_true_eq, List.countP_pos_iff]
  simp only [Option.isNone_iff_eq_none]

theorem isExceeded_or_iff (answers : List (Option Micros)) :
    isExceeded .or answers.length (answers.countP Option.isNone) = true ↔
      answers ≠ [] ∧ ∀ a ∈ answers, a = none := by
  rw [isExceeded, Bool.and_eq_true, decide_eq_true_eq, beq_iff_eq, List.length_pos_iff,
    List.countP_eq_length]
  simp only [Option.isNone_iff_eq_none]

/-- Answers combine to a grant if there are none, if the operator does not limit, or if all of them
or one of them is a grant, as the operator wants it. -/
theorem isSome_combine_iff (operator : Operator) (answers : List (Option Micros)) :
    (combine operator answers).isSome = true ↔
      answers = [] ∨ operator = .none ∨ (operator = .and ∧ ∀ a ∈ answers, a.isSome = true) ∨
        (operator = .or ∧ ∃ a ∈ answers, a.isSome = true) := by
  have hsome : (combine operator answers).isSome = true ↔
      ¬ isExceeded operator answers.length (answers.countP Option.isNone) = true := by
    rw [combine]
    split
    · next h => simp [h]
    · next h => simp [h]
  rw [hsome]
  cases operator with
  | none => simp [isExceeded]
  | and =>
    rw [isExceeded_and_iff]
    constructor
    · intro hall
      refine .inr (.inr (.inl ⟨rfl, fun a ha => ?_⟩))
      exact Option.isSome_iff_ne_none.2 fun hnone => hall ⟨a, ha, hnone⟩
    · rintro (rfl | hno | ⟨-, hall⟩ | ⟨hno, -⟩) ⟨a, ha, rfl⟩
      · exact absurd ha List.not_mem_nil
      · cases hno
      · exact absurd (hall none ha) Bool.false_ne_true
      · cases hno
  | or =>
    rw [isExceeded_or_iff]
    constructor
    · intro hall
      by_cases hnil : answers = []
      · exact .inl hnil
      · by_cases hsome : ∃ a ∈ answers, a.isSome = true
        · exact .inr (.inr (.inr ⟨rfl, hsome⟩))
        · refine absurd ⟨hnil, fun a ha => ?_⟩ hall
          exact Option.not_isSome_iff_eq_none.1 fun h => hsome ⟨a, ha, h⟩
    · rintro (rfl | hno | ⟨hno, -⟩ | ⟨-, a, ha, hsome⟩) ⟨hnil, hnone⟩
      · exact hnil rfl
      · cases hno
      · cases hno
      · rw [hnone a ha] at hsome
        cases hsome

/-- Going through some waits ends with one that is not below any of them nor below the start, and
that is one of them or the start. -/
theorem foldl_max_spec (waits : List Micros) :
    ∀ start : Micros, start ≤ waits.foldl max start ∧
      (∀ wait ∈ waits, wait ≤ waits.foldl max start) ∧
      (waits.foldl max start = start ∨ waits.foldl max start ∈ waits) := by
  induction waits with
  | nil =>
    intro start
    exact ⟨UInt64.le_refl start, fun wait hwait => absurd hwait List.not_mem_nil, .inl rfl⟩
  | cons first waits ih =>
    intro start
    rw [List.foldl_cons]
    obtain ⟨hstart, hall, hone⟩ := ih (max start first)
    have hmax := Micros.toNat_max start first
    rw [UInt64.le_iff_toNat_le] at hstart
    refine ⟨?_, ?_, ?_⟩
    · rw [UInt64.le_iff_toNat_le]
      omega
    · intro wait hwait
      rcases List.mem_cons.1 hwait with rfl | hwait
      · rw [UInt64.le_iff_toNat_le]
        omega
      · exact hall wait hwait
    · rcases hone with hone | hone
      · -- nobody was above the larger of the start and the first
        rw [hone]
        change (if start ≤ first then first else start) = start ∨
          (if start ≤ first then first else start) ∈ first :: waits
        split
        · exact .inr List.mem_cons_self
        · exact .inl rfl
      · exact .inr (List.mem_cons_of_mem _ hone)

theorem isLongest_longestWait (answers : List (Option Micros)) :
    IsLongest answers (longestWait (answers.filterMap id)) := by
  obtain ⟨-, hall, hone⟩ := foldl_max_spec (answers.filterMap id) 0
  have hmem : ∀ wait : Micros, wait ∈ answers.filterMap id ↔ some wait ∈ answers := by
    intro wait
    simp
  refine ⟨fun other hother => hall other ((hmem other).2 hother), ?_⟩
  rcases hone with hzero | hone
  · by_cases hnone : ∀ a ∈ answers, a = none
    · exact .inr ⟨hzero, hnone⟩
    · -- somebody was granted a wait, and it is not above zero
      refine .inl ?_
      obtain ⟨a, ha⟩ := Classical.not_forall.1 hnone
      obtain ⟨ha, hsome⟩ := Classical.not_imp.1 ha
      obtain ⟨wait, rfl⟩ := Option.ne_none_iff_exists'.1 hsome
      have hle := hall wait ((hmem wait).2 ha)
      rw [hzero] at hle
      have hwait : wait = 0 := by
        rw [UInt64.le_iff_toNat_le] at hle
        exact UInt64.toNat_inj.1 (Nat.le_zero.1 hle)
      have hlongest : longestWait (answers.filterMap id) = wait := hzero.trans hwait.symm
      rw [hlongest]
      exact ha
  · exact .inl ((hmem _).1 hone)

/-- A grant waits for the longest of the waits. -/
theorem longest_combine {operator : Operator} {answers : List (Option Micros)} {wait : Micros}
    (h : combine operator answers = some wait) : IsLongest answers wait := by
  rw [combine] at h
  split at h
  · cases h
  · cases h
    exact isLongest_longestWait answers

/-! ## Runs -/

variable [CustomMeter κ]

/-- What a group answers to a demand. -/
def answer (g : MeterGroup κ) (d : Demand) : Option Micros :=
  (g.reserve d.permits d.timeout d.now).1

/-- The group after a demand. -/
def next (g : MeterGroup κ) (d : Demand) : MeterGroup κ :=
  (g.reserve d.permits d.timeout d.now).2

/-- The group after some demands. -/
def after (g : MeterGroup κ) (demands : List Demand) : MeterGroup κ := demands.foldl next g

/-- A group combines what its members answer. -/
theorem answer_eq (g : MeterGroup κ) (d : Demand) :
    g.answer d = combine g.operator (g.members.map fun m => m.answer d) := by
  change combine g.operator ((g.members.map _).map Prod.fst) = _
  rw [List.map_map]
  rfl

theorem after_append (g : MeterGroup κ) (xs ys : List Demand) :
    g.after (xs ++ ys) = (g.after xs).after ys := List.foldl_append

@[simp] theorem operator_after (g : MeterGroup κ) (demands : List Demand) :
    (g.after demands).operator = g.operator := by
  induction demands generalizing g with
  | nil => rfl
  | cons d demands ih => exact (ih (g.next d)).trans (g.operator_reserve ..)

/-- Each member is what it would be alone. -/
theorem members_after (g : MeterGroup κ) (demands : List Demand) :
    (g.after demands).members = g.members.map fun m => m.after demands := by
  induction demands generalizing g with
  | nil => exact (List.map_id g.members).symm
  | cons d demands ih =>
    calc ((g.next d).after demands).members
        = (g.next d).members.map (fun m => m.after demands) := ih (g.next d)
      _ = (g.members.map fun m => m.next d).map (fun m => m.after demands) := by
          rw [next, members_reserve]
          rfl
      _ = g.members.map (fun m => m.after (d :: demands)) := List.map_map

/-- **Every member of a group stands alone.**  Let any group, whatever its operator and the state of
its members, receive any demands `past` and then one more.  Each member is then what it would be if
it alone had received them all.  The demand is granted exactly if there are no members, if the
operator does not limit, or if the members that stand alone all grant it or one of them does, as the
operator wants it; and a grant waits for the longest of the waits that they granted.  So a group
whose members all have to agree grants nothing that one of them alone would reject. -/
theorem members_stand_alone (g : MeterGroup κ) (past : List Demand) (d : Demand) :
    let alone := fun m : Meter κ => (m.after past).answer d
    ((g.after past).next d = g.after (past ++ [d]) ∧
      (g.after (past ++ [d])).operator = g.operator ∧
      (g.after (past ++ [d])).members = g.members.map fun m => m.after (past ++ [d])) ∧
    (((g.after past).answer d).isSome = true ↔
      g.members = [] ∨ g.operator = .none ∨
        (g.operator = .and ∧ ∀ m ∈ g.members, (alone m).isSome = true) ∨
        (g.operator = .or ∧ ∃ m ∈ g.members, (alone m).isSome = true)) ∧
    (∀ wait, (g.after past).answer d = some wait → IsLongest (g.members.map alone) wait) ∧
    (g.operator = .and → ∀ m ∈ g.members, alone m = none → (g.after past).answer d = none) := by
  intro alone
  have hanswer : (g.after past).answer d = combine g.operator (g.members.map alone) := by
    rw [answer_eq, operator_after, members_after, List.map_map]
    rfl
  have hone : (∃ a ∈ g.members.map alone, a.isSome = true) ↔
      ∃ m ∈ g.members, (alone m).isSome = true := by
    constructor
    · rintro ⟨a, ha, hsome⟩
      obtain ⟨m, hm, rfl⟩ := List.mem_map.1 ha
      exact ⟨m, hm, hsome⟩
    · rintro ⟨m, hm, hsome⟩
      exact ⟨alone m, List.mem_map_of_mem hm, hsome⟩
  have hgranted := isSome_combine_iff g.operator (g.members.map alone)
  rw [List.map_eq_nil_iff, List.forall_mem_map, hone] at hgranted
  rw [hanswer]
  refine ⟨⟨(g.after_append past [d]).symm, operator_after .., members_after ..⟩, hgranted,
    fun wait => longest_combine, ?_⟩
  intro hand m hm hnone
  refine Option.not_isSome_iff_eq_none.1 fun hsome => ?_
  rcases hgranted.1 hsome with hnil | hno | ⟨-, hall⟩ | ⟨hno, -⟩
  · rw [hnil] at hm
    exact absurd hm List.not_mem_nil
  · rw [hand] at hno
    cases hno
  · have hm' := hall m hm
    rw [hnone] at hm'
    cases hm'
  · rw [hand] at hno
    cases hno

/-- The tighter of two windows rejects the second request, and the looser one has given its permit
away all the same. -/
example :
    let g : MeterGroup Empty :=
      ⟨.and, [.window (.begin 1 (.ofSeconds 1) 0), .window (.begin 3 (.ofSeconds 1) 0)]⟩
    (g.after [⟨1, .zero, 0⟩]).answer ⟨1, .zero, 0⟩ = none ∧
      (g.after [⟨1, .zero, 0⟩, ⟨1, .zero, 0⟩]).members.map (fun m => m.answer ⟨2, .zero, 0⟩) =
        [none, none] := by
  decide

end MeterGroup

end Admission
