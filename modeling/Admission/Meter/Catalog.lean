import Admission.Meter.Group

/-!
# Catalogs of algorithms

A catalog turns rates into meters.  It knows the algorithm of rates that name none, and the
algorithms that the embedding application registered by name.

* **one rate** — `Catalog.create` builds a full meter at a given instant;
* **a quota** — `Catalog.createAll` builds one meter per rate, in order, and stops at the first
  fault.
-/

namespace Admission

/-- How to build the meter of a registered algorithm at a given instant. -/
abbrev Constructor (κ : Type) := Rate → Micros → Except Fault κ

/-- The algorithms that rates may use. -/
structure Catalog (κ : Type) where
  /-- The algorithm of rates that name none. -/
  fallback : Algorithm
  /-- The registered algorithms, each name once. -/
  registry : List (String × Constructor κ)

namespace Catalog

variable {κ : Type}

/-- The catalog in which rates are bursty unless they say otherwise. -/
def standard : Catalog κ := ⟨.standard, []⟩

/-- A catalog with the given algorithm for rates that name none; senseless parameters are
refused. -/
def new (fallback : Algorithm) : Except Fault (Catalog κ) := do
  fallback.validate.mapError Fault.invalidRate
  pure ⟨fallback, []⟩

/-- Register an algorithm, in place of any other of that name. -/
def register (c : Catalog κ) (name : String) (build : Constructor κ) : Catalog κ :=
  { c with registry := c.registry.filter (·.1 != name) ++ [(name, build)] }

/-- Whether an algorithm is registered under a name. -/
def isRegistered (c : Catalog κ) (name : String) : Bool := (c.registry.lookup name).isSome

/-- A name finds the algorithm that was registered under it last. -/
theorem lookup_register (c : Catalog κ) (name : String) (build : Constructor κ) (other : String) :
    (c.register name build).registry.lookup other =
      if other = name then some build else c.registry.lookup other := by
  simp only [register]
  generalize c.registry = entries
  induction entries with
  | nil =>
    rw [List.filter_nil, List.nil_append, List.lookup_cons]
    by_cases h : other = name
    · simp [h]
    · rw [beq_false_of_ne h, if_neg h]
  | cons entry entries ih =>
    obtain ⟨key, built⟩ := entry
    rw [List.lookup_cons]
    by_cases hk : key = name
    · rw [List.filter_cons_of_neg (by simp [hk]), ih]
      by_cases h : other = name
      · rw [if_pos h, if_pos h]
      · have hkey : other ≠ key := hk ▸ h
        rw [if_neg h, if_neg h, beq_false_of_ne hkey]
    · rw [List.filter_cons_of_pos (by simp [hk]), List.cons_append, List.lookup_cons, ih]
      by_cases h : other = key
      · have hname : other ≠ name := h ▸ hk
        rw [beq_iff_eq.mpr h, if_neg hname, if_neg hname]
      · rw [beq_false_of_ne h]

/-- The meter of one rate, full at the given instant. -/
def create (c : Catalog κ) (rate : Rate) (now : Micros) : Except Fault (Meter κ) := do
  let algorithm := rate.algorithm.getD c.fallback
  algorithm.validate.mapError Fault.invalidRate
  match algorithm with
  | .allOrNothing => pure (.window (.begin rate.permits rate.period now))
  | .bursty burst => pure (.bucket (.flat rate.permitsPerSecond burst now))
  | .warmingUp period cold =>
    pure (.bucket (.warmingUp rate.permitsPerSecond period cold now))
  | .custom name =>
    match c.registry.lookup name with
    | none => throw (.unknownAlgorithm name)
    | some build => return .custom (← build rate now)

/-- The meters of a quota, in the order of its rates. -/
def createAll (c : Catalog κ) (quota : Quota) (now : Micros) : Except Fault (MeterGroup κ) := do
  let members ← quota.rates.mapM fun rate => c.create rate now
  pure ⟨quota.operator, members⟩

/-- The names under which algorithms are registered, in order. -/
def names (c : Catalog κ) : List String := (c.registry.map Prod.fst).mergeSort (· ≤ ·)

/-- The catalog with its parts. -/
def description (c : Catalog κ) : String :=
  Text.described "BandwidthFactory"
    [("default_algorithm", c.fallback.description),
      ("registered", Text.bracketed (c.names.map Text.quoted))]

end Catalog

end Admission
