import Admission.Limiter.Evaluator
import Admission.Meter.Stock
import Admission.Proofs.Building
import Admission.Proofs.StoreLaws

/-!
# Resources with counters of their own

Limits from a document count separately for each resource that they name.  The resources are told
apart by their dotted paths, and a name may hold dots itself, so two nodes may have one resource
after all.

* **when they meet** — `Tree.Labelled.resource_eq_iff`: two nodes have the same resource if and only
  if the components of their names, in order, are the same.  `Limits.dotted_names_meet` shows two that do;
* **when they do not** — `Tree.Labelled.resource_ne`: siblings never have the same resource, and no
  two nodes do whose names are without dots;
* **elsewhere** — `Limiter.get?_reserve_of_ne`: to reserve under one account leaves all others as
  they are.  So nodes with different resources keep their counters to themselves
  (`Limits.counters_kept_apart`).
-/

namespace Admission

/-! ## Elsewhere -/

/-- A reservation leaves the state under every other account as it is. -/
theorem Limiter.get?_reserve_of_ne {η κ σ : Type} [CustomMeter κ] [MeterStore σ η κ]
    [DecidableEq η] [LawfulStore σ] (l : Limiter κ) (w : World σ) {key : η}
    {other : Account η} (hne : other ≠ ⟨l.limit.resource, key⟩) (permits : UInt64)
    (timeout : Duration) :
    MeterStore.get? (κ := κ) (l.reserve w key permits timeout).2.store other =
      MeterStore.get? w.store other := by
  cases hmeters : l.meters w key with
  | error fault => rw [reserve_of_error hmeters]
  | ok g => rw [reserve_of_ok hmeters, LawfulStore.get?_put, if_neg hne.symm]

theorem resource_of_limiterAt {κ : Type} {catalog : Catalog κ} {t : Tree NodeLimit} {i : Nat}
    {a : NodeLimit} {limiter : Limiter κ} (hvalue : t.value? i = some a)
    (h : limiterAt catalog t i = .ok (.limiting limiter)) :
    limiter.limit.resource = a.resource := by
  have hlimit : limitAt t i = if a.quota.hasLimits then some ⟨a.resource, a.quota⟩ else none := by
    rw [limitAt, hvalue]
    rfl
  rw [limiterAt, hlimit] at h
  split at h
  · cases h
  · next limit hsome =>
    split at hsome
    · cases hsome
      unfold Limiter.new at h
      cases hcreate : catalog.createAll a.quota 0 with
      | error fault => rw [hcreate] at h; cases h
      | ok g =>
        rw [hcreate] at h
        cases h
        rfl
    · cases hsome

/-! ## Names -/

namespace Tree.Labelled

variable {t : Tree NodeLimit} {i j : Nat} {a b : NodeLimit}

/-- Two nodes have the same resource if and only if their names come apart into the same
components. -/
theorem resource_eq_iff (h : t.Labelled) (hi : t.value? i = some a) (hj : t.value? j = some b) :
    a.resource = b.resource ↔
      (t.names i).flatMap components = (t.names j).flatMap components := by
  obtain ⟨hrooti, ha⟩ := h.label i a hi
  obtain ⟨hrootj, hb⟩ := h.label j b hj
  rw [ha, hb, ← components_inj, components_path hrooti, components_path hrootj]

/-- Siblings have resources of their own, and so have nodes whose names are without dots. -/
theorem resource_ne (h : t.Labelled) (hi : t.value? i = some a) (hj : t.value? j = some b)
    (hne : i ≠ j)
    (hapart : t.parent? i = t.parent? j ∨ ∀ name ∈ t.names i ++ t.names j, '.' ∉ name.toList) :
    a.resource ≠ b.resource := by
  have hwf := h.wellFormed
  obtain ⟨p, hp⟩ := exists_parent (h.label i a hi).1
  obtain ⟨q, hq⟩ := exists_parent (h.label j b hj).1
  have hilt := (hwf.parent_lt hp).2
  have hjlt := (hwf.parent_lt hq).2
  rw [Ne, h.resource_eq_iff hi hj]
  intro hsame
  rcases hapart with hsiblings | hplain
  · -- what their parent contributes is the same, so their own names would be
    rw [hp, hq] at hsiblings
    cases hsiblings
    rw [names_of_parent hwf hp, names_of_parent hwf hq, List.flatMap_append, List.flatMap_append,
      List.append_cancel_left_eq, List.flatMap_singleton, List.flatMap_singleton,
      components_inj] at hsame
    exact hne (hwf.names p i j hp hq hsame)
  · rw [flatMap_components_of_plain fun name hname => hplain name (List.mem_append_left _ hname),
      flatMap_components_of_plain fun name hname => hplain name (List.mem_append_right _ hname)]
      at hsame
    have hnames := List.map_injective_iff.2 (fun _ _ => String.toList_injective) hsame
    exact hne (names_inj hwf hilt hjlt hnames)

end Tree.Labelled

namespace Limits

/-! ## Counters -/

/-- **Resources keep their counters to themselves, as far as dots permit.**  In a tree that was
built from a limits document, let two different nodes carry limits, and let them be siblings or let
no name on the way down to either of them have a dot in it.  Then they have different resources,
and so different accounts whatever the keys.  In any store that they share, what is reserved at one
of them leaves all that is held for the other one as it is, whether it is granted, is rejected or
ends with a fault. -/
theorem counters_kept_apart {η κ σ : Type} [CustomMeter κ] [MeterStore σ η κ] [DecidableEq η]
    [LawfulStore σ] (l : Limits) (id : Nat) (t : Tree NodeLimit) (hbuild : l.buildTree id = .ok t)
    (i j : Nat) (hne : i ≠ j) (a b : NodeLimit) (hi : t.value? i = some a)
    (hj : t.value? j = some b)
    (hapart : t.parent? i = t.parent? j ∨
      ∀ name ∈ t.names i ++ t.names j, '.' ∉ name.toList) :
    a.resource ≠ b.resource ∧
      (∀ key key' : η, (⟨a.resource, key⟩ : Account η) ≠ ⟨b.resource, key'⟩) ∧
      ∀ (catalog : Catalog κ) (limiter : Limiter κ),
        limiterAt catalog t i = .ok (.limiting limiter) →
          ∀ (w : World σ) (key : η) (permits : UInt64) (timeout : Duration) (key' : η),
            MeterStore.get? (κ := κ) (limiter.reserve w key permits timeout).2.store
                ⟨b.resource, key'⟩ =
              MeterStore.get? w.store ⟨b.resource, key'⟩ := by
  have hresource := (labelled_buildTree hbuild).resource_ne hi hj hne hapart
  have haccount : ∀ key key' : η, (⟨a.resource, key⟩ : Account η) ≠ ⟨b.resource, key'⟩ :=
    fun _ _ h => hresource (congrArg Account.resource h)
  refine ⟨hresource, haccount, ?_⟩
  intro catalog limiter hlimiter w key permits timeout key'
  refine limiter.get?_reserve_of_ne w ?_ permits timeout
  rw [resource_of_limiterAt hi hlimiter]
  exact (haccount key key').symm

/-- Once a second. -/
def once : RateEntry := ⟨1, .second, 1, some .allOrNothing⟩

/-- A resource `a` that is limited, and a resource `b` below it that is limited as well. -/
def nested : Limits := ⟨"root", [⟨"a", .and, [once], none, [⟨"b", .and, [once], none, []⟩]⟩]⟩

/-- The limit that one of these resources has. -/
def onceAt (resource : String) : NodeLimit :=
  ⟨resource, ⟨.and, [⟨1, .ofSeconds 1, some .allOrNothing⟩]⟩, none⟩

/-- What is reserved at the upper one leaves no trace at the lower one. -/
theorem counters_kept_apart_nested :
    let t := ((Tree.new 0 "root" none).append 0 "a" (some (onceAt "a"))).append 1 "b"
      (some (onceAt "a.b"))
    let limiter : Limiter StockMeter := ⟨⟨"a", (onceAt "a").quota⟩, .standard⟩
    let w : World (MemoryStore String StockMeter) := ⟨.empty, .unmoved⟩
    nested.buildTree 0 = .ok t ∧ t.value? 1 = some (onceAt "a") ∧
      t.value? 2 = some (onceAt "a.b") ∧ limiterAt .standard t 1 = .ok (.limiting limiter) ∧
      (∀ name ∈ t.names 1 ++ t.names 2, '.' ∉ name.toList) ∧
      (limiter.reserve w "k" 1 .zero).1 = .ok (some 0) ∧
      MeterStore.get? (κ := StockMeter) (limiter.reserve w "k" 1 .zero).2.store ⟨"a.b", "k"⟩ =
        MeterStore.get? w.store ⟨"a.b", "k"⟩ := by
  intro t limiter w
  have hbuild : nested.buildTree 0 = .ok t := by rfl
  have hplain : ∀ name ∈ t.names 1 ++ t.names 2, '.' ∉ name.toList := by decide +kernel
  have hlimiter : limiterAt .standard t 1 = .ok (.limiting limiter) := by rfl
  obtain ⟨-, -, hkept⟩ := counters_kept_apart (σ := MemoryStore String StockMeter) nested 0 t hbuild
    1 2 (by decide) (onceAt "a") (onceAt "a.b") rfl rfl (.inr hplain)
  exact ⟨hbuild, rfl, rfl, hlimiter, hplain, by decide +kernel,
    hkept .standard limiter hlimiter w "k" 1 .zero "k"⟩

/-- A resource `b` below `a`, and next to `a` one whose name is `a.b`. -/
def dotted : Limits :=
  ⟨"root", [⟨"a", .and, [], none, [⟨"b", .and, [once], none, []⟩]⟩,
    ⟨"a.b", .and, [once], none, []⟩]⟩

/-- The tree of these. -/
def dottedTree : Tree NodeLimit :=
  (((Tree.new 0 "root" none).append 0 "a" none).append 1 "b" (some (onceAt "a.b"))).append 0 "a.b"
    (some (onceAt "a.b"))

/-- Not all nodes that carry limits have resources of their own. -/
theorem dotted_names_meet :
    ¬ ∀ (l : Limits) (id : Nat) (t : Tree NodeLimit) (i j : Nat) (a b : NodeLimit),
      l.buildTree id = .ok t → i ≠ j → t.value? i = some a → t.value? j = some b →
        a.resource ≠ b.resource := by
  intro h
  exact h dotted 0 dottedTree 2 3 (onceAt "a.b") (onceAt "a.b") rfl (by decide) rfl rfl rfl

/-- The first request ever is turned away: the one permit of a second is taken at the one node, and
missed at the other. -/
example :
    let w : World (MemoryStore String StockMeter) := ⟨.empty, .unmoved⟩
    ((Evaluator.ofTree dottedTree .standard).decide w ⟨"a.b", "k"⟩ 1 .zero).answer = .ok false := by
  decide +kernel

end Limits

end Admission
