import Admission.Proofs.Visits

/-!
# Runs

Requests come one after the other, and between them time goes by.

* **happenings** — a `Happening` is what can happen to an evaluator, and `Evaluator.step` what it
  makes of the store and the clock;
* **calls** — `Evaluator.calls` lists what a run decided, each call with its visits;
* **what is kept** — `Evaluator.keeps_after`: what every visit and every advance of the clock keeps,
  a run of any length keeps.
-/

namespace Admission

/-- What can happen to an evaluator. -/
inductive Happening (ρ : Type) where
  /-- A request comes. -/
  | consume (request : ρ) (permits : UInt64) (timeout : Duration)
  /-- Time goes by. -/
  | advance (d : Duration)

/-- A request that has been decided. -/
structure Call (η : Type) where
  /-- The permits that were asked for at each node. -/
  permits : UInt64
  /-- Whether the request was granted. -/
  answer : Except Fault Bool
  /-- The visits that it came to. -/
  visits : List (Visit η)

namespace Call

variable {η : Type}

/-- Whether the request was granted. -/
def isGranted (c : Call η) : Bool :=
  match c.answer with
  | .ok granted => granted
  | .error _ => false

/-- The visits, each with the permits that were asked for. -/
def log (c : Call η) : List (UInt64 × Visit η) := c.visits.map (c.permits, ·)

end Call

namespace Evaluator

variable {V ρ η κ σ : Type} [CustomMeter κ] [MeterStore σ η κ]

/-- The world after a happening. -/
def step (e : Evaluator V ρ η κ) (w : World σ) : Happening ρ → World σ
  | .consume request permits timeout => (e.decide w request permits timeout).world
  | .advance d => { w with clock := w.clock.advance d }

/-- The world after some happenings. -/
def after (e : Evaluator V ρ η κ) (w : World σ) (happenings : List (Happening ρ)) : World σ :=
  happenings.foldl e.step w

/-- What some happenings decide. -/
def calls (e : Evaluator V ρ η κ) : World σ → List (Happening ρ) → List (Call η)
  | _, [] => []
  | w, .advance d :: happenings => e.calls (e.step w (.advance d)) happenings
  | w, .consume request permits timeout :: happenings =>
    ⟨permits, (e.decide w request permits timeout).answer, e.visits w request permits timeout⟩ ::
      e.calls (e.step w (.consume request permits timeout)) happenings

/-- A call is granted only if each of its visits is. -/
theorem isGranted_of_mem_calls (e : Evaluator V ρ η κ) :
    ∀ (happenings : List (Happening ρ)) (w : World σ), ∀ c ∈ e.calls w happenings,
      c.isGranted = true → ∀ v ∈ c.visits, v.isGranted = true := by
  intro happenings
  induction happenings with
  | nil => exact fun w c hc => absurd hc List.not_mem_nil
  | cons happening happenings ih =>
    intro w c hc hgranted
    cases happening with
    | advance d => exact ih _ c hc hgranted
    | consume request permits timeout =>
      rcases List.mem_cons.1 hc with rfl | hc
      · unfold Call.isGranted at hgranted
        cases hanswer : (e.decide w request permits timeout).answer with
        | error fault => rw [hanswer] at hgranted; cases hgranted
        | ok granted =>
          rw [hanswer] at hgranted
          exact (decide_ok_iff hanswer).1 hgranted
      · exact ih _ c hc hgranted

/-- **What every visit and every advance of the clock keeps, a run keeps.**  The property may speak
of the visits made so far, the latest last, each with the permits that were asked for. -/
theorem keeps_after (e : Evaluator V ρ η κ) (keeps : World σ → List (UInt64 × Visit η) → Prop)
    (hvisit : ∀ (request : ρ) permits p v after past, e.Visits request permits p v after →
      (e.tree.value? v.node).isSome = true → keeps p.world past →
        keeps after.world (past ++ [(permits, v)]))
    (hadvance : ∀ w d past, keeps w past → keeps { w with clock := w.clock.advance d } past) :
    ∀ (happenings : List (Happening ρ)) (w : World σ) past, keeps w past →
      keeps (e.after w happenings) (past ++ (e.calls w happenings).flatMap Call.log) := by
  intro happenings
  induction happenings with
  | nil =>
    intro w past h
    rwa [calls, List.flatMap_nil, List.append_nil]
  | cons happening happenings ih =>
    intro w past h
    cases happening with
    | advance d => exact ih _ past (hadvance w d past h)
    | consume request permits timeout =>
      obtain ⟨remaining, hvisited⟩ := e.visited_decide w request permits timeout
      have hmade := hvisited.induct
        (fun p made => keeps p.world (past ++ made.map fun v => (permits, v)))
        (fun p v next made hv hvalue hkept => by
          rw [List.map_append, ← List.append_assoc]
          exact hvisit request permits p v next _ hv hvalue hkept)
        [] (by rwa [List.map_nil, List.append_nil])
      have hrest := ih _ _ hmade
      rw [List.append_assoc] at hrest
      exact hrest

end Evaluator

end Admission
