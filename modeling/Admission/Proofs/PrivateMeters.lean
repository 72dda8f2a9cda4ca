import Admission.Meter.Stock
import Admission.Proofs.Members
import Admission.Proofs.StoreLaws
import Mathlib.Logic.Function.Basic

/-!
# Meters of one's own

Many limiters may share one store, and each of them many callers.  Still each limiter and caller
have meters of their own: those that were built when they were first wanted, and that since then
have received what this caller asked of this limiter, and nothing else.

* **in a store** — an `Inquiry` is put to one of several limiters that share a store.  Its clock is
  read twice, when meters have to be built and when the permits are taken, and may have moved in
  between in either direction.  `Inquiry.serve` is the answer and the store afterwards, and
  `storeAfter` is the store after many;
* **on paper** — `Limiter.own` are the meters that some inquiries leave behind when a limiter keeps
  them for one caller only, and `Limiter.ownAnswer` is the answer to the next inquiry;
* **both at once** — `Ledger` says that the store holds for every limiter and caller what they would
  have on paper; `Ledger.serve` and `Ledger.run` keep that up;
* **the law** — `private_meters`: this is so in memory, behind a cache and in a store that can only
  get and put, so the three cannot be told apart.  Where meters cannot be built, the fault is
  reported, and nothing else happens.
-/

namespace Admission

variable {ι η κ σ : Type} [CustomMeter κ]

/-- Permits that a caller asks one of several limiters for. -/
structure Inquiry (ι η : Type) where
  /-- The limiter. -/
  limiter : ι
  /-- The caller. -/
  key : η
  /-- The permits that are asked for. -/
  permits : UInt64
  /-- How long they may be waited for. -/
  timeout : Duration
  /-- What the clock shows when meters have to be built. -/
  created : Micros
  /-- The clock when the permits are taken. -/
  clock : Clock

/-- What is asked of the meters, and when. -/
def Inquiry.demand (q : Inquiry ι η) : Demand := ⟨q.permits, q.timeout, q.clock.now⟩

/-! ## On paper -/

namespace Limiter

/-- The meters that a limiter has for a caller after some inquiries: those that were built at the
first inquiry at which they could be, after that inquiry and all later ones. -/
def own (l : Limiter κ) : List (Inquiry ι η) → Option (MeterGroup κ)
  | [] => none
  | q :: inquiries =>
    match l.catalog.createAll l.limit.quota q.created with
    | .error _ => l.own inquiries
    | .ok g => some (g.after ((q :: inquiries).map Inquiry.demand))

/-- The meters that one more inquiry meets. -/
def ownMeters (l : Limiter κ) (past : List (Inquiry ι η)) (q : Inquiry ι η) :
    Except Fault (MeterGroup κ) :=
  match l.own past with
  | some g => .ok g
  | none => l.catalog.createAll l.limit.quota q.created

/-- The answer to one more inquiry. -/
def ownAnswer (l : Limiter κ) (past : List (Inquiry ι η)) (q : Inquiry ι η) :
    Except Fault (Option Micros) :=
  (l.ownMeters past q).map (·.answer q.demand)

/-- The meters after one more inquiry are those that it met, after it. -/
theorem own_append (l : Limiter κ) (past : List (Inquiry ι η)) (q : Inquiry ι η) :
    l.own (past ++ [q]) = ((l.ownMeters past q).map (·.next q.demand)).toOption := by
  induction past with
  | nil =>
    rw [List.nil_append, own, ownMeters]
    change _ = ((l.catalog.createAll l.limit.quota q.created).map (·.next q.demand)).toOption
    cases l.catalog.createAll l.limit.quota q.created <;> rfl
  | cons first past ih =>
    rw [ownMeters] at ih ⊢
    rw [List.cons_append, own, own]
    cases l.catalog.createAll l.limit.quota first.created with
    | error fault => exact ih
    | ok g =>
      rw [← List.cons_append, List.map_append]
      exact congrArg some (g.after_append ((first :: past).map Inquiry.demand) [q.demand])

/-- Only a caller without meters can meet a fault. -/
theorem own_eq_none {l : Limiter κ} {past : List (Inquiry ι η)} {q : Inquiry ι η} {fault : Fault}
    (h : l.ownMeters past q = .error fault) : l.own past = none := by
  rw [ownMeters] at h
  cases hown : l.own past with
  | some g =>
    rw [hown] at h
    cases h
  | none => rfl

end Limiter

/-! ## In a store -/

namespace Inquiry

/-- Put an inquiry to its limiter: the answer, and the store afterwards. -/
def serve [MeterStore σ η κ] (q : Inquiry ι η) (limiters : ι → Limiter κ) (s : σ) :
    Except Fault (Option Micros) × σ :=
  let (answer, w) := (limiters q.limiter).take ⟨s, q.clock⟩ q.key q.permits q.timeout q.created
  (answer, w.store)

variable [MeterStore σ η κ] [SteadyStore σ] {q : Inquiry ι η} {limiters : ι → Limiter κ} {s : σ}

theorem serve_of_error {fault : Fault}
    (h : (limiters q.limiter).metersAt s q.key q.created = .error fault) :
    q.serve limiters s = (.error fault, s) := by
  rw [serve, Limiter.take_of_error h]

theorem serve_of_ok {g : MeterGroup κ}
    (h : (limiters q.limiter).metersAt s q.key q.created = .ok g) :
    q.serve limiters s =
      (.ok (g.answer q.demand),
        MeterStore.put s ⟨(limiters q.limiter).limit.resource, q.key⟩ (g.next q.demand)) := by
  rw [serve, Limiter.take_of_ok h]
  rfl

end Inquiry

/-- The store after some inquiries. -/
def storeAfter [MeterStore σ η κ] (limiters : ι → Limiter κ) (s : σ)
    (inquiries : List (Inquiry ι η)) : σ :=
  inquiries.foldl (fun s q => (q.serve limiters s).2) s

/-- What a caller asked of a limiter. -/
def inquiriesOf [DecidableEq ι] [DecidableEq η] (i : ι) (key : η)
    (inquiries : List (Inquiry ι η)) : List (Inquiry ι η) :=
  inquiries.filter fun q => q.limiter = i ∧ q.key = key

section

variable [DecidableEq ι] [DecidableEq η] {limiters : ι → Limiter κ} {s : σ}
  {past : List (Inquiry ι η)}

theorem inquiriesOf_append (i : ι) (key : η) (xs ys : List (Inquiry ι η)) :
    inquiriesOf i key (xs ++ ys) = inquiriesOf i key xs ++ inquiriesOf i key ys :=
  List.filter_append ..

theorem inquiriesOf_self (q : Inquiry ι η) : inquiriesOf q.limiter q.key [q] = [q] := by
  simp [inquiriesOf]

theorem inquiriesOf_of_ne {q : Inquiry ι η} {i : ι} {key : η}
    (h : ¬ (q.limiter = i ∧ q.key = key)) : inquiriesOf i key [q] = [] :=
  List.filter_cons_of_neg (by simpa using h)

variable [MeterStore σ η κ]

/-- A store holds for each limiter and caller what they would have on paper. -/
def Ledger (limiters : ι → Limiter κ) (s : σ) (past : List (Inquiry ι η)) : Prop :=
  ∀ i key, MeterStore.get? s ⟨(limiters i).limit.resource, key⟩ =
    (limiters i).own (inquiriesOf i key past)

/-- An inquiry meets the meters that it would meet on paper. -/
theorem Ledger.meters_eq (h : Ledger limiters s past) (q : Inquiry ι η) :
    (limiters q.limiter).metersAt s q.key q.created =
      (limiters q.limiter).ownMeters (inquiriesOf q.limiter q.key past) q := by
  rw [Limiter.metersAt, h q.limiter q.key]
  rfl

variable [LawfulStore σ]

/-- The answer is the one on paper. -/
theorem Ledger.answer (h : Ledger limiters s past) (q : Inquiry ι η) :
    (q.serve limiters s).1 =
      (limiters q.limiter).ownAnswer (inquiriesOf q.limiter q.key past) q := by
  have hmeters := h.meters_eq q
  rw [Limiter.ownAnswer]
  cases hown : (limiters q.limiter).ownMeters (inquiriesOf q.limiter q.key past) q with
  | error fault =>
    rw [hown] at hmeters
    rw [Inquiry.serve_of_error hmeters]
    rfl
  | ok g =>
    rw [hown] at hmeters
    rw [Inquiry.serve_of_ok hmeters]
    rfl

/-- One more inquiry is entered for its limiter and its caller, and for nobody else. -/
theorem Ledger.serve (hdistinct : Function.Injective fun i => (limiters i).limit.resource)
    (h : Ledger limiters s past) (q : Inquiry ι η) :
    Ledger limiters (q.serve limiters s).2 (past ++ [q]) := by
  intro i key
  have hmeters := h.meters_eq q
  rw [inquiriesOf_append]
  by_cases hsame : q.limiter = i ∧ q.key = key
  · obtain ⟨rfl, rfl⟩ := hsame
    rw [inquiriesOf_self, Limiter.own_append]
    cases hown : (limiters q.limiter).ownMeters (inquiriesOf q.limiter q.key past) q with
    | error fault =>
      rw [hown] at hmeters
      rw [Inquiry.serve_of_error hmeters]
      exact (h q.limiter q.key).trans (Limiter.own_eq_none hown)
    | ok g =>
      rw [hown] at hmeters
      rw [Inquiry.serve_of_ok hmeters]
      exact (LawfulStore.get?_put ..).trans (if_pos rfl)
  · -- another resource or another caller, and so another account
    have hne : (⟨(limiters q.limiter).limit.resource, q.key⟩ : Account η) ≠
        ⟨(limiters i).limit.resource, key⟩ := by
      intro haccount
      obtain ⟨hresource, hkey⟩ := Account.mk.inj haccount
      exact hsame ⟨hdistinct hresource, hkey⟩
    rw [inquiriesOf_of_ne hsame, List.append_nil, ← h i key]
    cases hfound : (limiters q.limiter).metersAt s q.key q.created with
    | error fault => rw [Inquiry.serve_of_error hfound]
    | ok g =>
      rw [Inquiry.serve_of_ok hfound]
      exact (LawfulStore.get?_put ..).trans (if_neg hne)

/-- All inquiries of a run are entered. -/
theorem Ledger.run (hdistinct : Function.Injective fun i => (limiters i).limit.resource)
    (h : Ledger limiters s past) (inquiries : List (Inquiry ι η)) :
    Ledger limiters (storeAfter limiters s inquiries) (past ++ inquiries) := by
  induction inquiries generalizing s past with
  | nil =>
    rw [List.append_nil]
    exact h
  | cons q inquiries ih =>
    have hnext := ih (h.serve hdistinct q)
    rw [List.append_assoc] at hnext
    exact hnext

end

/-! ## The law -/

section

variable [DecidableEq η] [MeterStore σ η κ] {limiters : ι → Limiter κ} {s : σ}

/-- Whatever is asked, a store that starts as `s` gives each limiter and caller meters of their
own. -/
structure KeepsPrivate [DecidableEq ι] (limiters : ι → Limiter κ) (s : σ) : Prop where
  /-- Every answer is the one on paper. -/
  answer : ∀ (past : List (Inquiry ι η)) (q : Inquiry ι η),
    (q.serve limiters (storeAfter limiters s past)).1 =
      (limiters q.limiter).ownAnswer (inquiriesOf q.limiter q.key past) q
  /-- So are the meters that are found. -/
  found : ∀ past : List (Inquiry ι η), Ledger limiters (storeAfter limiters s past) past
  /-- Where meters cannot be built, that fault is the answer, and the store and the clock stay as
  they are.  Whatever was to be done with the meters is not done. -/
  refused : ∀ (past : List (Inquiry ι η)) (q : Inquiry ι η) (fault : Fault),
    (limiters q.limiter).own (inquiriesOf q.limiter q.key past) = none →
    (limiters q.limiter).catalog.createAll (limiters q.limiter).limit.quota q.created =
      .error fault →
    let left := storeAfter limiters s past
    (limiters q.limiter).take ⟨left, q.clock⟩ q.key q.permits q.timeout q.created =
        (.error fault, ⟨left, q.clock⟩) ∧
      ∀ {β : Type} (change : MeterGroup κ → β × MeterGroup κ),
        MeterStore.update left ⟨(limiters q.limiter).limit.resource, q.key⟩ (.error fault) change =
          .error fault

/-- A lawful store that starts empty keeps everything private. -/
theorem keepsPrivate_of_empty [DecidableEq ι] [LawfulStore σ]
    (hdistinct : Function.Injective fun i => (limiters i).limit.resource)
    (hempty : ∀ account : Account η, MeterStore.get? (κ := κ) s account = none) :
    KeepsPrivate (η := η) limiters s := by
  have hstart : Ledger limiters s ([] : List (Inquiry ι η)) := fun i key => hempty _
  have hledger := hstart.run hdistinct
  refine ⟨fun past q => (hledger past).answer q, hledger, ?_⟩
  intro past q fault hown hfault
  have hnone := (hledger past q.limiter q.key).trans hown
  have hmeters : (limiters q.limiter).metersAt (storeAfter limiters s past) q.key q.created =
      .error fault := by
    rw [Limiter.metersAt, hnone]
    exact hfault
  refine ⟨Limiter.take_of_error hmeters q.permits q.timeout, fun change => ?_⟩
  rw [SteadyStore.update_eq, getChangePut, hnone]
  rfl

variable {τ : Type} [MeterStore τ η κ] {t : τ}

/-- Whatever is asked, two stores that start as `s` and as `t` give the same answers, and the same
state under every account. -/
structure ServeAlike (limiters : ι → Limiter κ) (s : σ) (t : τ) : Prop where
  /-- The answers. -/
  answer : ∀ (past : List (Inquiry ι η)) (q : Inquiry ι η),
    (q.serve limiters (storeAfter limiters s past)).1 =
      (q.serve limiters (storeAfter limiters t past)).1
  /-- What is found. -/
  found : ∀ (past : List (Inquiry ι η)) (account : Account η),
    MeterStore.get? (κ := κ) (storeAfter limiters s past) account =
      MeterStore.get? (storeAfter limiters t past) account

/-- One inquiry gets the same answer from two stores that hold the same, and they still do. -/
theorem Inquiry.serve_alike [LawfulStore σ] [LawfulStore τ]
    (h : ∀ account : Account η, MeterStore.get? (κ := κ) s account = MeterStore.get? t account)
    (q : Inquiry ι η) :
    (q.serve limiters s).1 = (q.serve limiters t).1 ∧
      ∀ account : Account η, MeterStore.get? (κ := κ) (q.serve limiters s).2 account =
        MeterStore.get? (q.serve limiters t).2 account := by
  have hmeters := Limiter.metersAt_congr (l := limiters q.limiter) (h ⟨_, q.key⟩) q.created
  cases ht : (limiters q.limiter).metersAt t q.key q.created with
  | error fault =>
    rw [serve_of_error (hmeters.trans ht), serve_of_error ht]
    exact ⟨rfl, h⟩
  | ok g =>
    rw [serve_of_ok (hmeters.trans ht), serve_of_ok ht]
    refine ⟨rfl, fun account => ?_⟩
    dsimp only
    rw [LawfulStore.get?_put, LawfulStore.get?_put, h account]

/-- Two lawful stores that start empty serve alike. -/
theorem serveAlike_of_empty [LawfulStore σ] [LawfulStore τ]
    (hs : ∀ account : Account η, MeterStore.get? (κ := κ) s account = none)
    (ht : ∀ account : Account η, MeterStore.get? (κ := κ) t account = none) :
    ServeAlike (η := η) limiters s t := by
  have hfound : ∀ (past : List (Inquiry ι η)) (s : σ) (t : τ),
      (∀ account : Account η, MeterStore.get? (κ := κ) s account = MeterStore.get? t account) →
        ∀ account : Account η, MeterStore.get? (κ := κ) (storeAfter limiters s past) account =
          MeterStore.get? (storeAfter limiters t past) account := by
    intro past
    induction past with
    | nil => exact fun _ _ h => h
    | cons q past ih => exact fun _ _ h => ih _ _ (q.serve_alike h).2
  have hsame := fun past => hfound past s t fun account => (hs account).trans (ht account).symm
  exact ⟨fun past q => (q.serve_alike (hsame past)).1, hsame⟩

end

/-- **Every store gives each caller of each limiter meters of one's own.**  Let limiters with
resources of their own share an empty store, and let any callers put any inquiries to them, at any
readings of the clock, be it that it moves while an inquiry is served.  In memory, behind a cache
that finds what was put into it last, and in a store that can only get and put, each answer is that
of the meters that were built when this caller first asked this limiter and they could be, and that
since then have received only what this caller asked of this limiter.  So the three answer alike,
and hold the same under every account.  Where meters cannot be built, the fault is the answer, and
nothing is stored, done or changed. -/
theorem private_meters [DecidableEq ι] [DecidableEq η] {γ : Type} [Cache γ η κ] [LawfulCache γ]
    (limiters : ι → Limiter κ)
    (hdistinct : Function.Injective fun i => (limiters i).limit.resource) (cache : γ)
    (hempty : ∀ account : Account η, Cache.get? (κ := κ) cache account = none) :
    let memory : MemoryStore η κ := .empty
    let cached : CachedStore γ := ⟨cache⟩
    let plain : PlainStore η κ := ⟨.empty⟩
    (KeepsPrivate limiters memory ∧ KeepsPrivate limiters cached ∧ KeepsPrivate limiters plain) ∧
      ServeAlike limiters memory cached ∧ ServeAlike limiters memory plain := by
  intro memory cached plain
  have hmemory : ∀ account : Account η, MeterStore.get? (κ := κ) memory account = none :=
    fun account => Shelf.get?_empty account
  have hcached : ∀ account : Account η, MeterStore.get? (κ := κ) cached account = none := hempty
  have hplain : ∀ account : Account η, MeterStore.get? (κ := κ) plain account = none :=
    fun account => Shelf.get?_empty account
  exact ⟨⟨keepsPrivate_of_empty hdistinct hmemory, keepsPrivate_of_empty hdistinct hcached,
    keepsPrivate_of_empty hdistinct hplain⟩, serveAlike_of_empty hmemory hcached,
    serveAlike_of_empty hmemory hplain⟩

/-- Two desks: one serves one person a second, and the meters of the other cannot be built. -/
def desk (closed : Bool) : Limiter StockMeter :=
  ⟨⟨if closed then "closed" else "open", .of ⟨1, .ofSeconds 1,
    some (if closed then .custom "broken" else .allOrNothing)⟩⟩, StockMeter.registerAll .standard⟩

/-- Somebody asks at both desks, and then somebody else at the open one.  The clock goes on while
they are served. -/
def deskDay : List (Inquiry Bool Nat) :=
  [⟨false, 7, 1, .zero, 3, ⟨4, 0⟩⟩, ⟨true, 7, 1, .zero, 4, ⟨5, 0⟩⟩, ⟨false, 8, 1, .zero, 5, ⟨6, 0⟩⟩]

/-- Whoever was served has to come back later, from the other desk there is only the fault, a third
person is served, and so is the first one a second after the meters were built: in memory and behind
a cache. -/
theorem private_meters_desk :
    let asked : List (Inquiry Bool Nat) :=
      [⟨false, 8, 1, .zero, 6, ⟨6, 0⟩⟩, ⟨true, 8, 1, .zero, 6, ⟨7, 0⟩⟩,
        ⟨false, 9, 1, .zero, 6, ⟨7, 0⟩⟩, ⟨false, 7, 1, .zero, 1000003, ⟨1000003, 0⟩⟩]
    let answers : List (Except Fault (Option Micros)) :=
      [.ok none,
        .error (.invalidRate (.refused ("broken constructor for " ++
          (Rate.mk 1 (.ofSeconds 1) (some (.custom "broken"))).text ++ " at 6"))),
        .ok (some 0), .ok (some 0)]
    Function.Injective (fun closed => (desk closed).limit.resource) ∧
      (∀ account, Cache.get? (⟨.empty⟩ : MapCache Nat StockMeter) account = none) ∧
      asked.map (fun q =>
        (q.serve desk (storeAfter desk (MemoryStore.empty : MemoryStore Nat StockMeter)
          deskDay)).1) = answers ∧
      asked.map (fun q =>
        (q.serve desk (storeAfter desk (⟨⟨.empty⟩⟩ : CachedStore (MapCache Nat StockMeter))
          deskDay)).1) = answers := by
  intro asked answers
  have hdistinct : Function.Injective fun closed => (desk closed).limit.resource := by
    intro x y
    cases x <;> cases y <;> decide
  have hempty : ∀ account, Cache.get? (⟨.empty⟩ : MapCache Nat StockMeter) account = none :=
    fun _ => rfl
  obtain ⟨⟨hmemory, hcached, -⟩, -⟩ :=
    private_meters desk hdistinct (⟨.empty⟩ : MapCache Nat StockMeter) hempty
  have hown : asked.map (fun q =>
      (desk q.limiter).ownAnswer (inquiriesOf q.limiter q.key deskDay) q) = answers :=
    rfl
  exact ⟨hdistinct, hempty,
    (List.map_congr_left fun q _ => hmemory.answer deskDay q).trans hown,
    (List.map_congr_left fun q _ => hcached.answer deskDay q).trans hown⟩

end Admission
