import Admission.Proofs.StoredPermits

/-!
# Easier demands

A demand is easier than another one if it may wait longer, or if it asks for less.  Windows and
buckets never treat the easier one worse.

* **answers that compare** — `MeterGroup.isSome_combine_mono` and `MeterGroup.longest_le` lift what
  is known of members to their group;
* **longer timeouts** — `Bucket.reserve_of_le`: a grant stays the same grant, so only members that
  used to reject can make a difference to a group; `longer_timeouts_never_hurt`;
* **smaller requests** — `Bucket.accrual_mono`: less has to accrue for less, even if the permits are
  real numbers, provided that the bucket is within its bounds.  All buckets that stem from a catalog
  are; `smaller_requests_never_hurt`.

Custom meters are free to do otherwise.
-/

namespace Admission

open PermitArith PermitLaws

variable {κ : Type}

/-- A meter whose algorithm is not the application's. -/
def Meter.IsBuiltIn : Meter κ → Prop
  | .custom _ => False
  | _ => True

/-- Programs that register no algorithm have no other meters. -/
theorem Meter.isBuiltIn_of_empty (m : Meter Empty) : m.IsBuiltIn := by
  cases m with
  | window | bucket => trivial
  | custom c => exact c.elim

namespace MeterGroup

/-! ## Answers that compare -/

/-- A group whose members grant no less grants no less, whatever the operator. -/
theorem isSome_combine_mono {operator : Operator} {members : List (Meter κ)}
    {f f' : Meter κ → Option Micros}
    (h : ∀ m ∈ members, (f m).isSome = true → (f' m).isSome = true)
    (hgranted : (combine operator (members.map f)).isSome = true) :
    (combine operator (members.map f')).isSome = true := by
  rw [isSome_combine_iff] at hgranted ⊢
  rcases hgranted with hnil | hno | ⟨hand, hall⟩ | ⟨hor, a, ha, hsome⟩
  · exact .inl (List.map_eq_nil_iff.2 (List.map_eq_nil_iff.1 hnil))
  · exact .inr (.inl hno)
  · refine .inr (.inr (.inl ⟨hand, List.forall_mem_map.2 fun m hm => h m hm ?_⟩))
    exact hall _ (List.mem_map_of_mem hm)
  · obtain ⟨m, hm, rfl⟩ := List.mem_map.1 ha
    exact .inr (.inr (.inr ⟨hor, f' m, List.mem_map_of_mem hm, h m hm hsome⟩))

/-- The longest wait is not above another one if each wait has one that is not below it. -/
theorem longest_le {answers answers' : List (Option Micros)} {wait wait' : Micros}
    (h : IsLongest answers wait) (h' : IsLongest answers' wait')
    (hle : ∀ x, some x ∈ answers → ∃ y, some y ∈ answers' ∧ x ≤ y) : wait ≤ wait' := by
  rcases h.attained with hwait | ⟨rfl, -⟩
  · obtain ⟨y, hy, hle⟩ := hle wait hwait
    exact UInt64.le_trans hle (h'.above y hy)
  · exact UInt64.zero_le

/-- If all members have to agree, all of them have granted what the group grants. -/
theorem isSome_of_combine_and {answers : List (Option Micros)}
    (h : (combine .and answers).isSome = true) : ∀ a ∈ answers, a.isSome = true := by
  rcases (isSome_combine_iff _ _).1 h with rfl | hno | ⟨-, hall⟩ | ⟨hor, -⟩
  · exact fun a ha => absurd ha List.not_mem_nil
  · cases hno
  · exact hall
  · cases hor

end MeterGroup

/-! ## Longer timeouts -/

theorem Duration.micros_mono {t t' : Duration} (h : t.nanos ≤ t'.nanos) : t.micros ≤ t'.micros := by
  have hdiv : t.nanos / 1000 ≤ t'.nanos / 1000 := Nat.div_le_div_right h
  rw [UInt64.le_iff_toNat_le, toNat_micros, toNat_micros]
  omega

/-- What a bucket grants it grants just so within a longer timeout. -/
theorem Bucket.reserve_of_le {α : Type} [PermitArith α] {b : Bucket α} {permits : UInt64}
    {timeout timeout' now : Micros} (hle : timeout ≤ timeout')
    (h : (b.reserve permits timeout now).1.isSome = true) :
    b.reserve permits timeout' now = b.reserve permits timeout now := by
  rw [reserve_eq] at h
  split at h
  · next hgranted =>
    rw [reserve_eq, reserve_eq, if_pos hgranted,
      if_pos ⟨hgranted.1, UInt64.le_trans hgranted.2 hle⟩]
  · cases h

variable [CustomMeter κ]

theorem Meter.reserve_of_le {m : Meter κ} (hm : m.IsBuiltIn) {permits : UInt64} {now : Micros}
    {timeout timeout' : Duration} (hle : timeout.nanos ≤ timeout'.nanos)
    (h : (m.reserve permits timeout now).1.isSome = true) :
    m.reserve permits timeout' now = m.reserve permits timeout now := by
  by_cases hzero : permits = 0
  · rw [hzero, reserve_zero, reserve_zero]
  · rw [reserve_of_ne _ hzero] at h
    rw [reserve_of_ne _ hzero, reserve_of_ne _ hzero]
    match m, hm with
    | .window w, _ => rfl
    | .bucket b, _ =>
      have hb : b.reserve permits timeout'.micros now = b.reserve permits timeout.micros now :=
        Bucket.reserve_of_le (Duration.micros_mono hle) h
      simp only [attempt, hb]

/-- **A longer timeout never hurts.**  What a window or a bucket in any state grants within a
timeout it grants within a longer one, after the same wait, and it is then left the same.  What a
group of such meters grants it grants within a longer timeout, whatever the operator, and the wait
is then at least as long, since more members may grant; if all of them have to agree, the wait is
the same and so is the group that is left. -/
theorem longer_timeouts_never_hurt (permits : UInt64) (now : Micros) {timeout timeout' : Duration}
    (hle : timeout.nanos ≤ timeout'.nanos) :
    (∀ m : Meter κ, m.IsBuiltIn → (m.reserve permits timeout now).1.isSome = true →
      m.reserve permits timeout' now = m.reserve permits timeout now) ∧
    ∀ g : MeterGroup κ, (∀ m ∈ g.members, m.IsBuiltIn) →
      ∀ wait, (g.reserve permits timeout now).1 = some wait →
        (∃ wait', (g.reserve permits timeout' now).1 = some wait' ∧ wait ≤ wait') ∧
        (g.operator = .and → g.reserve permits timeout' now = g.reserve permits timeout now) := by
  refine ⟨fun m hm => Meter.reserve_of_le hm hle, fun g hg wait hwait => ?_⟩
  have hanswer := g.answer_eq ⟨permits, timeout, now⟩
  have hanswer' := g.answer_eq ⟨permits, timeout', now⟩
  have hgranted : g.answer ⟨permits, timeout, now⟩ = some wait := hwait
  -- a member that has granted gives the same answer again
  have hsame : ∀ m ∈ g.members, ((m : Meter κ).answer ⟨permits, timeout, now⟩).isSome = true →
      m.answer ⟨permits, timeout', now⟩ = m.answer ⟨permits, timeout, now⟩ :=
    fun m hm hsome => congrArg Prod.fst (Meter.reserve_of_le (hg m hm) hle hsome)
  rw [hanswer] at hgranted
  have hsome : (MeterGroup.combine g.operator
      (g.members.map fun m => m.answer ⟨permits, timeout, now⟩)).isSome = true := by
    rw [hgranted]
    rfl
  refine ⟨?_, fun hand => ?_⟩
  · have hsome' := MeterGroup.isSome_combine_mono
      (fun m hm h => (congrArg Option.isSome (hsame m hm h)).trans h) hsome
    obtain ⟨wait', hwait'⟩ := Option.isSome_iff_exists.1 hsome'
    refine ⟨wait', hanswer'.trans hwait', ?_⟩
    refine MeterGroup.longest_le (MeterGroup.longest_combine hgranted)
      (MeterGroup.longest_combine hwait') fun x hx => ?_
    obtain ⟨m, hm, hx⟩ := List.mem_map.1 hx
    refine ⟨x, List.mem_map.2 ⟨m, hm, ?_⟩, UInt64.le_refl x⟩
    exact (hsame m hm (Option.isSome_iff_exists.2 ⟨x, hx⟩)).trans hx
  · rw [hand] at hsome
    have hall := MeterGroup.isSome_of_combine_and hsome
    have hmembers : (g.members.map fun m => m.reserve permits timeout' now) =
        g.members.map fun m => m.reserve permits timeout now :=
      List.map_congr_left fun m hm =>
        Meter.reserve_of_le (hg m hm) hle (hall _ (List.mem_map_of_mem hm))
    unfold MeterGroup.reserve
    rw [hmembers]

/-- The buckets of three and of five permits a second. -/
def pairOfBuckets : MeterGroup Empty :=
  ⟨.and, [.bucket (.flat (Rate.perSecond 3).permitsPerSecond 1.0 0),
    .bucket (.flat (Rate.perSecond 5).permitsPerSecond 1.0 0)]⟩

/-- Four permits of both buckets are a third of a second's wait, within half a second or longer. -/
theorem longer_timeouts_never_hurt_pair :
    (Duration.ofMillis 500).nanos ≤ (Duration.ofSeconds 1).nanos ∧
      (pairOfBuckets.reserve 4 (.ofMillis 500) 0).1 = some 333333 ∧
      pairOfBuckets.reserve 4 (.ofSeconds 1) 0 = pairOfBuckets.reserve 4 (.ofMillis 500) 0 := by
  have hle : (Duration.ofMillis 500).nanos ≤ (Duration.ofSeconds 1).nanos := by decide
  have hwait : (pairOfBuckets.reserve 4 (.ofMillis 500) 0).1 = some 333333 := by decide +kernel
  exact ⟨hle, hwait, ((longer_timeouts_never_hurt 4 0 hle).2 pairOfBuckets
    (fun m _ => m.isBuiltIn_of_empty) _ hwait).2 rfl⟩

/-! ## Smaller requests -/

namespace Bucket

section

variable {α : Type} [PermitArith α] [PermitLaws α]

/-- **Less has to accrue for less.** -/
theorem accrual_mono {stored interval : α} (hstored : Unsigned stored)
    (hinterval : Unsigned interval) {permits permits' : UInt64} (hle : permits' ≤ permits)
    (hfinite : isFinite (accrual stored interval permits) = true) :
    isFinite (accrual stored interval permits') = true ∧
      wholePart (accrual stored interval permits') ≤
        wholePart (accrual stored interval permits) := by
  have hasked : Unsigned (ofNat permits.toNat : α) := unsigned_ofNat _
  have hasked' : Unsigned (ofNat permits'.toNat : α) := unsigned_ofNat _
  have hword : isFinite (ofNat permits'.toNat : α) = true := isFinite_ofNat permits'.toNat_lt_size
  have hless : AtMost (ofNat permits'.toNat : α) (ofNat permits.toNat) :=
    ofNat_mono (UInt64.le_iff_toNat_le.1 hle)
  by_cases hfresh' : isPositive (ofNat permits'.toNat - least (ofNat permits'.toNat) stored) = true
  · -- both requests ask for more than is stored
    have hlt' : below stored (ofNat permits'.toNat) = true :=
      below_of_isPositive_sub_least hasked' hword hfresh'
    have hlt : below stored (ofNat permits.toNat) = true := below_of_atMost hlt' hless
    have hfinite' : isFinite stored = true :=
      isFinite_of_atMost hstored hasked' (atMost_of_below hlt') hword
    have hfresh : AtMost (ofNat permits'.toNat - stored) (ofNat permits.toNat - stored) :=
      sub_mono hasked' hasked hstored (atMost_of_below hlt') hless hfinite'
    have hmissing' : Unsigned (ofNat permits'.toNat - stored) :=
      unsigned_sub hasked' hstored (atMost_of_below hlt') hfinite'
    have hmissing : Unsigned (ofNat permits.toNat - stored) :=
      unsigned_sub hasked hstored (atMost_of_below hlt) hfinite'
    rw [least_of_below hlt'] at hfresh'
    have hpositive : isPositive (ofNat permits.toNat - stored) = true :=
      below_of_atMost hfresh' hfresh
    have haccrual' : accrual stored interval permits' =
        (ofNat permits'.toNat - stored) * interval := by
      rw [accrual, least_of_below hlt', if_pos hfresh']
    have haccrual : accrual stored interval permits =
        (ofNat permits.toNat - stored) * interval := by
      rw [accrual, least_of_below hlt, if_pos hpositive]
    rw [haccrual] at hfinite
    rw [haccrual, haccrual']
    obtain ⟨htime', htime⟩ := mul_mono hmissing' hmissing hinterval hfresh hfinite
    obtain ⟨hlonger, -⟩ := mul_mono hmissing hmissing hinterval (.refl hmissing.isNumber) hfinite
    exact ⟨isFinite_of_atMost htime' hlonger htime hfinite, wholePart_mono htime' hlonger htime⟩
  · -- all that the smaller request asks for is stored
    have haccrual' : accrual stored interval permits' = zero := if_neg hfresh'
    rw [haccrual', wholePart_zero]
    exact ⟨isFinite_ofNat (by decide), UInt64.zero_le⟩

/-- A bucket that grants a request grants a smaller one, and no later. -/
theorem InBounds.reserve_smaller {b : Bucket α} (h : b.InBounds) {permits permits' : UInt64}
    (hle : permits' ≤ permits) {timeout now wait : Micros}
    (hwait : (b.reserve permits timeout now).1 = some wait) :
    ∃ wait', (b.reserve permits' timeout now).1 = some wait' ∧ wait' ≤ wait := by
  rw [reserve_eq] at hwait
  split at hwait
  · next hgranted =>
    obtain rfl := Option.some.inj hwait
    obtain ⟨hfinite, hwhole⟩ := accrual_mono (h.settle now).stored h.interval hle hgranted.1
    have hmoment : (b.moment permits' now).toNat ≤ (b.moment permits now).toNat := by
      rw [UInt64.le_iff_toNat_le] at hwhole
      rw [moment, moment, Micros.toNat_later, Micros.toNat_later]
      omega
    have hsooner : b.moment permits' now - now ≤ b.moment permits now - now := by
      have hsum' := b.toNat_add_wait permits' now
      have hsum := b.toNat_add_wait permits now
      rw [UInt64.le_iff_toNat_le]
      omega
    refine ⟨b.moment permits' now - now, ?_, hsooner⟩
    rw [reserve_eq, if_pos ⟨hfinite, UInt64.le_trans hsooner hgranted.2⟩]
  · cases hwait

end

end Bucket

namespace Meter

/-- A meter within its bounds; only buckets have some. -/
def InBounds : Meter κ → Prop
  | .bucket b => b.InBounds
  | _ => True

theorem InBounds.next {m : Meter κ} (h : m.InBounds) (d : Demand) : (m.next d).InBounds := by
  refine next_induct h fun _ => ?_
  cases m with
  | bucket b => exact Bucket.InBounds.next h d
  | window | custom => trivial

theorem InBounds.after {m : Meter κ} (h : m.InBounds) (past : List Demand) :
    (m.after past).InBounds :=
  after_induct (fun _ d h => h.next d) h past

/-- A meter that a catalog has created and that has received some demands since. -/
def Reachable (m : Meter κ) : Prop :=
  ∃ (c : Catalog κ) (rate : Rate) (start : Micros) (first : Meter κ) (past : List Demand),
    c.create rate start = .ok first ∧ m = first.after past

/-- The members of a group that a catalog has created stem from that catalog. -/
theorem reachable_of_createAll {c : Catalog κ} {quota : Quota} {start : Micros} {g : MeterGroup κ}
    (h : c.createAll quota start = .ok g) (past : List Demand) :
    ∀ m ∈ (g.after past).members, m.Reachable := by
  rw [MeterGroup.members_after]
  refine List.forall_mem_map.2 fun first hfirst => ?_
  have hrates := (Catalog.createAll_eq_ok_iff.1 h).2
  obtain ⟨rate, -, hcreate⟩ := exists_of_forall₂ hrates.flip first hfirst
  exact ⟨c, rate, start, first, past, hcreate, rfl⟩

theorem Reachable.inBounds {m : Meter κ} (h : m.Reachable) : m.InBounds := by
  obtain ⟨c, rate, start, first, past, hcreate, rfl⟩ := h
  have hfirst : first.InBounds := by
    match first, hcreate with
    | .bucket b, hcreate => exact Catalog.inBounds_of_create hcreate
    | .window w, _ => trivial
    | .custom c, _ => trivial
  exact hfirst.after past

/-- A window or a bucket that grants a request grants a smaller one, and no later. -/
theorem reserve_smaller {m : Meter κ} (hm : m.IsBuiltIn) (hbounds : m.InBounds)
    {permits permits' : UInt64} (hle : permits' ≤ permits) {timeout : Duration} {now wait : Micros}
    (hwait : (m.reserve permits timeout now).1 = some wait) :
    ∃ wait', (m.reserve permits' timeout now).1 = some wait' ∧ wait' ≤ wait := by
  by_cases hzero' : permits' = 0
  · rw [hzero', reserve_zero]
    exact ⟨0, rfl, UInt64.zero_le⟩
  · have hzero : permits ≠ 0 := by
      rintro rfl
      exact hzero' (UInt64.toNat_inj.1 (Nat.le_zero.1 (UInt64.le_iff_toNat_le.1 hle)))
    rw [reserve_of_ne _ hzero] at hwait
    rw [reserve_of_ne _ hzero']
    match m, hm, hbounds with
    | .bucket b, _, hbounds => exact Bucket.InBounds.reserve_smaller hbounds hle hwait
    | .window w, _, _ =>
      change (w.reserve permits now).1 = some wait at hwait
      change ∃ wait', (w.reserve permits' now).1 = some wait' ∧ wait' ≤ wait
      rcases UInt64.lt_or_le (w.left now) permits with hlt | hleft
      · rw [w.reserve_of_lt hlt] at hwait
        cases hwait
      · rw [w.reserve_of_le hleft] at hwait
        rw [w.reserve_of_le (UInt64.le_trans hle hleft)]
        exact ⟨wait, hwait, UInt64.le_refl wait⟩

end Meter

/-- **A smaller request is never treated worse.**  Let a window or a bucket stem from a catalog and
have received any demands.  If it grants a request, it grants a smaller one at the same instant,
after a wait that is no longer.  If a group of such meters grants a request, it grants a smaller
one, whatever the operator; and if all of its members have to agree, after a wait that is no
longer. -/
theorem smaller_requests_never_hurt {permits permits' : UInt64} (hle : permits' ≤ permits)
    (timeout : Duration) (now : Micros) :
    (∀ m : Meter κ, m.IsBuiltIn → m.Reachable →
      ∀ wait, (m.reserve permits timeout now).1 = some wait →
        ∃ wait', (m.reserve permits' timeout now).1 = some wait' ∧ wait' ≤ wait) ∧
    ∀ g : MeterGroup κ, (∀ m ∈ g.members, m.IsBuiltIn ∧ m.Reachable) →
      ∀ wait, (g.reserve permits timeout now).1 = some wait →
        ∃ wait', (g.reserve permits' timeout now).1 = some wait' ∧
          (g.operator = .and → wait' ≤ wait) := by
  refine ⟨fun m hm hreach wait => Meter.reserve_smaller hm hreach.inBounds hle,
    fun g hg wait hwait => ?_⟩
  have hsmaller : ∀ m ∈ g.members, ∀ wait, m.answer ⟨permits, timeout, now⟩ = some wait →
      ∃ wait', m.answer ⟨permits', timeout, now⟩ = some wait' ∧ wait' ≤ wait :=
    fun m hm wait => Meter.reserve_smaller (hg m hm).1 (hg m hm).2.inBounds hle
  have hgranted : g.answer ⟨permits, timeout, now⟩ = some wait := hwait
  rw [g.answer_eq] at hgranted
  have hsome : (MeterGroup.combine g.operator
      (g.members.map fun m => m.answer ⟨permits, timeout, now⟩)).isSome = true := by
    rw [hgranted]
    rfl
  have hsome' := MeterGroup.isSome_combine_mono (fun m hm h => by
    obtain ⟨wait, hwait⟩ := Option.isSome_iff_exists.1 h
    obtain ⟨wait', hwait', -⟩ := hsmaller m hm wait hwait
    exact Option.isSome_iff_exists.2 ⟨wait', hwait'⟩) hsome
  obtain ⟨wait', hwait'⟩ := Option.isSome_iff_exists.1 hsome'
  refine ⟨wait', (g.answer_eq ⟨permits', timeout, now⟩).trans hwait', fun hand => ?_⟩
  rw [hand] at hsome
  have hall := MeterGroup.isSome_of_combine_and hsome
  refine MeterGroup.longest_le (MeterGroup.longest_combine hwait')
    (MeterGroup.longest_combine hgranted) fun x hx => ?_
  obtain ⟨m, hm, hx⟩ := List.mem_map.1 hx
  obtain ⟨y, hy⟩ := Option.isSome_iff_exists.1 (hall _ (List.mem_map_of_mem hm))
  obtain ⟨x', hx', hle⟩ := hsmaller m hm y hy
  rw [hx] at hx'
  obtain rfl := Option.some.inj hx'
  exact ⟨y, List.mem_map.2 ⟨m, hm, hy⟩, hle⟩

/-- Three permits after the same demand are granted no later than four. -/
theorem smaller_requests_never_hurt_pair :
    let c : Catalog Empty := .standard
    let g := pairOfBuckets.after [⟨1, .zero, 0⟩]
    (3 : UInt64) ≤ 4 ∧
      c.createAll (.all [.perSecond 3, .perSecond 5]) 0 = .ok pairOfBuckets ∧
      (g.reserve 4 (.ofSeconds 1) 0).1 = some 666666 ∧
      ∃ wait', (g.reserve 3 (.ofSeconds 1) 0).1 = some wait' ∧
        (g.operator = .and → wait' ≤ 666666) := by
  intro c g
  have hcreate : c.createAll (.all [.perSecond 3, .perSecond 5]) 0 = .ok pairOfBuckets :=
    Catalog.createAll_eq_ok_iff.2
      ⟨rfl, .cons (Catalog.create_perSecond 3 0) (.cons (Catalog.create_perSecond 5 0) .nil)⟩
  have hwait : (g.reserve 4 (.ofSeconds 1) 0).1 = some 666666 := by decide +kernel
  have hle : (3 : UInt64) ≤ 4 := by decide
  have hmembers : ∀ m ∈ g.members, m.IsBuiltIn ∧ m.Reachable := fun m hm =>
    ⟨m.isBuiltIn_of_empty, Meter.reachable_of_createAll hcreate [⟨1, .zero, 0⟩] m hm⟩
  exact ⟨hle, hcreate, hwait,
    (smaller_requests_never_hurt hle (.ofSeconds 1) 0).2 g hmembers _ hwait⟩

end Admission
