import Admission.Proofs.PrivateMeters
import Mathlib.Control.Monad.Basic

/-!
# Accounts that go by their texts

Caches outside the program know an account by its text: the resource, a colon, and the key.  There
may be more colons in the resource and in the key, so a text does not always tell where the resource
ends, and two accounts may have the same one.

* **texts** — `Account.text_eq_iff`: two accounts have the same text if and only if they are the
  same, or take it apart at different colons.  Then the one resource continues the other behind a
  colon, and where no resource does that, texts are as good as accounts
  (`Account.text_inj`);
* **caches** — `TextCache` says what a cache does that knows only the texts, of which
  `DocumentCache` is one;
* **runs** — `storeAfter_found`: inquiries under other texts make no difference to an account, as
  if they had not been made, nor does what was held under other texts before;
* **the law** — `texts_keep_apart` and, where there are colons in the way, `colons_meet`.
-/

namespace Admission

/-! ## Texts -/

/-- Two ways to cut one list at a mark: at the same place, or at two. -/
theorem cut_eq_cut_iff {α : Type} {mark : α} {front front' back back' : List α} :
    front ++ mark :: back = front' ++ mark :: back' ↔
      (front = front' ∧ back = back') ∨
      (∃ middle, front' = front ++ mark :: middle ∧ back = middle ++ mark :: back') ∨
      ∃ middle, front = front' ++ mark :: middle ∧ back' = middle ++ mark :: back := by
  rw [List.append_eq_append_iff]
  constructor
  · rintro (⟨_ | ⟨x, middle⟩, rfl, hback⟩ | ⟨_ | ⟨x, middle⟩, rfl, hback⟩)
    · exact .inl ⟨(List.append_nil _).symm, (List.cons.inj hback).2⟩
    · obtain ⟨rfl, rfl⟩ := List.cons.inj hback
      exact .inr (.inl ⟨middle, rfl, rfl⟩)
    · exact .inl ⟨List.append_nil _, (List.cons.inj hback).2.symm⟩
    · obtain ⟨rfl, rfl⟩ := List.cons.inj hback
      exact .inr (.inr ⟨middle, rfl, rfl⟩)
  · rintro (⟨rfl, rfl⟩ | ⟨middle, rfl, rfl⟩ | ⟨middle, rfl, rfl⟩)
    · exact .inl ⟨[], (List.append_nil _).symm, rfl⟩
    · exact .inl ⟨mark :: middle, rfl, rfl⟩
    · exact .inr ⟨mark :: middle, rfl, rfl⟩

namespace Account

variable {a b : Account String}

/-- The accounts have one text, which the first of them cuts at an earlier colon. -/
def CutEarlier (a b : Account String) : Prop :=
  ∃ middle, b.resource = a.resource ++ ":" ++ middle ∧ a.key = middle ++ ":" ++ b.key

/-- Who cuts a text at a colon cuts the list of its characters there. -/
theorem eq_colon_iff {whole front back : String} :
    whole = front ++ ":" ++ back ↔ whole.toList = front.toList ++ ':' :: back.toList := by
  rw [← String.toList_inj, String.toList_append, String.toList_append, List.append_assoc]
  rfl

theorem toList_text (a : Account String) :
    a.text.toList = a.resource.toList ++ ':' :: a.key.toList :=
  eq_colon_iff.1 rfl

theorem cutEarlier_iff : a.CutEarlier b ↔
    ∃ middle, b.resource.toList = a.resource.toList ++ ':' :: middle ∧
      a.key.toList = middle ++ ':' :: b.key.toList := by
  constructor
  · rintro ⟨middle, hresource, hkey⟩
    exact ⟨middle.toList, eq_colon_iff.1 hresource, eq_colon_iff.1 hkey⟩
  · rintro ⟨middle, hresource, hkey⟩
    have hmiddle : middle = (String.ofList middle).toList := String.toList_ofList.symm
    rw [hmiddle] at hresource hkey
    exact ⟨String.ofList middle, eq_colon_iff.2 hresource, eq_colon_iff.2 hkey⟩

/-- Accounts have the same text if and only if they are the same or cut it at different colons. -/
theorem text_eq_iff : a.text = b.text ↔ a = b ∨ a.CutEarlier b ∨ b.CutEarlier a := by
  obtain ⟨resource, key⟩ := a
  obtain ⟨resource', key'⟩ := b
  rw [← String.toList_inj, toList_text, toList_text, cut_eq_cut_iff, cutEarlier_iff,
    cutEarlier_iff, String.toList_inj, String.toList_inj, Account.mk.injEq]

/-- Where neither resource continues the other one behind a colon, the text tells the account. -/
theorem text_inj (hb : ∀ middle, b.resource ≠ a.resource ++ ":" ++ middle)
    (ha : ∀ middle, a.resource ≠ b.resource ++ ":" ++ middle) : a.text = b.text ↔ a = b := by
  rw [text_eq_iff, or_iff_left]
  rintro (⟨middle, hresource, -⟩ | ⟨middle, hresource, -⟩)
  · exact hb middle hresource
  · exact ha middle hresource

end Account

/-! ## Caches -/

/-- A cache that knows accounts by their texts only. -/
class TextCache (γ : Type) {κ : Type} [Cache γ String κ] : Prop where
  /-- It finds the same under two accounts with one text. -/
  get?_of_text (c : γ) {account other : Account String} (h : account.text = other.text) :
    Cache.get? (κ := κ) c account = Cache.get? c other
  /-- State that is put under one text does not change what is found under others. -/
  get?_put_of_ne (c : γ) {account other : Account String} (h : account.text ≠ other.text)
    (state : MeterGroup κ) : Cache.get? (Cache.put c account state) other = Cache.get? c other
  /-- What is found under a text after state was put there does not depend on other texts. -/
  get?_put_congr {c d : γ} {account : Account String}
    (h : Cache.get? (κ := κ) c account = Cache.get? d account) (state : MeterGroup κ) :
    Cache.get? (Cache.put c account state) account = Cache.get? (Cache.put d account state) account

instance {κ : Type} : TextCache (DocumentCache κ) where
  get?_of_text c account other h := by
    simp only [Cache.get?, h]
  get?_put_of_ne c account other h state := by
    simp only [Cache.get?, Cache.put]
    split
    · rw [Shelf.get?_put_of_ne _ h]
    · rfl
  get?_put_congr {c d} account h state := by
    simp only [Cache.get?, Cache.put] at h ⊢
    split
    · rw [Shelf.get?_put_self, Shelf.get?_put_self]
    · exact h

/-! ## Runs -/

variable {ι κ γ : Type} [CustomMeter κ]

/-- The account that an inquiry is about. -/
def Inquiry.account {η : Type} (limiters : ι → Limiter κ) (q : Inquiry ι η) : Account η :=
  ⟨(limiters q.limiter).limit.resource, q.key⟩

variable [Cache γ String κ] [TextCache γ] {limiters : ι → Limiter κ}

/-- An inquiry reads what is found for its account, and writes no more than what follows from
that. -/
theorem Inquiry.serve_same {q : Inquiry ι String} {s t : CachedStore γ}
    (h : MeterStore.get? (κ := κ) s (q.account limiters) =
      MeterStore.get? t (q.account limiters)) :
    (q.serve limiters s).1 = (q.serve limiters t).1 ∧
      MeterStore.get? (κ := κ) (q.serve limiters s).2 (q.account limiters) =
        MeterStore.get? (q.serve limiters t).2 (q.account limiters) := by
  have hmeters := Limiter.metersAt_congr (l := limiters q.limiter) h q.created
  cases ht : (limiters q.limiter).metersAt t q.key q.created with
  | error fault =>
    rw [serve_of_error (hmeters.trans ht), serve_of_error ht]
    exact ⟨rfl, h⟩
  | ok g =>
    rw [serve_of_ok (hmeters.trans ht), serve_of_ok ht]
    exact ⟨rfl, TextCache.get?_put_congr h _⟩

/-- An inquiry changes nothing under other texts. -/
theorem Inquiry.serve_elsewhere {q : Inquiry ι String} {s : CachedStore γ}
    {account : Account String} (h : (q.account limiters).text ≠ account.text) :
    MeterStore.get? (κ := κ) (q.serve limiters s).2 account = MeterStore.get? s account := by
  cases hs : (limiters q.limiter).metersAt s q.key q.created with
  | error fault => rw [serve_of_error hs]
  | ok g =>
    rw [serve_of_ok hs]
    exact TextCache.get?_put_of_ne s.cache h _

/-- What is found under an account follows from what was found there before, and from the inquiries
under its text. -/
theorem storeAfter_found (limiters : ι → Limiter κ) (account : Account String)
    (inquiries : List (Inquiry ι String)) :
    ∀ s t : CachedStore γ,
      MeterStore.get? (κ := κ) s account = MeterStore.get? t account →
        MeterStore.get? (κ := κ) (storeAfter limiters s inquiries) account =
          MeterStore.get? (storeAfter limiters t
            (inquiries.filter fun q => (q.account limiters).text = account.text)) account := by
  induction inquiries with
  | nil => exact fun _ _ h => h
  | cons q inquiries ih =>
    intro s t h
    by_cases htext : (q.account limiters).text = account.text
    · rw [List.filter_cons_of_pos (by simpa using htext)]
      refine ih _ _ ?_
      -- the inquiry may be about another account, but the cache does not see that
      have hsame := fun s : CachedStore γ => TextCache.get?_of_text (κ := κ) s.cache htext
      exact (hsame _).symm.trans
        ((Inquiry.serve_same ((hsame s).trans (h.trans (hsame t).symm))).2.trans (hsame _))
    · rw [List.filter_cons_of_neg (by simpa using htext)]
      exact ih _ _ ((Inquiry.serve_elsewhere htext).trans h)

/-! ## The law -/

/-- The inquiries about one account. -/
def inquiriesAbout (limiters : ι → Limiter κ) (account : Account String)
    (inquiries : List (Inquiry ι String)) : List (Inquiry ι String) :=
  inquiries.filter fun q => q.account limiters = account

/-- **Texts keep accounts apart, as far as colons permit.**  Two accounts have the same text if and
only if they are the same, or one cuts it at an earlier colon than the other.  Now let limiters
share a cache that goes by texts, and let no resource of theirs continue another one behind a colon,
whatever colons there are otherwise, and whatever the keys of the callers are.  Then different
accounts have different texts, and each is left to itself: after any inquiries, what is found under
an account and how an inquiry about it is answered are what they would be if only the inquiries
about this account had been made, in any cache that has started with the same under this account. -/
theorem texts_keep_apart {ι κ γ : Type} [CustomMeter κ] [Cache γ String κ] [TextCache γ]
    (limiters : ι → Limiter κ)
    (hunmixed : ∀ i j middle,
      (limiters j).limit.resource ≠ (limiters i).limit.resource ++ ":" ++ middle) :
    (∀ a b : Account String, a.text = b.text ↔ a = b ∨ a.CutEarlier b ∨ b.CutEarlier a) ∧
      (∀ p q : Inquiry ι String, p.account limiters ≠ q.account limiters →
        (p.account limiters).text ≠ (q.account limiters).text) ∧
      ∀ (past : List (Inquiry ι String)) (q : Inquiry ι String) (s t : CachedStore γ),
        MeterStore.get? (κ := κ) s (q.account limiters) =
            MeterStore.get? t (q.account limiters) →
          let alone := inquiriesAbout limiters (q.account limiters) past
          MeterStore.get? (κ := κ) (storeAfter limiters s past) (q.account limiters) =
              MeterStore.get? (storeAfter limiters t alone) (q.account limiters) ∧
            (q.serve limiters (storeAfter limiters s past)).1 =
              (q.serve limiters (storeAfter limiters t alone)).1 := by
  have htext : ∀ p q : Inquiry ι String,
      (p.account limiters).text = (q.account limiters).text ↔
        p.account limiters = q.account limiters :=
    fun p q => Account.text_inj (hunmixed _ _) (hunmixed _ _)
  refine ⟨fun a b => Account.text_eq_iff, fun p q hne h => hne ((htext p q).1 h), ?_⟩
  intro past q s t h alone
  have habout : (past.filter fun p => (p.account limiters).text = (q.account limiters).text) =
      alone :=
    List.filter_congr fun p _ => decide_eq_decide.2 (htext p q)
  have hfound := storeAfter_found limiters (q.account limiters) past s t h
  rw [habout] at hfound
  exact ⟨hfound, (Inquiry.serve_same hfound).1⟩

/-- Two desks, each of which serves every caller once a second. -/
def twoDesks (resource resource' : String) (second : Bool) : Limiter StockMeter :=
  ⟨⟨if second then resource' else resource, .of ⟨1, .ofSeconds 1, some .allOrNothing⟩⟩, .standard⟩

/-- A cache of texts that holds nothing. -/
def noTexts : CachedStore (DocumentCache StockMeter) := ⟨⟨.empty⟩⟩

/-- Colons in the resources and in the keys do no harm, if no resource continues the other. -/
theorem texts_keep_apart_halls :
    let limiters := twoDesks "hall:a" "hall:b"
    let past : List (Inquiry Bool String) :=
      [⟨false, "b:c", 1, .zero, 0, ⟨0, 0⟩⟩, ⟨true, "c", 1, .zero, 0, ⟨0, 0⟩⟩]
    let again : Inquiry Bool String := ⟨false, "b:c", 1, .zero, 0, ⟨0, 0⟩⟩
    let other : Inquiry Bool String := ⟨false, "b", 1, .zero, 0, ⟨0, 0⟩⟩
    (∀ i j middle, (limiters j).limit.resource ≠ (limiters i).limit.resource ++ ":" ++ middle) ∧
      (again.serve limiters (storeAfter limiters noTexts past)).1 = .ok none ∧
      (other.serve limiters (storeAfter limiters noTexts past)).1 = .ok (some 0) := by
  intro limiters past again other
  have hunmixed : ∀ i j middle,
      (limiters j).limit.resource ≠ (limiters i).limit.resource ++ ":" ++ middle := by
    have hlength : ∀ i, (limiters i).limit.resource.length = 6 := by decide
    have hcolon : ":".length = 1 := by decide
    intro i j middle h
    have hlonger := congrArg String.length h
    rw [String.length_append, String.length_append, hlength, hlength, hcolon] at hlonger
    omega
  obtain ⟨-, -, hrun⟩ := texts_keep_apart (γ := DocumentCache StockMeter) limiters hunmixed
  exact ⟨hunmixed, (hrun past again noTexts noTexts rfl).2.trans (by rfl),
    (hrun past other noTexts noTexts rfl).2.trans (by rfl)⟩

/-- Not all different accounts have different texts, and where they do not, one caller can take what
another one was to have: the first inquiry about the other account is turned away. -/
theorem colons_meet :
    let limiters := twoDesks "a:b" "a"
    let first : Inquiry Bool String := ⟨false, "c", 1, .zero, 0, ⟨0, 0⟩⟩
    let other : Inquiry Bool String := ⟨true, "b:c", 1, .zero, 0, ⟨0, 0⟩⟩
    (¬ ∀ a b : Account String, a ≠ b → a.text ≠ b.text) ∧
      first.account limiters ≠ other.account limiters ∧
      (other.serve limiters (storeAfter limiters noTexts [])).1 = .ok (some 0) ∧
      (other.serve limiters (storeAfter limiters noTexts [first])).1 = .ok none := by
  intro limiters first other
  refine ⟨fun h => ?_, by decide, by decide +kernel, by decide +kernel⟩
  exact h ⟨"a:b", "c"⟩ ⟨"a", "b:c"⟩ (by decide) (by decide)

end Admission
