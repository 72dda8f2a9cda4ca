import Admission.Document.Json
import Admission.Proofs.Binary64

/-!
# What a text can say

A document may hold any number, but a text has only words for some of them: whole numbers of
sixty-four bits, and finite real ones.

* **written documents** — `Document.isWritten` holds of documents whose numbers are such;
* **readers** — what a reader of numbers takes from a written document is finite
  (`Document.isFinite_of_asReal?`), and so are the parts of a written document written
  (`Document.isWritten_of_parts?`);
* **texts** — `Json.isWritten_of_read?` says that every text gives a written document.
-/

namespace Admission

namespace Document

mutual

/-- Whether a text can say the numbers of a document. -/
def isWritten : Document → Bool
  | whole n => isWord64 n
  | real x => x.isFinite
  | list items => isWrittenItems items
  | record parts => isWrittenParts parts
  | _ => true

/-- Whether a text can say the numbers of some items. -/
def isWrittenItems : List Document → Bool
  | [] => true
  | d :: ds => d.isWritten && isWrittenItems ds

/-- Whether a text can say the numbers of some parts. -/
def isWrittenParts : List (String × Document) → Bool
  | [] => true
  | (_, d) :: ps => d.isWritten && isWrittenParts ps

end

@[simp] theorem isWritten_list {items : List Document} :
    (list items).isWritten = true ↔ ∀ d ∈ items, d.isWritten = true := by
  rw [isWritten]
  induction items with
  | nil => simp [isWrittenItems]
  | cons d ds ih => rw [isWrittenItems, Bool.and_eq_true, List.forall_mem_cons, ih]

@[simp] theorem isWritten_record {parts : List (String × Document)} :
    (record parts).isWritten = true ↔ ∀ part ∈ parts, part.2.isWritten = true := by
  rw [isWritten]
  induction parts with
  | nil => simp [isWrittenParts]
  | cons part ps ih => rw [isWrittenParts, Bool.and_eq_true, List.forall_mem_cons, ih]

/-! ## Readers -/

theorem asReal?_ofReal_eq_some_iff {x y : Float} :
    (ofReal x).asReal? = some y ↔ x.isFinite = true ∧ y = x := by
  unfold ofReal
  split
  · next h =>
    rw [asReal?, Option.some_inj]
    exact ⟨fun hxy => ⟨h, hxy.symm⟩, fun hxy => hxy.2.symm⟩
  · next h =>
    constructor
    · intro hnone
      cases hnone
    · intro hfinite
      exact absurd hfinite.1 h

/-- Real numbers are written, whatever becomes of those that are not finite. -/
theorem isWritten_ofReal (x : Float) : (ofReal x).isWritten = true := by
  unfold ofReal
  split
  · next h => exact h
  · rfl

theorem isWritten_ofWord64 (n : UInt64) : (ofWord64 n).isWritten = true := by
  have hn := n.toNat_lt_size
  have hunsigned : ((Nat.pow 2 64 : Nat) : Int) = UInt64.size := rfl
  rw [ofWord64, isWritten, isWord64, Bool.or_eq_true, Numeral.isUnsigned, Bool.and_eq_true,
    decide_eq_true_eq, decide_eq_true_eq, hunsigned]
  exact .inr ⟨by omega, by omega⟩

theorem isFinite_of_asReal? {d : Document} {x : Float} (hd : d.isWritten = true)
    (h : d.asReal? = some x) : x.isFinite = true := by
  cases d with
  | whole n =>
    cases h
    exact Binary64.isFinite_ofInt hd
  | real y =>
    cases h
    exact hd
  | null | truth | text | list | record => cases h

/-- The parts of a written document are written. -/
theorem isWritten_of_parts? {d : Document} {names : List String}
    {parts : List (String × Document)} (hd : d.isWritten = true)
    (h : d.parts? names = some parts) : ∀ part ∈ parts, part.2.isWritten = true := by
  cases d with
  | record all =>
    rw [isWritten_record] at hd
    simp only [parts?] at h
    split at h
    · cases h
      exact fun part hpart => hd part ((List.mem_filter.1 hpart).1)
    · cases h
  | list items =>
    rw [isWritten_list] at hd
    simp only [parts?] at h
    split at h
    · cases h
      exact fun part hpart => hd part.2 (List.of_mem_zip hpart).2
    · cases h
  | null | truth | whole | real | text => cases h

/-- What is required of written parts is read from a written document. -/
theorem exists_of_required? {α : Type} {parts : List (String × Document)} {name : String}
    {read : Document → Option α} {a : α} (hparts : ∀ part ∈ parts, part.2.isWritten = true)
    (h : required? parts name read = some a) :
    ∃ d : Document, d.isWritten = true ∧ read d = some a := by
  obtain ⟨d, hlookup, hread⟩ := Option.bind_eq_some_iff.1 h
  obtain ⟨before, after, rfl, -⟩ := List.lookup_eq_some_iff.1 hlookup
  exact ⟨d, hparts (name, d) (List.mem_append_right _ List.mem_cons_self), hread⟩

end Document

/-! ## Texts -/

namespace Json

open Document

theorem isWritten_of_real? {x : Float} {d : Document} (h : real? x = some d) :
    d.isWritten = true := by
  unfold real? at h
  split at h
  · next hx =>
    cases h
    exact hx
  · cases h

theorem isWritten_of_signed? {negative : Bool} {size : List Char} {d : Document}
    (h : signed? negative size = some d) : d.isWritten = true := by
  obtain ⟨first, -, h⟩ := Option.bind_eq_some_iff.1 h
  split at h
  · cases h
  split at h
  · obtain ⟨n, -, h⟩ := Option.bind_eq_some_iff.1 h
    generalize (if negative = true then -Float.ofNat n else Float.ofNat n) = x at h
    dsimp only at h
    generalize (if negative = true then -(n : Int) else n) = value at h
    split at h
    · next hword =>
      cases h
      exact (Bool.and_eq_true_iff.1 hword).1
    · exact isWritten_of_real? h
  · obtain ⟨x, -, h⟩ := Option.bind_eq_some_iff.1 h
    exact isWritten_of_real? h

theorem isWritten_of_number? {cs : List Char} {d : Document} (h : number? cs = some d) :
    d.isWritten = true := by
  unfold number? at h
  split at h <;> exact isWritten_of_signed? h

theorem isWritten_putPart {parts : List (String × Document)} (name : String) {d : Document}
    (hparts : ∀ part ∈ parts, part.2.isWritten = true) (hd : d.isWritten = true) :
    ∀ part ∈ putPart parts name d, part.2.isWritten = true := by
  unfold putPart
  split
  · intro part hpart
    obtain ⟨old, hold, rfl⟩ := List.mem_map.1 hpart
    split
    · exact hd
    · exact hparts old hold
  · intro part hpart
    rcases List.mem_append.1 hpart with hpart | hpart
    · exact hparts part hpart
    · rw [List.mem_singleton.1 hpart]
      exact hd

/-- With any budget, a value that has been read is written, and so are a list and a record whose
first items or parts are. -/
theorem isWritten_of_value? (fuel : Nat) :
    (∀ {cs rest : List Char} {d : Document}, value? fuel cs = some (d, rest) →
      d.isWritten = true) ∧
    (∀ {done : List Document} {cs rest : List Char} {d : Document},
      (∀ item ∈ done, item.isWritten = true) → items? fuel done cs = some (d, rest) →
        d.isWritten = true) ∧
    ∀ {done : List (String × Document)} {cs rest : List Char} {d : Document},
      (∀ part ∈ done, part.2.isWritten = true) → parts? fuel done cs = some (d, rest) →
        d.isWritten = true := by
  induction fuel with
  | zero => exact ⟨fun h => (nomatch h), fun _ h => (nomatch h), fun _ h => (nomatch h)⟩
  | succ fuel ih =>
    obtain ⟨hvalue, hitems, hparts⟩ := ih
    refine ⟨?_, ?_, ?_⟩
    · intro cs rest d h
      unfold value? at h
      split at h
      · obtain ⟨⟨s, more⟩, -, h⟩ := Option.map_eq_some_iff.1 h
        cases h
        rfl
      · split at h
        · cases h
          rfl
        · exact hitems (by simp) h
      · split at h
        · cases h
          rfl
        · exact hparts (by simp) h
      · cases h; rfl
      · cases h; rfl
      · cases h; rfl
      · obtain ⟨x, hnumber, h⟩ := Option.map_eq_some_iff.1 h
        cases h
        exact isWritten_of_number? hnumber
    · intro done cs rest d hdone h
      unfold items? at h
      obtain ⟨⟨item, more⟩, hitem, h⟩ := Option.bind_eq_some_iff.1 h
      have hall : ∀ x ∈ item :: done, x.isWritten = true :=
        List.forall_mem_cons.2 ⟨hvalue hitem, hdone⟩
      dsimp only at h
      split at h
      · exact hitems hall h
      · cases h
        rw [isWritten_list]
        exact fun x hx => hall x (List.mem_reverse.1 hx)
      · cases h
    · intro done cs rest d hdone h
      unfold parts? at h
      split at h
      · obtain ⟨⟨name, more⟩, -, h⟩ := Option.bind_eq_some_iff.1 h
        dsimp only at h
        split at h
        · obtain ⟨⟨part, more⟩, hpart, h⟩ := Option.bind_eq_some_iff.1 h
          have hall := isWritten_putPart name hdone (hvalue hpart)
          dsimp only at h
          split at h
          · exact hparts hall h
          · cases h
            rw [isWritten_record]
            exact hall
          · cases h
        · cases h
      · cases h

/-- Every text gives a written document. -/
theorem isWritten_of_read? {s : String} {d : Document} (h : read? s = some d) :
    d.isWritten = true := by
  unfold read? at h
  obtain ⟨⟨value, rest⟩, hvalue, h⟩ := Option.bind_eq_some_iff.1 h
  dsimp only at h
  split at h
  · cases h
    exact (isWritten_of_value? _).1 hvalue
  · cases h

end Json

end Admission
