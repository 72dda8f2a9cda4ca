import Admission.Proofs.Written

/-!
# What is written reads back

A document that has been written as JSON reads as its text says, and the text says all of it but for
the last places of its real numbers.

* **numbers** — `Json.number?_toString`: whole numbers of sixty-four bits read back.  That a real
  number does is `Json.ReadsBack`, which says nothing of what stands around it; `Json.IsNumberText`
  is what its text has to be for that, and `Json.IsNumberText.number` finds it to be;
* **texts** — `Json.text?_writtenChar` is one character, whether or not it has to be escaped, and
  `Json.text?_written` a whole text up to its closing quote;
* **documents** — `Json.IsSaid` are the documents whose text says all of them, given a condition for
  their real numbers.  `Json.reread?` is what such a text reads as, and `Json.Returns` is what has
  to be proved of them: the text reads so with one step for each of its characters, whatever
  follows.  `Json.items?_write` and `Json.parts?_write` go through lists and records, and
  `Document.induct` through all documents.

`Json.read?_write_eq` is the law, whatever real numbers read as; `Json.read?_write` is the case in
which they read back.
-/

namespace Admission

/-! ## Induction -/

/-- A property holds of all documents if it passes from items to their list and from parts to their
record. -/
theorem Document.induct {P : Document → Prop} (null : P .null) (truth : ∀ b, P (.truth b))
    (whole : ∀ n, P (.whole n)) (real : ∀ x, P (.real x)) (text : ∀ s, P (.text s))
    (list : ∀ items, (∀ d ∈ items, P d) → P (.list items))
    (record : ∀ parts, (∀ part ∈ parts, P part.2) → P (.record parts)) (d : Document) : P d :=
  @Document.rec P (fun items => ∀ d ∈ items, P d) (fun parts => ∀ part ∈ parts, P part.2)
    (fun part => P part.2) null truth whole real text list record
    (fun _ h => absurd h List.not_mem_nil) (fun _ _ hd hds => List.forall_mem_cons.2 ⟨hd, hds⟩)
    (fun _ h => absurd h List.not_mem_nil) (fun _ _ hd hds => List.forall_mem_cons.2 ⟨hd, hds⟩)
    (fun _ _ hd => hd) d

/-! ## Whole numbers -/

namespace Numeral

theorem extend?_append (base value : Nat) (cs ds : List Char) :
    extend? base value (cs ++ ds) =
      (extend? base value cs).bind fun value => extend? base value ds := by
  induction cs generalizing value with
  | nil => rfl
  | cons c cs ih =>
    rw [List.cons_append, extend?, extend?]
    cases digit? base c with
    | none => rfl
    | some d => exact ih _

theorem digit?_digitChar {n : Nat} (h : n < 10) : digit? 10 n.digitChar = some n := by
  have hall : ∀ n < 10, digit? 10 (Nat.digitChar n) = some n := by decide
  exact hall n h

/-- The digits of a number have its value. -/
theorem extend?_toDigits (n : Nat) : extend? 10 0 (Nat.toDigits 10 n) = some n := by
  induction n using Nat.strongRecOn with
  | ind n ih =>
    rw [Nat.toDigits_eq_if (by decide)]
    split
    · next h =>
      rw [extend?, digit?_digitChar h]
      simp [extend?]
    · next h =>
      rw [extend?_append, ih (n / 10) (by omega), Option.bind_some, extend?,
        digit?_digitChar (Nat.mod_lt n (by decide))]
      simp only [extend?, Option.bind_eq_bind, Option.bind_some, Option.some_inj]
      omega

theorem natural?_toDigits (n : Nat) : natural? 10 (Nat.toDigits 10 n) = some n := by
  rw [← extend?_toDigits n]
  cases h : Nat.toDigits 10 n with
  | nil => exact absurd h Nat.toDigits_ne_nil
  | cons c cs => rfl

theorem head?_toDigits_ne_zero {n : Nat} (h : 0 < n) : (Nat.toDigits 10 n).head? ≠ some '0' := by
  induction n using Nat.strongRecOn with
  | ind n ih =>
    rw [Nat.toDigits_eq_if (by decide)]
    split
    · next hlt =>
      rw [List.head?_cons, Ne, Option.some_inj, Nat.digitChar_eq_zero]
      omega
    · next hge =>
      have hmore := ih (n / 10) (by omega) (by omega)
      cases hdigits : Nat.toDigits 10 (n / 10) with
      | nil => exact absurd hdigits Nat.toDigits_ne_nil
      | cons c cs => rwa [hdigits] at hmore

end Numeral

namespace Json

theorem isDigit_of_mem_toDigits {n : Nat} {c : Char} (h : c ∈ Nat.toDigits 10 n) :
    c.isDigit = true :=
  Nat.isDigit_of_mem_toDigits (by decide) (by decide) h

theorem hasLeadingZero_toDigits (n : Nat) : hasLeadingZero (Nat.toDigits 10 n) = false := by
  rcases Nat.eq_zero_or_pos n with rfl | hpos
  · decide
  · have hhead := Numeral.head?_toDigits_ne_zero hpos
    unfold hasLeadingZero
    split
    · next heq => exact absurd (congrArg List.head? heq) hhead
    · rfl

/-- The digits of a number, without or with a sign, are that number. -/
theorem signed?_toDigits {negative : Bool} {n : Nat}
    (hword : Document.isWord64 (if negative then -(n : Int) else n) = true)
    (hzero : (negative && n == 0) = false) :
    signed? negative (Nat.toDigits 10 n) =
      some (.whole (if negative then -(n : Int) else n)) := by
  rcases hdigits : Nat.toDigits 10 n with _ | ⟨first, more⟩
  · exact absurd hdigits Nat.toDigits_ne_nil
  · have hall : ∀ c ∈ first :: more, c.isDigit = true := by
      intro c hc
      rw [← hdigits] at hc
      exact isDigit_of_mem_toDigits hc
    have hleading : hasLeadingZero (first :: more) = false := by
      rw [← hdigits]
      exact hasLeadingZero_toDigits n
    have hvalue : Numeral.natural? 10 (first :: more) = some n := by
      rw [← hdigits]
      exact Numeral.natural?_toDigits n
    have hfirst := hall first List.mem_cons_self
    have hdigit : (first :: more).all Char.isDigit = true := List.all_eq_true.2 hall
    unfold signed?
    simp only [List.head?_cons, Option.bind_eq_bind, Option.bind_some, hfirst, hleading, hdigit,
      hvalue, hword, hzero, Bool.not_true, Bool.or_false, Bool.false_eq_true, if_false, if_true,
      Bool.not_false, Bool.and_true]
    rfl

theorem number?_of_head? {cs : List Char} (h : cs.head? ≠ some '-') :
    number? cs = signed? false cs := by
  unfold number?
  split
  · exact absurd rfl h
  · rfl

/-- A whole number of sixty-four bits reads back. -/
theorem number?_toString {n : Int} (h : Document.isWord64 n = true) :
    number? (toString n).toList = some (.whole n) := by
  cases n with
  | ofNat m =>
    have htext : (toString (Int.ofNat m)).toList = Nat.toDigits 10 m := Nat.toList_repr
    have hhead : (Nat.toDigits 10 m).head? ≠ some '-' := by
      intro hminus
      have := isDigit_of_mem_toDigits (List.mem_of_mem_head? hminus)
      cases this
    rw [htext, number?_of_head? hhead]
    exact signed?_toDigits h rfl
  | negSucc m =>
    have htext : (toString (Int.negSucc m)).toList = '-' :: Nat.toDigits 10 (m + 1) := by
      change ("-" ++ Nat.repr (m + 1)).toList = _
      rw [String.toList_append, Nat.toList_repr]
      rfl
    rw [htext]
    exact signed?_toDigits h rfl

/-! ## Real numbers -/

theorem isNumberChar_of_isDigit {c : Char} (h : c.isDigit = true) : isNumberChar c = true := by
  rw [isNumberChar, h]
  rfl

/-- A text with no other characters than those of numbers. -/
def IsNumberText (s : String) : Prop := ∀ c ∈ s.toList, isNumberChar c = true

/-- The text of a real number reads back as that number. -/
def ReadsBack (x : Float) : Prop := number? (realLayout.number x).toList = some (.real x)

namespace IsNumberText

theorem of_all {s : String} (h : s.toList.all isNumberChar = true) : IsNumberText s :=
  List.all_eq_true.1 h

theorem append {s t : String} (hs : IsNumberText s) (ht : IsNumberText t) :
    IsNumberText (s ++ t) := by
  intro c hc
  rw [String.toList_append] at hc
  exact (List.mem_append.1 hc).elim (hs c) (ht c)

/-- Some of the characters of such a text make up such a text. -/
theorem sublist {s : String} (hs : IsNumberText s) {cs : List Char} (h : cs.Sublist s.toList) :
    IsNumberText (String.ofList cs) := by
  intro c hc
  rw [String.toList_ofList] at hc
  exact hs c (h.subset hc)

theorem nat (n : Nat) : IsNumberText (toString n) := by
  intro c hc
  have hc : c ∈ n.repr.toList := hc
  rw [Nat.toList_repr] at hc
  exact isNumberChar_of_isDigit (isDigit_of_mem_toDigits hc)

theorem int (n : Int) : IsNumberText (toString n) := by
  cases n with
  | ofNat m => exact nat m
  | negSucc m => exact append (s := "-") (of_all rfl) (nat (m + 1))

theorem zeros (n : Nat) : IsNumberText (Decimal.zeros n) := by
  intro c hc
  rw [Decimal.zeros, String.toList_ofList] at hc
  rw [List.eq_of_mem_replicate hc]
  rfl

theorem positionalText (layout : Decimal.Layout) (d : Decimal) :
    IsNumberText (Decimal.positionalText layout d) := by
  unfold Decimal.positionalText
  dsimp only
  split
  · refine ((nat _).append (zeros _)).append ?_
    split <;> exact of_all rfl
  · have hzeros := zeros ((-d.exponent).toNat + 1 - (toString d.digits).length)
    have hall := hzeros.append (nat d.digits)
    exact ((hall.sublist (List.take_sublist _ _)).append (t := ".") (of_all rfl)).append
      (hall.sublist (List.drop_sublist _ _))

theorem exponentText (d : Decimal) (leading : Int) :
    IsNumberText (Decimal.exponentText d leading) := by
  unfold Decimal.exponentText
  have hdigits := nat d.digits
  have hfirst := hdigits.sublist (List.take_sublist 1 _)
  refine ((hfirst.append ?_).append (t := "e") (of_all rfl)).append (int leading)
  split
  · exact of_all rfl
  · exact append (s := ".") (of_all rfl) (hdigits.sublist (List.drop_sublist _ _))

theorem text (layout : Decimal.Layout) (d : Decimal) : IsNumberText (layout.text d) := by
  unfold Decimal.Layout.text
  dsimp only
  split
  · exact positionalText layout d
  · split
    · exact positionalText layout d
    · exact exponentText d _

theorem text_ne_nil (d : Decimal) : (realLayout.text d).toList ≠ [] := by
  have hpositional : (Decimal.positionalText realLayout d).toList ≠ [] := by
    unfold Decimal.positionalText
    dsimp only
    split <;> simp [realLayout]
  unfold Decimal.Layout.text
  dsimp only [realLayout]
  split
  · exact hpositional
  · simp [Decimal.exponentText]

theorem number_eq {x : Float} (h : x.isFinite = true) :
    ∃ sign body, realLayout.number x = sign ++ body ∧ IsNumberText sign ∧ IsNumberText body ∧
      body.toList ≠ [] := by
  have hnan : ¬ x.isNaN = true := by
    change x.toModel.unpack.isFinite = true at h
    change ¬ x.toModel.unpack.isNaN = true
    cases hx : x.toModel.unpack with
    | notANumber => rw [hx] at h; cases h
    | infinity | zero | finite => exact Bool.false_ne_true
  have hinf : ¬ x.isInf = true := by
    change x.toModel.unpack.isFinite = true at h
    change ¬ x.toModel.unpack.isInf = true
    cases hx : x.toModel.unpack with
    | infinity => rw [hx] at h; cases h
    | notANumber | zero | finite => exact Bool.false_ne_true
  have hsign : IsNumberText (if Binary.signWeight ≤ x.toBits.toNat then "-" else "") := by
    split <;> exact of_all rfl
  unfold Decimal.Layout.number
  rw [if_neg hnan]
  dsimp only
  rw [if_neg hinf]
  split
  · exact ⟨_, _, rfl, hsign, of_all rfl, List.cons_ne_nil _ _⟩
  · exact ⟨_, _, rfl, hsign, text _ _, text_ne_nil _⟩

/-- Finite numbers are written without words. -/
theorem number {x : Float} (h : x.isFinite = true) : IsNumberText (realLayout.number x) := by
  obtain ⟨sign, body, hnumber, hsign, hbody, -⟩ := number_eq h
  rw [hnumber]
  exact hsign.append hbody

theorem number_ne_nil {x : Float} (h : x.isFinite = true) : (realLayout.number x).toList ≠ [] := by
  obtain ⟨sign, body, hnumber, -, -, hbody⟩ := number_eq h
  rw [hnumber, String.toList_append]
  exact List.append_ne_nil_of_right_ne_nil _ hbody

end IsNumberText

/-! ## Texts -/

/-- A number in at least four hexadecimal digits. -/
def fourDigits (n : Nat) : List Char :=
  List.replicate (4 - (Nat.toDigits 16 n).length) '0' ++ Nat.toDigits 16 n

/-- The escape of a control character is read as that character. -/
theorem unicode?_fourDigits {n : Nat} (h : n < 0x20) (rest : List Char) :
    unicode? (fourDigits n ++ rest) = some (Char.ofNat n, rest) := by
  have hall : ∀ n < 0x20,
      (fourDigits n).length = 4 ∧ Numeral.natural? 16 (fourDigits n) = some n := by
    decide
  obtain ⟨hlength, hvalue⟩ := hall n h
  generalize fourDigits n = digits at hlength hvalue ⊢
  match digits, hlength with
  | [a, b, c, d], _ =>
    have hhex : fourHex? ([a, b, c, d] ++ rest) = some (n, rest) := by
      change (Numeral.natural? 16 [a, b, c, d]).map (·, rest) = _
      rw [hvalue]
      rfl
    rw [unicode?, hhex]
    simp only [Option.bind_eq_bind, Option.bind_some]
    -- no control character is half of another one
    rw [if_neg (by omega), if_neg (by omega)]
    rfl

/-- A written character is read in one step. -/
theorem text?_writtenChar (fuel : Nat) (done : List Char) (c : Char) (rest : List Char) :
    text? (fuel + 1) done (writtenChar c ++ rest) = text? fuel (c :: done) rest := by
  unfold writtenChar
  split
  iterate 7 · rfl
  · next hquote hbackslash _ _ _ _ _ =>
    split
    · next hcontrol =>
      have hread : unicode? (fourDigits c.toNat ++ rest) = some (c, rest) := by
        rw [unicode?_fourDigits hcontrol, Char.ofNat_toNat]
      change text? (fuel + 1) done ('\\' :: 'u' :: (fourDigits c.toNat ++ rest)) = _
      rw [text?, hread]
      rfl
    · next hplain =>
      change text? (fuel + 1) done (c :: rest) = _
      rw [text?]
      · exact if_neg hplain
      · exact hquote
      · exact fun _ heq => (hbackslash heq).elim
      · exact fun _ _ heq => (hbackslash heq).elim

/-- Written characters are read up to the closing quote. -/
theorem text?_written (cs : List Char) {fuel : Nat} (hfuel : cs.length < fuel) (done : List Char)
    (rest : List Char) :
    text? fuel done (cs.flatMap writtenChar ++ '"' :: rest) =
      some (String.ofList (done.reverse ++ cs), rest) := by
  induction cs generalizing fuel done with
  | nil =>
    obtain ⟨fuel, rfl⟩ := Nat.exists_eq_add_one.2 hfuel
    rw [List.append_nil]
    rfl
  | cons c cs ih =>
    obtain ⟨fuel, rfl⟩ := Nat.exists_eq_add_one.2 (Nat.zero_lt_of_lt hfuel)
    rw [List.flatMap_cons, List.append_assoc, text?_writtenChar,
      ih (Nat.lt_of_succ_lt_succ hfuel) (c :: done), List.reverse_cons, List.append_assoc]
    rfl

theorem toList_writtenText (s : String) :
    (writtenText s).toList = '"' :: s.toList.flatMap writtenChar ++ ['"'] := by
  rw [writtenText, String.toList_ofList]

theorem toList_writtenText_append (s : String) (rest : List Char) :
    (writtenText s).toList ++ rest = '"' :: (s.toList.flatMap writtenChar ++ '"' :: rest) := by
  rw [toList_writtenText, List.append_assoc]
  rfl

theorem text?_writtenText (s : String) {fuel : Nat} (hfuel : s.toList.length < fuel)
    (rest : List Char) :
    text? fuel [] (s.toList.flatMap writtenChar ++ '"' :: rest) = some (s, rest) := by
  rw [text?_written s.toList hfuel, List.reverse_nil, List.nil_append, String.ofList_toList]

theorem length_le_written (cs : List Char) : cs.length ≤ (cs.flatMap writtenChar).length := by
  induction cs with
  | nil => exact Nat.le_refl 0
  | cons c cs ih =>
    have hc : 0 < (writtenChar c).length := by
      unfold writtenChar
      split
      iterate 7 · exact Nat.two_pos
      · split
        · exact Nat.succ_pos _
        · exact Nat.one_pos
    rw [List.flatMap_cons, List.length_append, List.length_cons]
    omega

theorem length_lt_writtenText (s : String) :
    s.toList.length + 1 < (writtenText s).toList.length := by
  have hle := length_le_written s.toList
  rw [toList_writtenText, List.length_append, List.length_cons, List.length_singleton]
  omega

/-! ## Documents -/

/-- A character with which a value can start. -/
def startsValue (c : Char) : Bool :=
  c == '"' || c == '[' || c == '\x7b' || c == 't' || c == 'f' || c == 'n' || isNumberChar c

theorem skipBlanks_of_startsValue {c : Char} (h : startsValue c = true) (cs : List Char) :
    skipBlanks (c :: cs) = c :: cs := by
  have hblank : (c == ' ' || c == '\n' || c == '\r' || c == '\t') = false := by
    refine Bool.eq_false_iff.2 fun hblank => ?_
    simp only [Bool.or_eq_true, beq_iff_eq] at hblank
    rcases hblank with ((rfl | rfl) | rfl) | rfl <;> cases h
  rw [skipBlanks, List.dropWhile_cons_of_neg]
  rw [hblank]
  exact Bool.false_ne_true

/-- A value that starts like a number is one. -/
theorem value?_of_isNumberChar (fuel : Nat) {c : Char} (h : isNumberChar c = true)
    (cs : List Char) :
    value? (fuel + 1) (c :: cs) =
      (number? ((c :: cs).takeWhile isNumberChar)).map
        fun d => (d, (c :: cs).dropWhile isNumberChar) := by
  have hstart : startsValue c = true := by
    rw [startsValue, h, Bool.or_true]
  rw [value?, skipBlanks_of_startsValue hstart]
  -- none of the other values starts like a number
  split
  iterate 6 · next heq => cases heq; cases h
  · rfl

/-- A number ends where what follows cannot stand in a number. -/
def EndsNumber (rest : List Char) : Prop := ∀ c ∈ rest.head?, isNumberChar c = false

theorem endsNumber_cons {c : Char} (h : isNumberChar c = false) (rest : List Char) :
    EndsNumber (c :: rest) := by
  rintro _ ⟨⟩
  exact h

theorem EndsNumber.span {rest : List Char} (h : EndsNumber rest) :
    rest.takeWhile isNumberChar = [] ∧ rest.dropWhile isNumberChar = rest := by
  cases rest with
  | nil => exact ⟨rfl, rfl⟩
  | cons c rest =>
    have hc : ¬ isNumberChar c = true := Bool.eq_false_iff.1 (h c rfl)
    exact ⟨List.takeWhile_cons_of_neg hc, List.dropWhile_cons_of_neg hc⟩

/-- A number is read up to its end. -/
theorem value?_number {cs : List Char} (hcs : ∀ c ∈ cs, isNumberChar c = true) (hne : cs ≠ [])
    {fuel : Nat} (hfuel : cs.length ≤ fuel) {rest : List Char} (hrest : EndsNumber rest) :
    value? fuel (cs ++ rest) = (number? cs).map fun d => (d, rest) := by
  cases cs with
  | nil => exact absurd rfl hne
  | cons c cs =>
    obtain ⟨fuel, rfl⟩ := Nat.exists_eq_add_one.2 (Nat.zero_lt_of_lt hfuel)
    obtain ⟨htake, hdrop⟩ := hrest.span
    rw [List.cons_append, value?_of_isNumberChar fuel (hcs c List.mem_cons_self),
      ← List.cons_append, List.takeWhile_append_of_pos hcs, List.dropWhile_append_of_pos hcs,
      htake, hdrop, List.append_nil]

theorem toString_ne_nil {n : Int} (h : Document.isWord64 n = true) : (toString n).toList ≠ [] := by
  intro hnil
  have hread := number?_toString h
  rw [hnil] at hread
  cases hread

section

variable (P : Float → Prop)

mutual

/-- Whether the text of a document says all of it: whole numbers have sixty-four bits, real numbers
are finite and fulfil a condition, and no record names a part twice. -/
def IsSaid : Document → Prop
  | .whole n => Document.isWord64 n = true
  | .real x => x.isFinite = true ∧ P x
  | .list items => IsSaidItems items
  | .record parts => (parts.map Prod.fst).Nodup ∧ IsSaidParts parts
  | _ => True

/-- Whether the texts of some items say all of them. -/
def IsSaidItems : List Document → Prop
  | [] => True
  | d :: ds => IsSaid d ∧ IsSaidItems ds

/-- Whether the texts of some parts say all of them. -/
def IsSaidParts : List (String × Document) → Prop
  | [] => True
  | (_, d) :: ps => IsSaid d ∧ IsSaidParts ps

end

end

section

variable {P : Float → Prop}

theorem isSaid_list {items : List Document} :
    IsSaid P (.list items) ↔ ∀ d ∈ items, IsSaid P d := by
  rw [IsSaid]
  induction items with
  | nil => simp [IsSaidItems]
  | cons d ds ih => rw [IsSaidItems, List.forall_mem_cons, ih]

theorem isSaid_record {parts : List (String × Document)} :
    IsSaid P (.record parts) ↔
      (parts.map Prod.fst).Nodup ∧ ∀ part ∈ parts, IsSaid P part.2 := by
  have hall : IsSaidParts P parts ↔ ∀ part ∈ parts, IsSaid P part.2 := by
    induction parts with
    | nil => simp [IsSaidParts]
    | cons part ps ih => rw [IsSaidParts, List.forall_mem_cons, ih]
  rw [IsSaid, hall]

theorem isSaid_single {d : Document} (h : IsSaid P d) (name : String) :
    IsSaid P (.record [(name, d)]) := by
  refine isSaid_record.2 ⟨by simp, fun part hpart => ?_⟩
  rw [List.mem_singleton.1 hpart]
  exact h

end

mutual

/-- What the text of a document reads as: the document, but each real number is what its own text
reads as, if that is anything at all. -/
def reread? : Document → Option Document
  | .real x => number? (realLayout.number x).toList
  | .list items => (rereadItems? items).map .list
  | .record parts => (rereadParts? parts).map .record
  | d => some d

/-- What the texts of some items read as. -/
def rereadItems? : List Document → Option (List Document)
  | [] => some []
  | d :: ds => do
    let e ← reread? d
    let es ← rereadItems? ds
    pure (e :: es)

/-- What the texts of some parts read as. -/
def rereadParts? : List (String × Document) → Option (List (String × Document))
  | [] => some []
  | (name, d) :: ps => do
    let e ← reread? d
    let es ← rereadParts? ps
    pure ((name, e) :: es)

end

theorem rereadItems?_eq (items : List Document) : rereadItems? items = items.mapM reread? := by
  induction items with
  | nil => rfl
  | cons d ds ih => rw [rereadItems?, ih, List.mapM_cons]

theorem reread?_single (name : String) (d : Document) :
    reread? (.record [(name, d)]) = (reread? d).map fun e => .record [(name, e)] := by
  rw [reread?, rereadParts?]
  cases reread? d <;> rfl

/-- Texts with commas between them. -/
def joined (texts : List String) : List Char := (",".intercalate texts).toList

theorem joined_singleton (s : String) : joined [s] = s.toList := by
  rw [joined, String.intercalate_singleton]

theorem joined_cons_cons (s t : String) (texts : List String) :
    joined (s :: t :: texts) = s.toList ++ ',' :: joined (t :: texts) := by
  rw [joined, String.intercalate_cons_cons, String.toList_append, String.toList_append,
    List.append_assoc]
  rfl

theorem joined_writeAll_singleton (d : Document) : joined (writeAll [d]) = (write d).toList :=
  joined_singleton _

theorem joined_writeAll_cons (d e : Document) (ds : List Document) :
    joined (writeAll (d :: e :: ds)) = (write d).toList ++ ',' :: joined (writeAll (e :: ds)) :=
  joined_cons_cons ..

theorem toList_writePart (name : String) (d : Document) :
    (writtenText name ++ ":" ++ write d).toList =
      (writtenText name).toList ++ ':' :: (write d).toList := by
  rw [String.toList_append, String.toList_append, List.append_assoc]
  rfl

theorem joined_writeParts_singleton (name : String) (d : Document) :
    joined (writeParts [(name, d)]) = (writtenText name).toList ++ ':' :: (write d).toList :=
  (joined_singleton _).trans (toList_writePart name d)

theorem joined_writeParts_cons (name : String) (d : Document) (part : String × Document)
    (ps : List (String × Document)) :
    joined (writeParts ((name, d) :: part :: ps)) =
      (writtenText name).toList ++ ':' ::
        ((write d).toList ++ ',' :: joined (writeParts (part :: ps))) := by
  obtain ⟨name', e⟩ := part
  rw [writeParts, writeParts, joined_cons_cons, ← writeParts, toList_writePart, List.append_assoc]
  rfl

theorem toList_write_list (items : List Document) :
    (write (.list items)).toList = '[' :: (joined (writeAll items) ++ [']']) := by
  rw [write, String.toList_append, String.toList_append]
  rfl

theorem toList_write_record (parts : List (String × Document)) :
    (write (.record parts)).toList = '\x7b' :: (joined (writeParts parts) ++ ['\x7d']) := by
  rw [write, String.toList_append, String.toList_append]
  rfl

section

variable {P : Float → Prop}

/-- A written document starts like a value. -/
theorem exists_toList_write {d : Document} (h : IsSaid P d) :
    ∃ c cs, (write d).toList = c :: cs ∧ startsValue c = true := by
  have hnumber {s : String} (hs : IsNumberText s) (hne : s.toList ≠ []) :
      ∃ c cs, s.toList = c :: cs ∧ startsValue c = true := by
    obtain ⟨c, cs, hcs⟩ := List.exists_cons_of_ne_nil hne
    refine ⟨c, cs, hcs, ?_⟩
    rw [startsValue, hs c (hcs ▸ List.mem_cons_self), Bool.or_true]
  cases d with
  | null => exact ⟨_, _, rfl, rfl⟩
  | truth b => cases b <;> exact ⟨_, _, rfl, rfl⟩
  | whole n => exact hnumber (IsNumberText.int n) (toString_ne_nil h)
  | real x =>
    rw [write, if_pos h.1]
    exact hnumber (IsNumberText.number h.1) (IsNumberText.number_ne_nil h.1)
  | text s => exact ⟨_, _, toList_writtenText s, rfl⟩
  | list items => exact ⟨_, _, toList_write_list items, rfl⟩
  | record parts => exact ⟨_, _, toList_write_record parts, rfl⟩

theorem putPart_of_not_mem {parts : List (String × Document)} {name : String}
    (h : name ∉ parts.map Prod.fst) (d : Document) :
    putPart parts name d = parts ++ [(name, d)] := by
  rw [putPart, if_neg]
  intro hany
  obtain ⟨part, hpart, hname⟩ := List.any_eq_true.1 hany
  exact h (List.mem_map.2 ⟨part, hpart, beq_iff_eq.1 hname⟩)

/-- Whether a document reads as its text says, whatever follows that cannot belong to a number. -/
def Returns (d : Document) : Prop :=
  ∀ (fuel : Nat) (rest : List Char), (write d).toList.length ≤ fuel → EndsNumber rest →
    value? fuel ((write d).toList ++ rest) = (reread? d).map fun e => (e, rest)

theorem value?_list (fuel : Nat) {c : Char} (h : startsValue c = true) (cs : List Char) :
    value? (fuel + 1) ('[' :: c :: cs) = items? fuel [] (c :: cs) := by
  rw [value?, skipBlanks_of_startsValue (c := '[') rfl]
  simp only [skipBlanks_of_startsValue h]
  split
  · next heq => cases heq; cases h
  · rfl

/-- Written items start like a value. -/
theorem exists_joined_writeAll {d : Document} (h : IsSaid P d) (ds : List Document) :
    ∃ c cs, joined (writeAll (d :: ds)) = c :: cs ∧ startsValue c = true := by
  obtain ⟨c, cs, hcs, hc⟩ := exists_toList_write h
  cases ds with
  | nil => exact ⟨c, cs, by rw [joined_writeAll_singleton, hcs], hc⟩
  | cons e ds => exact ⟨c, _, by rw [joined_writeAll_cons, hcs]; rfl, hc⟩

/-- Written parts start with a quote. -/
theorem exists_joined_writeParts (part : String × Document) (ps : List (String × Document)) :
    ∃ cs, joined (writeParts (part :: ps)) = '"' :: cs := by
  refine List.head?_eq_some_iff.1 ?_
  cases ps with
  | nil =>
    rw [joined_writeParts_singleton, toList_writtenText]
    rfl
  | cons next ps =>
    rw [joined_writeParts_cons, toList_writtenText]
    rfl

/-- Written items read as their texts say. -/
theorem items?_write {d : Document} {ds : List Document} (h : ∀ item ∈ d :: ds, Returns item)
    {fuel : Nat} (hfuel : (joined (writeAll (d :: ds))).length < fuel) (done : List Document)
    (rest : List Char) :
    items? fuel done (joined (writeAll (d :: ds)) ++ ']' :: rest) =
      (rereadItems? (d :: ds)).map fun es => (.list (done.reverse ++ es), rest) := by
  obtain ⟨fuel, rfl⟩ := Nat.exists_eq_add_one.2 (Nat.zero_lt_of_lt hfuel)
  induction ds generalizing d fuel done with
  | nil =>
    rw [joined_writeAll_singleton] at hfuel ⊢
    have hvalue := h d List.mem_cons_self fuel _ (Nat.le_of_lt_succ hfuel)
      (endsNumber_cons (c := ']') (by decide) rest)
    rw [items?, hvalue, rereadItems?]
    cases reread? d with
    | none => rfl
    | some e =>
      change some (Document.list (e :: done).reverse, rest) =
        some (.list (done.reverse ++ [e]), rest)
      rw [List.reverse_cons]
  | cons e ds ih =>
    rw [joined_writeAll_cons, List.length_append, List.length_cons] at hfuel
    rw [joined_writeAll_cons, List.append_assoc, List.cons_append]
    have hvalue := h d List.mem_cons_self fuel _ (by omega)
      (endsNumber_cons (c := ',') (by decide) (joined (writeAll (e :: ds)) ++ ']' :: rest))
    obtain ⟨fuel, rfl⟩ := Nat.exists_eq_add_one.2 (show 0 < fuel by omega)
    rw [items?, hvalue, rereadItems?]
    cases reread? d with
    | none => rfl
    | some first =>
      have hmore := ih (fun item hitem => h item (List.mem_cons_of_mem d hitem)) (first :: done)
        fuel (by omega)
      simp only [List.reverse_cons, List.append_assoc, List.singleton_append] at hmore
      change items? (fuel + 1) (first :: done) _ = _
      rw [hmore]
      cases rereadItems? (e :: ds) <;> rfl

/-- A written name is read as the name of what is read after it. -/
theorem parts?_writtenText (name : String) {fuel : Nat} (hfuel : name.toList.length < fuel)
    (done : List (String × Document)) (rest : List Char) :
    parts? (fuel + 1) done ((writtenText name).toList ++ ':' :: rest) =
      (value? fuel rest).bind fun read =>
        match skipBlanks read.2 with
        | ',' :: rest => parts? fuel (putPart done name read.1) rest
        | '\x7d' :: rest => some (.record (putPart done name read.1), rest)
        | _ => none := by
  rw [toList_writtenText_append, parts?]
  change (text? fuel [] (name.toList.flatMap writtenChar ++ '"' :: ':' :: rest)).bind _ = _
  rw [text?_writtenText name hfuel]
  rfl

theorem name_not_mem_of_nodup {done ps : List (String × Document)} {name : String} {d : Document}
    (h : ((done ++ (name, d) :: ps).map Prod.fst).Nodup) : name ∉ done.map Prod.fst := by
  intro hmem
  rw [List.map_append] at h
  exact (List.nodup_append.1 h).2.2 name hmem name List.mem_cons_self rfl

/-- Written parts read as their texts say. -/
theorem parts?_write {name : String} {d : Document} {ps : List (String × Document)}
    (h : ∀ part ∈ (name, d) :: ps, Returns part.2) {fuel : Nat}
    (hfuel : (joined (writeParts ((name, d) :: ps))).length < fuel)
    (done : List (String × Document))
    (hnames : ((done ++ (name, d) :: ps).map Prod.fst).Nodup) (rest : List Char) :
    parts? fuel done (joined (writeParts ((name, d) :: ps)) ++ '\x7d' :: rest) =
      (rereadParts? ((name, d) :: ps)).map fun es => (.record (done ++ es), rest) := by
  obtain ⟨fuel, rfl⟩ := Nat.exists_eq_add_one.2 (Nat.zero_lt_of_lt hfuel)
  induction ps generalizing name d fuel done with
  | nil =>
    have hname := length_lt_writtenText name
    have hd : Returns d := h _ List.mem_cons_self
    rw [joined_writeParts_singleton, List.length_append, List.length_cons] at hfuel
    have hvalue := hd fuel _ (by omega) (endsNumber_cons (c := '\x7d') (by decide) rest)
    rw [joined_writeParts_singleton, List.append_assoc, List.cons_append,
      parts?_writtenText name (by omega), hvalue, rereadParts?]
    cases reread? d with
    | none => rfl
    | some e =>
      change some (Document.record (putPart done name e), rest) =
        some (.record (done ++ [(name, e)]), rest)
      rw [putPart_of_not_mem (name_not_mem_of_nodup hnames)]
  | cons part ps ih =>
    obtain ⟨name', e⟩ := part
    have hname := length_lt_writtenText name
    have hd : Returns d := h _ List.mem_cons_self
    rw [joined_writeParts_cons, List.length_append, List.length_cons, List.length_append,
      List.length_cons] at hfuel
    have hvalue := hd fuel _ (by omega) (endsNumber_cons (c := ',') (by decide)
      (joined (writeParts ((name', e) :: ps)) ++ '\x7d' :: rest))
    rw [joined_writeParts_cons, List.append_assoc, List.cons_append, List.append_assoc,
      List.cons_append, parts?_writtenText name (by omega), hvalue, rereadParts?]
    obtain ⟨fuel, rfl⟩ := Nat.exists_eq_add_one.2 (show 0 < fuel by omega)
    cases reread? d with
    | none => rfl
    | some first =>
      have hnames' : ((done ++ [(name, first)] ++ (name', e) :: ps).map Prod.fst).Nodup := by
        simpa using hnames
      have hmore := ih (fun part hpart => h part (List.mem_cons_of_mem _ hpart))
        (done ++ [(name, first)]) hnames' fuel (by omega)
      simp only [List.append_assoc, List.singleton_append] at hmore
      change parts? (fuel + 1) (putPart done name first) _ = _
      rw [putPart_of_not_mem (name_not_mem_of_nodup hnames), hmore]
      cases rereadParts? ((name', e) :: ps) <;> rfl

theorem returns_text (s : String) : Returns (.text s) := by
  intro fuel rest hfuel _
  rw [write] at hfuel ⊢
  have hlength := length_lt_writtenText s
  obtain ⟨fuel, rfl⟩ := Nat.exists_eq_add_one.2 (show 0 < fuel by omega)
  rw [toList_writtenText_append]
  change (text? fuel [] _).map _ = _
  rw [text?_writtenText s (by omega)]
  rfl

theorem returns_list {items : List Document} (hsaid : ∀ d ∈ items, IsSaid P d)
    (h : ∀ d ∈ items, Returns d) : Returns (.list items) := by
  intro fuel rest hfuel _
  rw [toList_write_list, List.length_cons, List.length_append, List.length_singleton] at hfuel
  obtain ⟨fuel, rfl⟩ := Nat.exists_eq_add_one.2 (show 0 < fuel by omega)
  rw [toList_write_list, List.cons_append, List.append_assoc, List.singleton_append]
  cases items with
  | nil => rfl
  | cons d ds =>
    obtain ⟨c, cs, hcs, hc⟩ := exists_joined_writeAll (hsaid d List.mem_cons_self) ds
    have hread := items?_write h (show _ < fuel by omega) [] rest
    rw [hcs] at hread ⊢
    rw [reread?, Option.map_map]
    exact (value?_list fuel hc _).trans hread

theorem returns_record {parts : List (String × Document)} (hnames : (parts.map Prod.fst).Nodup)
    (h : ∀ part ∈ parts, Returns part.2) : Returns (.record parts) := by
  intro fuel rest hfuel _
  rw [toList_write_record, List.length_cons, List.length_append, List.length_singleton] at hfuel
  obtain ⟨fuel, rfl⟩ := Nat.exists_eq_add_one.2 (show 0 < fuel by omega)
  rw [toList_write_record, List.cons_append, List.append_assoc, List.singleton_append]
  cases parts with
  | nil => rfl
  | cons part ps =>
    obtain ⟨name, d⟩ := part
    obtain ⟨cs, hcs⟩ := exists_joined_writeParts (name, d) ps
    have hread := parts?_write h (show _ < fuel by omega) [] hnames rest
    rw [hcs] at hread ⊢
    rw [reread?, Option.map_map]
    exact hread

/-- A document reads as its text says, whatever follows. -/
theorem returns {d : Document} (h : IsSaid P d) : Returns d := by
  induction d using Document.induct with
  | null =>
    intro fuel rest hfuel _
    obtain ⟨fuel, rfl⟩ := Nat.exists_eq_add_one.2 (Nat.zero_lt_of_lt hfuel)
    rfl
  | truth b =>
    intro fuel rest hfuel _
    cases b <;> obtain ⟨fuel, rfl⟩ := Nat.exists_eq_add_one.2 (Nat.zero_lt_of_lt hfuel) <;> rfl
  | whole n =>
    intro fuel rest hfuel hrest
    rw [write] at hfuel ⊢
    rw [value?_number (IsNumberText.int n) (toString_ne_nil h) hfuel hrest, number?_toString h]
    rfl
  | real x =>
    intro fuel rest hfuel hrest
    rw [write, if_pos h.1] at hfuel ⊢
    exact value?_number (IsNumberText.number h.1) (IsNumberText.number_ne_nil h.1) hfuel hrest
  | text s => exact returns_text s
  | list items ih =>
    have hitems := isSaid_list.1 h
    exact returns_list hitems fun d hd => ih d hd (hitems d hd)
  | record parts ih =>
    obtain ⟨hnames, hparts⟩ := isSaid_record.1 h
    exact returns_record hnames fun part hpart => ih part hpart (hparts part hpart)

/-- **A text reads as it says.**  If the whole numbers of a document have sixty-four bits, its real
numbers are finite, and no record in it names a part twice, then nothing but its real numbers can
read back as anything else. -/
theorem read?_write_eq {d : Document} (h : IsSaid P d) : read? (write d) = reread? d := by
  have hvalue := returns h ((write d).toList.length + 1) [] (Nat.le_succ _)
    (fun c hc => absurd hc (Option.not_mem_none c))
  rw [List.append_nil] at hvalue
  rw [read?]
  dsimp only
  rw [hvalue]
  cases reread? d <;> rfl

end

/-- Real numbers that read back are all that it takes. -/
theorem reread?_eq_some {d : Document} (h : IsSaid ReadsBack d) : reread? d = some d := by
  induction d using Document.induct with
  | null | truth | whole | text => rfl
  | real x => exact h.2
  | list items ih =>
    have hitems : rereadItems? items = some items := by
      replace h := isSaid_list.1 h
      induction items with
      | nil => rfl
      | cons d ds ihs =>
        rw [List.forall_mem_cons] at h ih
        rw [rereadItems?, ih.1 h.1, ihs ih.2 h.2]
        rfl
    rw [reread?, hitems]
    rfl
  | record parts ih =>
    have hparts : rereadParts? parts = some parts := by
      replace h := (isSaid_record.1 h).2
      induction parts with
      | nil => rfl
      | cons part ps ihs =>
        rw [List.forall_mem_cons] at h ih
        rw [rereadParts?, ih.1 h.1, ihs ih.2 h.2]
        rfl
    rw [reread?, hparts]
    rfl

/-- **What is written reads back.**  The text of a document reads back as the document if its whole
numbers have sixty-four bits, its real numbers read back by themselves, and no record in it names a
part twice. -/
theorem read?_write {d : Document} (h : IsSaid ReadsBack d) : read? (write d) = some d :=
  (read?_write_eq h).trans (reread?_eq_some h)

end Json

end Admission
