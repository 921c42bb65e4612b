import ImapToJmap.Parser.SequenceSet

/-!
# The language of the sequence-set parser

`parse_sequence_set` item by item.  What it has read of an item is one of a few shapes (`Partial`),
and what it makes of a whole item (`ReadText`) depends on one flag that an item can leave behind: a
`$` that stands behind a `*` is remembered, and the next single item is taken for `$`.

`parseSequenceSet_eq_ok_iff`: the texts that are accepted, with the items they are read as
(`Accepts`). `SetText` are the texts that a sequence set should have.
-/

namespace ImapToJmap

open Ascii

/-! ## Texts of items -/

/-- Digits of a number with 32 bits. -/
structure IsNumber (text : Bytes) (n : ℕ) : Prop where
  ne_nil : text ≠ []
  digits : ∀ ch ∈ text, isAsciiDigit ch = true
  value : ofDecimal text = n
  lt : n < 2 ^ 32

/-- An end of a range: a number, or `*`. -/
inductive IsBound : Bytes → Option ℕ → Prop
  | number {text : Bytes} {n : ℕ} : IsNumber text n → IsBound text (some n)
  | star : IsBound [Ascii.star] none

/-- An item of a sequence set. -/
inductive ItemText : Bytes → Sequence → Prop
  | number {text : Bytes} {n : ℕ} : IsNumber text n → ItemText text (.number n)
  | star : ItemText [Ascii.star] (.range none none)
  | range {first last : Bytes} {a b : Option ℕ} : IsBound first a → IsBound last b →
      ItemText (first ++ colon :: last) (.range a b)
  | saved : ItemText [dollar] .savedSearch

/-- Items with commas between them. -/
inductive SetText : Bytes → List Sequence → Prop
  | last {text : Bytes} {item : Sequence} : ItemText text item → SetText text [item]
  | cons {text rest : Bytes} {item : Sequence} {items : List Sequence} : ItemText text item →
      SetText rest items → SetText (text ++ comma :: rest) (item :: items)

/-- What the parser makes of the text of an item, with the flag for `$` before and after it. -/
inductive ReadText : Bool → Bytes → Sequence → Bool → Prop
  | number {text : Bytes} {n : ℕ} : IsNumber text n → ReadText false text (.number n) false
  | /-- After a `$` that is remembered, digits are not looked at. -/
    remembered {text : Bytes} : (∀ ch ∈ text, isAsciiDigit ch = true) →
      ReadText true text .savedSearch false
  | /-- Nor are they in front of a `$`. -/
    saved {flag : Bool} {text : Bytes} : (∀ ch ∈ text, isAsciiDigit ch = true) →
      ReadText flag (text ++ [dollar]) .savedSearch false
  | star {flag : Bool} : ReadText flag [Ascii.star] (.range none none) flag
  | starSaved {flag : Bool} : ReadText flag [Ascii.star, dollar] (.range none none) true
  | range {flag : Bool} {first last : Bytes} {a b : Option ℕ} : IsBound first a → IsBound last b →
      ReadText flag (first ++ colon :: last) (.range a b) flag
  | rangeSaved {flag : Bool} {first : Bytes} {a : Option ℕ} : IsBound first a →
      ReadText flag (first ++ [colon, Ascii.star, dollar]) (.range a none) true

/-- What the parser accepts from the beginning of an item on; a comma may be the last byte. -/
inductive Accepts : Bool → Bytes → List Sequence → Prop
  | nil {flag : Bool} : Accepts flag [] []
  | last {flag flag' : Bool} {text : Bytes} {item : Sequence} : comma ∉ text → text ≠ [] →
      ReadText flag text item flag' → Accepts flag text [item]
  | cons {flag flag' : Bool} {text rest : Bytes} {item : Sequence} {items : List Sequence} :
      comma ∉ text → ReadText flag text item flag' → Accepts flag' rest items →
        Accepts flag (text ++ comma :: rest) (item :: items)

/-- The set of some items. -/
def Sequence.ofItems : List Sequence → Sequence
  | [item] => item
  | items => .list items

section Texts

variable {text : Bytes} {n : ℕ}

theorem unsigned_digits (h : ∀ ch ∈ text, isAsciiDigit ch = true) : unsigned text = text := by
  unfold unsigned
  split
  · rename_i rest
    exact absurd (h plus List.mem_cons_self) (by decide)
  · rfl

/-- Digits are read as the number they stand for. -/
theorem parseNumber_eq_some_iff (h : ∀ ch ∈ text, isAsciiDigit ch = true) :
    parseNumber 32 text = some n ↔ IsNumber text n := by
  rw [parseNumber, unsigned_digits h]
  constructor
  · intro hsome
    split at hsome
    · rename_i hcond
      obtain rfl := Option.some.inj hsome
      exact ⟨hcond.1, h, rfl, hcond.2.2⟩
    · cases hsome
  · rintro ⟨hne, -, rfl, hlt⟩
    rw [if_pos ⟨hne, List.all_eq_true.mpr h, hlt⟩]

theorem notMem_digits {ch : UInt8} (hch : isAsciiDigit ch = false)
    (h : ∀ ch ∈ text, isAsciiDigit ch = true) : ch ∉ text := by
  intro hmem
  rw [h ch hmem] at hch
  cases hch

theorem IsBound.comma_notMem {bound : Option ℕ} (h : IsBound text bound) : comma ∉ text := by
  cases h with
  | number h => exact notMem_digits (by decide) h.digits
  | star => decide

theorem ItemText.comma_notMem {item : Sequence} (h : ItemText text item) : comma ∉ text := by
  cases h with
  | number h => exact notMem_digits (by decide) h.digits
  | star => decide
  | range hfirst hlast =>
      intro hmem
      rcases List.mem_append.mp hmem with hmem | hmem
      · exact hfirst.comma_notMem hmem
      · cases hmem with
        | tail _ hmem => exact hlast.comma_notMem hmem
  | saved => decide

theorem ItemText.ne_nil {item : Sequence} (h : ItemText text item) : text ≠ [] := by
  cases h with
  | number h => exact h.ne_nil
  | star => simp
  | range => simp
  | saved => simp

/-- An item is read as what it is. -/
theorem ItemText.read {item : Sequence} (h : ItemText text item) :
    ReadText false text item false := by
  cases h with
  | number h => exact .number h
  | star => exact .star
  | range hfirst hlast => exact .range hfirst hlast
  | saved =>
      have hnone : ∀ ch ∈ ([] : Bytes), isAsciiDigit ch = true := by simp
      exact .saved hnone

/-- A sequence set is accepted. -/
theorem SetText.accepts {items : List Sequence} (h : SetText text items) :
    Accepts false text items := by
  induction h with
  | last hitem => exact .last hitem.comma_notMem hitem.ne_nil hitem.read
  | cons hitem _ ih => exact .cons hitem.comma_notMem hitem.read ih

end Texts

/-! ## The scan, item by item -/

namespace SequenceParser

variable {value : Bytes} {pos : ℕ} {p : SequenceParser}

/-- The arms of the loop for part of an item. -/
def readAll (value : Bytes) : ℕ → Bytes → SequenceParser → Except SequenceSetError SequenceParser
  | _, [], p => .ok p
  | pos, ch :: text, p => p.read value pos ch >>= readAll value (pos + 1) text

/-- Within an item the loop reads on. -/
theorem scan_item {s rest : Bytes} (hs : comma ∉ s) (hend : pos + s.length < value.length) :
    scan value pos (s ++ rest) p =
      readAll value pos s p >>= scan value (pos + s.length) rest := by
  induction s generalizing pos p with
  | nil => rfl
  | cons ch s ih =>
      obtain ⟨hch, hs'⟩ : comma ≠ ch ∧ comma ∉ s := by simpa using hs
      rw [List.length_cons] at hend
      rw [List.cons_append, scan, step, readAll, List.length_cons]
      cases p.read value pos ch with
      | error e => rfl
      | ok q =>
          have hlast : ((ch == comma) || (pos == value.length - 1)) = false := by
            simp only [Bool.or_eq_false_iff, beq_eq_false_iff_ne]
            exact ⟨hch.symm, by omega⟩
          show (if ((ch == comma) || (pos == value.length - 1)) = true then _ else _) >>= _ = _
          rw [hlast]
          show scan value (pos + 1) (s ++ rest) q = _
          rw [ih hs' (by omega), Nat.add_right_comm, Nat.add_assoc]
          rfl

/-- A comma ends an item. -/
theorem scan_comma (rest : Bytes) : scan value pos (comma :: rest) p =
    p.finish value pos >>= scan value (pos + 1) rest := by
  rw [scan, step]
  rfl

/-- The last byte ends an item. -/
theorem scan_last {s : Bytes} (hs : comma ∉ s) (hne : s ≠ [])
    (hend : pos + s.length = value.length) :
    scan value pos s p = readAll value pos s p >>= finish value value.length := by
  induction s generalizing pos p with
  | nil => exact absurd rfl hne
  | cons ch s ih =>
      obtain ⟨hch, hs'⟩ : comma ≠ ch ∧ comma ∉ s := by simpa using hs
      rw [List.length_cons] at hend
      have hcomma : (ch == comma) = false := by simpa using hch.symm
      rw [scan, step, readAll]
      cases p.read value pos ch with
      | error e => rfl
      | ok q =>
          cases s with
          | nil =>
              have hlast : (pos == value.length - 1) = true := by
                rw [beq_iff_eq]
                rw [List.length_nil] at hend
                omega
              have hpos : pos + 1 = value.length := by simpa using hend
              simp only [bind, Except.bind, hcomma, hlast, Bool.false_or, if_true, hpos,
                Bool.false_eq_true, if_false, readAll, scan]
              cases q.finish value value.length with
              | error e => rfl
              | ok q' => rfl
          | cons ch' s =>
              have hlast : (pos == value.length - 1) = false := by
                rw [List.length_cons] at hend
                rw [beq_eq_false_iff_ne]
                omega
              have hih := @ih (pos + 1) q hs' (List.cons_ne_nil _ _) (by omega)
              simp only [bind, Except.bind, hcomma, hlast, Bool.or_self] at hih ⊢
              exact hih

/-! ## One byte of an item -/

/-- What a byte can do. -/
inductive Reads (value : Bytes) (pos : ℕ) (p : SequenceParser) : UInt8 → SequenceParser → Prop
  | comma : Reads value pos p comma p
  | number {first n : ℕ} : p.isRange = false → p.tokenStart = some first →
      numberAt value first pos = .ok n →
        Reads value pos p colon { p with rangeStart := some n, tokenStart := none, isRange := true }
  | greatest : p.isRange = false → p.tokenStart = none → p.isWildcard = true →
      Reads value pos p colon { p with isWildcard := false, isRange := true }
  | star : p.isWildcard = false → p.tokenStart = none →
      Reads value pos p Ascii.star { p with isWildcard := true }
  | saved : value[pos + 1]?.all (· == Ascii.comma) = true →
      Reads value pos p dollar { p with isSavedSearch := true }
  | digit {ch : UInt8} : isAsciiDigit ch = true → p.isWildcard = false →
      Reads value pos p ch { p with tokenStart := some (p.tokenStart.getD pos) }

theorem read_cases {ch : UInt8} {q : SequenceParser} (h : p.read value pos ch = .ok q) :
    Reads value pos p ch q := by
  unfold read at h
  split at h
  · obtain rfl := Except.ok.inj h
    exact .comma
  · split at h
    · cases h
    · rename_i hrange
      split at h
      · rename_i first hstart
        cases hn : numberAt value first pos with
        | error e =>
            rw [hn] at h
            cases h
        | ok n =>
            rw [hn] at h
            obtain rfl := Except.ok.inj h
            exact .number (Bool.eq_false_iff.mpr hrange) hstart hn
      · rename_i hstart
        split at h
        · rename_i hwild
          obtain rfl := Except.ok.inj h
          exact .greatest (Bool.eq_false_iff.mpr hrange) hstart hwild
        · cases h
  · split at h
    · cases h
    · rename_i hwild
      split at h
      · rename_i hstart
        obtain rfl := Except.ok.inj h
        exact .star (Bool.eq_false_iff.mpr hwild) (Option.isNone_iff_eq_none.mp hstart)
      · cases h
  · split at h
    · rename_i hnext
      obtain rfl := Except.ok.inj h
      exact .saved hnext
    · cases h
  · split at h
    · rename_i hdigit
      split at h
      · cases h
      · rename_i hwild
        obtain rfl := Except.ok.inj h
        exact .digit hdigit (Bool.eq_false_iff.mpr hwild)
    · cases h

theorem read_digit {ch : UInt8} (hch : isAsciiDigit ch = true) (hwild : p.isWildcard = false) :
    p.read value pos ch = .ok { p with tokenStart := some (p.tokenStart.getD pos) } := by
  unfold read
  split
  · exact absurd hch (by decide)
  · exact absurd hch (by decide)
  · exact absurd hch (by decide)
  · exact absurd hch (by decide)
  · rw [if_pos hch, hwild]
    rfl

/-! ## A whole item -/

/-- The loop for the rest of an item. -/
def readItem (value : Bytes) (pos : ℕ) (text : Bytes) (p : SequenceParser) :
    Except SequenceSetError SequenceParser :=
  readAll value pos text p >>= finish value (pos + text.length)

theorem readItem_nil : readItem value pos [] p = p.finish value pos := rfl

theorem readItem_cons (ch : UInt8) (text : Bytes) :
    readItem value pos (ch :: text) p = p.read value pos ch >>= readItem value (pos + 1) text := by
  rw [readItem, readAll, List.length_cons]
  cases p.read value pos ch with
  | error e => rfl
  | ok q =>
      show readAll value (pos + 1) text q >>= finish value (pos + (text.length + 1)) = _
      rw [Nat.add_comm text.length 1, ← Nat.add_assoc]
      rfl

/-- Where a number has begun, when there is one. -/
def numberStart (pos : ℕ) : Bytes → Option ℕ
  | [] => none
  | _ :: _ => some pos

/-- Digits go on with the number that has begun. -/
theorem readItem_more (value : Bytes) (pos : ℕ) {digits : Bytes}
    (hdigits : ∀ ch ∈ digits, isAsciiDigit ch = true)
    (hwild : p.isWildcard = false) {first : ℕ} (hstart : p.tokenStart = some first) (text : Bytes) :
    readItem value pos (digits ++ text) p = readItem value (pos + digits.length) text p := by
  induction digits generalizing pos with
  | nil => rfl
  | cons ch digits ih =>
      obtain ⟨hch, hdigits'⟩ := List.forall_mem_cons.mp hdigits
      have hread : p.read value pos ch = .ok p := by
        rw [read_digit hch hwild, hstart, Option.getD_some, ← hstart]
      rw [List.cons_append, readItem_cons, hread, List.length_cons]
      show readItem value (pos + 1) (digits ++ text) p = _
      rw [ih _ hdigits', Nat.add_right_comm, Nat.add_assoc]

/-- The first digit of a number marks where it begins. -/
theorem readItem_digits (value : Bytes) (pos : ℕ) {digits : Bytes}
    (hdigits : ∀ ch ∈ digits, isAsciiDigit ch = true)
    (hwild : p.isWildcard = false) (hstart : p.tokenStart = none) (text : Bytes) :
    readItem value pos (digits ++ text) p =
      readItem value (pos + digits.length) text
        { p with tokenStart := numberStart pos digits } := by
  cases digits with
  | nil =>
      rw [numberStart, ← hstart]
      rfl
  | cons ch digits =>
      obtain ⟨hch, hdigits'⟩ := List.forall_mem_cons.mp hdigits
      rw [List.cons_append, readItem_cons, read_digit hch hwild, hstart, List.length_cons]
      show readItem value (pos + 1) (digits ++ text) { p with tokenStart := some pos } = _
      have hmore := readItem_more value (pos + 1) (p := { p with tokenStart := some pos }) hdigits'
        hwild rfl text
      rw [hmore, Nat.add_right_comm, Nat.add_assoc]
      rfl

/-- The digits at the beginning of a text. -/
theorem exists_digits (text : Bytes) : ∃ digits rest, text = digits ++ rest ∧
    (∀ ch ∈ digits, isAsciiDigit ch = true) ∧ ∀ ch ∈ rest.head?, isAsciiDigit ch = false := by
  refine ⟨text.takeWhile isAsciiDigit, text.dropWhile isAsciiDigit,
    (List.takeWhile_append_dropWhile).symm, fun ch hch ↦ List.mem_takeWhile_imp hch, ?_⟩
  intro ch hch
  have hne : text.dropWhile isAsciiDigit ≠ [] := by
    intro hnil
    rw [hnil] at hch
    cases hch
  have hhead := List.head_dropWhile_not isAsciiDigit hne
  rw [List.head?_eq_some_head hne] at hch
  cases hch
  exact hhead

/-- The number that stands somewhere in the value. -/
theorem numberAt_eq_ok_iff {s text t : Bytes} {n : ℕ} (hvalue : value = s ++ (text ++ t)) :
    numberAt value s.length (s.length + text.length) = .ok n ↔ parseNumber 32 text = some n := by
  have hslice : (value.take (s.length + text.length)).drop s.length = text := by
    rw [hvalue, ← List.append_assoc, ← List.length_append, List.take_left, List.drop_left]
  have hle : s.length + text.length ≤ value.length := by
    rw [hvalue, List.length_append, List.length_append]
    omega
  rw [numberAt, if_pos ⟨Nat.le_add_right _ _, hle⟩, hslice]
  cases parseNumber 32 text with
  | none => simp
  | some m => simp

section Numbers

variable {s digits t : Bytes} {n : ℕ}

/-- The number that the digits behind a position stand for. -/
theorem numberFrom_eq_ok_iff (hvalue : value = s ++ (digits ++ t))
    (hdigits : ∀ ch ∈ digits, isAsciiDigit ch = true) :
    numberFrom value (numberStart s.length digits) (s.length + digits.length) = .ok n ↔
      IsNumber digits n := by
  rw [← parseNumber_eq_some_iff hdigits]
  cases digits with
  | nil =>
      constructor
      · intro h
        cases h
      · intro h
        cases h
  | cons ch digits => exact numberAt_eq_ok_iff hvalue

/-- Digits with a `$` behind them are no number. -/
theorem numberFrom_saved (hvalue : value = s ++ (digits ++ dollar :: t))
    (hdigits : ∀ ch ∈ digits, isAsciiDigit ch = true) :
    numberFrom value (numberStart s.length digits) (s.length + (digits.length + 1)) ≠ .ok n := by
  cases digits with
  | nil =>
      intro h
      cases h
  | cons ch digits =>
      have hvalue' : value = s ++ ((ch :: digits ++ [dollar]) ++ t) := by
        rw [hvalue, List.append_assoc (ch :: digits)]
        rfl
      have hlength : (ch :: digits).length + 1 = (ch :: digits ++ [dollar]).length := by simp
      intro h
      rw [hlength] at h
      have hsome := (numberAt_eq_ok_iff hvalue').mp h
      have hne : ch ≠ plus := by
        rintro rfl
        exact absurd (hdigits plus List.mem_cons_self) (by decide)
      have hunsigned : unsigned (ch :: digits ++ [dollar]) = ch :: digits ++ [dollar] := by
        unfold unsigned
        split
        · rename_i rest heq
          exact absurd (List.cons.inj heq).1 hne
        · rfl
      rw [parseNumber, hunsigned] at hsome
      split at hsome
      · rename_i hcond
        have hall := List.all_eq_true.mp hcond.2.1 dollar (by simp)
        exact absurd hall (by decide)
      · cases hsome

end Numbers

/-! ## What is read is a text -/

section Sound

variable {s text r : Bytes} {q : SequenceParser}

/-- Behind a `$` an item ends. -/
theorem saved_last (hvalue : value = s ++ (dollar :: text ++ r)) (hcomma : comma ∉ text)
    (h : value[s.length + 1]?.all (· == comma) = true) : text = [] := by
  cases text with
  | nil => rfl
  | cons ch text =>
      have hnext : value[s.length + 1]? = some ch := by
        rw [hvalue, List.getElem?_append_right (Nat.le_add_right _ _), Nat.add_sub_cancel_left]
        rfl
      rw [hnext] at h
      have hch : ch = comma := by simpa using h
      rw [hch] at hcomma
      exact absurd List.mem_cons_self hcomma

/-- An item whose last byte has been `*`. -/
theorem readItem_wildcard (hvalue : value = s ++ (text ++ r)) (hcomma : comma ∉ text)
    (hwild : p.isWildcard = true) (hstart : p.tokenStart = none)
    (h : readItem value s.length text p = .ok q) :
    (text = [] ∧ p.finish value s.length = .ok q) ∨
    (text = [dollar] ∧
      ({ p with isSavedSearch := true } : SequenceParser).finish value (s.length + 1) =
      .ok q) ∨
    ∃ text', text = colon :: text' ∧ p.isRange = false ∧
      readItem value (s.length + 1) text' { p with isWildcard := false, isRange := true } =
        .ok q := by
  cases text with
  | nil => exact .inl ⟨rfl, h⟩
  | cons ch text =>
      rw [readItem_cons] at h
      cases hread : p.read value s.length ch with
      | error e =>
          rw [hread] at h
          cases h
      | ok p' =>
          rw [hread] at h
          change readItem value (s.length + 1) text p' = .ok q at h
          cases read_cases hread with
          | comma => exact absurd List.mem_cons_self hcomma
          | number _ hsome _ =>
              rw [hstart] at hsome
              cases hsome
          | greatest hrange _ _ => exact .inr (.inr ⟨text, rfl, hrange, h⟩)
          | star hwild' _ =>
              rw [hwild] at hwild'
              cases hwild'
          | saved hnext =>
              obtain rfl := saved_last hvalue
                (fun hmem ↦ hcomma (List.mem_cons_of_mem _ hmem)) hnext
              exact .inr (.inl ⟨rfl, h⟩)
          | digit _ hwild' =>
              rw [hwild] at hwild'
              cases hwild'

/-- An item behind its colon. -/
theorem readItem_range {xs : List Sequence} {flag : Bool} {a : Option ℕ}
    (hvalue : value = s ++ (text ++ r)) (hcomma : comma ∉ text)
    (h : readItem value s.length text
      { sequenceSet := xs, rangeStart := a, isRange := true, isSavedSearch := flag } = .ok q) :
    (∃ b, IsBound text b ∧ q = { sequenceSet := xs ++ [.range a b], isSavedSearch := flag }) ∨
    (text = [Ascii.star, dollar] ∧
      q = { sequenceSet := xs ++ [.range a none], isSavedSearch := true }) := by
  obtain ⟨digits, rest, rfl, hdigits, hrest⟩ := exists_digits text
  rw [readItem_digits _ _ hdigits rfl rfl] at h
  cases rest with
  | nil =>
      rw [List.append_nil] at hvalue
      rw [List.append_nil]
      change (numberFrom value (numberStart s.length digits) (s.length + digits.length) >>= _) =
        _ at h
      cases hn : numberFrom value (numberStart s.length digits) (s.length + digits.length) with
      | error e =>
          rw [hn] at h
          cases h
      | ok n =>
          rw [hn] at h
          obtain rfl := Except.ok.inj h
          exact .inl ⟨some n, .number ((numberFrom_eq_ok_iff hvalue hdigits).mp hn), rfl⟩
  | cons ch rest =>
      have hcomma' : comma ∉ ch :: rest := fun hmem ↦ hcomma (List.mem_append_right _ hmem)
      have hch : isAsciiDigit ch = false := hrest ch rfl
      have hvalue' : value = (s ++ digits) ++ (ch :: rest ++ r) := by
        rw [hvalue]
        simp
      rw [← List.length_append, readItem_cons] at h
      generalize hp : ({
        sequenceSet := xs, rangeStart := a, tokenStart := numberStart s.length digits,
          isRange := true,
        isSavedSearch := flag } : SequenceParser) = p at h
      cases hread : p.read value (s ++ digits).length ch with
      | error e =>
          rw [hread] at h
          cases h
      | ok p' =>
          rw [hread] at h
          change readItem value ((s ++ digits).length + 1) rest p' = .ok q at h
          cases read_cases hread with
          | comma => exact absurd List.mem_cons_self hcomma'
          | number hrange _ _ =>
              rw [← hp] at hrange
              cases hrange
          | greatest hrange _ _ =>
              rw [← hp] at hrange
              cases hrange
          | star _ hstart =>
              cases digits with
              | cons ch digits =>
                  rw [← hp] at hstart
                  cases hstart
              | nil =>
                  have hlength : (s ++ []).length + 1 = (s ++ [Ascii.star]).length := by simp
                  rw [hlength] at h
                  have hvalue'' : value = (s ++ [Ascii.star]) ++ (rest ++ r) := by
                    rw [hvalue]
                    simp
                  obtain ⟨rfl, hq⟩ | ⟨rfl, hq⟩ | ⟨_, -, hrange, -⟩ :=
                    readItem_wildcard hvalue''
                      (fun hmem ↦ hcomma' (List.mem_cons_of_mem _ hmem)) rfl
                      (by exact hstart) h
                  · subst hp
                    obtain rfl := Except.ok.inj hq
                    exact .inl ⟨none, .star, rfl⟩
                  · subst hp
                    obtain rfl := Except.ok.inj hq
                    exact .inr ⟨rfl, rfl⟩
                  · rw [← hp] at hrange
                    cases hrange
          | saved hnext =>
              obtain rfl := saved_last hvalue'
                (fun hmem ↦ hcomma' (List.mem_cons_of_mem _ hmem)) hnext
              subst hp
              rw [List.length_append, Nat.add_assoc] at h
              change (numberFrom value (numberStart s.length digits)
                (s.length + (digits.length + 1)) >>= _) = _ at h
              cases hn : numberFrom value (numberStart s.length digits)
                (s.length + (digits.length + 1)) with
              | error e =>
                  rw [hn] at h
                  cases h
              | ok n =>
                  refine absurd hn (numberFrom_saved (t := r) ?_ hdigits)
                  rw [hvalue]
                  simp
          | digit hdigit _ =>
              rw [hch] at hdigit
              cases hdigit

/-- **What is read as an item is the text of one.** -/
theorem readItem_sound {xs : List Sequence} {flag : Bool} (hvalue : value = s ++ (text ++ r))
    (hcomma : comma ∉ text)
    (h : readItem value s.length text { sequenceSet := xs, isSavedSearch := flag } = .ok q) :
    ∃ item flag', ReadText flag text item flag' ∧
      q = { sequenceSet := xs ++ [item], isSavedSearch := flag' } := by
  obtain ⟨digits, rest, rfl, hdigits, hrest⟩ := exists_digits text
  rw [readItem_digits _ _ hdigits rfl rfl] at h
  cases rest with
  | nil =>
      rw [List.append_nil] at hvalue
      rw [List.append_nil]
      cases flag with
      | true =>
          obtain rfl := Except.ok.inj h
          exact ⟨.savedSearch, false, .remembered hdigits, rfl⟩
      | false =>
          change (numberFrom value (numberStart s.length digits) (s.length + digits.length) >>= _) =
            _
            at h
          cases hn : numberFrom value (numberStart s.length digits) (s.length + digits.length) with
          | error e =>
              rw [hn] at h
              cases h
          | ok n =>
              rw [hn] at h
              obtain rfl := Except.ok.inj h
              exact ⟨.number n, false, .number ((numberFrom_eq_ok_iff hvalue hdigits).mp hn), rfl⟩
  | cons ch rest =>
      have hcomma' : comma ∉ ch :: rest := fun hmem ↦ hcomma (List.mem_append_right _ hmem)
      have hcomma'' : comma ∉ rest := fun hmem ↦ hcomma' (List.mem_cons_of_mem _ hmem)
      have hch : isAsciiDigit ch = false := hrest ch rfl
      have hvalue' : value = (s ++ digits) ++ (ch :: rest ++ r) := by
        rw [hvalue]
        simp
      have hlength : (s ++ digits).length + 1 =
        (s ++ digits ++ [ch]).length := by simp [Nat.add_assoc]
      have hvalue'' : value = (s ++ digits ++ [ch]) ++ (rest ++ r) := by
        rw [hvalue]
        simp
      rw [← List.length_append, readItem_cons] at h
      generalize hp : ({
        sequenceSet := xs, tokenStart := numberStart s.length digits,
        isSavedSearch := flag } : SequenceParser) = p at h
      cases hread : p.read value (s ++ digits).length ch with
      | error e =>
          rw [hread] at h
          cases h
      | ok p' =>
          rw [hread] at h
          change readItem value ((s ++ digits).length + 1) rest p' = .ok q at h
          cases read_cases hread with
          | comma => exact absurd List.mem_cons_self hcomma'
          | @number first n _ hstart hn =>
              have hfirst : numberFrom value (numberStart s.length digits)
                (s.length + digits.length) =
                  .ok n := by
                have hstart' : numberStart s.length digits = some first := by
                  rw [← hp] at hstart
                  exact hstart
                rw [hstart', ← List.length_append]
                exact hn
              have hbound : IsBound digits (some n) :=
                .number ((numberFrom_eq_ok_iff (by rw [hvalue, List.append_assoc]) hdigits).mp
                  hfirst)
              subst hp
              rw [hlength] at h
              obtain ⟨b, hlast, rfl⟩ | ⟨rfl, rfl⟩ := readItem_range hvalue'' hcomma'' h
              · exact ⟨.range (some n) b, flag, .range hbound hlast, rfl⟩
              · exact ⟨.range (some n) none, true, .rangeSaved hbound, rfl⟩
          | greatest _ _ hwild =>
              rw [← hp] at hwild
              cases hwild
          | star _ hstart =>
              cases digits with
              | cons ch digits =>
                  rw [← hp] at hstart
                  cases hstart
              | nil =>
                  rw [hlength] at h
                  obtain ⟨rfl, hq⟩ | ⟨rfl, hq⟩ | ⟨text, rfl, -, hq⟩ :=
                    readItem_wildcard hvalue'' hcomma'' rfl (by exact hstart) h
                  · subst hp
                    obtain rfl := Except.ok.inj hq
                    exact ⟨.range none none, flag, .star, rfl⟩
                  · subst hp
                    obtain rfl := Except.ok.inj hq
                    exact ⟨.range none none, true, .starSaved, rfl⟩
                  · subst hp
                    have hlength' : (s ++ [] ++ [Ascii.star]).length + 1 =
                        (s ++ [Ascii.star, colon]).length := by simp
                    rw [hlength'] at hq
                    have hvalue''' : value = (s ++ [Ascii.star, colon]) ++ (text ++ r) := by
                      rw [hvalue]
                      simp
                    obtain ⟨b, hlast, rfl⟩ | ⟨rfl, rfl⟩ := readItem_range hvalue'''
                      (fun hmem ↦ hcomma'' (List.mem_cons_of_mem _ hmem)) hq
                    · exact ⟨.range none b, flag, .range .star hlast, rfl⟩
                    · exact ⟨.range none none, true, .rangeSaved .star, rfl⟩
          | saved hnext =>
              obtain rfl := saved_last hvalue' hcomma'' hnext
              subst hp
              obtain rfl := Except.ok.inj h
              exact ⟨.savedSearch, false, .saved hdigits, rfl⟩
          | digit hdigit _ =>
              rw [hch] at hdigit
              cases hdigit

end Sound

/-! ## Every such text is read -/

section Complete

variable {s first last r : Bytes} {xs : List Sequence} {flag : Bool} {a b : Option ℕ}

/-- A `$` at the end of an item. -/
theorem read_saved (hvalue : value = s ++ dollar :: r) (hr : r.head?.all (· == comma) = true) :
    p.read value s.length dollar = .ok { p with isSavedSearch := true } := by
  have hnext : value[s.length + 1]? = r.head? := by
    rw [hvalue, List.getElem?_append_right (Nat.le_add_right _ _), Nat.add_sub_cancel_left,
      List.getElem?_cons_succ, List.head?_eq_getElem?]
  show (if value[s.length + 1]?.all (· == comma) = true then _ else _) = _
  rw [hnext, if_pos hr]

/-- The first end of a range, with its colon. -/
theorem readItem_first (h : IsBound first a) (hvalue : value = s ++ (first ++ r)) (text : Bytes) :
    readItem value s.length (first ++ colon :: text)
        { sequenceSet := xs, isSavedSearch := flag } =
      readItem value (s.length + first.length + 1) text
        { sequenceSet := xs, rangeStart := a, isRange := true, isSavedSearch := flag } := by
  cases h with
  | @number first n hn =>
      have hread : numberFrom value (numberStart s.length first) (s.length + first.length) =
        .ok n :=
        (numberFrom_eq_ok_iff hvalue hn.digits).mpr hn
      obtain ⟨ch, digits, rfl⟩ := List.exists_cons_of_ne_nil hn.ne_nil
      change numberAt value s.length (s.length + (ch :: digits).length) = .ok n at hread
      rw [readItem_digits _ _ hn.digits rfl rfl, readItem_cons]
      show (numberAt value s.length (s.length + (ch :: digits).length) >>= _) >>= _ = _
      rw [hread]
      rfl
  | star =>
      show readItem value s.length (Ascii.star :: colon :: text) _ = _
      rw [readItem_cons]
      show readItem value (s.length + 1) (colon :: text) _ = _
      rw [readItem_cons]
      rfl

/-- The last end of a range. -/
theorem readItem_last (h : IsBound last b) (hvalue : value = s ++ (last ++ r)) :
    readItem value s.length last
        { sequenceSet := xs, rangeStart := a, isRange := true, isSavedSearch := flag } =
      .ok { sequenceSet := xs ++ [.range a b], isSavedSearch := flag } := by
  cases h with
  | @number _ n hn =>
      have hread : numberFrom value (numberStart s.length last) (s.length + last.length) = .ok n :=
        (numberFrom_eq_ok_iff hvalue hn.digits).mpr hn
      have hitem := readItem_digits value s.length
        (p := { sequenceSet := xs, rangeStart := a, isRange := true, isSavedSearch := flag })
        hn.digits rfl rfl []
      rw [List.append_nil] at hitem
      rw [hitem, readItem_nil]
      show (numberFrom value (numberStart s.length last) (s.length + last.length) >>= _) = _
      rw [hread]
      rfl
  | star => rfl

/-- **Every text of an item is read.** -/
theorem readItem_complete {text : Bytes} {item : Sequence} {flag' : Bool}
    (h : ReadText flag text item flag') (hvalue : value = s ++ (text ++ r))
    (hr : r.head?.all (· == comma) = true) :
    readItem value s.length text { sequenceSet := xs, isSavedSearch := flag } =
      .ok { sequenceSet := xs ++ [item], isSavedSearch := flag' } := by
  cases h with
  | @number _ n hn =>
      have hread : numberFrom value (numberStart s.length text) (s.length + text.length) = .ok n :=
        (numberFrom_eq_ok_iff hvalue hn.digits).mpr hn
      have hitem := readItem_digits value s.length
        (p := { sequenceSet := xs }) hn.digits rfl rfl []
      rw [List.append_nil] at hitem
      rw [hitem, readItem_nil]
      show (numberFrom value (numberStart s.length text) (s.length + text.length) >>= _) = _
      rw [hread]
      rfl
  | remembered hdigits =>
      have hitem := readItem_digits value s.length
        (p := { sequenceSet := xs, isSavedSearch := true }) hdigits rfl rfl []
      rw [List.append_nil] at hitem
      rw [hitem]
      rfl
  | @saved _ digits hdigits =>
      have hvalue' : value = (s ++ digits) ++ dollar :: r := by
        rw [hvalue]
        simp
      rw [readItem_digits _ _ hdigits rfl rfl, ← List.length_append, readItem_cons,
        read_saved hvalue' hr]
      rfl
  | star => rfl
  | starSaved =>
      have hvalue' : value = (s ++ [Ascii.star]) ++ dollar :: r := by
        rw [hvalue]
        simp
      have hlength : s.length + 1 = (s ++ [Ascii.star]).length := by simp
      rw [readItem_cons]
      show readItem value (s.length + 1) [dollar] _ = _
      rw [readItem_cons, hlength, read_saved hvalue' hr]
      rfl
  | @range _ first last a b hfirst hlast =>
      have hvalue' : value = (s ++ first ++ [colon]) ++ (last ++ r) := by
        rw [hvalue]
        simp
      have hlength : s.length + first.length + 1 = (s ++ first ++ [colon]).length := by
        simp [Nat.add_assoc]
      rw [readItem_first hfirst (r := colon :: last ++ r) (by rw [hvalue, List.append_assoc]),
        hlength,
        readItem_last hlast hvalue']
  | @rangeSaved _ first a hfirst =>
      have hvalue' : value = (s ++ first ++ [colon, Ascii.star]) ++ dollar :: r := by
        rw [hvalue]
        simp
      have hlength : s.length + first.length + 1 + 1 =
        (s ++ first ++ [colon, Ascii.star]).length := by
        simp [Nat.add_assoc]
      rw [readItem_first hfirst (r := [colon, Ascii.star, dollar] ++ r)
        (by rw [hvalue, List.append_assoc]), readItem_cons]
      show readItem value (s.length + first.length + 1 + 1) [dollar] _ = _
      rw [readItem_cons, hlength, read_saved hvalue' hr]
      rfl

end Complete

/-! ## A whole set -/

section Sets

variable {s text : Bytes} {items : List Sequence} {flag : Bool} {q : SequenceParser}

/-- An item and the comma behind it. -/
theorem scan_cons {rest : Bytes} (hcomma : comma ∉ text)
    (hvalue : value = s ++ (text ++ comma :: rest)) :
    scan value s.length (text ++ comma :: rest) p =
      readItem value s.length text p >>=
        scan value (s ++ text ++ [comma]).length rest := by
  have hend : s.length + text.length < value.length := by
    rw [hvalue, List.length_append, List.length_append, List.length_cons]
    omega
  have hlength : (s ++ text ++ [comma]).length = s.length + text.length + 1 := by
    simp [Nat.add_assoc]
  rw [scan_item hcomma hend, readItem, hlength]
  cases readAll value s.length text p with
  | error e => rfl
  | ok q => exact scan_comma rest

/-- The last item. -/
theorem scan_readItem (hcomma : comma ∉ text) (hne : text ≠ []) (hvalue : value = s ++ text) :
    scan value s.length text p = readItem value s.length text p := by
  have hend : s.length + text.length = value.length := by rw [hvalue, List.length_append]
  rw [scan_last hcomma hne hend, readItem, hend]

theorem scan_sound (xs : List Sequence) (hvalue : value = s ++ text)
    (h : scan value s.length text { sequenceSet := xs, isSavedSearch := flag } = .ok q) :
    ∃ items, Accepts flag text items ∧ q.sequenceSet = xs ++ items := by
  induction hn : text.length using Nat.strong_induction_on generalizing s text xs flag with
  | _ n ih =>
      by_cases hmem : comma ∈ text
      · obtain ⟨item, rest, rfl, hcomma⟩ := List.eq_append_cons_of_mem hmem
        rw [scan_cons hcomma hvalue] at h
        cases hread : readItem value s.length item { sequenceSet := xs, isSavedSearch := flag } with
        | error e =>
            rw [hread] at h
            cases h
        | ok p =>
            rw [hread] at h
            obtain ⟨x, flag', hx, rfl⟩ := readItem_sound hvalue hcomma hread
            have hlt : rest.length < n := by
              rw [← hn, List.length_append, List.length_cons]
              omega
            obtain ⟨items, hitems, hq⟩ := ih rest.length hlt (xs ++ [x])
              (by rw [hvalue]; simp) h rfl
            refine ⟨x :: items, .cons hcomma hx hitems, ?_⟩
            rw [hq, List.append_assoc]
            rfl
      · by_cases hne : text = []
        · subst hne
          obtain rfl := Except.ok.inj h
          exact ⟨[], .nil, (List.append_nil _).symm⟩
        · rw [scan_readItem hmem hne hvalue] at h
          rw [← List.append_nil text] at hvalue
          obtain ⟨x, flag', hx, rfl⟩ := readItem_sound hvalue hmem h
          exact ⟨[x], .last hmem hne hx, rfl⟩

theorem scan_complete (xs : List Sequence) (h : Accepts flag text items)
    (hvalue : value = s ++ text) :
    ∃ q, scan value s.length text { sequenceSet := xs, isSavedSearch := flag } = .ok q ∧
      q.sequenceSet = xs ++ items := by
  induction h generalizing s xs with
  | nil => exact ⟨_, rfl, (List.append_nil _).symm⟩
  | @last flag flag' text item hcomma hne hitem =>
      have hvalue' : value = s ++ (text ++ []) := by rw [hvalue, List.append_nil]
      rw [scan_readItem hcomma hne hvalue, readItem_complete hitem hvalue' rfl]
      exact ⟨_, rfl, rfl⟩
  | @cons flag flag' text rest item items hcomma hitem _ ih =>
      obtain ⟨q, hq, hset⟩ := @ih (s ++ text ++ [comma]) (xs ++ [item]) (by rw [hvalue]; simp)
      rw [scan_cons hcomma hvalue, readItem_complete hitem hvalue rfl]
      refine ⟨q, hq, ?_⟩
      rw [hset, List.append_assoc]
      rfl

end Sets

end SequenceParser

/-- What is returned for the items that have been read. -/
theorem finish_eq_ok_iff {items : List Sequence} {set : Sequence} :
    (match items with
      | [] => Except.error SequenceSetError.empty
      | [item] => Except.ok item
      | items => Except.ok (Sequence.list items)) = .ok set ↔
      items ≠ [] ∧ set = .ofItems items := by
  cases items with
  | nil => simp
  | cons item items =>
      cases items with
      | nil => simp [Sequence.ofItems, eq_comm]
      | cons next items => simp [Sequence.ofItems, eq_comm]

/-- **The texts that are accepted**, and what they are read as. -/
theorem parseSequenceSet_eq_ok_iff {value : Bytes} {set : Sequence} :
    parseSequenceSet value = .ok set ↔
      ∃ items, items ≠ [] ∧ Accepts false value items ∧ set = .ofItems items := by
  have hscan : parseSequenceSet value = .ok set ↔
      ∃ p, SequenceParser.scan value 0 value {} = .ok p ∧ p.sequenceSet ≠ [] ∧
        set = .ofItems p.sequenceSet := by
    rw [parseSequenceSet]
    split
    · rename_i hstar
      -- a `*` that is all of the value is the item it would be read as
      subst hstar
      have hread : SequenceParser.scan [Ascii.star] 0 [Ascii.star] {} =
          .ok { sequenceSet := [.range none none] } := rfl
      rw [hread]
      constructor
      · intro h
        obtain rfl := Except.ok.inj h
        exact ⟨_, rfl, List.cons_ne_nil _ _, rfl⟩
      · rintro ⟨p, hp, -, rfl⟩
        obtain rfl := Except.ok.inj hp
        rfl
    · cases SequenceParser.scan value 0 value {} with
      | error e =>
          constructor
          · intro h
            cases h
          · rintro ⟨p, hp, -⟩
            cases hp
      | ok p =>
          refine finish_eq_ok_iff.trans ?_
          constructor
          · exact fun h ↦ ⟨p, rfl, h⟩
          · rintro ⟨p', hp', h⟩
            obtain rfl := Except.ok.inj hp'
            exact h
  rw [hscan]
  constructor
  · rintro ⟨p, hp, hne, rfl⟩
    obtain ⟨items, hitems, hset⟩ := SequenceParser.scan_sound (s := []) [] rfl hp
    rw [List.nil_append] at hset
    exact ⟨items, hset ▸ hne, hitems, by rw [hset]⟩
  · rintro ⟨items, hne, hitems, rfl⟩
    obtain ⟨p, hp, hset⟩ := SequenceParser.scan_complete (s := []) [] hitems rfl
    rw [List.nil_append] at hset
    exact ⟨p, hp, hset ▸ hne, by rw [hset]⟩

/-- **Every sequence set is accepted**, item by item. -/
theorem SetText.parse {value : Bytes} {items : List Sequence} (h : SetText value items) :
    parseSequenceSet value = .ok (.ofItems items) := by
  refine parseSequenceSet_eq_ok_iff.mpr ⟨items, ?_, h.accepts, rfl⟩
  cases h with
  | last => exact List.cons_ne_nil _ _
  | cons => exact List.cons_ne_nil _ _

/-! ## Sets that are misread -/

/-- A comma does not end the value, and every `$` begins an item. -/
structure WellPlaced (value : Bytes) : Prop where
  last : value.getLast? ≠ some comma
  saved : ∀ s t, value = s ++ dollar :: t → s.getLast?.all (· == comma) = true

section Placed

variable {text rest value : Bytes} {item : Sequence} {items : List Sequence}

theorem dollar_notMem_bound {bound : Option ℕ} (h : IsBound text bound) : dollar ∉ text := by
  cases h with
  | number h => exact notMem_digits (by decide) h.digits
  | star => decide

/-- A `$` is an item of its own. -/
theorem ItemText.saved_first (h : ItemText text item) {s t : Bytes}
    (heq : text = s ++ dollar :: t) :
    s = [] := by
  have hmem : dollar ∈ text := by
    rw [heq]
    exact List.mem_append_right _ List.mem_cons_self
  cases h with
  | number h => exact absurd hmem (notMem_digits (by decide) h.digits)
  | star => exact absurd hmem (by decide)
  | range hfirst hlast =>
      rcases List.mem_append.mp hmem with hmem | hmem
      · exact absurd hmem (dollar_notMem_bound hfirst)
      · cases hmem with
        | tail _ hmem => exact absurd hmem (dollar_notMem_bound hlast)
  | saved =>
      cases s with
      | nil => rfl
      | cons ch s => simp at heq

theorem getLast?_ne_comma (h : comma ∉ text) : text.getLast? ≠ some comma := by
  intro hlast
  exact h (List.mem_of_getLast? hlast)

/-- Behind a comma a value ends as what is behind it does. -/
theorem getLast?_append_comma (text : Bytes) (hne : rest ≠ []) :
    (text ++ comma :: rest).getLast? = rest.getLast? := by
  rw [List.getLast?_append_of_ne_nil _ (List.cons_ne_nil _ _), List.getLast?_cons_of_ne_nil hne]

theorem SetText.ne_nil (h : SetText text items) : text ≠ [] := by
  cases h with
  | last h => exact h.ne_nil
  | cons => simp

theorem SetText.wellPlaced (h : SetText value items) : WellPlaced value := by
  induction h with
  | last h =>
      refine ⟨getLast?_ne_comma h.comma_notMem, fun s t heq ↦ ?_⟩
      rw [h.saved_first heq]
      rfl
  | @cons text rest item items h hrest ih =>
      constructor
      · rw [getLast?_append_comma _ hrest.ne_nil]
        exact ih.last
      · intro s t heq
        rcases List.append_eq_append_iff.mp heq with ⟨u, rfl, hu⟩ | ⟨u, rfl, hu⟩
        · cases u with
          | nil => cases hu
          | cons ch u =>
              obtain ⟨rfl, hrest'⟩ := List.cons.inj hu
              cases u with
              | nil => simp
              | cons ch u =>
                  have hall := ih.saved (ch :: u) t hrest'
                  rw [getLast?_append_comma _ (List.cons_ne_nil _ _)]
                  exact hall
        · cases u with
          | nil => cases hu
          | cons ch u =>
              obtain ⟨rfl, rfl⟩ := List.cons.inj hu
              rw [h.saved_first rfl]
              rfl

/-- A text that is read as an item is one when no `$` is in its way. -/
theorem ReadText.itemText {flag : Bool} (h : ReadText false text item flag)
    (hsaved : ∀ s t, text = s ++ dollar :: t → s = []) : ItemText text item ∧ flag = false := by
  cases h with
  | number h => exact ⟨.number h, rfl⟩
  | @saved _ digits _ =>
      obtain rfl := hsaved digits [] rfl
      exact ⟨.saved, rfl⟩
  | star => exact ⟨.star, rfl⟩
  | starSaved => cases hsaved [Ascii.star] [] rfl
  | range hfirst hlast => exact ⟨.range hfirst hlast, rfl⟩
  | @rangeSaved _ first _ hfirst =>
      have hnil := hsaved (first ++ [colon, Ascii.star]) [] (by simp)
      simp at hnil

theorem Accepts.setText {flag : Bool} (h : Accepts flag value items) (hflag : flag = false)
    (hplaced : WellPlaced value) (hne : value ≠ []) : SetText value items := by
  induction h with
  | nil => exact absurd rfl hne
  | @last flag flag' text item hcomma _ hitem =>
      subst hflag
      refine .last (hitem.itemText fun s t heq ↦ ?_).1
      have hall := hplaced.saved s t heq
      cases hlast : s.getLast? with
      | none => exact List.getLast?_eq_none_iff.mp hlast
      | some ch =>
          rw [hlast] at hall
          obtain rfl : ch = comma := by simpa using hall
          refine absurd (heq ▸ List.mem_append_left _ (List.mem_of_getLast? hlast)) hcomma
  | @cons flag flag' text rest item items hcomma hitem _ ih =>
      subst hflag
      have hrest : rest ≠ [] := by
        rintro rfl
        exact hplaced.last (by simp)
      have hfirst : ItemText text item ∧ flag' = false := by
        refine hitem.itemText fun s t heq ↦ ?_
        have hall := hplaced.saved s (t ++ comma :: rest) (by rw [heq]; simp)
        cases hlast : s.getLast? with
        | none => exact List.getLast?_eq_none_iff.mp hlast
        | some ch =>
            rw [hlast] at hall
            obtain rfl : ch = comma := by simpa using hall
            refine absurd (heq ▸ List.mem_append_left _ (List.mem_of_getLast? hlast)) hcomma
      refine .cons hfirst.1 (ih hfirst.2 ⟨?_, ?_⟩ hrest)
      · rw [← getLast?_append_comma text hrest]
        exact hplaced.last
      · intro s t heq
        have hall := hplaced.saved (text ++ comma :: s) t (by rw [heq]; simp)
        by_cases hs : s = []
        · rw [hs]
          rfl
        · rwa [getLast?_append_comma _ hs] at hall

end Placed

/-- What is accepted is a sequence set, and read item by item. -/
def ReadsItems (value : Bytes) : Prop := ∀ set, parseSequenceSet value = .ok set →
  ∃ items, SetText value items ∧ set = .ofItems items

/-- **Which values are not misread**: those with every `$` at the beginning of an item and without a
comma at their end, and those that the parser does not accept in any case. -/
theorem readsItems_iff {value : Bytes} : ReadsItems value ↔
    WellPlaced value ∨ ¬∃ items, items ≠ [] ∧ Accepts false value items := by
  constructor
  · intro h
    by_cases hacc : ∃ items, items ≠ [] ∧ Accepts false value items
    · obtain ⟨items, hne, hitems⟩ := hacc
      obtain ⟨items', htext, -⟩ := h _ (parseSequenceSet_eq_ok_iff.mpr ⟨items, hne, hitems, rfl⟩)
      exact .inl htext.wellPlaced
    · exact .inr hacc
  · intro h set hset
    obtain ⟨items, hne, hitems, rfl⟩ := parseSequenceSet_eq_ok_iff.mp hset
    rcases h with hplaced | hrejected
    · refine ⟨items, hitems.setText rfl hplaced ?_, rfl⟩
      intro hnil
      generalize false = flag at hitems
      cases hitems with
      | nil => exact hne rfl
      | last _ hne' _ => exact hne' hnil
      | cons => simp at hnil
    · exact absurd ⟨items, hne, hitems⟩ hrejected

/-- A comma at the end goes unnoticed; the number in front of a `$` is not looked at, and a `$`
behind a `*` is taken for the next item. -/
theorem readsItems_misread :
    ¬ReadsItems (asBytes "5,") ∧ ¬ReadsItems (asBytes "5$") ∧ ¬ReadsItems (asBytes "*$,5") := by
  have hcomma : parseSequenceSet (asBytes "5,") = .ok (.number 5) := by rfl
  have hnumber : parseSequenceSet (asBytes "5$") = .ok .savedSearch := by rfl
  have hstar : parseSequenceSet (asBytes "*$,5") =
      .ok (.list [.range none none, .savedSearch]) := by rfl
  refine ⟨fun h ↦ ?_, fun h ↦ ?_, fun h ↦ ?_⟩
  · obtain ⟨items, htext, -⟩ := h _ hcomma
    exact htext.wellPlaced.last (by decide +kernel)
  · obtain ⟨items, htext, -⟩ := h _ hnumber
    have hall := htext.wellPlaced.saved (asBytes "5") [] (by decide +kernel)
    exact absurd hall (by decide +kernel)
  · obtain ⟨items, htext, -⟩ := h _ hstar
    have hall := htext.wellPlaced.saved (asBytes "*") (asBytes ",5") (by decide +kernel)
    exact absurd hall (by decide +kernel)

end ImapToJmap
