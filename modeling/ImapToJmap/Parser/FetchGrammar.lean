import ImapToJmap.Parser.Fetch

/-!
# The grammar of FETCH

What the comment at the end of `parser/fetch.rs` calls an attribute, token by token, and the lists
of CONDSTORE parameters.  An attribute is read whatever follows it, apart from a dot, `[` or `<`,
and from a parenthesis behind PREVIEW (`FetchAtt.read`).

`bare_iff`: an attribute without a parenthesis around it is read as with one, unless there are
CONDSTORE parameters.  Their parenthesis is taken for that of the attributes, or for that of
PREVIEW.
-/

namespace ImapToJmap.Fetch

open Mime

/-- A name, in any case. -/
abbrev Spells (value : Bytes) (name : String) : Prop :=
    eqIgnoreAsciiCase value (asBytes name) = true

/-- The end of a section. -/
inductive SectionText : Bytes → List Token → Mime.Section → Prop
  | header {v : Bytes} : Spells v "HEADER" → SectionText v [] .header
  | fields {v f : Bytes} {names : List String} : Spells v "HEADER" → Spells f "FIELDS" →
      SectionText v (.dot :: .argument f :: .parenthesisOpen ::
        (names.map (.argument ∘ asBytes) ++ [.parenthesisClose])) (.headerFields false names)
  | fieldsNot {v f n : Bytes} {names : List String} : Spells v "HEADER" → Spells f "FIELDS" →
      Spells n "NOT" → SectionText v (.dot :: .argument f :: .dot :: .argument n ::
        .parenthesisOpen :: (names.map (.argument ∘ asBytes) ++ [.parenthesisClose]))
        (.headerFields true names)
  | text {v : Bytes} : Spells v "TEXT" → SectionText v [] .text
  | mime {v : Bytes} : Spells v "MIME" → SectionText v [] .mime

/-- Numbers with dots between them, and then perhaps something else. -/
inductive SectionSpec : List Token → List Mime.Section → Prop
  | nil : SectionSpec [] []
  | text {v : Bytes} {args : List Token} {last : Mime.Section} : SectionText v args last →
      SectionSpec (.argument v :: args) [last]
  | part {v : Bytes} {n : ℕ} : parseNumber 32 v = some n → SectionSpec [.argument v] [.part n]
  | cons {v : Bytes} {n : ℕ} {tokens : List Token} {sections : List Mime.Section} :
      parseNumber 32 v = some n → sections ≠ [] → SectionSpec tokens sections →
        SectionSpec (.argument v :: .dot :: tokens) (.part n :: sections)

/-- Numbers with dots between them. -/
inductive BinarySpec : List Token → List ℕ → Prop
  | nil : BinarySpec [] []
  | one {v : Bytes} {n : ℕ} : parseNumber 32 v = some n → BinarySpec [.argument v] [n]
  | cons {v : Bytes} {n : ℕ} {tokens : List Token} {sections : List ℕ} :
      parseNumber 32 v = some n → sections ≠ [] → BinarySpec tokens sections →
        BinarySpec (.argument v :: .dot :: tokens) (n :: sections)

/-- The part of a section that is asked for. -/
inductive PartialText : List Token → Option (ℕ × ℕ) → Prop
  | absent : PartialText [] none
  | present {a b : Bytes} {start last : ℕ} : parseNumber 32 a = some start →
      parseNumber 32 b = some last → 0 < last →
        PartialText [.lt, .argument a, .dot, .argument b, .gt] (some (start, last))

/-- An attribute: its name, the tokens after it, and what it is. -/
inductive FetchAtt : Bytes → List Token → Attribute → Prop
  | simple {v : Bytes} {name : String} {attr : Attribute} : (name, attr) ∈ simpleAttributes →
      Spells v name → FetchAtt v [] attr
  | rfc822 {v : Bytes} : Spells v "RFC822" → FetchAtt v [] .rfc822
  | rfc822Header {v p : Bytes} : Spells v "RFC822" → Spells p "HEADER" →
      FetchAtt v [.dot, .argument p] .rfc822Header
  | rfc822Size {v p : Bytes} : Spells v "RFC822" → Spells p "SIZE" →
      FetchAtt v [.dot, .argument p] .rfc822Size
  | rfc822Text {v p : Bytes} : Spells v "RFC822" → Spells p "TEXT" →
      FetchAtt v [.dot, .argument p] .rfc822Text
  | body {v : Bytes} : Spells v "BODY" → FetchAtt v [] .body
  | bodySection {v : Bytes} {spec part : List Token} {sections : List Mime.Section}
      {range : Option (ℕ × ℕ)} : Spells v "BODY" → SectionSpec spec sections →
        PartialText part range → FetchAtt v (.bracketOpen :: (spec ++ .bracketClose :: part))
          (.bodySection false sections range)
  | bodyPeek {v p : Bytes} {spec part : List Token} {sections : List Mime.Section}
      {range : Option (ℕ × ℕ)} : Spells v "BODY" → Spells p "PEEK" → SectionSpec spec sections →
        PartialText part range → FetchAtt v
          (.dot :: .argument p :: .bracketOpen :: (spec ++ .bracketClose :: part))
          (.bodySection true sections range)
  | binary {v : Bytes} {spec part : List Token} {sections : List ℕ} {range : Option (ℕ × ℕ)} :
      Spells v "BINARY" → BinarySpec spec sections → PartialText part range →
        FetchAtt v (.bracketOpen :: (spec ++ .bracketClose :: part)) (.binary false sections range)
  | binaryPeek {v p : Bytes} {spec part : List Token} {sections : List ℕ}
      {range : Option (ℕ × ℕ)} : Spells v "BINARY" → Spells p "PEEK" → BinarySpec spec sections →
        PartialText part range → FetchAtt v
          (.dot :: .argument p :: .bracketOpen :: (spec ++ .bracketClose :: part))
          (.binary true sections range)
  | binarySize {v p : Bytes} {spec : List Token} {sections : List ℕ} : Spells v "BINARY" →
      Spells p "SIZE" → BinarySpec spec sections → FetchAtt v
        (.dot :: .argument p :: .bracketOpen :: (spec ++ [.bracketClose])) (.binarySize sections)
  | preview {v : Bytes} : Spells v "PREVIEW" → FetchAtt v [] (.preview false)
  | previewLazy {v p : Bytes} : Spells v "PREVIEW" → Spells p "LAZY" →
      FetchAtt v [.parenthesisOpen, .argument p, .parenthesisClose] (.preview true)

/-- A CONDSTORE parameter. -/
inductive Modifier where
  | changedSince (modseq : ℕ)
  | vanished

/-- CONDSTORE parameters, one after the other. -/
inductive ModifiersText : List Token → List Modifier → Prop
  | nil : ModifiersText [] []
  | changedSince {p v : Bytes} {modseq : ℕ} {tokens : List Token} {modifiers : List Modifier} :
      Spells p "CHANGEDSINCE" → parseNumber 64 v = some modseq → ModifiersText tokens modifiers →
        ModifiersText (.argument p :: .argument v :: tokens) (.changedSince modseq :: modifiers)
  | vanished {p : Bytes} {tokens : List Token} {modifiers : List Modifier} :
      Spells p "VANISHED" → ModifiersText tokens modifiers →
        ModifiersText (.argument p :: tokens) (.vanished :: modifiers)

/-- The CONDSTORE parameters, if there are any. -/
inductive CondstoreText : List Token → List Modifier → Prop
  | absent : CondstoreText [] []
  | present {tokens : List Token} {modifiers : List Modifier} : ModifiersText tokens modifiers →
      CondstoreText (.parenthesisOpen :: (tokens ++ [.parenthesisClose])) modifiers

/-- What the parameters say, the last one of a kind. -/
def applyModifiers (found : Option ℕ × Bool) (modifiers : List Modifier) : Option ℕ × Bool :=
  modifiers.foldl (fun found modifier ↦
    match modifier with
    | .changedSince modseq => (some modseq, found.2)
    | .vanished => (found.1, true)) found

/-- What would be taken for a part of an attribute. -/
def Stops (rest : List Token) : Prop :=
  rest.head? ≠ some .dot ∧ rest.head? ≠ some .bracketOpen ∧ rest.head? ≠ some .lt

theorem stops_nil : Stops [] := by simp [Stops]

theorem stops_parenthesisOpen (rest : List Token) : Stops (.parenthesisOpen :: rest) := by
  simp [Stops]

theorem stops_parenthesisClose (rest : List Token) : Stops (.parenthesisClose :: rest) := by
  simp [Stops]

/-! ## Names -/

section

variable {v p : Bytes} {name : String}

theorem Spells.eq (h : Spells v name) (bytes : Bytes) :
    eqIgnoreAsciiCase v bytes = eqIgnoreAsciiCase (asBytes name) bytes := by
  unfold eqIgnoreAsciiCase
  rw [beq_iff_eq.mp h]

/-- The names of the grammar. -/
def words : List String :=
  ["ENVELOPE", "FLAGS", "INTERNALDATE", "BODYSTRUCTURE", "UID", "MODSEQ", "EMAILID", "THREADID",
    "RFC822", "BODY", "BINARY", "PREVIEW", "HEADER", "FIELDS", "NOT", "TEXT", "MIME",
      "SIZE", "PEEK",
    "LAZY", "ALL", "FULL", "FAST", "CHANGEDSINCE", "VANISHED"]

/-- No two of them are the same in another case. -/
theorem eqIgnoreAsciiCase_words : ∀ first ∈ words, ∀ last ∈ words,
    eqIgnoreAsciiCase (asBytes first) (asBytes last) = (first == last) := by
  decide

theorem Spells.eq_beq (h : Spells v name) {other : String} (hname : name ∈ words)
    (hother : other ∈ words) : eqIgnoreAsciiCase v (asBytes other) = (name == other) := by
  rw [h.eq]
  exact eqIgnoreAsciiCase_words name hname other hother

/-- A table is searched for the name itself. -/
theorem Spells.find?_eq (h : Spells v name) {α : Type} {table : List (String × α)}
    (hname : name ∈ words) (htable : ∀ e ∈ table, e.1 ∈ words) :
    table.find? (fun e ↦ eqIgnoreAsciiCase v (asBytes e.1)) = table.find? (fun e ↦ name == e.1) :=
  List.find?_congr fun e he ↦ h.eq_beq hname (htable e he)

theorem simpleAttributes_words : ∀ e ∈ simpleAttributes, e.1 ∈ words := by
  simp [simpleAttributes, words]

theorem macros_words : ∀ e ∈ macros, e.1 ∈ words := by
  simp [macros, words]

theorem toAsciiUppercase_digit {ch : UInt8} (h : isAsciiDigit ch = true) :
    isAsciiDigit (toAsciiUppercase ch) = true := by
  have heq : toAsciiUppercase ch = ch := by
    simp only [isAsciiDigit, Bool.and_eq_true, decide_eq_true_eq, UInt8.le_iff_toNat_le] at h
    refine if_neg fun h' ↦ ?_
    simp only [Bool.and_eq_true, decide_eq_true_eq, UInt8.le_iff_toNat_le] at h'
    have hle : (97 : UInt8).toNat ≤ (57 : UInt8).toNat := h'.1.trans h.2
    exact absurd hle (by decide)
  rw [heq]
  exact h

/-- A number is none of the names. -/
theorem not_spells_of_parseNumber {width n : ℕ} (h : parseNumber width v = some n)
    (hname : ∀ ch ∈ (asBytes name).map toAsciiUppercase, isAsciiDigit ch = false) :
    eqIgnoreAsciiCase v (asBytes name) = false := by
  unfold parseNumber at h
  dsimp only at h
  split at h
  · rename_i hdigits
    obtain ⟨hne, hall, -⟩ := hdigits
    obtain ⟨ch, hch⟩ := List.exists_mem_of_ne_nil _ hne
    have hmem : ch ∈ v := by
      unfold unsigned at hch
      split at hch
      · exact List.mem_cons_of_mem _ hch
      · exact hch
    have hdigit := toAsciiUppercase_digit (List.all_eq_true.mp hall ch hch)
    rw [eqIgnoreAsciiCase, beq_eq_false_iff_ne]
    intro heq
    have hupper : toAsciiUppercase ch ∈ v.map toAsciiUppercase := List.mem_map_of_mem hmem
    rw [heq] at hupper
    rw [hname _ hupper] at hdigit
    cases hdigit
  · cases h

theorem expect_spells (h : Spells v name) (e : ParseError) (tokens : List Token) :
    expect (·.eqIgnoreAsciiCase (asBytes name)) e (.argument v :: tokens) = .ok ((), tokens) :=
  if_pos h

theorem expect_self (e : ParseError) (token : Token) (tokens : List Token) :
    expect (· == token) e (token :: tokens) = .ok ((), tokens) :=
  if_pos (beq_self_eq_true token)

@[simp] theorem ok_bind {α β : Type} (a : α) (next : α → Except ParseError β) :
    ((.ok a : Except ParseError α) >>= next) = next a := rfl

theorem readNumber_ok {width n : ℕ} {e : ParseError} (h : parseNumber width v = some n)
    (tokens : List Token) : readNumber width e (.argument v :: tokens) = .ok (n, tokens) := by
  have hnumber : parseNumber width (Token.argument v).unwrapBytes = some n := h
  rw [readNumber, hnumber]

end

/-! ## Sections -/

section

variable {v : Bytes} {tokens rest : List Token} {sections : List Mime.Section}
    {range : Option (ℕ × ℕ)}

theorem readFields_names (names : List String) (rest : List Token) :
    readFields (names.map (.argument ∘ asBytes) ++ .parenthesisClose :: rest) =
      .ok (names, rest) := by
  induction names with
  | nil => rfl
  | cons name names ih =>
      rw [List.map_cons, List.cons_append]
      show readFields (.argument (asBytes name) :: _) = _
      rw [readFields, fromUtf8_asBytes]
      dsimp only
      rw [ih]
      rfl

theorem readSection_header (h : Spells v "HEADER") (tokens : List Token) :
    readSection v tokens = readHeader tokens := by
  rw [readSection, if_pos h]

theorem SectionText.read {args : List Token} {last : Mime.Section} (h : SectionText v args last)
    (rest : List Token) :
    readSection v (args ++ .bracketClose :: rest) = .ok (last, .bracketClose :: rest) := by
  cases h with
  | header h => exact readSection_header h _
  | fields hv hf =>
      rw [readSection_header hv]
      simp only [List.cons_append, List.append_assoc, List.nil_append, readHeader, readNot,
        expect_spells hf, expect_self, ok_bind, readFields_names]
  | fieldsNot hv hf hn =>
      rw [readSection_header hv]
      simp only [List.cons_append, List.append_assoc, List.nil_append, readHeader, readNot,
        expect_spells hf, expect_spells hn, expect_self, ok_bind, readFields_names]
  | text h =>
      have hheader : eqIgnoreAsciiCase v (asBytes "HEADER") = false :=
        h.eq_beq (by decide) (by decide)
      simp only [readSection, hheader, Bool.false_eq_true, if_false]
      exact if_pos h
  | mime h =>
      have hheader : eqIgnoreAsciiCase v (asBytes "HEADER") = false :=
        h.eq_beq (by decide) (by decide)
      have htext : eqIgnoreAsciiCase v (asBytes "TEXT") = false := h.eq_beq (by decide) (by decide)
      simp only [readSection, hheader, htext, Bool.false_eq_true, if_false]
      exact if_pos h

theorem readSection_part {n : ℕ} (h : parseNumber 32 v = some n) (tokens : List Token) :
    readSection v tokens = .ok (.part n, tokens) := by
  have hnames : ∀ name ∈ ["HEADER", "TEXT", "MIME"],
      ∀ ch ∈ (asBytes name).map toAsciiUppercase, isAsciiDigit ch = false := by
    decide +kernel
  have hnone : ∀ name ∈ ["HEADER", "TEXT", "MIME"], eqIgnoreAsciiCase v (asBytes name) = false :=
    fun name hname ↦ not_spells_of_parseNumber h (hnames name hname)
  obtain ⟨hheader, htext, hmime⟩ : _ ∧ _ ∧ _ := by
    simpa only [List.forall_mem_cons, List.forall_mem_singleton] using hnone
  simp only [readSection, hheader, htext, hmime, h, Bool.false_eq_true, if_false]

theorem readSections_argument {found : Mime.Section}
    (h : readSection v tokens = .ok (found, rest)) :
    readSections (.argument v :: tokens) = (do
      let (sections, rest) ← readSections rest
      .ok (found :: sections, rest)) := by
  rw [readSections]
  split
  · rename_i e herror
    rw [h] at herror
    cases herror
  · rename_i found' rest' hfound
    rw [h] at hfound
    cases hfound
    rfl

theorem SectionSpec.read (h : SectionSpec tokens sections) (rest : List Token) :
    readSections (tokens ++ .bracketClose :: rest) = .ok (sections, rest) := by
  have hclose : readSections (.bracketClose :: rest) = .ok ([], rest) := by rw [readSections]
  induction h with
  | nil => exact hclose
  | @text v args last h =>
      rw [List.cons_append, readSections_argument (h.read rest), hclose]
      rfl
  | part h =>
      rw [List.singleton_append, readSections_argument (readSection_part h _), hclose]
      rfl
  | @cons v n tokens sections h hne hspec ih =>
      rw [List.cons_append, readSections_argument (readSection_part h _), List.cons_append,
        readSections, ih]
      rfl

theorem BinarySpec.read {nums : List ℕ} (h : BinarySpec tokens nums) (rest : List Token) :
    readNumbers (tokens ++ .bracketClose :: rest) = .ok (nums, rest) := by
  induction h with
  | nil => rfl
  | one h =>
      rw [List.singleton_append, readNumbers, h]
      rfl
  | @cons v n tokens nums h hne hspec ih =>
      rw [List.cons_append, readNumbers, h, List.cons_append, readNumbers]
      dsimp only
      rw [ih]
      rfl

theorem PartialText.read (h : PartialText tokens range) (hrest : rest.head? ≠ some .lt) :
    readPartial (tokens ++ rest) = .ok (range, rest) := by
  cases h with
  | absent =>
      rw [List.nil_append]
      unfold readPartial
      split
      · exact absurd rfl hrest
      · rfl
  | present ha hb hlast =>
      simp only [List.cons_append, List.nil_append, readPartial, readNumber_ok ha,
        readNumber_ok hb, expect_self, ok_bind, if_neg hlast.ne']

end

/-! ## Attributes -/

section

variable {v : Bytes} {args rest : List Token} {attr : Attribute}

theorem readAttribute_simple {name : String} (h : Spells v name)
    (hname : (name, attr) ∈ simpleAttributes) (tokens : List Token) :
    readAttribute v tokens = .ok (attr, tokens) := by
  have hfind : ∀ e ∈ simpleAttributes,
      simpleAttributes.find? (fun e' ↦ e.1 == e'.1) = some e := by
    simp [simpleAttributes]
  have hsome := (h.find?_eq (simpleAttributes_words _ hname) simpleAttributes_words).trans
    (hfind _ hname)
  simp only [readAttribute, hsome]

theorem readAttribute_rfc822 (h : Spells v "RFC822") : readAttribute v = readRfc822 := by
  have hfind : simpleAttributes.find? (fun e ↦ eqIgnoreAsciiCase v (asBytes e.1)) = none :=
    h.find?_eq (by decide) simpleAttributes_words
  funext tokens
  simp only [readAttribute, hfind]
  exact if_pos h

theorem readAttribute_body (h : Spells v "BODY") : readAttribute v = readBody := by
  have hfind : simpleAttributes.find? (fun e ↦ eqIgnoreAsciiCase v (asBytes e.1)) = none :=
    h.find?_eq (by decide) simpleAttributes_words
  have hrfc822 : eqIgnoreAsciiCase v (asBytes "RFC822") = false :=
    h.eq_beq (by decide) (by decide)
  funext tokens
  simp only [readAttribute, hfind, hrfc822, Bool.false_eq_true, if_false]
  exact if_pos h

theorem readAttribute_binary (h : Spells v "BINARY") : readAttribute v = readBinary := by
  have hfind : simpleAttributes.find? (fun e ↦ eqIgnoreAsciiCase v (asBytes e.1)) = none :=
    h.find?_eq (by decide) simpleAttributes_words
  have hrfc822 : eqIgnoreAsciiCase v (asBytes "RFC822") = false :=
    h.eq_beq (by decide) (by decide)
  have hbody : eqIgnoreAsciiCase v (asBytes "BODY") = false := h.eq_beq (by decide) (by decide)
  funext tokens
  simp only [readAttribute, hfind, hrfc822, hbody, Bool.false_eq_true, if_false]
  exact if_pos h

theorem readAttribute_preview (h : Spells v "PREVIEW") : readAttribute v = readPreview := by
  have hfind : simpleAttributes.find? (fun e ↦ eqIgnoreAsciiCase v (asBytes e.1)) = none :=
    h.find?_eq (by decide) simpleAttributes_words
  have hrfc822 : eqIgnoreAsciiCase v (asBytes "RFC822") = false :=
    h.eq_beq (by decide) (by decide)
  have hbody : eqIgnoreAsciiCase v (asBytes "BODY") = false := h.eq_beq (by decide) (by decide)
  have hbinary : eqIgnoreAsciiCase v (asBytes "BINARY") = false :=
    h.eq_beq (by decide) (by decide)
  funext tokens
  simp only [readAttribute, hfind, hrfc822, hbody, hbinary, Bool.false_eq_true, if_false]
  exact if_pos h

theorem readBodySection_spec {spec part : List Token} {sections : List Mime.Section}
    {range : Option (ℕ × ℕ)} (peek : Bool) (hspec : SectionSpec spec sections)
    (hpart : PartialText part range) (hrest : rest.head? ≠ some .lt) :
    readBodySection peek (spec ++ .bracketClose :: part ++ rest) =
      .ok (.bodySection peek sections range, rest) := by
  simp only [readBodySection, List.append_assoc, List.cons_append, hspec.read, ok_bind,
    hpart.read hrest]

theorem readBinaryParameter_none (tokens : List Token) :
    readBinaryParameter (.bracketOpen :: tokens) = .ok ((false, false), .bracketOpen :: tokens) :=
  rfl

theorem FetchAtt.read (h : FetchAtt v args attr) (hrest : Stops rest)
    (hpreview : attr = .preview false → rest.head? ≠ some .parenthesisOpen) :
    readAttribute v (args ++ rest) = .ok (attr, rest) := by
  obtain ⟨hdot, hbracket, hlt⟩ := hrest
  cases h with
  | simple hname h => exact readAttribute_simple h hname _
  | rfc822 h =>
      rw [readAttribute_rfc822 h, List.nil_append]
      unfold readRfc822
      split
      · exact absurd rfl hdot
      · exact absurd rfl hdot
      · rfl
  | rfc822Header h hp =>
      rw [readAttribute_rfc822 h]
      exact if_pos hp
  | @rfc822Size p h hp =>
      have hheader : eqIgnoreAsciiCase p (asBytes "HEADER") = false :=
        hp.eq_beq (by decide) (by decide)
      rw [readAttribute_rfc822 h]
      simp only [List.cons_append, List.nil_append, readRfc822, Token.unwrapBytes, hheader,
        Bool.false_eq_true, if_false]
      exact if_pos hp
  | @rfc822Text p h hp =>
      have hheader : eqIgnoreAsciiCase p (asBytes "HEADER") = false :=
        hp.eq_beq (by decide) (by decide)
      have hsize : eqIgnoreAsciiCase p (asBytes "SIZE") = false :=
        hp.eq_beq (by decide) (by decide)
      rw [readAttribute_rfc822 h]
      simp only [List.cons_append, List.nil_append, readRfc822, Token.unwrapBytes, hheader, hsize,
        Bool.false_eq_true, if_false]
      exact if_pos hp
  | body h =>
      rw [readAttribute_body h, List.nil_append]
      unfold readBody
      split
      · exact absurd rfl hbracket
      · exact absurd rfl hdot
      · rfl
  | bodySection h hspec hpart =>
      rw [readAttribute_body h, List.cons_append]
      exact readBodySection_spec false hspec hpart hlt
  | bodyPeek h hp hspec hpart =>
      rw [readAttribute_body h]
      simp only [List.cons_append, readBody, expect_spells hp, expect_self, ok_bind]
      exact readBodySection_spec true hspec hpart hlt
  | binary h hspec hpart =>
      rw [readAttribute_binary h]
      simp only [List.cons_append, List.append_assoc, readBinary, readBinaryParameter_none,
        expect_self, ok_bind, hspec.read, hpart.read hlt]
      rfl
  | binaryPeek h hp hspec hpart =>
      have hparam : ∀ tokens, readBinaryParameter (.dot :: .argument _ :: tokens) =
          .ok ((true, false), tokens) := fun _ ↦ if_pos hp
      rw [readAttribute_binary h]
      simp only [List.cons_append, List.append_assoc, readBinary, hparam, expect_self, ok_bind,
        hspec.read, hpart.read hlt]
      rfl
  | @binarySize p spec sections h hp hspec =>
      have hpeek : eqIgnoreAsciiCase p (asBytes "PEEK") = false :=
        hp.eq_beq (by decide) (by decide)
      have hparam : ∀ tokens, readBinaryParameter (.dot :: .argument p :: tokens) =
          .ok ((false, true), tokens) := by
        intro tokens
        simp only [readBinaryParameter, Token.unwrapBytes, hpeek, Bool.false_eq_true, if_false]
        exact if_pos hp
      rw [readAttribute_binary h]
      simp only [List.cons_append, List.append_assoc, List.nil_append, readBinary, hparam,
        expect_self, ok_bind, hspec.read]
      rfl
  | preview h =>
      rw [readAttribute_preview h, List.nil_append]
      unfold readPreview
      split
      · exact absurd rfl (hpreview rfl)
      · rfl
  | @previewLazy p h hp =>
      rw [readAttribute_preview h]
      have hlazy : eqIgnoreAsciiCase p (asBytes "LAZY") = true := hp
      simp only [List.cons_append, List.nil_append, readPreview, readLazy, hlazy, Bool.or_true]

/-- None of the attributes ends the loop. -/
theorem FetchAtt.not_macro (h : FetchAtt v args attr) :
    macros.find? (fun e ↦ eqIgnoreAsciiCase v (asBytes e.1)) = none := by
  have hnames : ∀ name ∈ simpleAttributes.map Prod.fst ++ ["RFC822", "BODY", "BINARY", "PREVIEW"],
      name ∈ words ∧ macros.find? (fun e ↦ name == e.1) = none := by
    simp [simpleAttributes, macros, words]
  have hspells : ∃ name ∈ simpleAttributes.map Prod.fst ++ ["RFC822", "BODY", "BINARY", "PREVIEW"],
      Spells v name := by
    cases h with
    | simple hname h =>
        exact ⟨_, List.mem_append_left _ (List.mem_map_of_mem hname), h⟩
    | rfc822 h | rfc822Header h | rfc822Size h | rfc822Text h => exact ⟨"RFC822", by decide, h⟩
    | body h | bodySection h | bodyPeek h => exact ⟨"BODY", by decide, h⟩
    | binary h | binaryPeek h | binarySize h => exact ⟨"BINARY", by decide, h⟩
    | preview h | previewLazy h => exact ⟨"PREVIEW", by decide, h⟩
  obtain ⟨name, hname, h⟩ := hspells
  obtain ⟨hword, hnone⟩ := hnames name hname
  rw [h.find?_eq hword macros_words, hnone]

theorem readAttributes_argument {inParentheses : Bool} {attributes : List Attribute}
    {tokens : List Token}
    (hmacros : macros.find? (fun e ↦ eqIgnoreAsciiCase v (asBytes e.1)) = none)
    (h : readAttribute v tokens = .ok (attr, rest)) :
    readAttributes inParentheses attributes (.argument v :: tokens) =
      readAttributes inParentheses (pushUnique attributes attr) rest := by
  rw [readAttributes]
  simp only [hmacros]
  split
  · rename_i e herror
    rw [h] at herror
    cases herror
  · rename_i attr' rest' hattr
    rw [h] at hattr
    cases hattr
    rfl

theorem FetchAtt.readAttributes (h : FetchAtt v args attr) (hrest : Stops rest)
    (hpreview : attr = .preview false → rest.head? ≠ some .parenthesisOpen)
    (inParentheses : Bool) (attributes : List Attribute) :
    readAttributes inParentheses attributes (.argument v :: (args ++ rest)) =
      Fetch.readAttributes inParentheses (pushUnique attributes attr) rest :=
  readAttributes_argument h.not_macro (h.read hrest hpreview)

end

/-! ## CONDSTORE parameters -/

section

variable {tokens : List Token} {modifiers : List Modifier}

theorem ModifiersText.read (h : ModifiersText tokens modifiers) (changedSince : Option ℕ)
    (includeVanished : Bool) (rest : List Token) :
    readModifiers changedSince includeVanished (tokens ++ .parenthesisClose :: rest) =
      .ok (applyModifiers (changedSince, includeVanished) modifiers) := by
  induction h generalizing changedSince includeVanished with
  | nil => rw [List.nil_append, readModifiers, applyModifiers, List.foldl_nil]
  | @changedSince p v modseq tokens modifiers hp hv _ ih =>
      have hsince : eqIgnoreAsciiCase p (asBytes "CHANGEDSINCE") = true := hp
      simp only [List.cons_append, readModifiers, hsince, if_true, Token.unwrapBytes, hv]
      exact ih (some modseq) includeVanished
  | @vanished p tokens modifiers hp _ ih =>
      have hsince : eqIgnoreAsciiCase p (asBytes "CHANGEDSINCE") = false :=
        hp.eq_beq (by decide) (by decide)
      have hvanished : eqIgnoreAsciiCase p (asBytes "VANISHED") = true := hp
      rw [List.cons_append]
      unfold readModifiers
      simp only [hsince, hvanished, if_true, Bool.false_eq_true, if_false]
      exact ih changedSince true

theorem CondstoreText.read (h : CondstoreText tokens modifiers) :
    readCondstore tokens = .ok (applyModifiers (none, false) modifiers) := by
  cases h with
  | absent => rfl
  | present h => exact h.read none false []

theorem applyModifiers_ne {found : Option ℕ × Bool} (hfound : found ≠ (none, false))
    (modifiers : List Modifier) : applyModifiers found modifiers ≠ (none, false) := by
  induction modifiers generalizing found with
  | nil => exact hfound
  | cons modifier modifiers ih =>
      refine ih ?_
      cases modifier with
      | changedSince modseq => exact fun h ↦ by cases h
      | vanished => exact fun h ↦ Bool.noConfusion (congrArg Prod.snd h)

/-- CONDSTORE parameters say something. -/
theorem applyModifiers_eq_iff (modifiers : List Modifier) :
    applyModifiers (none, false) modifiers = (none, false) ↔ modifiers = [] := by
  cases modifiers with
  | nil => exact ⟨fun _ ↦ rfl, fun _ ↦ rfl⟩
  | cons modifier modifiers =>
      refine ⟨fun h ↦ absurd h (applyModifiers_ne ?_ modifiers), fun h ↦ by cases h⟩
      cases modifier with
      | changedSince modseq => exact fun h ↦ by cases h
      | vanished => exact fun h ↦ by cases h

/-- They begin with a name that is no attribute. -/
theorem ModifiersText.refused (h : ModifiersText tokens modifiers) (hne : modifiers ≠ [])
    (attributes : List Attribute) (rest : List Token) :
    ∃ e, readAttributes true attributes (tokens ++ rest) = .error e := by
  have hrefused : ∀ name ∈ ["CHANGEDSINCE", "VANISHED"], name ∈ words ∧
      macros.find? (fun e ↦ name == e.1) = none ∧
      simpleAttributes.find? (fun e ↦ name == e.1) = none ∧
      ∀ other ∈ ["RFC822", "BODY", "BINARY", "PREVIEW"], other ∈ words ∧
        (name == other) = false := by
    simp [simpleAttributes, macros, words]
  have hfirst : ∀ {name : String} {p : Bytes}, name ∈ ["CHANGEDSINCE", "VANISHED"] →
      Spells p name → ∀ tokens,
        readAttributes true attributes (.argument p :: tokens) = .error (.invalidAttribute p) := by
    intro name p hname hp tokens
    obtain ⟨hword, hmacros, hsimple, hothers⟩ := hrefused name hname
    rw [← hp.find?_eq hword macros_words] at hmacros
    rw [← hp.find?_eq hword simpleAttributes_words] at hsimple
    have hnone : ∀ other ∈ ["RFC822", "BODY", "BINARY", "PREVIEW"],
        eqIgnoreAsciiCase p (asBytes other) = false := by
      intro other hother
      obtain ⟨hotherWord, hne⟩ := hothers other hother
      rw [hp.eq_beq hword hotherWord, hne]
    obtain ⟨hrfc822, hbody, hbinary, hpreview⟩ : _ ∧ _ ∧ _ ∧ _ := by
      simpa only [List.forall_mem_cons, List.forall_mem_singleton] using hnone
    have hread : readAttribute p tokens = .error (.invalidAttribute p) := by
      simp only [readAttribute, hsimple, hrfc822, hbody, hbinary, hpreview, Bool.false_eq_true,
        if_false]
    rw [readAttributes]
    simp only [hmacros]
    split
    · rename_i e herror
      rw [hread] at herror
      cases herror
      rfl
    · rename_i attr rest hattr
      rw [hread] at hattr
      cases hattr
  cases h with
  | nil => exact absurd rfl hne
  | changedSince hp => exact ⟨_, hfirst List.mem_cons_self hp _⟩
  | vanished hp => exact ⟨_, hfirst (List.mem_cons_of_mem _ List.mem_cons_self) hp _⟩

/-- PREVIEW takes them all. -/
theorem ModifiersText.readLazy (h : ModifiersText tokens modifiers) (isLazy : Bool) :
    (readLazy isLazy (tokens ++ [.parenthesisClose])).2 = [] := by
  induction h generalizing isLazy with
  | nil => rfl
  | changedSince _ _ _ ih => exact ih _
  | vanished _ _ ih => exact ih _

end

/-! ## An attribute without parentheses -/

section

variable {tag : String} {command : Command} {set : Token} {sequenceSet : Sequence} {v : Bytes}
  {args mods tokens rest : List Token} {attr : Attribute} {attributes : List Attribute}
  {modifiers : List Modifier} {found : Option ℕ × Bool}

theorem parseFetch_ok (hset : parseSequenceSet set.unwrapBytes = .ok sequenceSet)
    (hne : tokens ≠ []) (hread : readAttributes false [] tokens = .ok (attributes, rest))
    (hattributes : attributes ≠ []) (hcondstore : readCondstore rest = .ok found) :
    parseFetch ⟨tag, command, set :: tokens⟩ =
      .ok ⟨tag, sequenceSet, attributes, found.1, found.2⟩ := by
  unfold parseFetch
  split
  · rename_i heq
    cases heq
  · rename_i heq
    cases heq
    exact absurd rfl hne
  · rename_i heq
    cases heq
    simp only [hset, Except.mapError, ok_bind, hread, hcondstore, if_neg hattributes]

theorem parseFetch_error {e : ParseError}
    (hset : parseSequenceSet set.unwrapBytes = .ok sequenceSet)
    (hne : tokens ≠ []) (hread : readAttributes false [] tokens = .error e) :
    parseFetch ⟨tag, command, set :: tokens⟩ = .error e := by
  unfold parseFetch
  split
  · rename_i heq
    cases heq
  · rename_i heq
    cases heq
    exact absurd rfl hne
  · rename_i heq
    cases heq
    simp only [hset, Except.mapError, ok_bind, hread]
    rfl

/-- The attribute with a parenthesis around it, and the parameters. -/
theorem parseFetch_enclosed (hset : parseSequenceSet set.unwrapBytes = .ok sequenceSet)
    (hattr : FetchAtt v args attr) (hmods : CondstoreText mods modifiers) :
    parseFetch ⟨tag, command, set :: .parenthesisOpen :: .argument v ::
      (args ++ .parenthesisClose :: mods)⟩ =
      .ok ⟨tag, sequenceSet, [attr], (applyModifiers (none, false) modifiers).1,
        (applyModifiers (none, false) modifiers).2⟩ := by
  refine parseFetch_ok hset (List.cons_ne_nil _ _) ?_ (List.cons_ne_nil _ _) hmods.read
  rw [readAttributes, if_neg Bool.false_ne_true,
    hattr.readAttributes (stops_parenthesisClose mods) (fun _ ↦ by simp) true [], readAttributes,
    if_pos rfl]
  rfl

/-- The attribute alone, or with a list that is empty. -/
theorem parseFetch_bare (hset : parseSequenceSet set.unwrapBytes = .ok sequenceSet)
    (hattr : FetchAtt v args attr) (hmods : CondstoreText mods []) :
    parseFetch ⟨tag, command, set :: .argument v :: (args ++ mods)⟩ =
      .ok ⟨tag, sequenceSet, [attr], none, false⟩ := by
  have hread : ∃ rest, readAttributes false [] (.argument v :: (args ++ mods)) =
    .ok ([attr], rest) ∧
      readCondstore rest = .ok (none, false) := by
    cases hmods with
    | absent =>
        refine ⟨[], ?_, rfl⟩
        rw [hattr.readAttributes stops_nil (fun _ ↦ by simp) false [], readAttributes]
        rfl
    | present h =>
        cases h
        refine ⟨[], ?_, rfl⟩
        have hstops := stops_parenthesisOpen [.parenthesisClose]
        by_cases hpreview : attr = .preview false
        · subst hpreview
          have hread : readAttribute v (args ++ [.parenthesisOpen, .parenthesisClose]) =
              .ok (.preview false, []) := by
            cases hattr with
            | simple hname h => simp [simpleAttributes] at hname
            | preview h =>
                rw [readAttribute_preview h]
                rfl
          show readAttributes false [] (.argument v ::
            (args ++ [.parenthesisOpen, .parenthesisClose])) = _
          rw [readAttributes_argument hattr.not_macro hread, readAttributes]
          rfl
        · show readAttributes false [] (.argument v ::
            (args ++ [.parenthesisOpen, .parenthesisClose])) = _
          rw [hattr.readAttributes hstops (fun h ↦ absurd h hpreview) false [], readAttributes,
            if_neg Bool.false_ne_true, readAttributes, if_pos rfl]
          rfl
  obtain ⟨rest, hread, hcondstore⟩ := hread
  exact parseFetch_ok hset (List.cons_ne_nil _ _) hread (List.cons_ne_nil _ _) hcondstore

/-- With a parameter, either there is an error or PREVIEW takes it. -/
theorem parseFetch_bare_modifiers (hset : parseSequenceSet set.unwrapBytes = .ok sequenceSet)
    (hattr : FetchAtt v args attr) (hmods : CondstoreText mods modifiers) (hne : modifiers ≠ []) :
    (∃ e, parseFetch ⟨tag, command, set :: .argument v :: (args ++ mods)⟩ = .error e) ∨
      ∃ attributes, parseFetch ⟨tag, command, set :: .argument v :: (args ++ mods)⟩ =
        .ok ⟨tag, sequenceSet, attributes, none, false⟩ := by
  cases hmods with
  | absent => exact absurd rfl hne
  | @present tokens modifiers hmods =>
      by_cases hpreview : attr = .preview false
      · subst hpreview
        have hread : ∃ isLazy, readAttribute v
            (args ++ .parenthesisOpen :: (tokens ++ [.parenthesisClose])) =
              .ok (.preview isLazy, []) := by
          cases hattr with
          | simple hname h => simp [simpleAttributes] at hname
          | preview h =>
              refine ⟨(readLazy false (tokens ++ [.parenthesisClose])).1, ?_⟩
              rw [readAttribute_preview h]
              show Except.ok (Attribute.preview _,
                (readLazy false (tokens ++ [.parenthesisClose])).2) = _
              rw [hmods.readLazy]
        obtain ⟨isLazy, hread⟩ := hread
        have hattributes : readAttributes false []
            (.argument v :: (args ++ .parenthesisOpen :: (tokens ++ [.parenthesisClose]))) =
              .ok ([.preview isLazy], []) := by
          rw [readAttributes_argument hattr.not_macro hread, readAttributes]
          rfl
        have hcondstore : readCondstore [] = .ok (none, false) := rfl
        exact .inr ⟨[.preview isLazy], parseFetch_ok hset (List.cons_ne_nil _ _) hattributes
          (List.cons_ne_nil _ _) hcondstore⟩
      · have hstops := stops_parenthesisOpen (tokens ++ [.parenthesisClose])
        obtain ⟨e, he⟩ := hmods.refused hne [attr] [.parenthesisClose]
        refine .inl ⟨e, parseFetch_error hset (List.cons_ne_nil _ _) ?_⟩
        rw [hattr.readAttributes hstops (fun h ↦ absurd h hpreview) false [], readAttributes,
          if_neg Bool.false_ne_true]
        exact he

/-- **An attribute is read alike with and without a parenthesis around it exactly when there are no
CONDSTORE parameters.** -/
theorem bare_iff (hset : parseSequenceSet set.unwrapBytes = .ok sequenceSet)
    (hattr : FetchAtt v args attr) (hmods : CondstoreText mods modifiers) :
    parseFetch ⟨tag, command, set :: .argument v :: (args ++ mods)⟩ =
      parseFetch ⟨tag, command, set :: .parenthesisOpen :: .argument v ::
        (args ++ .parenthesisClose :: mods)⟩ ↔ modifiers = [] := by
  rw [parseFetch_enclosed hset hattr hmods]
  constructor
  · intro heq
    by_contra hne
    rcases parseFetch_bare_modifiers hset hattr hmods hne with ⟨e, he⟩ | ⟨attributes, hok⟩
    · rw [he] at heq
      cases heq
    · rw [hok] at heq
      have hargs := Except.ok.inj heq
      have hsince := congrArg Arguments.changedSince hargs
      have hvanished := congrArg Arguments.includeVanished hargs
      exact hne ((applyModifiers_eq_iff modifiers).mp (Prod.ext hsince.symm hvanished.symm))
  · rintro rfl
    exact parseFetch_bare hset hattr hmods

end

theorem parseSequenceSet_one :
    parseSequenceSet (Token.argument (asBytes "1")).unwrapBytes = .ok (.number 1) := rfl

theorem fetchAtt_flags : FetchAtt (asBytes "FLAGS") [] .flags := by
  have hname : ("FLAGS", Attribute.flags) ∈ simpleAttributes :=
    List.mem_cons_of_mem _ List.mem_cons_self
  exact .simple hname (beq_self_eq_true _)

theorem condstoreText_changedSince : CondstoreText
    [.parenthesisOpen, .argument (asBytes "CHANGEDSINCE"), .argument (asBytes "5"),
      .parenthesisClose] [.changedSince 5] :=
  .present (.changedSince (beq_self_eq_true _) (by decide) .nil)

/-- `1 FLAGS (CHANGEDSINCE 5)` and `1 (FLAGS) (CHANGEDSINCE 5)` -/
theorem bare_iff_flags : parseFetch ⟨"a", .fetch false, [.argument (asBytes "1"),
      .argument (asBytes "FLAGS"), .parenthesisOpen, .argument (asBytes "CHANGEDSINCE"),
      .argument (asBytes "5"), .parenthesisClose]⟩ =
    parseFetch ⟨"a", .fetch false, [.argument (asBytes "1"), .parenthesisOpen,
      .argument (asBytes "FLAGS"), .parenthesisClose, .parenthesisOpen,
      .argument (asBytes "CHANGEDSINCE"), .argument (asBytes "5"), .parenthesisClose]⟩ ↔
    [Modifier.changedSince 5] = [] :=
  bare_iff parseSequenceSet_one fetchAtt_flags condstoreText_changedSince

/-- The same two: the first is an error, and the second one is not. -/
theorem bare_differs : parseFetch ⟨"a", .fetch false, [.argument (asBytes "1"),
      .argument (asBytes "FLAGS"), .parenthesisOpen, .argument (asBytes "CHANGEDSINCE"),
      .argument (asBytes "5"), .parenthesisClose]⟩ ≠
    parseFetch ⟨"a", .fetch false, [.argument (asBytes "1"), .parenthesisOpen,
      .argument (asBytes "FLAGS"), .parenthesisClose, .parenthesisOpen,
      .argument (asBytes "CHANGEDSINCE"), .argument (asBytes "5"), .parenthesisClose]⟩ := by
  have henclosed : parseFetch ⟨"a", .fetch false, [.argument (asBytes "1"), .parenthesisOpen,
      .argument (asBytes "FLAGS"), .parenthesisClose, .parenthesisOpen,
      .argument (asBytes "CHANGEDSINCE"), .argument (asBytes "5"), .parenthesisClose]⟩ =
      .ok ⟨"a", .number 1, [.flags], some 5, false⟩ :=
    parseFetch_enclosed parseSequenceSet_one fetchAtt_flags condstoreText_changedSince
  rw [henclosed]
  intro heq
  rcases parseFetch_bare_modifiers parseSequenceSet_one fetchAtt_flags condstoreText_changedSince
    (List.cons_ne_nil _ _) with ⟨e, he⟩ | ⟨attributes, hok⟩
  · cases heq.symm.trans he
  · cases heq.symm.trans hok

end ImapToJmap.Fetch
