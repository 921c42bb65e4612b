import ImapToJmap.Core.Plain
import ImapToJmap.Parser.FetchGrammar
import ImapToJmap.Parser.SequenceLanguage

/-!
# FETCH as it is written

The arguments of FETCH as a client writes them, with the attributes in parentheses.  What the
receiver makes of them are attributes of the grammar, one after the other, and so `parse_fetch`
gives the arguments back (`parseFetch_write`).
-/

namespace ImapToJmap

open Ascii

theorem isNameByte_of_digit {ch : UInt8} (h : isAsciiDigit ch = true) : IsNameByte ch := by
  refine ⟨⟨?_, ?_, ?_⟩, ?_, not_whitespace_of_digit h⟩
  · rintro rfl
    cases h
  · rintro rfl
    cases h
  · rintro rfl
    cases h
  · cases htoken : Token.ofByte ch with
    | none => rfl
    | some token =>
        rcases Token.ofByte_cases htoken with ⟨rfl, -⟩ | ⟨rfl, -⟩ | ⟨rfl, -⟩ | ⟨rfl, -⟩ |
          ⟨rfl, -⟩ | ⟨rfl, -⟩ | ⟨rfl, -⟩ <;> cases h

theorem Written.decimal (n : ℕ) : Written (decimal n) [.argument (decimal n)] :=
  .name (decimal_ne_nil n) fun _ hch ↦ isNameByte_of_digit (isAsciiDigit_of_mem_decimal hch)

/-! ## Sequence sets -/

namespace Sequence

/-- An end of a range. -/
def boundText : Option ℕ → Bytes
  | some n => decimal n
  | none => [Ascii.star]

/-- An item of a set. -/
def itemText : Sequence → Bytes
  | number n => decimal n
  | range first last => boundText first ++ colon :: boundText last
  | savedSearch => [dollar]
  | list _ => []

def items : Sequence → List Sequence
  | list items => items
  | item => [item]

def text (set : Sequence) : Bytes := separated comma (set.items.map itemText)

/-- An item with numbers of 32 bits. -/
def Fits : Sequence → Prop
  | number n => n < 2 ^ 32
  | range first last => (∀ n ∈ first, n < 2 ^ 32) ∧ ∀ n ∈ last, n < 2 ^ 32
  | savedSearch => True
  | list _ => False

end Sequence

section

variable {value text : Bytes} {set item : Sequence} {sets : List Sequence} {bound : Option ℕ}

theorem IsBound.lt (h : IsBound text bound) : ∀ n ∈ bound, n < 2 ^ 32 := by
  cases h with
  | number h =>
      intro n hn
      cases hn
      exact h.lt
  | star => exact nofun

theorem ReadText.fits {flag flag' : Bool} (h : ReadText flag text item flag') : item.Fits := by
  cases h with
  | number h => exact h.lt
  | remembered | saved => trivial
  | star | starSaved => exact ⟨nofun, nofun⟩
  | range ha hb => exact ⟨ha.lt, hb.lt⟩
  | rangeSaved ha => exact ⟨ha.lt, nofun⟩

theorem Accepts.fits {flag : Bool} (h : Accepts flag text sets) : ∀ item ∈ sets, item.Fits := by
  induction h with
  | nil => exact nofun
  | last _ _ hread => exact List.forall_mem_singleton.mpr hread.fits
  | cons _ hread _ ih => exact List.forall_mem_cons.mpr ⟨hread.fits, ih⟩

theorem Sequence.items_ofItems (hne : sets ≠ []) (h : ∀ item ∈ sets, item.Fits) :
    (Sequence.ofItems sets).items = sets := by
  match sets, hne, h with
  | [item], _, h =>
      have hitem := h item List.mem_cons_self
      cases item with
      | list => exact hitem.elim
      | number | range | savedSearch => rfl
  | _ :: _ :: _, _, _ => rfl

theorem isBound_boundText (h : ∀ n ∈ bound, n < 2 ^ 32) :
    IsBound (Sequence.boundText bound) bound := by
  cases bound with
  | none => exact .star
  | some n =>
      exact .number {
        ne_nil := decimal_ne_nil n
        digits := fun _ ↦ isAsciiDigit_of_mem_decimal
        value := ofDecimal_decimal n
        lt := h n rfl }

theorem Sequence.Fits.itemText (h : item.Fits) : ItemText item.itemText item := by
  cases item with
  | number n =>
      exact .number {
        ne_nil := decimal_ne_nil n
        digits := fun _ ↦ isAsciiDigit_of_mem_decimal
        value := ofDecimal_decimal n
        lt := h }
  | range first last => exact .range (isBound_boundText h.1) (isBound_boundText h.2)
  | savedSearch => exact .saved
  | list => exact h.elim

theorem setText_separated (hne : sets ≠ []) (h : ∀ item ∈ sets, item.Fits) :
    SetText (separated comma (sets.map Sequence.itemText)) sets := by
  induction sets with
  | nil => exact absurd rfl hne
  | cons item sets ih =>
      obtain ⟨hitem, hsets⟩ := List.forall_mem_cons.mp h
      cases sets with
      | nil => exact .last hitem.itemText
      | cons next sets => exact .cons hitem.itemText (ih (List.cons_ne_nil _ _) hsets)

/-- A set that the parser returns is what it makes of its text. -/
theorem parseSequenceSet_of_ok (h : parseSequenceSet value = .ok set) :
    parseSequenceSet set.text = .ok set := by
  obtain ⟨items, hne, haccepts, rfl⟩ := parseSequenceSet_eq_ok_iff.mp h
  rw [Sequence.text, Sequence.items_ofItems hne haccepts.fits]
  exact (setText_separated hne haccepts.fits).parse

theorem isNameByte_boundText (bound : Option ℕ) : ∀ ch ∈ Sequence.boundText bound,
    IsNameByte ch := by
  cases bound with
  | none => exact List.forall_mem_singleton.mpr (by decide)
  | some n => exact fun ch hch ↦ isNameByte_of_digit (isAsciiDigit_of_mem_decimal hch)

theorem isNameByte_itemText (item : Sequence) : ∀ ch ∈ item.itemText, IsNameByte ch := by
  cases item with
  | number n => exact fun ch hch ↦ isNameByte_of_digit (isAsciiDigit_of_mem_decimal hch)
  | range first last =>
      intro ch hch
      rcases List.mem_append.mp hch with hch | hch
      · exact isNameByte_boundText first ch hch
      · rcases List.mem_cons.mp hch with rfl | hch
        · decide
        · exact isNameByte_boundText last ch hch
  | savedSearch => exact List.forall_mem_singleton.mpr (by decide)
  | list => exact nofun

theorem isNameByte_separated (sets : List Sequence) :
    ∀ ch ∈ separated comma (sets.map Sequence.itemText), IsNameByte ch := by
  induction sets with
  | nil => exact nofun
  | cons item sets ih =>
      cases sets with
      | nil => exact isNameByte_itemText item
      | cons next sets =>
          intro ch hch
          rcases List.mem_append.mp hch with hch | hch
          · exact isNameByte_itemText item ch hch
          · rcases List.mem_cons.mp hch with rfl | hch
            · decide
            · exact ih ch hch

theorem Written.sequenceSet (h : parseSequenceSet value = .ok set) :
    Written set.text [.argument set.text] := by
  refine .name ?_ (isNameByte_separated _)
  intro hnil
  have hparse := parseSequenceSet_of_ok h
  rw [hnil] at hparse
  cases hparse

end

namespace Fetch

open Mime

/-! ## Attributes -/

/-- A part of a section. -/
def sectionText : Mime.Section → Bytes
  | .part num => decimal num
  | .header => asBytes "HEADER"
  | .headerFields not fields =>
      asBytes (if not then "HEADER.FIELDS.NOT" else "HEADER.FIELDS") ++ space :: parenOpen ::
        (separated space (fields.map asBytes) ++ [parenClose])
  | .text => asBytes "TEXT"
  | .mime => asBytes "MIME"

/-- The part of a section that is asked for. -/
def rangeText : Option (ℕ × ℕ) → Bytes
  | none => []
  | some (start, last) => Ascii.lt :: (decimal start ++ Ascii.dot :: (decimal last ++ [Ascii.gt]))

def attributeText : Attribute → Bytes
  | .envelope => asBytes "ENVELOPE"
  | .flags => asBytes "FLAGS"
  | .internalDate => asBytes "INTERNALDATE"
  | .rfc822 => asBytes "RFC822"
  | .rfc822Size => asBytes "RFC822.SIZE"
  | .rfc822Header => asBytes "RFC822.HEADER"
  | .rfc822Text => asBytes "RFC822.TEXT"
  | .body => asBytes "BODY"
  | .bodyStructure => asBytes "BODYSTRUCTURE"
  | .bodySection peek sections range =>
      asBytes (if peek then "BODY.PEEK" else "BODY") ++ Ascii.bracketOpen ::
        (separated Ascii.dot (sections.map sectionText) ++ Ascii.bracketClose :: rangeText range)
  | .uid => asBytes "UID"
  | .binary peek sections range =>
      asBytes (if peek then "BINARY.PEEK" else "BINARY") ++ Ascii.bracketOpen ::
        (separated Ascii.dot (sections.map decimal) ++ Ascii.bracketClose :: rangeText range)
  | .binarySize sections =>
      asBytes "BINARY.SIZE" ++ Ascii.bracketOpen ::
        (separated Ascii.dot (sections.map decimal) ++ [Ascii.bracketClose])
  | .preview isLazy =>
      asBytes "PREVIEW" ++ if isLazy then space :: parenOpen ::
        (asBytes "LAZY" ++ [parenClose]) else []
  | .modSeq => asBytes "MODSEQ"
  | .emailId => asBytes "EMAILID"
  | .threadId => asBytes "THREADID"

/-- The name of a header field, of which no byte is a token or begins a string. -/
def IsFieldName (field : String) : Prop := asBytes field ≠ [] ∧ ∀ ch ∈ asBytes field, IsNameByte ch

/-- What may come last in a section. -/
def IsText : Mime.Section → Prop
  | .part _ => False
  | .headerFields _ fields => ∀ field ∈ fields, IsFieldName field
  | _ => True

/-- Part numbers, and then at most one of the others. -/
inductive IsPath : List Mime.Section → Prop
  | nil : IsPath []
  | text {last : Mime.Section} : IsText last → IsPath [last]
  | part {num : ℕ} {sections : List Mime.Section} : num < 2 ^ 32 → IsPath sections →
      IsPath (.part num :: sections)

/-- A positive length, and numbers of 32 bits. -/
def IsRange (range : Option (ℕ × ℕ)) : Prop :=
  ∀ r ∈ range, r.1 < 2 ^ 32 ∧ 0 < r.2 ∧ r.2 < 2 ^ 32

def IsAttribute : Attribute → Prop
  | .bodySection _ sections range => IsPath sections ∧ IsRange range
  | .binary _ sections range => (∀ num ∈ sections, num < 2 ^ 32) ∧ IsRange range
  | .binarySize sections => ∀ num ∈ sections, num < 2 ^ 32
  | _ => True

/-! ### What the receiver makes of them -/

/-- A name without dots. -/
theorem written_name {name : String} (h : asBytes name ≠ [] ∧ ∀ ch ∈ asBytes name, IsNameByte ch) :
    Written (asBytes name) [.argument (asBytes name)] :=
  .name h.1 h.2

theorem isNameByte_words :
    ∀ name ∈ words, asBytes name ≠ [] ∧ ∀ ch ∈ asBytes name, IsNameByte ch := by
  decide +kernel

theorem written_word {name : String} (h : name ∈ words) :
    Written (asBytes name) [.argument (asBytes name)] :=
  written_name (isNameByte_words name h)

/-- The names with a dot, and what stands on either side of it. -/
def dottedWords : List (String × String × String) :=
  [("RFC822.SIZE", "RFC822", "SIZE"), ("RFC822.HEADER", "RFC822", "HEADER"),
    ("RFC822.TEXT", "RFC822", "TEXT"), ("BODY.PEEK", "BODY", "PEEK"),
    ("BINARY.PEEK", "BINARY", "PEEK"), ("BINARY.SIZE", "BINARY", "SIZE"),
    ("HEADER.FIELDS", "HEADER", "FIELDS"), ("HEADER.FIELDS.NOT", "HEADER.FIELDS", "NOT")]

theorem asBytes_dottedWords : ∀ e ∈ dottedWords,
    asBytes e.1 = asBytes e.2.1 ++ Ascii.dot :: asBytes e.2.2 := by
  decide

/-- Two names with a dot between them. -/
theorem written_dot {name first last : String} (h : (name, first, last) ∈ dottedWords)
    (hfirst : first ∈ words) (hlast : last ∈ words) :
    Written (asBytes name) [.argument (asBytes first), .dot, .argument (asBytes last)] := by
  have hname : asBytes name = asBytes first ++ Ascii.dot :: asBytes last :=
    asBytes_dottedWords _ h
  rw [hname]
  exact (written_word hfirst).symbol rfl (written_word hlast)

theorem written_fields {fields : List String} (h : ∀ field ∈ fields, IsFieldName field) :
    Written (parenOpen :: (separated space (fields.map asBytes) ++ [parenClose]))
      (.parenthesisOpen :: (fields.map (.argument ∘ asBytes) ++ [.parenthesisClose])) := by
  have hfields : Written (separated space (fields.map asBytes))
      (fields.flatMap fun field ↦ [.argument (asBytes field)]) :=
    .spaced fields fun field hfield ↦ written_name (h field hfield)
  rw [← List.map_eq_flatMap] at hfields
  exact Written.nil.symbol rfl (hfields.symbol rfl .nil)

/-- The tokens of a part of a section. -/
def sectionTokens : Mime.Section → List Token
  | .part num => [.argument (decimal num)]
  | .header => [.argument (asBytes "HEADER")]
  | .headerFields not fields =>
      [.argument (asBytes "HEADER"), .dot, .argument (asBytes "FIELDS")] ++
        (if not then [.dot, .argument (asBytes "NOT")] else []) ++
          .parenthesisOpen :: (fields.map (.argument ∘ asBytes) ++ [.parenthesisClose])
  | .text => [.argument (asBytes "TEXT")]
  | .mime => [.argument (asBytes "MIME")]

def rangeTokens : Option (ℕ × ℕ) → List Token
  | none => []
  | some (start, last) =>
      [.lt, .argument (decimal start), .dot, .argument (decimal last), .gt]

theorem spells_self (name : String) : Spells (asBytes name) name := beq_self_eq_true _

section

variable {sections : List Mime.Section} {found : Mime.Section} {nums : List ℕ}
    {range : Option (ℕ × ℕ)}
  {attr : Attribute}

theorem IsText.written (h : IsText found) : Written (sectionText found) (sectionTokens found) := by
  cases found with
  | part => exact h.elim
  | header => exact written_word (by decide)
  | headerFields not fields =>
      have hfields : Written (asBytes "HEADER.FIELDS")
          [.argument (asBytes "HEADER"), .dot, .argument (asBytes "FIELDS")] :=
        written_dot (by decide) (by decide) (by decide)
      cases not with
      | false => exact hfields.space (written_fields h)
      | true =>
          have hnot : asBytes "HEADER.FIELDS.NOT" =
              asBytes "HEADER.FIELDS" ++ Ascii.dot :: asBytes "NOT" :=
            asBytes_dottedWords ("HEADER.FIELDS.NOT", "HEADER.FIELDS", "NOT") (by decide)
          have hname : Written (asBytes "HEADER.FIELDS" ++ Ascii.dot :: asBytes "NOT") _ :=
            hfields.symbol rfl (written_word (by decide))
          show Written (asBytes "HEADER.FIELDS.NOT" ++ _) _
          rw [hnot]
          exact hname.space (written_fields h)
  | text => exact written_word (by decide)
  | mime => exact written_word (by decide)

theorem IsPath.written (h : IsPath sections) :
    Written (separated Ascii.dot (sections.map sectionText))
      (dotted (sections.map sectionTokens)) := by
  refine .dotted sections ?_
  induction h with
  | nil => exact nofun
  | text h => exact List.forall_mem_singleton.mpr h.written
  | part _ _ ih => exact List.forall_mem_cons.mpr ⟨.decimal _, ih⟩

theorem IsText.spec (h : IsText found) : SectionSpec (sectionTokens found) [found] := by
  cases found with
  | part => exact h.elim
  | header => exact .text (.header (spells_self _))
  | headerFields not fields =>
      cases not with
      | false => exact .text (.fields (spells_self _) (spells_self _))
      | true => exact .text (.fieldsNot (spells_self _) (spells_self _) (spells_self _))
  | text => exact .text (.text (spells_self _))
  | mime => exact .text (.mime (spells_self _))

theorem IsPath.spec (h : IsPath sections) :
    SectionSpec (dotted (sections.map sectionTokens)) sections := by
  induction h with
  | nil => exact .nil
  | text h => exact h.spec
  | @part num sections hnum _ ih =>
      cases sections with
      | nil => exact .part (parseNumber_decimal hnum)
      | cons found sections => exact .cons (parseNumber_decimal hnum) (List.cons_ne_nil _ _) ih

theorem written_numbers (nums : List ℕ) : Written (separated Ascii.dot (nums.map decimal))
    (dotted (nums.map fun num ↦ [.argument (decimal num)])) :=
  .dotted nums fun num _ ↦ .decimal num

theorem binarySpec (h : ∀ num ∈ nums, num < 2 ^ 32) :
    BinarySpec (dotted (nums.map fun num ↦ [.argument (decimal num)])) nums := by
  induction nums with
  | nil => exact .nil
  | cons num nums ih =>
      obtain ⟨hnum, hnums⟩ := List.forall_mem_cons.mp h
      cases nums with
      | nil => exact .one (parseNumber_decimal hnum)
      | cons next nums =>
          exact .cons (parseNumber_decimal hnum) (List.cons_ne_nil _ _) (ih hnums)

theorem written_range (range : Option (ℕ × ℕ)) : Written (rangeText range) (rangeTokens range) := by
  cases range with
  | none => exact .nil
  | some r =>
      have hstart : Written (decimal r.1 ++ Ascii.dot :: (decimal r.2 ++ [Ascii.gt])) _ :=
        (Written.decimal r.1).symbol rfl ((Written.decimal r.2).symbol rfl .nil)
      exact Written.nil.symbol rfl hstart

theorem IsRange.partialText (h : IsRange range) : PartialText (rangeTokens range) range := by
  cases range with
  | none => exact .absent
  | some r =>
      obtain ⟨hstart, hpos, hlast⟩ := h r rfl
      exact .present (parseNumber_decimal hstart) (parseNumber_decimal hlast) hpos

theorem written_simple {name : String} (h : (name, attr) ∈ simpleAttributes) :
    Written (asBytes name) [.argument (asBytes name)] ∧ FetchAtt (asBytes name) [] attr :=
  ⟨written_word (simpleAttributes_words _ h), .simple h (spells_self name)⟩

/-- **An attribute is written as one of the grammar.** -/
theorem IsAttribute.written (h : IsAttribute attr) :
    ∃ v args, Written (attributeText attr) (.argument v :: args) ∧ FetchAtt v args attr := by
  have hbody : Written (asBytes "BODY") _ := written_word (by decide)
  have hbinary : Written (asBytes "BINARY") _ := written_word (by decide)
  cases attr with
  | envelope | flags | internalDate | bodyStructure | uid | modSeq | emailId | threadId =>
      exact ⟨_, _, written_simple (by decide)⟩
  | rfc822 => exact ⟨_, _, written_word (by decide), .rfc822 (spells_self _)⟩
  | rfc822Size =>
      exact ⟨_, _, written_dot (by decide) (by decide) (by decide),
        .rfc822Size (spells_self "RFC822") (spells_self "SIZE")⟩
  | rfc822Header =>
      exact ⟨_, _, written_dot (by decide) (by decide) (by decide),
        .rfc822Header (spells_self "RFC822") (spells_self "HEADER")⟩
  | rfc822Text =>
      exact ⟨_, _, written_dot (by decide) (by decide) (by decide),
        .rfc822Text (spells_self "RFC822") (spells_self "TEXT")⟩
  | body => exact ⟨_, _, hbody, .body (spells_self _)⟩
  | bodySection peek sections range =>
      have hsection : Written (separated Ascii.dot (sections.map sectionText) ++
          Ascii.bracketClose :: rangeText range) _ := h.1.written.symbol rfl (written_range range)
      cases peek with
      | false =>
          exact ⟨_, _, hbody.symbol rfl hsection,
            .bodySection (spells_self _) h.1.spec h.2.partialText⟩
      | true =>
          have hpeek : Written (asBytes "BODY.PEEK")
              [.argument (asBytes "BODY"), .dot, .argument (asBytes "PEEK")] :=
            written_dot (by decide) (by decide) (by decide)
          exact ⟨_, _, hpeek.symbol rfl hsection,
            .bodyPeek (spells_self "BODY") (spells_self "PEEK") h.1.spec h.2.partialText⟩
  | binary peek sections range =>
      have hsection : Written (separated Ascii.dot (sections.map decimal) ++
          Ascii.bracketClose :: rangeText range) _ :=
        (written_numbers sections).symbol rfl (written_range range)
      cases peek with
      | false =>
          exact ⟨_, _, hbinary.symbol rfl hsection,
            .binary (spells_self _) (binarySpec h.1) h.2.partialText⟩
      | true =>
          have hpeek : Written (asBytes "BINARY.PEEK")
              [.argument (asBytes "BINARY"), .dot, .argument (asBytes "PEEK")] :=
            written_dot (by decide) (by decide) (by decide)
          exact ⟨_, _, hpeek.symbol rfl hsection,
            .binaryPeek (spells_self "BINARY") (spells_self "PEEK") (binarySpec h.1)
              h.2.partialText⟩
  | binarySize sections =>
      have hsection : Written (separated Ascii.dot (sections.map decimal) ++
          [Ascii.bracketClose]) _ := (written_numbers sections).symbol rfl .nil
      have hsize : Written (asBytes "BINARY.SIZE")
          [.argument (asBytes "BINARY"), .dot, .argument (asBytes "SIZE")] :=
        written_dot (by decide) (by decide) (by decide)
      exact ⟨_, _, hsize.symbol rfl hsection,
        .binarySize (spells_self "BINARY") (spells_self "SIZE") (binarySpec h)⟩
  | preview isLazy =>
      have hpreview : Written (asBytes "PREVIEW") _ := written_word (by decide)
      cases isLazy with
      | false =>
          refine ⟨_, _, ?_, .preview (spells_self _)⟩
          show Written (asBytes "PREVIEW" ++ []) _
          rw [List.append_nil]
          exact hpreview
      | true =>
          have hlazy : Written (asBytes "LAZY") _ := written_word (by decide)
          exact ⟨_, _, hpreview.space (Written.nil.symbol rfl (hlazy.symbol rfl .nil)),
            .previewLazy (spells_self _) (spells_self _)⟩

end

/-! ## The command -/

/-- The CONDSTORE parameters of a command. -/
def Arguments.modifiers (args : Arguments) : List Modifier :=
  args.changedSince.toList.map .changedSince ++ if args.includeVanished then [.vanished] else []

def modifierText : Modifier → Bytes
  | .changedSince modseq => asBytes "CHANGEDSINCE" ++ space :: decimal modseq
  | .vanished => asBytes "VANISHED"

def condstoreText (modifiers : List Modifier) : Bytes :=
  if modifiers = [] then []
  else space :: parenOpen :: (separated space (modifiers.map modifierText) ++ [parenClose])

/-- What is written behind the name of the command. -/
def Arguments.text (args : Arguments) : Bytes :=
  args.sequenceSet.text ++ space :: parenOpen ::
    (separated space (args.attributes.map attributeText) ++ parenClose ::
      condstoreText args.modifiers)

/-- The command; FETCH or UID FETCH. -/
def Arguments.write (args : Arguments) (isUid : Bool) : Bytes :=
  asBytes args.tag ++ [space] ++ (if isUid then asBytes "UID" ++ [space] else []) ++
    asBytes "FETCH" ++ space :: (args.text ++ [cr, lf])

/-- Arguments that can be written. -/
structure Arguments.Valid (args : Arguments) : Prop where
  tag_ne : asBytes args.tag ≠ []
  tag_length : (asBytes args.tag).length ≤ 128
  tag_bytes : ∀ ch ∈ asBytes args.tag, isAsciiWhitespace ch = false
  sequenceSet : ∃ value, parseSequenceSet value = .ok args.sequenceSet
  attributes_ne : args.attributes ≠ []
  nodup : args.attributes.Nodup
  isAttribute : ∀ attr ∈ args.attributes, IsAttribute attr
  changedSince : ∀ modseq ∈ args.changedSince, modseq < 2 ^ 64

/-- The tokens of an attribute. -/
def attributeTokens (attr : Attribute) : List Token := plainTokens [] (attributeText attr)

def modifierTokens : Modifier → List Token
  | .changedSince modseq => [.argument (asBytes "CHANGEDSINCE"), .argument (decimal modseq)]
  | .vanished => [.argument (asBytes "VANISHED")]

def condstoreTokens (modifiers : List Modifier) : List Token :=
  if modifiers = [] then []
  else .parenthesisOpen :: (modifiers.flatMap modifierTokens ++ [.parenthesisClose])

section

variable {args : Arguments} {attr : Attribute} {attributes : List Attribute}
  {modifiers : List Modifier}

theorem IsAttribute.fetchAtt (h : IsAttribute attr) :
    ∃ v args, attributeTokens attr = .argument v :: args ∧ FetchAtt v args attr := by
  obtain ⟨v, args, hwritten, hattr⟩ := h.written
  exact ⟨v, args, hwritten.plainTokens_eq, hattr⟩

theorem IsAttribute.written_tokens (h : IsAttribute attr) :
    Written (attributeText attr) (attributeTokens attr) := by
  obtain ⟨v, args, hwritten, -⟩ := h.written
  rw [attributeTokens, hwritten.plainTokens_eq]
  exact hwritten

/-- An attribute takes nothing from what comes behind it. -/
theorem stops_attributes (h : ∀ attr ∈ attributes, IsAttribute attr) (rest : List Token) :
    Stops (attributes.flatMap attributeTokens ++ .parenthesisClose :: rest) ∧
      (attributes.flatMap attributeTokens ++ .parenthesisClose :: rest).head? ≠
        some .parenthesisOpen := by
  cases attributes with
  | nil => exact ⟨⟨nofun, nofun, nofun⟩, nofun⟩
  | cons attr attributes =>
      obtain ⟨v, args, htokens, -⟩ := (h attr List.mem_cons_self).fetchAtt
      rw [List.flatMap_cons, htokens]
      exact ⟨⟨nofun, nofun, nofun⟩, nofun⟩

theorem pushUnique_of_notMem (h : attr ∉ attributes) :
    pushUnique attributes attr = attributes ++ [attr] := if_neg h

/-- **Attribute after attribute**, up to the parenthesis. -/
theorem readAttributes_tokens (h : ∀ attr ∈ attributes, IsAttribute attr) (seen : List Attribute)
    (hnodup : (seen ++ attributes).Nodup) (rest : List Token) :
    readAttributes true seen (attributes.flatMap attributeTokens ++ .parenthesisClose :: rest) =
      .ok (seen ++ attributes, rest) := by
  induction attributes generalizing seen with
  | nil =>
      show readAttributes true seen (.parenthesisClose :: rest) = _
      rw [readAttributes, if_pos rfl, List.append_nil]
  | cons attr attributes ih =>
      obtain ⟨hattr, hattributes⟩ := List.forall_mem_cons.mp h
      obtain ⟨v, args, htokens, hfetch⟩ := hattr.fetchAtt
      obtain ⟨hstops, hopen⟩ := stops_attributes hattributes rest
      have hseen : attr ∉ seen := fun hmem ↦
        List.disjoint_of_nodup_append hnodup hmem List.mem_cons_self
      have hone : seen ++ attr :: attributes = seen ++ [attr] ++ attributes := by
        rw [List.append_assoc, List.singleton_append]
      rw [List.flatMap_cons, htokens, List.append_assoc, List.cons_append,
        hfetch.readAttributes hstops (fun _ ↦ hopen), pushUnique_of_notMem hseen, hone]
      exact ih hattributes (seen ++ [attr]) (hone ▸ hnodup)

theorem written_modifier (modifier : Modifier) :
    Written (modifierText modifier) (modifierTokens modifier) := by
  have hsince : Written (asBytes "CHANGEDSINCE") _ := written_word (by decide)
  cases modifier with
  | changedSince modseq => exact hsince.space (.decimal modseq)
  | vanished => exact written_word (by decide)

theorem written_condstore (modifiers : List Modifier) :
    Written (condstoreText modifiers) (condstoreTokens modifiers) := by
  unfold condstoreText condstoreTokens
  split
  · exact .nil
  · have hmodifiers := Written.spaced modifiers fun modifier _ ↦ written_modifier modifier
    exact Written.nil.space (Written.nil.symbol rfl (hmodifiers.symbol rfl .nil))

theorem modifiersText (h : ∀ modseq, .changedSince modseq ∈ modifiers → modseq < 2 ^ 64) :
    ModifiersText (modifiers.flatMap modifierTokens) modifiers := by
  induction modifiers with
  | nil => exact .nil
  | cons modifier modifiers ih =>
      have hrest := ih fun modseq hmem ↦ h modseq (List.mem_cons_of_mem _ hmem)
      cases modifier with
      | changedSince modseq =>
          exact .changedSince (spells_self _) (parseNumber_decimal (h modseq List.mem_cons_self))
            hrest
      | vanished => exact .vanished (spells_self _) hrest

theorem condstoreText_tokens (h : ∀ modseq, .changedSince modseq ∈ modifiers → modseq < 2 ^ 64) :
    CondstoreText (condstoreTokens modifiers) modifiers := by
  by_cases hnil : modifiers = []
  · subst hnil
    exact .absent
  · rw [condstoreTokens, if_neg hnil]
    exact .present (modifiersText h)

theorem applyModifiers_modifiers (args : Arguments) :
    applyModifiers (none, false) args.modifiers = (args.changedSince, args.includeVanished) := by
  obtain ⟨tag, sequenceSet, attributes, changedSince, includeVanished⟩ := args
  cases changedSince <;> cases includeVanished <;> rfl

theorem Arguments.Valid.written (h : args.Valid) : Written args.text
    (.argument args.sequenceSet.text :: .parenthesisOpen ::
      (args.attributes.flatMap attributeTokens ++ .parenthesisClose ::
        condstoreTokens args.modifiers)) := by
  obtain ⟨value, hset⟩ := h.sequenceSet
  have hattributes := Written.spaced args.attributes fun attr hattr ↦
    (h.isAttribute attr hattr).written_tokens
  have hopen : Written (parenOpen :: (separated space (args.attributes.map attributeText) ++
      parenClose :: condstoreText args.modifiers)) _ :=
    Written.nil.symbol rfl (hattributes.symbol rfl (written_condstore args.modifiers))
  exact (Written.sequenceSet hset).space hopen

/-- **A FETCH that is written is read back**: the receiver makes a request of it, and what
`parse_fetch` makes of that are the arguments.  What follows is left alone. -/
theorem parseFetch_write {max : ℕ} (h : args.Valid)
    (hsize : Receiver.cost (plainTokens [] args.text) ≤ max) (isUid : Bool) (rest : Bytes) :
    (Receiver.withMaxRequestSize max : Receiver Command).parse (args.write isUid ++ rest) =
        (.ok ⟨args.tag, .fetch isUid, plainTokens [] args.text⟩, Receiver.withMaxRequestSize max,
          rest) ∧
      parseFetch ⟨args.tag, .fetch isUid, plainTokens [] args.text⟩ = .ok args := by
  constructor
  · have hcommand : Command.parse ((asBytes "FETCH").map toAsciiUppercase) isUid =
        some (.fetch isUid) := by
      cases isUid <;> decide
    have hname := Receiver.reads_name max h.tag_ne h.tag_length h.tag_bytes hcommand
    obtain ⟨lastCh, -, hspace⟩ := Receiver.between_word max 0
      { (default : Request Command) with tag := args.tag } hcommand space rfl (by decide)
    have htokens : plainTokens [] (args.text ++ [cr]) = plainTokens [] args.text := by
      rw [h.written.read [cr] (separates_blank rfl []), h.written.plainTokens_eq]
      exact List.append_nil _
    have hplain : ∀ ch ∈ args.text ++ [cr], IsPlainByte ch := by
      intro ch hch
      rcases List.mem_append.mp hch with hch | hch
      · exact h.written.plain ch hch
      · rw [List.mem_singleton.mp hch]
        decide
    have hbytes : args.write isUid ++ rest = asBytes args.tag ++ [space] ++
        (if isUid then asBytes "UID" ++ [space] else []) ++ asBytes "FETCH" ++
          space :: (args.text ++ [cr] ++ lf :: rest) := by
      simp [Arguments.write]
    rw [hbytes, hname, Receiver.parse, hspace]
    refine (Receiver.parse_plain rfl _ hplain ?_ rest).trans ?_
    · rw [htokens, Nat.zero_add]
      exact hsize
    · rw [htokens]
      rfl
  · obtain ⟨value, hset⟩ := h.sequenceSet
    have hread : readAttributes false [] (.parenthesisOpen ::
        (args.attributes.flatMap attributeTokens ++ .parenthesisClose ::
          condstoreTokens args.modifiers)) =
        .ok (args.attributes, condstoreTokens args.modifiers) := by
      rw [readAttributes, if_neg Bool.false_ne_true]
      exact readAttributes_tokens h.isAttribute [] h.nodup _
    have hmodifiers : ∀ modseq, .changedSince modseq ∈ args.modifiers → modseq < 2 ^ 64 := by
      intro modseq hmem
      refine h.changedSince modseq ?_
      simpa [Arguments.modifiers] using hmem
    have hcondstore := (condstoreText_tokens hmodifiers).read
    rw [applyModifiers_modifiers] at hcondstore
    have hset' : parseSequenceSet (Token.argument args.sequenceSet.text).unwrapBytes =
        .ok args.sequenceSet := parseSequenceSet_of_ok hset
    rw [h.written.plainTokens_eq]
    exact parseFetch_ok hset' (List.cons_ne_nil _ _) hread h.attributes_ne hcondstore

end

/-- The arguments of a command with something of everything. -/
def everything : Arguments where
  tag := "a1"
  sequenceSet := .list [.number 1, .range (some 3) none]
  attributes := [.flags, .bodySection true [.part 1, .headerFields true ["To", "Cc"]]
    (some (0, 100)),
    .preview true, .binarySize [2, 1]]
  changedSince := some 5
  includeVanished := true

theorem everything_valid : everything.Valid where
  tag_ne := by decide +kernel
  tag_length := by decide +kernel
  tag_bytes := by decide +kernel
  sequenceSet := ⟨asBytes "1,3:*", rfl⟩
  attributes_ne := List.cons_ne_nil _ _
  nodup := by decide +kernel
  isAttribute := by
    intro attr hattr
    simp only [everything, List.mem_cons, List.not_mem_nil, or_false] at hattr
    rcases hattr with rfl | rfl | rfl | rfl
    · trivial
    · refine ⟨.part (by decide) (.text ?_), ?_⟩
      · show ∀ field ∈ ["To", "Cc"], _
        simp only [IsFieldName]
        decide +kernel
      · rintro r ⟨⟩
        decide
    · trivial
    · show ∀ num ∈ [2, 1], num < 2 ^ 32
      decide
  changedSince := by
    rintro modseq ⟨⟩
    decide

theorem parseFetch_write_everything :
    (Receiver.withMaxRequestSize 200 : Receiver Command).parse (everything.write true ++ []) =
        (.ok ⟨"a1", .fetch true, plainTokens [] everything.text⟩, Receiver.withMaxRequestSize 200,
          []) ∧
      parseFetch ⟨"a1", .fetch true, plainTokens [] everything.text⟩ = .ok everything :=
  parseFetch_write everything_valid (by decide) true []

/-- A tag of 43 characters with three bytes each. -/
def longTag : String := String.ofList (List.replicate 43 '€')

/-- A tag is measured in bytes. -/
theorem parse_write_refused : longTag.length ≤ 128 ∧
    ((Receiver.withMaxRequestSize 200 : Receiver Command).parse
      (Arguments.write ⟨longTag, .number 1, [.flags], none, false⟩ false)).1 =
        .error (.err none "Tag too long.") := by
  decide +kernel

end Fetch

end ImapToJmap
