import ImapToJmap.Core.Authenticate
import ImapToJmap.Mime.Section
import ImapToJmap.Parser.SequenceSet

/-!
# FETCH

`parser/fetch.rs`: a loop over the tokens reads the attributes, with or without a parenthesis around
them, and what follows it are the parameters of CONDSTORE.  Dots and brackets are tokens of their
own, so an attribute looks ahead for what belongs to it, and whatever opens a parenthesis inside the
loop is the parenthesis of the attributes.
-/

namespace ImapToJmap

/-- `Token::eq_ignore_ascii_case` -/
def Token.eqIgnoreAsciiCase : Token → Bytes → Bool
  | argument value, bytes => ImapToJmap.eqIgnoreAsciiCase value bytes
  | other, bytes => bytes == asBytes other.symbol

namespace Fetch

open Mime

/-- `fetch::Attribute` -/
inductive Attribute where
  | envelope
  | flags
  | internalDate
  | rfc822
  | rfc822Size
  | rfc822Header
  | rfc822Text
  | body
  | bodyStructure
  | bodySection (peek : Bool) (sections : List Mime.Section) (range : Option (ℕ × ℕ))
  | uid
  | binary (peek : Bool) (sections : List ℕ) (range : Option (ℕ × ℕ))
  | binarySize (sections : List ℕ)
  | preview (lazy : Bool)
  | modSeq
  | emailId
  | threadId
deriving DecidableEq

/-- `fetch::Arguments` -/
structure Arguments where
  tag : String
  sequenceSet : Sequence
  attributes : List Attribute
  changedSince : Option ℕ
  includeVanished : Bool

/-- The errors of `parse_fetch`, after what their texts say. -/
inductive ParseError where
  | /-- `Missing parameters.` -/
    missingParameters
  | sequence (error : SequenceSetError)
  | /-- `Expected a number, found {:?}.` -/
    number
  | /-- `Missing RFC822 parameter.` -/
    missingRfc822
  | /-- `Invalid RFC822 parameter {:?}.` -/
    invalidRfc822 (value : Bytes)
  | /-- `Expected 'PEEK' after '.'.` -/
    expectedPeek
  | /-- `Expected '[' after 'BODY.PEEK'` -/
    expectedBracket
  | /-- `Expected 'FIELDS' after 'HEADER.'.` -/
    expectedFields
  | /-- `Expected 'NOT' after 'HEADER.FIELDS.'.` -/
    expectedNot
  | /-- `Expected '(' after 'HEADER.FIELDS'.` -/
    expectedParenthesis
  | /-- `Invalid UTF-8 in header field name.` -/
    fieldUtf8
  | /-- `Expected field name.` -/
    fieldName
  | /-- `Invalid token {:?} found in section-spect.` -/
    sectionToken (token : Token)
  | /-- `Missing parameter after 'BINARY.'.` -/
    missingBinary
  | /-- `Expected 'PEEK' or 'SIZE' after 'BINARY.'.` -/
    binaryParameter
  | /-- `Expected '[' after 'BINARY'.` -/
    binaryBracket
  | /-- `Expected part section integer, got {:?}.` -/
    binaryToken (token : Token)
  | /-- `Missing partial start.` -/
    missingStart
  | /-- `Expected '.' after partial start.` -/
    partialDot
  | /-- `Missing partial end.` -/
    missingEnd
  | /-- `Invalid partial range.` -/
    invalidRange
  | /-- `Expected '>' after range.` -/
    partialGt
  | /-- `Invalid attribute {:?}` -/
    invalidAttribute (value : Bytes)
  | /-- `Unexpected parenthesis open.` -/
    parenthesisOpen
  | /-- `Unexpected parenthesis close.` -/
    parenthesisClose
  | /-- `Invalid fetch argument {:?}.` -/
    invalidArgument (token : Token)
  | /-- `Missing CHANGEDSINCE parameter.` -/
    missingChangedSince
  | /-- `Unsupported parameter '{}'.` -/
    unsupportedParameter (token : Token)
  | /-- `No data items to fetch specified.` -/
    noItems

/-- A reader of the tokens at the front. -/
abbrev Reader (α : Type) := List Token → Except ParseError (α × List Token)

/-- The next token has to be such a one. -/
def expect (is : Token → Bool) (e : ParseError) : Reader Unit
  | [] => .error e
  | token :: tokens => if is token then .ok ((), tokens) else .error e

/-- `parse_number`, of the next token; the error is that there is none. -/
def readNumber (width : ℕ) (e : ParseError) : Reader ℕ
  | [] => .error e
  | token :: tokens =>
      match parseNumber width token.unwrapBytes with
      | some n => .ok (n, tokens)
      | none => .error .number

/-! ## Attributes -/

/-- `parse_partial` -/
def readPartial : Reader (Option (ℕ × ℕ))
  | .lt :: tokens => do
      let (start, tokens) ← readNumber 32 .missingStart tokens
      let (_, tokens) ← expect (· == .dot) .partialDot tokens
      let (last, tokens) ← readNumber 32 .missingEnd tokens
      if last = 0 then .error .invalidRange
      else do
        let (_, tokens) ← expect (· == .gt) .partialGt tokens
        .ok (some (start, last), tokens)
  | tokens => .ok (none, tokens)

/-- The names of header fields, up to the parenthesis. -/
def readFields : Reader (List String)
  | [] => .ok ([], [])
  | .parenthesisClose :: tokens => .ok ([], tokens)
  | .argument value :: tokens =>
      match fromUtf8 value with
      | none => .error .fieldUtf8
      | some field => do
          let (fields, tokens) ← readFields tokens
          .ok (field :: fields, tokens)
  | _ :: _ => .error .fieldName

/-- `.NOT`, if it comes next. -/
def readNot : Reader Bool
  | .dot :: tokens => do
      let (_, tokens) ← expect (·.eqIgnoreAsciiCase (asBytes "NOT")) .expectedNot tokens
      .ok (true, tokens)
  | tokens => .ok (false, tokens)

/-- What comes after `HEADER`. -/
def readHeader : Reader Mime.Section
  | .dot :: tokens => do
      let (_, tokens) ← expect (·.eqIgnoreAsciiCase (asBytes "FIELDS")) .expectedFields tokens
      let (not, tokens) ← readNot tokens
      let (_, tokens) ← expect (· == .parenthesisOpen) .expectedParenthesis tokens
      let (fields, tokens) ← readFields tokens
      .ok (.headerFields not fields, tokens)
  | tokens => .ok (.header, tokens)

/-- One part of a section. -/
def readSection (value : Bytes) : Reader Mime.Section := fun tokens ↦
  if eqIgnoreAsciiCase value (asBytes "HEADER") then readHeader tokens
  else if eqIgnoreAsciiCase value (asBytes "TEXT") then .ok (.text, tokens)
  else if eqIgnoreAsciiCase value (asBytes "MIME") then .ok (.mime, tokens)
  else
    match parseNumber 32 value with
    | some num => .ok (.part num, tokens)
    | none => .error .number

/-- The numbers of a section of BINARY, up to the bracket. -/
def readNumbers : Reader (List ℕ)
  | [] => .ok ([], [])
  | .argument value :: tokens =>
      match parseNumber 32 value with
      | none => .error .number
      | some num => do
          let (nums, tokens) ← readNumbers tokens
          .ok (num :: nums, tokens)
  | .dot :: tokens => readNumbers tokens
  | .bracketClose :: tokens => .ok ([], tokens)
  | token :: _ => .error (.binaryToken token)

/-- The parameters of PREVIEW, up to the parenthesis. -/
def readLazy (isLazy : Bool) : List Token → Bool × List Token
  | [] => (isLazy, [])
  | .parenthesisClose :: tokens => (isLazy, tokens)
  | .argument value :: tokens =>
      readLazy (isLazy || eqIgnoreAsciiCase value (asBytes "LAZY")) tokens
  | _ :: tokens => readLazy isLazy tokens

/-! ### No reader goes back -/

/-- A reader takes tokens from the front. -/
def Goes {α : Type} (read : Reader α) : Prop :=
  ∀ tokens a rest, read tokens = .ok (a, rest) → rest.length ≤ tokens.length

section Goes

variable {α β : Type}

theorem goes_of_bind {read : Except ParseError (α × List Token)}
    {next : α × List Token → Except ParseError (β × List Token)} {b : β} {rest : List Token}
    (h : read >>= next = .ok (b, rest)) :
    ∃ a tokens, read = .ok (a, tokens) ∧ next (a, tokens) = .ok (b, rest) := by
  cases read with
  | error e => cases h
  | ok a => exact ⟨a.1, a.2, rfl, h⟩

theorem goes_expect (is : Token → Bool) (e : ParseError) : Goes (expect is e) := by
  intro tokens a rest h
  cases tokens with
  | nil => cases h
  | cons token tokens =>
      rw [expect] at h
      split at h
      · cases h
        exact Nat.le_succ _
      · cases h

theorem goes_readFields : Goes readFields := by
  intro tokens
  fun_induction readFields tokens with
  | case1 =>
      rintro fields rest ⟨⟩
      exact le_rfl
  | case2 tokens =>
      rintro fields rest ⟨⟩
      exact Nat.le_succ _
  | case3 => rintro fields rest ⟨⟩
  | case4 value tokens field hfield ih =>
      intro fields rest h
      obtain ⟨fields', tokens', hread, h⟩ := goes_of_bind h
      cases h
      exact (ih fields' _ hread).trans (Nat.le_succ _)
  | case5 => rintro fields rest ⟨⟩

theorem goes_readNot : Goes readNot := by
  intro tokens not rest h
  unfold readNot at h
  split at h
  · obtain ⟨_, tokens', hread, h⟩ := goes_of_bind h
    cases h
    exact (goes_expect _ _ _ _ _ hread).trans (Nat.le_succ _)
  · cases h
    exact le_rfl

theorem goes_readHeader : Goes readHeader := by
  intro tokens found rest h
  unfold readHeader at h
  split at h
  · obtain ⟨_, tokens₁, hfields, h⟩ := goes_of_bind h
    obtain ⟨not, tokens₂, hnot, h⟩ := goes_of_bind h
    obtain ⟨_, tokens₃, hopen, h⟩ := goes_of_bind h
    obtain ⟨fields, tokens₄, hread, h⟩ := goes_of_bind h
    cases h
    have hfour := goes_readFields _ _ _ hread
    have hthree := goes_expect _ _ _ _ _ hopen
    have htwo := goes_readNot _ _ _ hnot
    have hone := goes_expect _ _ _ _ _ hfields
    rw [List.length_cons]
    omega
  · cases h
    exact le_rfl

theorem goes_readSection (value : Bytes) : Goes (readSection value) := by
  intro tokens found rest h
  unfold readSection at h
  split at h
  · exact goes_readHeader _ _ _ h
  · split at h
    · cases h
      exact le_rfl
    · split at h
      · cases h
        exact le_rfl
      · split at h
        · cases h
          exact le_rfl
        · cases h

end Goes

/-- `section-spec`, up to the bracket. -/
def readSections : Reader (List Mime.Section)
  | [] => .ok ([], [])
  | .bracketClose :: tokens => .ok ([], tokens)
  | .argument value :: tokens =>
      match h : readSection value tokens with
      | .error e => .error e
      | .ok (found, rest) =>
          have : rest.length ≤ tokens.length := goes_readSection value tokens found rest h
          do
            let (sections, rest) ← readSections rest
            .ok (found :: sections, rest)
  | .dot :: tokens => readSections tokens
  | token :: _ => .error (.sectionToken token)
termination_by tokens => tokens.length

/-- A section, and the part of it that is asked for. -/
def readBodySection (peek : Bool) : Reader Attribute := fun tokens ↦ do
  let (sections, tokens) ← readSections tokens
  let (range, tokens) ← readPartial tokens
  .ok (.bodySection peek sections range, tokens)

/-- What comes after `RFC822`. -/
def readRfc822 : Reader Attribute
  | [.dot] => .error .missingRfc822
  | .dot :: token :: tokens =>
      let rfc822 := token.unwrapBytes
      if eqIgnoreAsciiCase rfc822 (asBytes "HEADER") then .ok (.rfc822Header, tokens)
      else if eqIgnoreAsciiCase rfc822 (asBytes "SIZE") then .ok (.rfc822Size, tokens)
      else if eqIgnoreAsciiCase rfc822 (asBytes "TEXT") then .ok (.rfc822Text, tokens)
      else .error (.invalidRfc822 rfc822)
  | tokens => .ok (.rfc822, tokens)

/-- What comes after `BODY`. -/
def readBody : Reader Attribute
  | .bracketOpen :: tokens => readBodySection false tokens
  | .dot :: tokens => do
      let (_, tokens) ← expect (·.eqIgnoreAsciiCase (asBytes "PEEK")) .expectedPeek tokens
      let (_, tokens) ← expect (· == .bracketOpen) .expectedBracket tokens
      readBodySection true tokens
  | tokens => .ok (.body, tokens)

/-- `.PEEK` or `.SIZE`, if one of them comes next. -/
def readBinaryParameter : Reader (Bool × Bool)
  | [.dot] => .error .missingBinary
  | .dot :: token :: tokens =>
      let param := token.unwrapBytes
      if eqIgnoreAsciiCase param (asBytes "PEEK") then .ok ((true, false), tokens)
      else if eqIgnoreAsciiCase param (asBytes "SIZE") then .ok ((false, true), tokens)
      else .error .binaryParameter
  | tokens => .ok ((false, false), tokens)

/-- What comes after `BINARY`. -/
def readBinary : Reader Attribute := fun tokens ↦ do
  let ((isPeek, isSize), tokens) ← readBinaryParameter tokens
  let (_, tokens) ← expect (· == .bracketOpen) .binaryBracket tokens
  let (sections, tokens) ← readNumbers tokens
  if isSize then .ok (.binarySize sections, tokens)
  else do
    let (range, tokens) ← readPartial tokens
    .ok (.binary isPeek sections range, tokens)

/-- What comes after `PREVIEW`. -/
def readPreview : Reader Attribute
  | .parenthesisOpen :: tokens =>
      let (isLazy, tokens) := readLazy false tokens
      .ok (.preview isLazy, tokens)
  | tokens => .ok (.preview false, tokens)

/-- The attributes that are a name. -/
def simpleAttributes : List (String × Attribute) := [
  ("ENVELOPE", .envelope),
  ("FLAGS", .flags),
  ("INTERNALDATE", .internalDate),
  ("BODYSTRUCTURE", .bodyStructure),
  ("UID", .uid),
  ("MODSEQ", .modSeq),
  ("EMAILID", .emailId),
  ("THREADID", .threadId)]

/-- The arms of the loop that end with `push_unique`. -/
def readAttribute (value : Bytes) : Reader Attribute := fun tokens ↦
  match simpleAttributes.find? fun e ↦ eqIgnoreAsciiCase value (asBytes e.1) with
  | some (_, attr) => .ok (attr, tokens)
  | none =>
      if eqIgnoreAsciiCase value (asBytes "RFC822") then readRfc822 tokens
      else if eqIgnoreAsciiCase value (asBytes "BODY") then readBody tokens
      else if eqIgnoreAsciiCase value (asBytes "BINARY") then readBinary tokens
      else if eqIgnoreAsciiCase value (asBytes "PREVIEW") then readPreview tokens
      else .error (.invalidAttribute value)

section Goes

theorem goes_readSections : Goes readSections := by
  intro tokens
  fun_induction readSections tokens with
  | case1 =>
      rintro sections rest ⟨⟩
      exact le_rfl
  | case2 tokens =>
      rintro sections rest ⟨⟩
      exact Nat.le_succ _
  | case3 => rintro sections rest ⟨⟩
  | case4 value tokens found rest' hfound hle ih =>
      intro sections rest h
      obtain ⟨sections', rest'', hread, h⟩ := goes_of_bind h
      cases h
      exact (ih sections' _ hread).trans (hle.trans (Nat.le_succ _))
  | case5 tokens ih =>
      intro sections rest h
      exact (ih sections rest h).trans (Nat.le_succ _)
  | case6 => rintro sections rest ⟨⟩

theorem goes_readNumber (width : ℕ) (e : ParseError) : Goes (readNumber width e) := by
  intro tokens n rest h
  unfold readNumber at h
  split at h
  · cases h
  · split at h
    · cases h
      exact Nat.le_succ _
    · cases h

theorem goes_readPartial : Goes readPartial := by
  intro tokens range rest h
  unfold readPartial at h
  split at h
  · obtain ⟨start, tokens₁, hstart, h⟩ := goes_of_bind h
    obtain ⟨_, tokens₂, hdot, h⟩ := goes_of_bind h
    obtain ⟨last, tokens₃, hlast, h⟩ := goes_of_bind h
    have hone := goes_readNumber _ _ _ _ _ hstart
    have htwo := goes_expect _ _ _ _ _ hdot
    have hthree := goes_readNumber _ _ _ _ _ hlast
    dsimp only at h
    split at h
    · cases h
    · obtain ⟨_, tokens₄, hgt, h⟩ := goes_of_bind h
      cases h
      have hfour := goes_expect _ _ _ _ _ hgt
      show tokens₄.length ≤ _
      rw [List.length_cons]
      omega
  · cases h
    exact le_rfl

theorem goes_readBodySection (peek : Bool) : Goes (readBodySection peek) := by
  intro tokens attr rest h
  obtain ⟨sections, tokens₁, hsections, h⟩ := goes_of_bind h
  obtain ⟨range, tokens₂, hrange, h⟩ := goes_of_bind h
  cases h
  exact (goes_readPartial _ _ _ hrange).trans (goes_readSections _ _ _ hsections)

theorem goes_readRfc822 : Goes readRfc822 := by
  intro tokens attr rest h
  unfold readRfc822 at h
  split at h
  · cases h
  · dsimp only at h
    split at h
    · cases h
      rw [List.length_cons, List.length_cons]
      omega
    · split at h
      · cases h
        rw [List.length_cons, List.length_cons]
        omega
      · split at h
        · cases h
          rw [List.length_cons, List.length_cons]
          omega
        · cases h
  · cases h
    exact le_rfl

theorem goes_readBody : Goes readBody := by
  intro tokens attr rest h
  unfold readBody at h
  split at h
  · exact (goes_readBodySection _ _ _ _ h).trans (Nat.le_succ _)
  · obtain ⟨_, tokens₁, hpeek, h⟩ := goes_of_bind h
    obtain ⟨_, tokens₂, hopen, h⟩ := goes_of_bind h
    have hone := goes_expect _ _ _ _ _ hpeek
    have htwo := goes_expect _ _ _ _ _ hopen
    have hthree := goes_readBodySection _ _ _ _ h
    rw [List.length_cons]
    omega
  · cases h
    exact le_rfl

theorem goes_readBinaryParameter : Goes readBinaryParameter := by
  intro tokens flags rest h
  unfold readBinaryParameter at h
  split at h
  · cases h
  · dsimp only at h
    split at h
    · cases h
      rw [List.length_cons, List.length_cons]
      omega
    · split at h
      · cases h
        rw [List.length_cons, List.length_cons]
        omega
      · cases h
  · cases h
    exact le_rfl

theorem goes_readNumbers : Goes readNumbers := by
  intro tokens
  fun_induction readNumbers tokens with
  | case1 =>
      rintro nums rest ⟨⟩
      exact le_rfl
  | case2 => rintro nums rest ⟨⟩
  | case3 value tokens num hnum ih =>
      intro nums rest h
      obtain ⟨nums', tokens', hread, h⟩ := goes_of_bind h
      cases h
      exact (ih nums' _ hread).trans (Nat.le_succ _)
  | case4 tokens ih =>
      intro nums rest h
      exact (ih nums rest h).trans (Nat.le_succ _)
  | case5 tokens =>
      rintro nums rest ⟨⟩
      exact Nat.le_succ _
  | case6 => rintro nums rest ⟨⟩

theorem goes_readBinary : Goes readBinary := by
  intro tokens attr rest h
  obtain ⟨⟨isPeek, isSize⟩, tokens₁, hparam, h⟩ := goes_of_bind h
  obtain ⟨_, tokens₂, hopen, h⟩ := goes_of_bind h
  obtain ⟨sections, tokens₃, hnums, h⟩ := goes_of_bind h
  have hone := goes_readBinaryParameter _ _ _ hparam
  have htwo := goes_expect _ _ _ _ _ hopen
  have hthree := goes_readNumbers _ _ _ hnums
  dsimp only at h
  split at h
  · cases h
    omega
  · obtain ⟨range, tokens₄, hrange, h⟩ := goes_of_bind h
    cases h
    have hfour := goes_readPartial _ _ _ hrange
    show tokens₄.length ≤ _
    omega

theorem readLazy_length (isLazy : Bool) (tokens : List Token) :
    (readLazy isLazy tokens).2.length ≤ tokens.length := by
  fun_induction readLazy isLazy tokens with
  | case1 => exact le_rfl
  | case2 isLazy tokens => exact Nat.le_succ _
  | case3 isLazy value tokens ih => exact ih.trans (Nat.le_succ _)
  | case4 isLazy token tokens _ _ ih => exact ih.trans (Nat.le_succ _)

theorem goes_readPreview : Goes readPreview := by
  intro tokens attr rest h
  unfold readPreview at h
  split at h
  · rename_i tokens
    have hlen := readLazy_length false tokens
    cases h
    exact hlen.trans (Nat.le_succ _)
  · cases h
    exact le_rfl

theorem goes_readAttribute (value : Bytes) : Goes (readAttribute value) := by
  intro tokens attr rest h
  unfold readAttribute at h
  split at h
  · cases h
    exact le_rfl
  · split at h
    · exact goes_readRfc822 _ _ _ h
    · split at h
      · exact goes_readBody _ _ _ h
      · split at h
        · exact goes_readBinary _ _ _ h
        · split at h
          · exact goes_readPreview _ _ _ h
          · cases h

end Goes

/-! ## The command -/

/-- `PushUnique` -/
def pushUnique {α : Type} [DecidableEq α] (self : List α) (value : α) : List α :=
  if value ∈ self then self else self ++ [value]

/-- The attributes that end the loop, and replace those before them. -/
def macros : List (String × List Attribute) := [
  ("ALL", [.flags, .internalDate, .rfc822Size, .envelope]),
  ("FULL", [.flags, .internalDate, .rfc822Size, .envelope, .body]),
  ("FAST", [.flags, .internalDate, .rfc822Size])]

/-- The loop over the attributes. -/
def readAttributes (inParentheses : Bool) (attributes : List Attribute) : Reader (List Attribute)
  | [] => .ok (attributes, [])
  | .argument value :: tokens =>
      match macros.find? fun e ↦ eqIgnoreAsciiCase value (asBytes e.1) with
      | some (_, attributes) => .ok (attributes, tokens)
      | none =>
          match h : readAttribute value tokens with
          | .error e => .error e
          | .ok (attr, rest) =>
              have : rest.length ≤ tokens.length := goes_readAttribute value tokens attr rest h
              readAttributes inParentheses (pushUnique attributes attr) rest
  | .parenthesisOpen :: tokens =>
      if inParentheses then .error .parenthesisOpen else readAttributes true attributes tokens
  | .parenthesisClose :: tokens =>
      if inParentheses then .ok (attributes, tokens) else .error .parenthesisClose
  | token :: _ => .error (.invalidArgument token)
termination_by tokens => tokens.length

/-- The loop over the CONDSTORE parameters; what follows the parenthesis is not read. -/
def readModifiers (changedSince : Option ℕ) (includeVanished : Bool) :
    List Token → Except ParseError (Option ℕ × Bool)
  | [] => .ok (changedSince, includeVanished)
  | .argument param :: tokens =>
      if eqIgnoreAsciiCase param (asBytes "CHANGEDSINCE") then
        match tokens with
        | [] => .error .missingChangedSince
        | token :: tokens =>
            match parseNumber 64 token.unwrapBytes with
            | some modseq => readModifiers (some modseq) includeVanished tokens
            | none => .error .number
      else if eqIgnoreAsciiCase param (asBytes "VANISHED") then
        readModifiers changedSince true tokens
      else .error (.unsupportedParameter (.argument param))
  | .parenthesisClose :: _ => .ok (changedSince, includeVanished)
  | token :: _ => .error (.unsupportedParameter token)

/-- The CONDSTORE parameters, if there are any. -/
def readCondstore : List Token → Except ParseError (Option ℕ × Bool)
  | .parenthesisOpen :: tokens => readModifiers none false tokens
  | _ => .ok (none, false)

/-- `Request::parse_fetch` -/
def parseFetch (request : Request Command) : Except ParseError Arguments :=
  match request.tokens with
  | [] | [_] => .error .missingParameters
  | set :: tokens => do
      let sequenceSet ← (parseSequenceSet set.unwrapBytes).mapError .sequence
      let (attributes, tokens) ← readAttributes false [] tokens
      let (changedSince, includeVanished) ← readCondstore tokens
      if attributes = [] then .error .noItems
      else .ok ⟨request.tag, sequenceSet, attributes, changedSince, includeVanished⟩

end Fetch

end ImapToJmap
