import ImapToJmap.Core.Authenticate
import ImapToJmap.Parser.SequenceSet
import ImapToJmap.Protocol.Search

/-!
# Reading search keys

The keys of `parse_filters` in `parser/search.rs`, one at a time: a name and the tokens it takes for
its arguments.  A token that is no argument is taken all the same, as its text, and BEFORE takes
none.

`read_append`: what a key makes of its tokens does not depend on what follows.
-/

namespace ImapToJmap

open Ascii Search

/-- `Flag::parse_imap`; `none` for an error. -/
def Flag.parseImap (value : Bytes) : Option Flag :=
  let names : List (String × Flag) :=
    match value.head? with
    | some 92 => [("\\Seen", .seen), ("\\Answered", .answered), ("\\Flagged", .flagged),
        ("\\Deleted", .deleted), ("\\Draft", .draft), ("\\Recent", .recent),
        ("\\Important", .important)]
    | some 36 => [("$Forwarded", .forwarded), ("$MDNSent", .mdnSent), ("$Junk", .junk),
        ("$NotJunk", .notJunk), ("$Phishing", .phishing), ("$Important", .important)]
    | _ => []
  if value = [] then none
  else
    match names.find? fun e ↦ eqIgnoreAsciiCase value (asBytes e.1) with
    | some e => some e.2
    | none => (fromUtf8 value).map .keyword

/-- `str::split_once('-')`, of which the second part is read. -/
def afterDash (argument : String) : Option String :=
  match argument.toList.dropWhile (· ≠ '-') with
  | [] => none
  | _ :: rest => some (String.ofList rest)

/-- The first hyphen is the one that is taken. -/
theorem afterDash_eq_some_iff {value rest : String} : afterDash value = some rest ↔
    ∃ before, '-' ∉ before ∧ value.toList = before ++ '-' :: rest.toList := by
  unfold afterDash
  constructor
  · intro h
    split at h
    · cases h
    · rename_i ch chars hdrop
      obtain rfl := Option.some.inj h
      have hch : ch = '-' := by
        have hhead := List.head?_dropWhile_not (· ≠ '-') value.toList
        rw [hdrop] at hhead
        simpa using hhead
      refine ⟨value.toList.takeWhile (· ≠ '-'), fun hmem ↦ ?_, ?_⟩
      · simpa using List.mem_takeWhile_imp hmem
      · rw [hch] at hdrop
        rw [String.toList_ofList, ← hdrop, List.takeWhile_append_dropWhile]
  · rintro ⟨before, hbefore, hvalue⟩
    have hdrop : value.toList.dropWhile (· ≠ '-') = '-' :: rest.toList := by
      rw [hvalue, List.dropWhile_append_of_pos]
      · exact List.dropWhile_cons_of_neg (by simp)
      · intro ch hch
        refine decide_eq_true ?_
        rintro rfl
        exact hbefore hch
    rw [hdrop]
    exact congrArg some String.ofList_toList

/-- The errors of `parse_filters`. -/
inductive FilterError where
  | /-- `Expected string.`, `Expected keyword`, `Expected integer`, `Expected date`,
    `Missing sequence set.`, `Missing MODSEQ parameters.` and so on: a token is missing. -/
    missing
  | /-- `Invalid UTF-8 argument.` -/
    invalidUtf8
  | /-- `Null flags are not allowed.` or `Invalid UTF-8.` -/
    flag
  | /-- `Expected a number, found {:?}.` -/
    number
  | /-- `Failed to parse date '{}'.` -/
    date
  | sequence (error : SequenceSetError)
  | /-- `Unsupported MODSEQ parameter '{}'.` -/
    modseq
  | /-- `Malformed EMAILID value.` or `Malformed THREADID value.` -/
    malformedId
  | /-- `Too many nested filters` -/
    tooManyNested
  | /-- `Unexpected parenthesis.` -/
    unexpectedParenthesis
  | /-- `Unexpected token {:?}.` -/
    unexpectedToken
deriving DecidableEq

/-- The decoder for the charset of the command, and `parse_date`, which has chrono read the date. -/
structure ArgumentReader where
  decoder : Option (Bytes → String)
  /-- `none` for an error. -/
  parseDate : Bytes → Option ℤ

/-- `decode_argument`, at a token. -/
def ArgumentReader.decode (r : ArgumentReader) (token : Token) : Except FilterError String :=
  match r.decoder with
  | some decoder => .ok (decoder token.unwrapBytes)
  | none => (fromUtf8 token.unwrapBytes).elim (.error .invalidUtf8) .ok

/-- What a key expects. -/
inductive KeyForm where
  | bare (filter : Filter)
  | text (filter : String → Filter)
  | header
  | keyword (filter : Flag → Filter)
  | number (filter : ℕ → Filter)
  | date (filter : ℤ → Filter)
  | uid
  | modseq
  | id (filter : String → Filter)

/-- The arms of `parse_filters` but OR and NOT. -/
def keyForms : List (String × KeyForm) := [
  ("ALL", .bare .all),
  ("ANSWERED", .bare .answered),
  ("BCC", .text .bcc),
  ("BEFORE", .bare .all),
  ("BODY", .text .body),
  ("CC", .text .cc),
  ("DELETED", .bare .deleted),
  ("DRAFT", .bare .draft),
  ("FLAGGED", .bare .flagged),
  ("FROM", .text .from),
  ("HEADER", .header),
  ("KEYWORD", .keyword .keyword),
  ("LARGER", .number .larger),
  ("ON", .date .on),
  ("SEEN", .bare .seen),
  ("SENTBEFORE", .date .sentBefore),
  ("SENTON", .date .sentOn),
  ("SENTSINCE", .date .sentSince),
  ("SINCE", .date .since),
  ("SMALLER", .number .smaller),
  ("SUBJECT", .text .subject),
  ("TEXT", .text .text),
  ("TO", .text .to),
  ("UID", .uid),
  ("UNANSWERED", .bare .unanswered),
  ("UNDELETED", .bare .undeleted),
  ("UNDRAFT", .bare .undraft),
  ("UNFLAGGED", .bare .unflagged),
  ("UNKEYWORD", .keyword .unkeyword),
  ("UNSEEN", .bare .unseen),
  ("OLDER", .number .older),
  ("YOUNGER", .number .younger),
  ("OLD", .bare .old),
  ("NEW", .bare .new),
  ("RECENT", .bare .recent),
  ("MODSEQ", .modseq),
  ("EMAILID", .id .emailId),
  ("THREADID", .id .threadId)]

/-- The value of a MODSEQ key, with its entry. -/
def readModseqValue (entry : ModSeqEntry) (value : Bytes) : Except FilterError Filter :=
  match parseNumber 64 value with
  | some modseq => .ok (.modSeq modseq entry)
  | none => .error .number

/-- The entry type of a MODSEQ key: `all`, `shared` or `priv`. -/
def readEntry (flag : Flag) : Token → Except FilterError ModSeqEntry
  | .argument value =>
      if eqIgnoreAsciiCase value (asBytes "all") then .ok (.all flag)
      else if eqIgnoreAsciiCase value (asBytes "shared") then .ok (.shared flag)
      else if eqIgnoreAsciiCase value (asBytes "priv") then .ok (.priv flag)
      else .error .modseq
  | _ => .error .modseq

/-- The first parameter of MODSEQ: a number, or the name of a flag. -/
def readParam (token : Token) : Except FilterError (Filter ⊕ Flag) :=
  let param := token.unwrapBytes
  if param = [] ∨ param.any (!isAsciiDigit ·) then
    if param.length ≤ 7 ∨ ¬ asBytes "/flags/" <+: param then .error .modseq
    else ((Flag.parseImap (param.drop 7)).map .inr).elim (.error .flag) .ok
  else (readModseqValue .none param).map .inl

/-- The value of EMAILID and THREADID, without the account. -/
def readId (token : Token) : Except FilterError String :=
  match token.unwrapString with
  | none => .error .invalidUtf8
  | some argument => (afterDash argument).elim (.error .malformedId) .ok

/-- A reader of the tokens after a name. -/
abbrev KeyReader := List Token → Except FilterError (Filter × List Token)

/-- A key that is complete. -/
def readDone (filter : Filter) : KeyReader := fun tokens ↦ .ok (filter, tokens)

/-- A key that takes a token and goes on. -/
def readThen {α : Type} (read : Token → Except FilterError α) (next : α → KeyReader) : KeyReader
  | [] => .error .missing
  | token :: tokens =>
      match read token with
      | .error e => .error e
      | .ok a => next a tokens

/-- The tokens that a key takes. -/
def KeyForm.read (r : ArgumentReader) : KeyForm → KeyReader
  | bare filter => readDone filter
  | text filter => readThen r.decode fun text ↦ readDone (filter text)
  | header => readThen r.decode fun name ↦ readThen r.decode fun value ↦
      readDone (.header name value)
  | keyword filter =>
      readThen (fun token ↦ (Flag.parseImap token.unwrapBytes).elim (.error .flag) .ok)
        fun flag ↦ readDone (filter flag)
  | number filter =>
      readThen (fun token ↦ (parseNumber 32 token.unwrapBytes).elim (.error .number) .ok)
        fun n ↦ readDone (filter n)
  | date filter =>
      readThen (fun token ↦ (r.parseDate token.unwrapBytes).elim (.error .date) .ok)
        fun date ↦ readDone (filter date)
  | uid =>
      readThen (fun token ↦ (parseSequenceSet token.unwrapBytes).mapError .sequence)
        fun sequence ↦ readDone (.sequence sequence true)
  | modseq =>
      readThen readParam fun
        | .inl filter => readDone filter
        | .inr flag => readThen (readEntry flag) fun entry ↦
            readThen (fun token ↦ readModseqValue entry token.unwrapBytes) readDone
  | id filter => readThen readId fun id ↦ readDone (filter id)

/-- One key, after its name. -/
def readKey (r : ArgumentReader) (value : Bytes) : KeyReader := fun tokens ↦
  match keyForms.find? fun e ↦ eqIgnoreAsciiCase value (asBytes e.1) with
  | some (_, form) => form.read r tokens
  | none =>
      match parseSequenceSet value with
      | .error e => .error (.sequence e)
      | .ok sequence => .ok (.sequence sequence false, tokens)

/-! ## What a key takes -/

section Takes

variable {r : ArgumentReader}

/-- A reader takes tokens from the front, and does not look further. -/
def Takes (read : KeyReader) : Prop :=
  ∀ tokens filter rest, read tokens = .ok (filter, rest) →
    rest.length ≤ tokens.length ∧ ∀ more, read (tokens ++ more) = .ok (filter, rest ++ more)

theorem takes_readDone (filter : Filter) : Takes (readDone filter) := by
  intro tokens filter' rest h
  obtain ⟨rfl, rfl⟩ : filter = filter' ∧ tokens = rest := by simpa [readDone] using h
  exact ⟨le_rfl, fun more ↦ rfl⟩

theorem takes_readThen {α : Type} {read : Token → Except FilterError α} {next : α → KeyReader}
    (hnext : ∀ a, Takes (next a)) : Takes (readThen read next) := by
  intro tokens filter rest h
  cases tokens with
  | nil => cases h
  | cons token tokens =>
      rw [readThen] at h
      cases hread : read token with
      | error e =>
          rw [hread] at h
          cases h
      | ok a =>
          rw [hread] at h
          obtain ⟨hlen, hmore⟩ := hnext a tokens filter rest h
          refine ⟨hlen.trans (Nat.le_succ _), fun more ↦ ?_⟩
          rw [List.cons_append, readThen, hread]
          exact hmore more

theorem takes_read (r : ArgumentReader) (form : KeyForm) : Takes (form.read r) := by
  cases form with
  | bare filter => exact takes_readDone filter
  | text filter => exact takes_readThen fun text ↦ takes_readDone _
  | header => exact takes_readThen fun name ↦ takes_readThen fun value ↦ takes_readDone _
  | keyword filter => exact takes_readThen fun flag ↦ takes_readDone _
  | number filter => exact takes_readThen fun n ↦ takes_readDone _
  | date filter => exact takes_readThen fun date ↦ takes_readDone _
  | uid => exact takes_readThen fun sequence ↦ takes_readDone _
  | modseq =>
      refine takes_readThen fun param ↦ ?_
      cases param with
      | inl filter => exact takes_readDone filter
      | inr flag => exact takes_readThen fun entry ↦ takes_readThen fun filter ↦
          takes_readDone filter
  | id filter => exact takes_readThen fun id ↦ takes_readDone _

/-- **A key takes what it takes**, whatever follows. -/
theorem takes_readKey (r : ArgumentReader) (value : Bytes) : Takes (readKey r value) := by
  intro tokens filter rest h
  unfold readKey at h ⊢
  cases hfind : keyForms.find? fun e ↦ eqIgnoreAsciiCase value (asBytes e.1) with
  | some e =>
      rw [hfind] at h
      exact takes_read r e.2 tokens filter rest h
  | none =>
      rw [hfind] at h
      dsimp only at h ⊢
      cases hset : parseSequenceSet value with
      | error e =>
          rw [hset] at h
          cases h
      | ok sequence =>
          rw [hset] at h
          exact takes_readDone _ tokens filter rest h

/-- What a reader can return. -/
def Returns (P : Filter → Prop) (read : KeyReader) : Prop :=
  ∀ tokens filter rest, read tokens = .ok (filter, rest) → P filter

variable {P : Filter → Prop}

theorem returns_readDone {filter : Filter} (h : P filter) : Returns P (readDone filter) := by
  intro tokens filter' rest hread
  obtain ⟨rfl, -⟩ : filter = filter' ∧ tokens = rest := by simpa [readDone] using hread
  exact h

theorem returns_readThen {α : Type} {read : Token → Except FilterError α} {next : α → KeyReader}
    (hnext : ∀ a token, read token = .ok a → Returns P (next a)) :
    Returns P (readThen read next) := by
  intro tokens filter rest h
  cases tokens with
  | nil => cases h
  | cons token tokens =>
      rw [readThen] at h
      cases hread : read token with
      | error e =>
          rw [hread] at h
          cases h
      | ok a =>
          rw [hread] at h
          exact hnext a token hread tokens filter rest h

/-- The filters of a form. -/
def KeyForm.Makes (P : Filter → Prop) : KeyForm → Prop
  | bare filter => P filter
  | text filter | id filter => ∀ text, P (filter text)
  | header => ∀ name value, P (.header name value)
  | keyword filter => ∀ flag, P (filter flag)
  | number filter => ∀ n, P (filter n)
  | date filter => ∀ date, P (filter date)
  | uid => ∀ sequence, P (.sequence sequence true)
  | modseq => ∀ modseq entry, P (.modSeq modseq entry)

theorem returns_readModseqValue (hP : ∀ modseq entry, P (.modSeq modseq entry))
    {entry : ModSeqEntry}
    {value : Bytes} {filter : Filter} (h : readModseqValue entry value = .ok filter) :
    P filter := by
  rw [readModseqValue] at h
  cases hnumber : parseNumber 64 value with
  | none =>
      rw [hnumber] at h
      cases h
  | some modseq =>
      rw [hnumber] at h
      obtain rfl := Except.ok.inj h
      exact hP modseq entry

theorem returns_read {form : KeyForm} (h : form.Makes P) : Returns P (form.read r) := by
  cases form with
  | bare filter => exact returns_readDone h
  | text filter => exact returns_readThen fun text _ _ ↦ returns_readDone (h text)
  | header => exact returns_readThen fun name _ _ ↦ returns_readThen fun value _ _ ↦
      returns_readDone (h name value)
  | keyword filter => exact returns_readThen fun flag _ _ ↦ returns_readDone (h flag)
  | number filter => exact returns_readThen fun n _ _ ↦ returns_readDone (h n)
  | date filter => exact returns_readThen fun date _ _ ↦ returns_readDone (h date)
  | uid => exact returns_readThen fun sequence _ _ ↦ returns_readDone (h sequence)
  | modseq =>
      refine returns_readThen fun param token hparam ↦ ?_
      cases param with
      | inl filter =>
          refine returns_readDone ?_
          rw [readParam] at hparam
          split at hparam
          · split at hparam
            · cases hparam
            · cases hflag : Flag.parseImap (token.unwrapBytes.drop 7) with
              | none => simp [hflag] at hparam
              | some flag => simp [hflag] at hparam
          · cases hvalue : readModseqValue .none token.unwrapBytes with
            | error e => simp [hvalue, Except.map] at hparam
            | ok found =>
                obtain rfl : found = filter := by simpa [hvalue, Except.map] using hparam
                exact returns_readModseqValue h hvalue
      | inr flag =>
          exact returns_readThen fun entry _ _ ↦ returns_readThen fun filter _ hvalue ↦
            returns_readDone (returns_readModseqValue h hvalue)
  | id filter => exact returns_readThen fun id _ _ ↦ returns_readDone (h id)

/-- **What the keys can be.** -/
theorem returns_readKey (hforms : ∀ e ∈ keyForms, e.2.Makes P)
    (hsequence : ∀ sequence, P (.sequence sequence false)) (value : Bytes) :
    Returns P (readKey r value) := by
  intro tokens filter rest h
  unfold readKey at h
  cases hfind : keyForms.find? fun e ↦ eqIgnoreAsciiCase value (asBytes e.1) with
  | some e =>
      rw [hfind] at h
      exact returns_read (hforms e (List.mem_of_find?_eq_some hfind)) tokens filter rest h
  | none =>
      rw [hfind] at h
      dsimp only at h
      cases hset : parseSequenceSet value with
      | error e =>
          rw [hset] at h
          cases h
      | ok sequence =>
          rw [hset] at h
          exact returns_readDone (hsequence sequence) tokens filter rest h

/-- No key is an operator. -/
theorem isKey_readKey (value : Bytes) : Returns Filter.IsKey (readKey r value) := by
  refine returns_readKey ?_ (fun sequence ↦ by simp [Filter.IsKey]) value
  simp [keyForms, KeyForm.Makes, Filter.IsKey]

/-- No key is read as BEFORE. -/
theorem ne_before_readKey (value : Bytes) : Returns (∀ date, · ≠ .before date)
    (readKey r value) := by
  refine returns_readKey ?_ (fun sequence ↦ by simp) value
  simp [keyForms, KeyForm.Makes]

end Takes

end ImapToJmap
