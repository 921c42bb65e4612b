import ImapToJmap.Parser.SearchKey

/-!
# The search keys of IMAP

`LeafKey`: each key by its name and what it takes, and the sets of messages that are keys by
themselves.  `leafKey_iff`: of the keys but BEFORE the code reads exactly these, for the same
filters.
-/

namespace ImapToJmap

open Ascii Search

/-- A key with its arguments. -/
abbrev KeyGrammar := Bytes → List Token → Filter → Prop

/-- The name of a key, not of an operator. -/
def IsKeyName (value : Bytes) : Prop :=
  eqIgnoreAsciiCase value (asBytes "OR") = false ∧ eqIgnoreAsciiCase value (asBytes "NOT") = false

/-- The token can be an argument. -/
def Token.IsArgument (token : Token) : Prop := token ≠ .parenthesisOpen ∧ token ≠ .parenthesisClose

/-- A name, in any case. -/
def Called (value : Bytes) (name : String) : Prop := eqIgnoreAsciiCase value (asBytes name) = true

/-! ## What the keys are -/

/-- The keys that take nothing. -/
def bareKeys : List (String × Filter) := [("ALL", .all), ("ANSWERED", .answered),
  ("DELETED", .deleted), ("DRAFT", .draft), ("FLAGGED", .flagged), ("NEW", .new), ("OLD", .old),
  ("RECENT", .recent), ("SEEN", .seen), ("UNANSWERED", .unanswered), ("UNDELETED", .undeleted),
  ("UNDRAFT", .undraft), ("UNFLAGGED", .unflagged), ("UNSEEN", .unseen)]

/-- Those that take a text. -/
def textKeys : List (String × (String → Filter)) := [("BCC", .bcc), ("BODY", .body), ("CC", .cc),
  ("FROM", .from), ("SUBJECT", .subject), ("TEXT", .text), ("TO", .to)]

def flagKeys : List (String × (Flag → Filter)) := [("KEYWORD", .keyword), ("UNKEYWORD", .unkeyword)]

def numberKeys : List (String × (ℕ → Filter)) := [("LARGER", .larger), ("OLDER", .older),
  ("SMALLER", .smaller), ("YOUNGER", .younger)]

def dateKeys : List (String × (ℤ → Filter)) := [("ON", .on), ("SENTBEFORE", .sentBefore),
  ("SENTON", .sentOn), ("SENTSINCE", .sentSince), ("SINCE", .since)]

/-- Those that take the id of an object behind that of the account. -/
def idKeys : List (String × (String → Filter)) := [("EMAILID", .emailId), ("THREADID", .threadId)]

/-- What a MODSEQ with a flag can be about. -/
def entryTypes : List (String × (Flag → ModSeqEntry)) := [("all", .all), ("priv", .priv),
  ("shared", .shared)]

/-- All names. -/
def keyNames : List String := bareKeys.map Prod.fst ++ textKeys.map Prod.fst ++
  flagKeys.map Prod.fst ++ numberKeys.map Prod.fst ++ dateKeys.map Prod.fst ++
  idKeys.map Prod.fst ++ ["HEADER", "UID", "MODSEQ", "BEFORE", "OR", "NOT"]

/-- A text in the charset of the command, or in UTF-8. -/
def ArgumentReader.Decodes (r : ArgumentReader) (token : Token) (text : String) : Prop :=
  match r.decoder with
  | some decoder => text = decoder token.unwrapBytes
  | none => token.unwrapBytes = asBytes text

/-- The keys of IMAP but BEFORE. -/
inductive LeafKey (r : ArgumentReader) : KeyGrammar
  | bare {value : Bytes} {name : String} {filter : Filter} (hname : Called value name)
      (hkey : (name, filter) ∈ bareKeys) : LeafKey r value [] filter
  | text {value : Bytes} {name : String} {key : String → Filter} {token : Token} {text : String}
      (hname : Called value name) (hkey : (name, key) ∈ textKeys) (htoken : token.IsArgument)
      (htext : r.Decodes token text) : LeafKey r value [token] (key text)
  | header {value : Bytes} {token token' : Token} {name text : String}
      (hname : Called value "HEADER") (htoken : token.IsArgument) (htoken' : token'.IsArgument)
      (hheader : r.Decodes token name) (htext : r.Decodes token' text) :
      LeafKey r value [token, token'] (.header name text)
  | flag {value : Bytes} {name : String} {key : Flag → Filter} {token : Token} {flag : Flag}
      (hname : Called value name) (hkey : (name, key) ∈ flagKeys) (htoken : token.IsArgument)
      (hflag : Flag.parseImap token.unwrapBytes = some flag) : LeafKey r value [token] (key flag)
  | number {value : Bytes} {name : String} {key : ℕ → Filter} {token : Token} {n : ℕ}
      (hname : Called value name) (hkey : (name, key) ∈ numberKeys) (htoken : token.IsArgument)
      (hnumber : parseNumber 32 token.unwrapBytes = some n) : LeafKey r value [token] (key n)
  | date {value : Bytes} {name : String} {key : ℤ → Filter} {token : Token} {date : ℤ}
      (hname : Called value name) (hkey : (name, key) ∈ dateKeys) (htoken : token.IsArgument)
      (hdate : r.parseDate token.unwrapBytes = some date) : LeafKey r value [token] (key date)
  | uid {value : Bytes} {token : Token} {sequence : Sequence} (hname : Called value "UID")
      (htoken : token.IsArgument) (hset : parseSequenceSet token.unwrapBytes = .ok sequence) :
      LeafKey r value [token] (.sequence sequence true)
  | modseq {value : Bytes} {token : Token} {n : ℕ} (hname : Called value "MODSEQ")
      (htoken : token.IsArgument) (hdigits : token.unwrapBytes.all isAsciiDigit = true)
      (hnumber : parseNumber 64 token.unwrapBytes = some n) :
      LeafKey r value [token] (.modSeq n .none)
  | modseqFlag {value : Bytes} {token token' : Token} {name word : Bytes} {flag : Flag}
      {entryName : String} {entry : Flag → ModSeqEntry} {n : ℕ} (hname : Called value "MODSEQ")
      (htoken : token.IsArgument) (htoken' : token'.IsArgument)
      (hpath : token.unwrapBytes = asBytes "/flags/" ++ name)
      (hflag : Flag.parseImap name = some flag) (hword : Called word entryName)
      (hentry : (entryName, entry) ∈ entryTypes)
      (hnumber : parseNumber 64 token'.unwrapBytes = some n) :
      LeafKey r value [token, .argument word, token'] (.modSeq n (entry flag))
  | id {value : Bytes} {name : String} {key : String → Filter} {token : Token} {text id : String}
      {account : List Char} (hname : Called value name) (hkey : (name, key) ∈ idKeys)
      (htoken : token.IsArgument) (htext : token.unwrapString = some text)
      (haccount : '-' ∉ account) (hid : text.toList = account ++ '-' :: id.toList) :
      LeafKey r value [token] (key id)
  | sequence {value : Bytes} {sequence : Sequence} (hname : ∀ name ∈ keyNames, ¬Called value name)
      (hset : parseSequenceSet value = .ok sequence) : LeafKey r value [] (.sequence sequence false)

/-! ## Names -/

theorem eqIgnoreAsciiCase_congr {value name : Bytes} (h : eqIgnoreAsciiCase value name = true)
    (other : Bytes) : eqIgnoreAsciiCase value other = eqIgnoreAsciiCase name other := by
  rw [eqIgnoreAsciiCase, eq_of_beq h]
  rfl

/-- The form of a key, in the grammar. -/
def KeyForm.Listed (name : String) : KeyForm → Prop
  | bare filter => (name, filter) ∈ bareKeys ∨ name = "BEFORE" ∧ filter = .all
  | text key => (name, key) ∈ textKeys
  | header => name = "HEADER"
  | keyword key => (name, key) ∈ flagKeys
  | number key => (name, key) ∈ numberKeys
  | date key => (name, key) ∈ dateKeys
  | uid => name = "UID"
  | modseq => name = "MODSEQ"
  | id key => (name, key) ∈ idKeys

theorem listed_of_mem {name : String} {form : KeyForm} (h : (name, form) ∈ keyForms) :
    form.Listed name := by
  have hall : ∀ e ∈ keyForms, e.2.Listed e.1 := by
    simp [keyForms, KeyForm.Listed, bareKeys, textKeys, flagKeys, numberKeys, dateKeys, idKeys]
  exact hall _ h

theorem mem_keyForms : (∀ e ∈ bareKeys, (e.1, .bare e.2) ∈ keyForms) ∧
    (∀ e ∈ textKeys, (e.1, .text e.2) ∈ keyForms) ∧
    (∀ e ∈ flagKeys, (e.1, .keyword e.2) ∈ keyForms) ∧
    (∀ e ∈ numberKeys, (e.1, .number e.2) ∈ keyForms) ∧
    (∀ e ∈ dateKeys, (e.1, .date e.2) ∈ keyForms) ∧
    (∀ e ∈ idKeys, (e.1, .id e.2) ∈ keyForms) := by
  simp [keyForms, bareKeys, textKeys, flagKeys, numberKeys, dateKeys, idKeys]

theorem mem_keyForms_of_listed {name : String} {form : KeyForm} (h : form.Listed name) :
    (name, form) ∈ keyForms := by
  obtain ⟨hbare, htext, hflag, hnumber, hdate, hid⟩ := mem_keyForms
  cases form with
  | bare filter =>
      rcases h with h | ⟨rfl, rfl⟩
      · exact hbare _ h
      · simp [keyForms]
  | text key => exact htext _ h
  | keyword key => exact hflag _ h
  | number key => exact hnumber _ h
  | date key => exact hdate _ h
  | id key => exact hid _ h
  | header | uid | modseq =>
      obtain rfl := h
      simp [keyForms]

theorem perm_keyNames : (keyForms.map Prod.fst ++ ["OR", "NOT"]).Perm keyNames := by
  decide

theorem nodup_keyForms : (keyForms.map Prod.fst).Nodup := by decide

/-- No two names are the same but for their case. -/
theorem eq_of_called : ∀ name ∈ keyNames, ∀ name' ∈ keyNames, Called (asBytes name) name' →
    name = name' := by
  unfold Called
  decide

section Names

variable {value : Bytes} {name : String} {form : KeyForm}

theorem mem_keyNames (h : (name, form) ∈ keyForms) : name ∈ keyNames :=
  perm_keyNames.mem_iff.mp (List.mem_append_left _ (List.mem_map_of_mem h))

/-- A name is the name of one key. -/
theorem find?_keyForms (hname : Called value name) (h : (name, form) ∈ keyForms) :
    keyForms.find? (fun e ↦ eqIgnoreAsciiCase value (asBytes e.1)) = some (name, form) := by
  cases hfind : keyForms.find? fun e ↦ eqIgnoreAsciiCase value (asBytes e.1) with
  | none => exact absurd hname (List.find?_eq_none.mp hfind _ h)
  | some e =>
      have hmem := List.mem_of_find?_eq_some hfind
      have hfound := List.find?_some hfind
      rw [← Called] at hfound
      have hsame : Called (asBytes name) e.1 := (eqIgnoreAsciiCase_congr hname _).symm.trans hfound
      have heq := eq_of_called name (mem_keyNames h) e.1 (mem_keyNames hmem) hsame
      exact congrArg some (List.inj_on_of_nodup_map nodup_keyForms hmem h heq.symm)

/-- A sequence set is no name. -/
theorem find?_eq_none_iff : keyForms.find? (fun e ↦ eqIgnoreAsciiCase value (asBytes e.1)) = none ∧
    IsKeyName value ↔ ∀ name ∈ keyNames, ¬Called value name := by
  simp only [List.find?_eq_none, ← perm_keyNames.mem_iff, List.mem_append, List.mem_map, IsKeyName,
    Called]
  constructor
  · rintro ⟨hno, hor, hnot⟩ name (⟨e, he, rfl⟩ | hop)
    · exact hno e he
    · rcases List.mem_cons.mp hop with rfl | hop
      · simp [hor]
      · rw [List.mem_singleton.mp hop]
        simp [hnot]
  · intro h
    refine ⟨fun e he ↦ h e.1 (.inl ⟨e, he, rfl⟩), ?_, ?_⟩
    · simpa using h "OR" (.inr (by simp))
    · simpa using h "NOT" (.inr (by simp))

/-- A key is neither an operator nor another key. -/
theorem not_called {other : String} (hname : Called value name) (hmem : name ∈ keyNames)
    (hother : other ∈ keyNames) (hne : name ≠ other) : eqIgnoreAsciiCase value (asBytes other) =
      false := by
  rw [eqIgnoreAsciiCase_congr hname, ← Bool.not_eq_true]
  exact fun h ↦ hne (eq_of_called name hmem other hother h)

end Names

/-! ## The reader -/

section Reader

variable {r : ArgumentReader} {value : Bytes} {tokens : List Token} {args : List Token}
  {filter : Filter} {form : KeyForm} {token : Token}

theorem readDone_eq_ok_iff {filter' : Filter} {rest : List Token} :
    readDone filter tokens = .ok (filter', rest) ↔ filter' = filter ∧ rest = tokens := by
  simp [readDone, eq_comm]

theorem readThen_eq_ok_iff {α : Type} {read : Token → Except FilterError α} {next : α → KeyReader}
    {found : Filter × List Token} : readThen read next tokens = .ok found ↔
      ∃ token rest a, tokens = token :: rest ∧ read token = .ok a ∧ next a rest = .ok found := by
  cases tokens with
  | nil => simp [readThen]
  | cons token tokens =>
      rw [readThen]
      cases hread : read token with
      | error e => simp [hread]
      | ok a => simp [hread]

theorem elim_eq_ok_iff {α : Type} {x : Option α} {e : FilterError} {a : α} :
    x.elim (.error e) .ok = Except.ok a ↔ x = some a := by
  cases x <;> simp

theorem mapError_eq_ok_iff {α ε ε' : Type} {x : Except ε α} {f : ε → ε'} {a : α} :
    x.mapError f = .ok a ↔ x = .ok a := by
  cases x <;> simp [Except.mapError]

theorem decode_eq_ok_iff {text : String} : r.decode token = .ok text ↔ r.Decodes token text := by
  rw [ArgumentReader.decode, ArgumentReader.Decodes]
  cases r.decoder with
  | some decoder => simp [eq_comm]
  | none =>
      rw [elim_eq_ok_iff]
      constructor
      · intro h
        exact (asBytes_of_fromUtf8 h).symm
      · intro h
        rw [h, fromUtf8_asBytes]

theorem readId_eq_ok_iff {id : String} : readId token = .ok id ↔ ∃ text account,
    token.unwrapString = some text ∧ '-' ∉ account ∧ text.toList = account ++ '-' :: id.toList := by
  rw [readId]
  cases token.unwrapString with
  | none => simp
  | some text =>
      simp only [elim_eq_ok_iff, afterDash_eq_some_iff, Option.some.injEq]
      constructor
      · rintro ⟨account, h⟩
        exact ⟨text, account, rfl, h⟩
      · rintro ⟨_, account, rfl, h⟩
        exact ⟨account, h⟩

theorem readModseqValue_eq_ok_iff {entry : ModSeqEntry} {bytes : Bytes} :
    readModseqValue entry bytes = .ok filter ↔
      ∃ n, parseNumber 64 bytes = some n ∧ filter = .modSeq n entry := by
  rw [readModseqValue]
  cases parseNumber 64 bytes with
  | none => simp
  | some n => simp [eq_comm]

theorem readEntry_eq_ok_iff {flag : Flag} {entry : ModSeqEntry} : readEntry flag token = .ok entry ↔
    ∃ word name make, token = .argument word ∧ (name, make) ∈ entryTypes ∧ Called word name ∧
      entry = make flag := by
  constructor
  · intro h
    cases token with
    | argument word =>
        rw [readEntry] at h
        split at h
        · next hall =>
            obtain rfl := Except.ok.inj h
            exact ⟨word, "all", .all, rfl, by simp [entryTypes], hall, rfl⟩
        · split at h
          · next hshared =>
              obtain rfl := Except.ok.inj h
              exact ⟨word, "shared", .shared, rfl, by simp [entryTypes], hshared, rfl⟩
          · split at h
            · next hpriv =>
                obtain rfl := Except.ok.inj h
                exact ⟨word, "priv", .priv, rfl, by simp [entryTypes], hpriv, rfl⟩
            · cases h
    | _ => cases h
  · rintro ⟨word, name, make, rfl, hmem, hword, rfl⟩
    have hcases : name = "all" ∧ make = .all ∨ name = "priv" ∧ make = .priv ∨
        name = "shared" ∧ make = .shared := by simpa [entryTypes] using hmem
    have hother (other : String) : eqIgnoreAsciiCase word (asBytes other) =
        eqIgnoreAsciiCase (asBytes name) (asBytes other) := eqIgnoreAsciiCase_congr hword _
    rw [readEntry, hother, hother, hother]
    rcases hcases with ⟨rfl, rfl⟩ | ⟨rfl, rfl⟩ | ⟨rfl, rfl⟩
    · rw [if_pos (by decide)]
    · rw [if_neg (by decide), if_neg (by decide), if_pos (by decide)]
    · rw [if_neg (by decide), if_pos (by decide)]

/-- The first parameter of MODSEQ is a number. -/
theorem readParam_eq_inl_iff : readParam token = .ok (.inl filter) ↔
    token.unwrapBytes.all isAsciiDigit = true ∧
      ∃ n, parseNumber 64 token.unwrapBytes = some n ∧ filter = .modSeq n .none := by
  have hempty : parseNumber 64 [] = none := rfl
  rw [readParam]
  split
  · next hno =>
      constructor
      · intro h
        split at h
        · cases h
        · cases hflag : Flag.parseImap (token.unwrapBytes.drop 7) <;> simp [hflag] at h
      · rintro ⟨hdigits, n, hn, -⟩
        rcases hno with hnil | hother
        · rw [hnil, hempty] at hn
          cases hn
        · simp [List.all_eq_true] at hdigits hother
          obtain ⟨ch, hmem, hch⟩ := hother
          simp [hdigits ch hmem] at hch
  · next hyes =>
      have hdigits : token.unwrapBytes.all isAsciiDigit = true := by
        simp only [not_or, Bool.not_eq_true, List.any_eq_false] at hyes
        simpa [List.all_eq_true] using hyes.2
      simp only [hdigits, true_and, ← readModseqValue_eq_ok_iff]
      cases readModseqValue .none token.unwrapBytes <;> simp [Except.map]

/-- It is the name of a flag. -/
theorem readParam_eq_inr_iff {flag : Flag} : readParam token = .ok (.inr flag) ↔
    ∃ name, token.unwrapBytes = asBytes "/flags/" ++ name ∧ Flag.parseImap name = some flag := by
  have hpath : (asBytes "/flags/").length = 7 := by decide
  have hslash : ∃ ch ∈ asBytes "/flags/", isAsciiDigit ch = false := by decide
  have hflags : ∀ name : Bytes, (asBytes "/flags/" ++ name).drop 7 = name := fun name ↦ by
    rw [← hpath, List.drop_left]
  rw [readParam]
  constructor
  · intro h
    split at h
    · split at h
      · cases h
      · next hyes =>
          obtain ⟨name, hname⟩ := not_not.mp (not_or.mp hyes).2
          rw [← hname, hflags] at h
          refine ⟨name, hname.symm, ?_⟩
          cases hflag : Flag.parseImap name with
          | none => simp [hflag] at h
          | some found => simpa [hflag] using h
    · cases hvalue : readModseqValue .none token.unwrapBytes <;> simp [hvalue, Except.map] at h
  · rintro ⟨name, hname, hflag⟩
    have hne : name ≠ [] := by
      rintro rfl
      cases hflag
    obtain ⟨ch, hmem, hdigit⟩ := hslash
    have hany : token.unwrapBytes.any (!isAsciiDigit ·) = true := by
      rw [hname, List.any_eq_true]
      exact ⟨ch, List.mem_append_left _ hmem, by simp [hdigit]⟩
    have hlong : ¬(token.unwrapBytes.length ≤ 7 ∨ ¬asBytes "/flags/" <+: token.unwrapBytes) := by
      have hpos := List.length_pos_of_ne_nil hne
      rw [hname, List.length_append, hpath]
      simp only [not_or, not_not]
      exact ⟨by omega, name, rfl⟩
    rw [if_pos (.inr hany), if_neg hlong, hname, hflags, hflag]
    rfl

/-- What a form takes is what the grammar says of its names. -/
theorem leafKey_of_read {name : String} (hname : Called value name) (hform : form.Listed name)
    (hbefore : eqIgnoreAsciiCase value (asBytes "BEFORE") = false)
    (hargs : ∀ token ∈ args, token.IsArgument) (h : form.read r args = .ok (filter, [])) :
    LeafKey r value args filter := by
  cases form with
  | bare found =>
      obtain ⟨rfl, rfl⟩ := readDone_eq_ok_iff.mp h
      rcases hform with hkey | ⟨rfl, -⟩
      · exact .bare hname hkey
      · rw [Called, hbefore] at hname
        cases hname
  | text key =>
      obtain ⟨token, rest, text, rfl, htext, hrest⟩ := readThen_eq_ok_iff.mp h
      obtain ⟨rfl, rfl⟩ := readDone_eq_ok_iff.mp hrest
      exact .text hname hform (hargs token (by simp)) (decode_eq_ok_iff.mp htext)
  | header =>
      obtain rfl := hform
      obtain ⟨token, rest, field, rfl, hfield, hrest⟩ := readThen_eq_ok_iff.mp h
      obtain ⟨token', rest, text, rfl, htext, hrest⟩ := readThen_eq_ok_iff.mp hrest
      obtain ⟨rfl, rfl⟩ := readDone_eq_ok_iff.mp hrest
      exact .header hname (hargs token (by simp)) (hargs token' (by simp))
        (decode_eq_ok_iff.mp hfield) (decode_eq_ok_iff.mp htext)
  | keyword key =>
      obtain ⟨token, rest, flag, rfl, hflag, hrest⟩ := readThen_eq_ok_iff.mp h
      obtain ⟨rfl, rfl⟩ := readDone_eq_ok_iff.mp hrest
      exact .flag hname hform (hargs token (by simp)) (elim_eq_ok_iff.mp hflag)
  | number key =>
      obtain ⟨token, rest, n, rfl, hnumber, hrest⟩ := readThen_eq_ok_iff.mp h
      obtain ⟨rfl, rfl⟩ := readDone_eq_ok_iff.mp hrest
      exact .number hname hform (hargs token (by simp)) (elim_eq_ok_iff.mp hnumber)
  | date key =>
      obtain ⟨token, rest, date, rfl, hdate, hrest⟩ := readThen_eq_ok_iff.mp h
      obtain ⟨rfl, rfl⟩ := readDone_eq_ok_iff.mp hrest
      exact .date hname hform (hargs token (by simp)) (elim_eq_ok_iff.mp hdate)
  | uid =>
      obtain rfl := hform
      obtain ⟨token, rest, sequence, rfl, hset, hrest⟩ := readThen_eq_ok_iff.mp h
      obtain ⟨rfl, rfl⟩ := readDone_eq_ok_iff.mp hrest
      exact .uid hname (hargs token (by simp)) (mapError_eq_ok_iff.mp hset)
  | modseq =>
      obtain rfl := hform
      obtain ⟨token, rest, param, rfl, hparam, hrest⟩ := readThen_eq_ok_iff.mp h
      cases param with
      | inl found =>
          obtain ⟨rfl, rfl⟩ := readDone_eq_ok_iff.mp hrest
          obtain ⟨hdigits, n, hn, rfl⟩ := readParam_eq_inl_iff.mp hparam
          exact .modseq hname (hargs token (by simp)) hdigits hn
      | inr flag =>
          obtain ⟨path, hpath, hflag⟩ := readParam_eq_inr_iff.mp hparam
          obtain ⟨entryToken, rest, entry, rfl, hentry, hrest⟩ := readThen_eq_ok_iff.mp hrest
          obtain ⟨word, entryName, make, rfl, hmem, hword, rfl⟩ := readEntry_eq_ok_iff.mp hentry
          obtain ⟨token', rest, found, rfl, hvalue, hrest⟩ := readThen_eq_ok_iff.mp hrest
          obtain ⟨rfl, rfl⟩ := readDone_eq_ok_iff.mp hrest
          obtain ⟨n, hn, rfl⟩ := readModseqValue_eq_ok_iff.mp hvalue
          exact .modseqFlag hname (hargs token (by simp)) (hargs token' (by simp)) hpath hflag hword
            hmem hn
  | id key =>
      obtain ⟨token, rest, id, rfl, hid, hrest⟩ := readThen_eq_ok_iff.mp h
      obtain ⟨rfl, rfl⟩ := readDone_eq_ok_iff.mp hrest
      obtain ⟨text, account, htext, haccount, heq⟩ := readId_eq_ok_iff.mp hid
      exact .id hname hform (hargs token (by simp)) htext haccount heq

/-- A name with a form is read with that form. -/
theorem readKey_eq (form : KeyForm) {name : String} (hname : Called value name)
    (hform : form.Listed name) :
    readKey r value args = form.read r args := by
  rw [readKey, find?_keyForms hname (mem_keyForms_of_listed hform)]

/-- What the code makes of a key. -/
theorem LeafKey.read (h : LeafKey r value args filter) :
    readKey r value args = .ok (filter, []) := by
  cases h with
  | bare hname hkey => exact readKey_eq (.bare filter) hname (.inl hkey)
  | @text _ _ key _ _ hname hkey htoken htext =>
      rw [readKey_eq (.text key) hname hkey, KeyForm.read, readThen_eq_ok_iff]
      exact ⟨_, _, _, rfl, decode_eq_ok_iff.mpr htext, rfl⟩
  | header hname htoken htoken' hheader htext =>
      rw [readKey_eq .header hname rfl, KeyForm.read, readThen_eq_ok_iff]
      refine ⟨_, _, _, rfl, decode_eq_ok_iff.mpr hheader, readThen_eq_ok_iff.mpr ?_⟩
      exact ⟨_, _, _, rfl, decode_eq_ok_iff.mpr htext, rfl⟩
  | @flag _ _ key _ _ hname hkey htoken hflag =>
      rw [readKey_eq (.keyword key) hname hkey, KeyForm.read, readThen_eq_ok_iff]
      exact ⟨_, _, _, rfl, elim_eq_ok_iff.mpr hflag, rfl⟩
  | @number _ _ key _ _ hname hkey htoken hnumber =>
      rw [readKey_eq (.number key) hname hkey, KeyForm.read, readThen_eq_ok_iff]
      exact ⟨_, _, _, rfl, elim_eq_ok_iff.mpr hnumber, rfl⟩
  | @date _ _ key _ _ hname hkey htoken hdate =>
      rw [readKey_eq (.date key) hname hkey, KeyForm.read, readThen_eq_ok_iff]
      exact ⟨_, _, _, rfl, elim_eq_ok_iff.mpr hdate, rfl⟩
  | uid hname htoken hset =>
      rw [readKey_eq .uid hname rfl, KeyForm.read, readThen_eq_ok_iff]
      exact ⟨_, _, _, rfl, mapError_eq_ok_iff.mpr hset, rfl⟩
  | modseq hname htoken hdigits hnumber =>
      rw [readKey_eq .modseq hname rfl, KeyForm.read, readThen_eq_ok_iff]
      exact ⟨_, _, _, rfl, readParam_eq_inl_iff.mpr ⟨hdigits, _, hnumber, rfl⟩, rfl⟩
  | modseqFlag hname htoken htoken' hpath hflag hword hentry hnumber =>
      rw [readKey_eq .modseq hname rfl, KeyForm.read, readThen_eq_ok_iff]
      refine ⟨_, _, _, rfl, readParam_eq_inr_iff.mpr ⟨_, hpath, hflag⟩, readThen_eq_ok_iff.mpr ?_⟩
      refine ⟨_, _, _, rfl, readEntry_eq_ok_iff.mpr ⟨_, _, _, rfl, hentry, hword, rfl⟩, ?_⟩
      refine readThen_eq_ok_iff.mpr ⟨_, _, _, rfl, readModseqValue_eq_ok_iff.mpr ?_, rfl⟩
      exact ⟨_, hnumber, rfl⟩
  | @id _ _ key _ _ _ _ hname hkey htoken htext haccount hid =>
      rw [readKey_eq (.id key) hname hkey, KeyForm.read, readThen_eq_ok_iff]
      exact ⟨_, _, _, rfl, readId_eq_ok_iff.mpr ⟨_, _, htext, haccount, hid⟩, rfl⟩
  | sequence hname hset =>
      rw [readKey, (find?_eq_none_iff.mpr hname).1]
      dsimp only
      rw [hset]

/-- The arguments of a key are no parentheses. -/
theorem LeafKey.arguments (h : LeafKey r value args filter) : ∀ token ∈ args, token.IsArgument := by
  cases h <;> simp_all [Token.IsArgument]

/-- A key but BEFORE is none of the names that are left. -/
theorem KeyForm.not_called (form : KeyForm) {name : String} (hname : Called value name)
    (hform : form.Listed name) (hbefore : name ≠ "BEFORE") :
    IsKeyName value ∧ eqIgnoreAsciiCase value (asBytes "BEFORE") = false := by
  have hkeys := mem_keyForms_of_listed hform
  have hmem := mem_keyNames hkeys
  have hother : ∀ other ∈ keyNames, name ≠ other →
      eqIgnoreAsciiCase value (asBytes other) = false :=
    fun other h ↦ ImapToJmap.not_called hname hmem h
  have hoperator : name ∉ ["OR", "NOT"] := by
    have hall : ∀ e ∈ keyForms, e.1 ∉ ["OR", "NOT"] := by simp [keyForms]
    exact hall _ hkeys
  simp only [List.mem_cons, List.not_mem_nil, or_false, not_or] at hoperator
  exact ⟨⟨hother "OR" (by simp [keyNames]) hoperator.1, hother "NOT" (by simp [keyNames])
    hoperator.2⟩, hother "BEFORE" (by simp [keyNames]) hbefore⟩

/-- BEFORE is in none of the lists. -/
theorem ne_before : (∀ e ∈ bareKeys, e.1 ≠ "BEFORE") ∧ (∀ e ∈ textKeys, e.1 ≠ "BEFORE") ∧
    (∀ e ∈ flagKeys, e.1 ≠ "BEFORE") ∧ (∀ e ∈ numberKeys, e.1 ≠ "BEFORE") ∧
    (∀ e ∈ dateKeys, e.1 ≠ "BEFORE") ∧ (∀ e ∈ idKeys, e.1 ≠ "BEFORE") := by
  simp [bareKeys, textKeys, flagKeys, numberKeys, dateKeys, idKeys]

/-- So a key is neither an operator nor BEFORE. -/
theorem LeafKey.name (h : LeafKey r value args filter) :
    IsKeyName value ∧ eqIgnoreAsciiCase value (asBytes "BEFORE") = false := by
  obtain ⟨hbare, htext, hflag, hnumber, hdate, hid⟩ := ne_before
  cases h with
  | bare hname hkey => exact KeyForm.not_called (.bare filter) hname (.inl hkey) (hbare _ hkey)
  | @text _ _ key _ _ hname hkey =>
      exact KeyForm.not_called (.text key) hname hkey (htext _ hkey)
  | @flag _ _ key _ _ hname hkey =>
      exact KeyForm.not_called (.keyword key) hname hkey (hflag _ hkey)
  | @number _ _ key _ _ hname hkey =>
      exact KeyForm.not_called (.number key) hname hkey (hnumber _ hkey)
  | @date _ _ key _ _ hname hkey =>
      exact KeyForm.not_called (.date key) hname hkey (hdate _ hkey)
  | @id _ _ key _ _ _ _ hname hkey => exact KeyForm.not_called (.id key) hname hkey (hid _ hkey)
  | header hname => exact KeyForm.not_called .header hname rfl (by simp)
  | uid hname => exact KeyForm.not_called .uid hname rfl (by simp)
  | modseq hname | modseqFlag hname => exact KeyForm.not_called .modseq hname rfl (by simp)
  | sequence hname =>
      refine ⟨(find?_eq_none_iff.mpr hname).2, ?_⟩
      exact Bool.eq_false_of_not_eq_true (hname "BEFORE" (by simp [keyNames]))

/-- **The code reads the keys**: all but BEFORE, for the filters they stand for. -/
theorem leafKey_iff : LeafKey r value args filter ↔
    (IsKeyName value ∧ eqIgnoreAsciiCase value (asBytes "BEFORE") = false) ∧
      (∀ token ∈ args, token.IsArgument) ∧ readKey r value args = .ok (filter, []) := by
  refine ⟨fun h ↦ ⟨h.name, h.arguments, h.read⟩, ?_⟩
  rintro ⟨⟨hname, hbefore⟩, hargs, hread⟩
  cases hfind : keyForms.find? fun e ↦ eqIgnoreAsciiCase value (asBytes e.1) with
  | some e =>
      rw [readKey, hfind] at hread
      have hname' := List.find?_some hfind
      rw [← Called] at hname'
      exact leafKey_of_read hname' (listed_of_mem (List.mem_of_find?_eq_some hfind)) hbefore hargs
        hread
  | none =>
      rw [readKey, hfind] at hread
      dsimp only at hread
      cases hset : parseSequenceSet value with
      | error e => simp [hset] at hread
      | ok sequence =>
          rw [hset] at hread
          obtain ⟨rfl, rfl⟩ := readDone_eq_ok_iff.mp hread
          exact .sequence (find?_eq_none_iff.mp ⟨hfind, hname⟩) hset

end Reader

end ImapToJmap
