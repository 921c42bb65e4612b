import ImapToJmap.Commands.SearchResults
import ImapToJmap.Data.Unwrap
import ImapToJmap.Parser.Filters

/-!
# STORE, COPY, MOVE, APPEND and SEARCH

The parsers of these commands.  `parse_append` unwraps two tokens and `parse_search` a filter, each
after a look at how many there are; the others ask for each token with an error at hand.
-/

namespace ImapToJmap

open Fallible

/-- `parse_datetime` and `parse_date` have chrono read what they are given, and the decoders of
charsets are those of the mail parser. -/
structure ArgumentReaders where
  /-- `none` for an error. -/
  parseDatetime : Bytes → Option ℤ
  /-- `none` for an error. -/
  parseDate : Bytes → Option ℤ
  /-- `get_charset_decoder` -/
  charsetDecoder : Bytes → Option (Bytes → String)

/-- The errors of these parsers. -/
inductive ArgumentError where
  | /-- `Missing arguments.` -/
    missingArguments
  | /-- `Missing sequence set.` -/
    missingSequenceSet
  | /-- `Missing mailbox name.` -/
    missingMailbox
  | /-- `Missing UNCHANGEDSINCE parameter.` -/
    missingUnchangedSince
  | /-- `Unsupported parameter '{}'.` -/
    unsupportedParameter (token : Token)
  | /-- `Missing message data item name.` -/
    missingOperation
  | /-- `Unsupported message data item name: {:?}` -/
    unsupportedOperation (name : Bytes)
  | /-- `Missing flags to set.` -/
    missingFlags
  | /-- `Unsupported flag.` -/
    unsupportedFlag
  | /-- `Invalid flags parameter.` -/
    invalidFlags
  | /-- `Invalid flag.` -/
    invalidFlag
  | /-- `Missing paramaters after flags.` -/
    missingAfterFlags
  | /-- `Missing search criteria.` -/
    missingCriteria
  | /-- `Missing charset.` -/
    missingCharset
  | /-- `Invalid result option, expected parenthesis.` -/
    resultParenthesis
  | /-- `Invalid result option argument.` -/
    resultArgument
  | /-- `Invalid result option {:?}` -/
    resultOption (value : Bytes)
  | /-- `No filters found in command.` -/
    noFilters
  | /-- `Invalid UTF-8 in argument.` -/
    invalidUtf8
  | /-- `Expected a number, found {:?}.` -/
    number
  | /-- `Null flags are not allowed.` or `Invalid UTF-8.` -/
    flag
  | sequence (error : SequenceSetError)
  | filter (error : FilterError)
deriving DecidableEq

namespace Arguments

/-- `parse_sequence_set`, of the next token. -/
def readSequenceSet : List Token → Except ArgumentError (Sequence × List Token)
  | [] => .error .missingSequenceSet
  | token :: tokens =>
      match parseSequenceSet token.unwrapBytes with
      | .ok set => .ok (set, tokens)
      | .error e => .error (.sequence e)

/-- The string at the front. -/
def readMailbox : List Token → Except ArgumentError (String × List Token)
  | [] => .error .missingMailbox
  | token :: tokens =>
      match token.unwrapString with
      | some mailboxName => .ok (mailboxName, tokens)
      | none => .error .invalidUtf8

/-- Flags, up to the parenthesis; the error is that of a token that is no argument. -/
def readFlags (e : ArgumentError) : List Token → Except ArgumentError (List Flag × List Token)
  | [] => .ok ([], [])
  | .parenthesisClose :: tokens => .ok ([], tokens)
  | .argument value :: tokens =>
      match Flag.parseImap value with
      | none => .error .flag
      | some flag => do
          let (flags, tokens) ← readFlags e tokens
          .ok (flag :: flags, tokens)
  | _ :: _ => .error e

theorem length_readFlags {e : ArgumentError} {tokens rest : List Token} {flags : List Flag}
    (h : readFlags e tokens = .ok (flags, rest)) : rest.length ≤ tokens.length := by
  fun_induction readFlags e tokens generalizing flags with
  | case1 =>
      cases h
      exact le_rfl
  | case2 tokens =>
      cases h
      exact Nat.le_succ _
  | case3 => cases h
  | case4 value tokens flag hflag ih =>
      cases hread : readFlags e tokens with
      | error e =>
          rw [hread] at h
          cases h
      | ok found =>
          rw [hread] at h
          cases h
          exact (ih hread).trans (Nat.le_succ _)
  | case5 => cases h

end Arguments

/-! ## STORE, COPY and MOVE -/

namespace Store

open ImapToJmap.Arguments

/-- `store::Arguments` -/
structure Arguments where
  sequenceSet : Sequence
  operation : Operation
  isSilent : Bool
  keywords : List Flag
  unchangedSince : Option ℕ

/-- The parameters of STORE, up to the parenthesis. -/
def readModifiers (unchangedSince : Option ℕ) :
    List Token → Except ArgumentError (Option ℕ × List Token)
  | [] => .ok (unchangedSince, [])
  | .parenthesisClose :: tokens => .ok (unchangedSince, tokens)
  | [.argument param] =>
      if eqIgnoreAsciiCase param (asBytes "UNCHANGEDSINCE") then .error .missingUnchangedSince
      else .error (.unsupportedParameter (.argument param))
  | .argument param :: value :: tokens =>
      if eqIgnoreAsciiCase param (asBytes "UNCHANGEDSINCE") then
        match parseNumber 64 value.unwrapBytes with
        | some modseq => readModifiers (some modseq) tokens
        | none => .error .number
      else .error (.unsupportedParameter (.argument param))
  | token :: _ => .error (.unsupportedParameter token)

/-- The parameters, if there is a parenthesis. -/
def readUnchangedSince : List Token → Except ArgumentError (Option ℕ × List Token)
  | .parenthesisOpen :: tokens => readModifiers none tokens
  | tokens => .ok (none, tokens)

/-- `(is_silent, operation)`, by the names of the data items. -/
def operations : List (String × Bool × Operation) := [
  ("FLAGS", false, .set),
  ("FLAGS.SILENT", true, .set),
  ("+FLAGS", false, .add),
  ("+FLAGS.SILENT", true, .add),
  ("-FLAGS", false, .clear),
  ("-FLAGS.SILENT", true, .clear)]

def readOperation : List Token → Except ArgumentError ((Bool × Operation) × List Token)
  | [] => .error .missingOperation
  | token :: tokens =>
      match operations.find? fun e ↦ eqIgnoreAsciiCase token.unwrapBytes (asBytes e.1) with
      | some (_, operation) => .ok (operation, tokens)
      | none => .error (.unsupportedOperation token.unwrapBytes)

/-- One flag, or a list of them. -/
def readKeywords : List Token → Except ArgumentError (List Flag)
  | [] => .error .missingFlags
  | .parenthesisOpen :: tokens => (readFlags .unsupportedFlag tokens).map Prod.fst
  | .argument value :: _ =>
      match Flag.parseImap value with
      | some flag => .ok [flag]
      | none => .error .flag
  | _ :: _ => .error .invalidFlags

/-- `parse_store` -/
def parseStore (request : Request Command) : Except ArgumentError Arguments := do
  let (sequenceSet, tokens) ← readSequenceSet request.tokens
  let (unchangedSince, tokens) ← readUnchangedSince tokens
  let ((isSilent, operation), tokens) ← readOperation tokens
  let keywords ← readKeywords tokens
  if keywords ≠ [] ∨ operation = .set then
    .ok ⟨sequenceSet, operation, isSilent, keywords, unchangedSince⟩
  else .error .missingFlags

end Store

namespace CopyMove

open ImapToJmap.Arguments

/-- `copy_move::Arguments` -/
structure Arguments where
  sequenceSet : Sequence
  mailboxName : String

/-- `parse_copy_move` -/
def parseCopyMove (request : Request Command) : Except ArgumentError Arguments :=
  if 1 < request.tokens.length then do
    let (sequenceSet, tokens) ← readSequenceSet request.tokens
    let (mailboxName, _) ← readMailbox tokens
    .ok ⟨sequenceSet, mailboxName⟩
  else .error .missingArguments

end CopyMove

/-! ## APPEND -/

namespace Append

open ImapToJmap.Arguments

/-- `append::Message` -/
structure Message where
  message : Bytes
  flags : List Flag
  receivedAt : Option ℤ
deriving DecidableEq

/-- `append::Arguments` -/
structure Arguments where
  mailboxName : String
  messages : List Message
deriving DecidableEq

/-- The flags, and the token that comes after them. -/
def readMessageFlags (token : Token) (tokens : List Token) :
    Except ArgumentError (List Flag × Token × List Token) :=
  match token with
  | .parenthesisOpen =>
      match readFlags .invalidFlag tokens with
      | .error e => .error e
      | .ok (_, []) => .error .missingAfterFlags
      | .ok (flags, token :: tokens) => .ok (flags, token, tokens)
  | token => .ok ([], token, tokens)

/-- The text and the date: a short token that is a date is one, if another token follows. -/
def readText (r : ArgumentReaders) (token : Token) (tokens : List Token) :
    Fallible ArgumentError ((Bytes × Option ℤ) × List Token) :=
  if tokens.head?.isSome then
    let tokenBytes := token.unwrapBytes
    if tokenBytes.length ≤ 28 then
      match r.parseDatetime tokenBytes with
      | some dateTime => do
          let (message, tokens) ← unwrap tokens.next?
          .ok ((message.unwrapBytes, some dateTime), tokens)
      | none => .ok ((tokenBytes, none), tokens)
    else .ok ((tokenBytes, none), tokens)
  else .ok ((token.unwrapBytes, none), tokens)

/-- One turn of the loop over the messages. -/
def readMessage (r : ArgumentReaders) (token : Token) (tokens : List Token) :
    Fallible ArgumentError (Message × List Token) := do
  let (flags, token, tokens) ← lift id (readMessageFlags token tokens)
  let ((message, receivedAt), tokens) ← readText r token tokens
  .ok (⟨message, flags, receivedAt⟩, tokens)

section

variable {r : ArgumentReaders} {token : Token} {tokens rest : List Token}

theorem length_readMessageFlags {found : List Flag × Token × List Token}
    (h : readMessageFlags token tokens = .ok found) : found.2.2.length ≤ tokens.length := by
  unfold readMessageFlags at h
  split at h
  · split at h
    · cases h
    · cases h
    · rename_i flags token rest hread
      cases h
      exact (Nat.le_succ _).trans (length_readFlags hread)
  · cases h
    exact le_rfl

/-- What is unwrapped has been looked at. -/
theorem sound_readText : Sound (readText r token tokens) := by
  cases tokens with
  | nil => exact sound_ok _
  | cons next tokens =>
      show Sound (if token.unwrapBytes.length ≤ 28 then _ else _)
      split
      · split
        · exact sound_ok _
        · exact sound_ok _
      · exact sound_ok _

theorem length_readText {found : (Bytes × Option ℤ) × List Token}
    (h : readText r token tokens = .ok found) : found.2.length ≤ tokens.length := by
  cases tokens with
  | nil =>
      cases h
      exact le_rfl
  | cons next tokens =>
      change (if token.unwrapBytes.length ≤ 28 then _ else _) = _ at h
      split at h
      · split at h
        · cases h
          exact Nat.le_succ _
        · cases h
          exact le_rfl
      · cases h
        exact le_rfl

theorem sound_readMessage : Sound (readMessage r token tokens) := by
  refine sound_bind (sound_lift _ _) fun _ _ ↦ ?_
  exact sound_bind sound_readText fun _ _ ↦ sound_ok _

theorem length_readMessage {message : Message}
    (h : readMessage r token tokens = .ok (message, rest)) :
    rest.length ≤ tokens.length := by
  obtain ⟨found, hflags, h⟩ := Fallible.bind_eq_ok_iff.mp h
  obtain ⟨text, htext, h⟩ := Fallible.bind_eq_ok_iff.mp h
  cases h
  exact (length_readText htext).trans (length_readMessageFlags (lift_eq_ok_iff.mp hflags))

end

/-- The loop over the messages. -/
def readMessages (r : ArgumentReaders) : List Token → Fallible ArgumentError (List Message)
  | [] => .ok []
  | token :: tokens =>
      match h : readMessage r token tokens with
      | .error e => .error e
      | .ok (message, rest) =>
          have : rest.length ≤ tokens.length := length_readMessage h
          do
            let messages ← readMessages r rest
            .ok (message :: messages)
termination_by tokens => tokens.length

/-- `parse_append` -/
def parseAppend (r : ArgumentReaders) (request : Request Command) :
    Fallible ArgumentError Arguments :=
  if request.tokens.length ≤ 1 then .error (.error .missingArguments)
  else do
    let (token, tokens) ← unwrap request.tokens.next?
    let mailboxName ← okOr .invalidUtf8 token.unwrapString
    let messages ← readMessages r tokens
    .ok ⟨mailboxName, messages⟩

theorem sound_readMessages (r : ArgumentReaders) (tokens : List Token) :
    Sound (readMessages r tokens) := by
  fun_induction readMessages r tokens with
  | case1 => exact sound_ok _
  | case2 token tokens e he =>
      intro hpanics
      have herror : e = .panics := Except.error.inj hpanics
      exact sound_readMessage (he.trans (congrArg Except.error herror))
  | case3 token tokens message rest hread hle ih => exact sound_bind ih fun _ _ ↦ sound_ok _

theorem sound_parseAppend (r : ArgumentReaders) (request : Request Command) :
    Sound (parseAppend r request) := by
  rw [parseAppend]
  split
  · exact sound_error _
  · rename_i hlt
    have hne : request.tokens ≠ [] := by
      intro hnil
      rw [hnil] at hlt
      exact hlt (Nat.zero_le 1)
    obtain ⟨token, tokens, hcons⟩ := List.exists_cons_of_ne_nil hne
    rw [hcons]
    refine sound_bind (sound_unwrap_iff.mpr rfl) fun _ _ ↦ ?_
    refine sound_bind (sound_okOr _ _) fun _ _ ↦ ?_
    exact sound_bind (sound_readMessages r _) fun _ _ ↦ sound_ok _

end Append

/-! ## SEARCH -/

namespace Search

/-- `ResultOption::parse` -/
def resultOptions : List (String × ResultOption) := [
  ("min", .min), ("max", .max), ("all", .all), ("count", .count), ("save", .save),
  ("context", .context)]

/-- The loop of `parse_result_options`. -/
def readResults : List Token → Except ArgumentError (List ResultOption × List Token)
  | [] => .ok ([], [])
  | .parenthesisClose :: tokens => .ok ([], tokens)
  | .argument value :: tokens =>
      match resultOptions.find? fun e ↦ eqIgnoreAsciiCase value (asBytes e.1) with
      | some (_, option) => do
          let (options, tokens) ← readResults tokens
          .ok (option :: options, tokens)
      | none => .error (.resultOption value)
  | _ :: _ => .error .resultArgument

/-- `parse_result_options` -/
def readResultOptions : List Token → Except ArgumentError (List ResultOption × List Token)
  | .parenthesisOpen :: tokens => readResults tokens
  | _ => .error .resultParenthesis

theorem length_readResults {tokens rest : List Token} {options : List ResultOption}
    (h : readResults tokens = .ok (options, rest)) : rest.length ≤ tokens.length := by
  fun_induction readResults tokens generalizing options with
  | case1 =>
      cases h
      exact le_rfl
  | case2 tokens =>
      cases h
      exact Nat.le_succ _
  | case3 value tokens name option hoption ih =>
      cases hread : readResults tokens with
      | error e =>
          rw [hread] at h
          cases h
      | ok found =>
          rw [hread] at h
          cases h
          exact (ih hread).trans (Nat.le_succ _)
  | case4 => cases h
  | case5 => cases h

theorem length_readResultOptions {tokens rest : List Token} {options : List ResultOption}
    (h : readResultOptions tokens = .ok (options, rest)) : rest.length ≤ tokens.length := by
  unfold readResultOptions at h
  split at h
  · exact (length_readResults h).trans (Nat.le_succ _)
  · cases h

/-- What is read before the keys. -/
structure Preamble where
  isEsearch : Bool
  resultOptions : List ResultOption := []
  decoder : Option (Bytes → String) := none

/-- The loop over RETURN and CHARSET. -/
def readPreamble (r : ArgumentReaders) (p : Preamble) :
    List Token → Except ArgumentError (Preamble × List Token)
  | .argument value :: tokens =>
      if eqIgnoreAsciiCase value (asBytes "return") then
        match h : readResultOptions tokens with
        | .error e => .error e
        | .ok (options, rest) =>
            have : rest.length ≤ tokens.length := length_readResultOptions h
            readPreamble r { p with isEsearch := true, resultOptions := options } rest
      else if eqIgnoreAsciiCase value (asBytes "charset") then
        match tokens with
        | [] => .error .missingCharset
        | charset :: tokens =>
            readPreamble r { p with decoder := r.charsetDecoder charset.unwrapBytes } tokens
      else .ok (p, .argument value :: tokens)
  | tokens => .ok (p, tokens)
termination_by tokens => tokens.length

/-- `parse_search` -/
def parseSearch (r : ArgumentReaders) (isRev2 : Bool) (request : Request Command) :
    Fallible ArgumentError SearchArguments :=
  if request.tokens = [] then .error (.error .missingCriteria)
  else do
    let (p, tokens) ← lift id (readPreamble r { isEsearch := isRev2 } request.tokens)
    let filters ← lift .filter (parseFilters ⟨p.decoder, r.parseDate⟩ tokens)
    if filters.length = 0 then .error (.error .noFilters)
    else if filters.length = 1 then do
      let filter ← unwrap filters.getLast?
      .ok ⟨p.isEsearch, false, p.resultOptions, filter⟩
    else .ok ⟨p.isEsearch, false, p.resultOptions, .operator .and filters⟩

theorem sound_parseSearch (r : ArgumentReaders) (isRev2 : Bool) (request : Request Command) :
    Sound (parseSearch r isRev2 request) := by
  rw [parseSearch]
  split
  · exact sound_error _
  · refine sound_bind (sound_lift _ _) fun _ _ ↦ ?_
    refine sound_bind (sound_lift _ _) fun filters _ ↦ ?_
    split
    · exact sound_error _
    · split
      · rename_i hne _
        have hlast : filters.getLast?.isSome = true :=
          List.getLast?_isSome.mpr fun hnil ↦ hne (congrArg List.length hnil)
        exact sound_bind (sound_unwrap_iff.mpr hlast) fun _ _ ↦ sound_ok _
      · exact sound_ok _

end Search

end ImapToJmap
