import ImapToJmap.Commands.Select
import ImapToJmap.Core.Authenticate
import ImapToJmap.Data.Unwrap
import ImapToJmap.Parser.SequenceSet
import ImapToJmap.Protocol.Utf7

/-!
# SELECT and EXAMINE

`parser/select.rs`: a mailbox name, and in a parenthesis CONDSTORE and QRESYNC, in any order and any
number. The parenthesis after QRESYNC holds two numbers, and two parts that may each be left out:
the known UIDs, and in a parenthesis of their own the known sequence numbers with their UIDs.

`parseSelect_iff`: the arguments are what the tokens say (`SelectText`).  The last QRESYNC counts,
and a parenthesis may be closed by the end of the line.
-/

namespace ImapToJmap

namespace Select

open Fallible

/-- The errors of `parse_select`. -/
inductive ParseError where
  | /-- `Missing mailbox name.` -/
    missingMailbox
  | /-- `Invalid UTF-8 in argument.` -/
    invalidUtf8
  | /-- `Expected '(' after 'QRESYNC'.` -/
    expectedParenthesis
  | /-- `Missing uidvalidity parameter for QRESYNC.` -/
    missingUidValidity
  | /-- `Missing modseq parameter for QRESYNC.` -/
    missingModseq
  | /-- `Missing known-sequence-set parameter for QRESYNC.` -/
    missingSequenceSet
  | /-- `Missing known-uid-set parameter for QRESYNC.` -/
    missingUidSet
  | /-- `Missing ')' for 'QRESYNC'.` -/
    missingParenthesis
  | /-- `Expected a number, found {:?}.` -/
    number
  | sequence (error : SequenceSetError)
  | /-- `Unexpected value '{}'.` -/
    unexpectedValue (token : Token)
deriving DecidableEq

/-- A reader of the tokens at the front. -/
abbrev Reader (α : Type) := List Token → Except ParseError (α × List Token)

/-- The next token has to be this one. -/
def expect (expected : Token) (e : ParseError) : Reader Unit
  | [] => .error e
  | token :: tokens => if token = expected then .ok ((), tokens) else .error e

/-- `parse_number`, of the next token; the error is that there is none. -/
def readNumber (width : ℕ) (e : ParseError) : Reader ℕ
  | [] => .error e
  | token :: tokens =>
      match parseNumber width token.unwrapBytes with
      | some n => .ok (n, tokens)
      | none => .error .number

/-- `parse_sequence_set`, of the next token; the error is that there is none. -/
def readSequenceSet (e : ParseError) : Reader Sequence
  | [] => .error e
  | token :: tokens =>
      match parseSequenceSet token.unwrapBytes with
      | .ok set => .ok (set, tokens)
      | .error e => .error (.sequence e)

/-- The known UIDs, if an argument comes next. -/
def readKnownUids : Reader (Option Sequence)
  | .argument value :: tokens =>
      match parseSequenceSet value with
      | .ok set => .ok (some set, tokens)
      | .error e => .error (.sequence e)
  | tokens => .ok (none, tokens)

/-- The sequence match data, if a parenthesis comes next. -/
def readSeqMatch : Reader (Option (Sequence × Sequence))
  | .parenthesisOpen :: tokens => do
      let (knownSequence, tokens) ← readSequenceSet .missingSequenceSet tokens
      let (knownUids, tokens) ← readSequenceSet .missingUidSet tokens
      let (_, tokens) ← expect .parenthesisClose .missingParenthesis tokens
      .ok (some (knownSequence, knownUids), tokens)
  | tokens => .ok (none, tokens)

/-- What comes after `QRESYNC`. -/
def readQResync : Reader QResync := fun tokens ↦ do
  let (_, tokens) ← expect .parenthesisOpen .expectedParenthesis tokens
  let (uidValidity, tokens) ← readNumber 32 .missingUidValidity tokens
  let (modseq, tokens) ← readNumber 64 .missingModseq tokens
  let (knownUids, tokens) ← readKnownUids tokens
  let (seqMatch, tokens) ← readSeqMatch tokens
  let (_, tokens) ← expect .parenthesisClose .missingParenthesis tokens
  .ok (⟨uidValidity, modseq, knownUids, seqMatch⟩, tokens)

/-! ## What is read -/

/-- The known UIDs. -/
inductive KnownUidsText : List Token → Option Sequence → Prop
  | absent : KnownUidsText [] none
  | present {value : Bytes} {set : Sequence} (h : parseSequenceSet value = .ok set) :
      KnownUidsText [.argument value] (some set)

/-- The sequence match data. -/
inductive SeqMatchText : List Token → Option (Sequence × Sequence) → Prop
  | absent : SeqMatchText [] none
  | present {sequence uids : Token} {knownSequence knownUids : Sequence}
      (hsequence : parseSequenceSet sequence.unwrapBytes = .ok knownSequence)
      (huids : parseSequenceSet uids.unwrapBytes = .ok knownUids) :
      SeqMatchText [.parenthesisOpen, sequence, uids, .parenthesisClose]
        (some (knownSequence, knownUids))

/-- What is inside the parenthesis of QRESYNC. -/
inductive QResyncText : List Token → QResync → Prop
  | intro {uidValidity modseq : Token} {uids ids : List Token} {qresync : QResync}
      (huidValidity : parseNumber 32 uidValidity.unwrapBytes = some qresync.uidValidity)
      (hmodseq : parseNumber 64 modseq.unwrapBytes = some qresync.modseq)
      (huids : KnownUidsText uids qresync.knownUids) (hids : SeqMatchText ids qresync.seqMatch) :
      QResyncText (uidValidity :: modseq :: (uids ++ ids)) qresync

section Readers

variable {α β : Type} {tokens rest : List Token} {e : ParseError}

theorem bind_eq_ok_iff {read : Except ParseError (α × List Token)}
    {next : α × List Token → Except ParseError (β × List Token)} {b : β × List Token} :
    read >>= next = .ok b ↔ ∃ a tokens, read = .ok (a, tokens) ∧ next (a, tokens) = .ok b := by
  cases read with
  | error e => exact ⟨nofun, fun ⟨_, _, h, _⟩ ↦ nomatch h⟩
  | ok a =>
      constructor
      · intro h
        exact ⟨a.1, a.2, rfl, h⟩
      · rintro ⟨_, _, ⟨⟩, h⟩
        exact h

theorem expect_eq_ok_iff {expected : Token} {u : Unit} :
    expect expected e tokens = .ok (u, rest) ↔ tokens = expected :: rest := by
  cases tokens with
  | nil => simp [expect]
  | cons token tokens =>
      rw [expect]
      split
      · rename_i heq
        subst heq
        constructor
        · rintro ⟨⟩
          rfl
        · rintro ⟨⟩
          rfl
      · rename_i hne
        constructor
        · intro h
          cases h
        · exact fun h ↦ absurd (List.cons.inj h).1 hne

theorem readNumber_eq_ok_iff {width n : ℕ} : readNumber width e tokens = .ok (n, rest) ↔
    ∃ token, tokens = token :: rest ∧ parseNumber width token.unwrapBytes = some n := by
  cases tokens with
  | nil => simp [readNumber]
  | cons token tokens =>
      rw [readNumber]
      cases hparse : parseNumber width token.unwrapBytes with
      | none =>
          constructor
          · intro h
            cases h
          · rintro ⟨_, ⟨⟩, h⟩
            rw [hparse] at h
            cases h
      | some m =>
          constructor
          · rintro ⟨⟩
            exact ⟨token, rfl, hparse⟩
          · rintro ⟨_, ⟨⟩, h⟩
            rw [hparse] at h
            cases h
            rfl

theorem readSequenceSet_eq_ok_iff {set : Sequence} : readSequenceSet e tokens = .ok (set, rest) ↔
    ∃ token, tokens = token :: rest ∧ parseSequenceSet token.unwrapBytes = .ok set := by
  cases tokens with
  | nil => simp [readSequenceSet]
  | cons token tokens =>
      rw [readSequenceSet]
      cases hparse : parseSequenceSet token.unwrapBytes with
      | error e =>
          constructor
          · intro h
            cases h
          · rintro ⟨_, ⟨⟩, h⟩
            rw [hparse] at h
            cases h
      | ok set' =>
          constructor
          · rintro ⟨⟩
            exact ⟨token, rfl, hparse⟩
          · rintro ⟨_, ⟨⟩, h⟩
            rw [hparse] at h
            cases h
            rfl

/-- Whatever follows is no argument, so what is read are all the UIDs that are known. -/
theorem readKnownUids_eq_ok_iff {found : Option Sequence}
    (hrest : ∀ value tokens, rest ≠ .argument value :: tokens) :
    readKnownUids tokens = .ok (found, rest) ↔
      ∃ text, KnownUidsText text found ∧ tokens = text ++ rest := by
  constructor
  · intro h
    unfold readKnownUids at h
    split at h
    · rename_i value tokens
      cases hparse : parseSequenceSet value with
      | error e =>
          rw [hparse] at h
          cases h
      | ok set =>
          rw [hparse] at h
          cases h
          exact ⟨[.argument value], .present hparse, rfl⟩
    · cases h
      exact ⟨[], .absent, rfl⟩
  · rintro ⟨text, htext, rfl⟩
    cases htext with
    | absent =>
        rw [List.nil_append]
        unfold readKnownUids
        split
        · rename_i value tokens
          exact absurd rfl (hrest value tokens)
        · rfl
    | present hparse =>
        rw [List.singleton_append, readKnownUids, hparse]

theorem readSeqMatch_eq_ok_iff {found : Option (Sequence × Sequence)}
    (hrest : ∀ tokens, rest ≠ .parenthesisOpen :: tokens) :
    readSeqMatch tokens = .ok (found, rest) ↔
      ∃ text, SeqMatchText text found ∧ tokens = text ++ rest := by
  constructor
  · intro h
    unfold readSeqMatch at h
    split at h
    · obtain ⟨knownSequence, tokens₁, hfirst, h⟩ := bind_eq_ok_iff.mp h
      obtain ⟨knownUids, tokens₂, hsecond, h⟩ := bind_eq_ok_iff.mp h
      obtain ⟨_, tokens₃, hclose, h⟩ := bind_eq_ok_iff.mp h
      cases h
      obtain ⟨sequence, rfl, hsequence⟩ := readSequenceSet_eq_ok_iff.mp hfirst
      obtain ⟨uids, rfl, huids⟩ := readSequenceSet_eq_ok_iff.mp hsecond
      obtain rfl := expect_eq_ok_iff.mp hclose
      exact ⟨_, .present hsequence huids, rfl⟩
    · cases h
      exact ⟨[], .absent, rfl⟩
  · rintro ⟨text, htext, rfl⟩
    cases htext with
    | absent =>
        rw [List.nil_append]
        unfold readSeqMatch
        split
        · rename_i tokens
          exact absurd rfl (hrest tokens)
        · rfl
    | present hsequence huids =>
        refine bind_eq_ok_iff.mpr ⟨_, _, readSequenceSet_eq_ok_iff.mpr ⟨_, rfl, hsequence⟩, ?_⟩
        refine bind_eq_ok_iff.mpr ⟨_, _, readSequenceSet_eq_ok_iff.mpr ⟨_, rfl, huids⟩, ?_⟩
        exact bind_eq_ok_iff.mpr ⟨(), _, expect_eq_ok_iff.mpr rfl, rfl⟩

/-- Where the sequence match data begin, or the parenthesis ends, there is no argument. -/
theorem SeqMatchText.ne_argument {text : List Token} {found : Option (Sequence × Sequence)}
    (h : SeqMatchText text found) (value : Bytes) (tokens : List Token) :
    text ++ .parenthesisClose :: rest ≠ .argument value :: tokens := by
  cases h with
  | absent => nofun
  | present hsequence huids => nofun

/-- **QRESYNC.** -/
theorem readQResync_eq_ok_iff {qresync : QResync} : readQResync tokens = .ok (qresync, rest) ↔
    ∃ text, QResyncText text qresync ∧
      tokens = .parenthesisOpen :: (text ++ .parenthesisClose :: rest) := by
  have hne : ∀ tokens, Token.parenthesisClose :: rest ≠ .parenthesisOpen :: tokens := nofun
  constructor
  · intro h
    obtain ⟨_, tokens₁, hopen, h⟩ := bind_eq_ok_iff.mp h
    obtain ⟨uidValidity, tokens₂, hfirst, h⟩ := bind_eq_ok_iff.mp h
    obtain ⟨modseq, tokens₃, hsecond, h⟩ := bind_eq_ok_iff.mp h
    obtain ⟨knownUids, tokens₄, hthird, h⟩ := bind_eq_ok_iff.mp h
    obtain ⟨seqMatch, tokens₅, hfourth, h⟩ := bind_eq_ok_iff.mp h
    obtain ⟨_, tokens₆, hclose, h⟩ := bind_eq_ok_iff.mp h
    cases h
    obtain rfl := expect_eq_ok_iff.mp hclose
    obtain ⟨ids, hids, rfl⟩ := (readSeqMatch_eq_ok_iff hne).mp hfourth
    obtain ⟨uids, huids, rfl⟩ := (readKnownUids_eq_ok_iff hids.ne_argument).mp hthird
    obtain ⟨m, rfl, hmodseq⟩ := readNumber_eq_ok_iff.mp hsecond
    obtain ⟨v, rfl, huidValidity⟩ := readNumber_eq_ok_iff.mp hfirst
    obtain rfl := expect_eq_ok_iff.mp hopen
    refine ⟨v :: m :: (uids ++ ids), .intro huidValidity hmodseq huids hids, ?_⟩
    simp only [List.cons_append, List.append_assoc]
  · rintro ⟨text, ⟨huidValidity, hmodseq, huids, hids⟩, rfl⟩
    rename_i uidValidity modseq uids ids
    rw [List.cons_append, List.cons_append, List.append_assoc]
    refine bind_eq_ok_iff.mpr ⟨(), _, expect_eq_ok_iff.mpr rfl, ?_⟩
    refine bind_eq_ok_iff.mpr ⟨_, _, readNumber_eq_ok_iff.mpr ⟨uidValidity, rfl, huidValidity⟩, ?_⟩
    refine bind_eq_ok_iff.mpr ⟨_, _, readNumber_eq_ok_iff.mpr ⟨modseq, rfl, hmodseq⟩, ?_⟩
    refine bind_eq_ok_iff.mpr ⟨_, _,
      (readKnownUids_eq_ok_iff hids.ne_argument).mpr ⟨uids, huids, rfl⟩, ?_⟩
    refine bind_eq_ok_iff.mpr ⟨_, _, (readSeqMatch_eq_ok_iff hne).mpr ⟨ids, hids, rfl⟩, ?_⟩
    exact bind_eq_ok_iff.mpr ⟨(), _, expect_eq_ok_iff.mpr rfl, rfl⟩

theorem length_readQResync {qresync : QResync} (h : readQResync tokens = .ok (qresync, rest)) :
    rest.length < tokens.length := by
  obtain ⟨text, -, rfl⟩ := readQResync_eq_ok_iff.mp h
  simp only [List.length_cons, List.length_append]
  omega

end Readers

/-! ## The parameters -/

/-- The loop over the parameters. -/
def readParameters (condstore : Bool) (qresync : Option QResync) :
    List Token → Except ParseError (Bool × Option QResync)
  | [] => .ok (condstore, qresync)
  | .parenthesisClose :: _ => .ok (condstore, qresync)
  | .argument param :: tokens =>
      if eqIgnoreAsciiCase param (asBytes "CONDSTORE") then readParameters true qresync tokens
      else if eqIgnoreAsciiCase param (asBytes "QRESYNC") then
        match h : readQResync tokens with
        | .error e => .error e
        | .ok (found, rest) =>
            have : rest.length < tokens.length := length_readQResync h
            readParameters condstore (some found) rest
      else .error (.unexpectedValue (.argument param))
  | token :: _ => .error (.unexpectedValue token)
termination_by tokens => tokens.length

/-- What comes after the mailbox name. -/
def readOptions : List Token → Except ParseError (Bool × Option QResync)
  | [] => .ok (false, none)
  | .parenthesisOpen :: tokens => readParameters false none tokens
  | token :: _ => .error (.unexpectedValue token)

/-- `parse_select` -/
def parseSelect (isRev2 : Bool) (request : Request Command) : Fallible ParseError SelectArguments :=
  if request.tokens ≠ [] then do
    let (token, tokens) ← unwrap request.tokens.next?
    let mailboxName ← okOr .invalidUtf8 token.unwrapString
    let (condstore, qresync) ← lift id (readOptions tokens)
    .ok ⟨utf7MaybeDecode mailboxName isRev2, condstore, qresync⟩
  else .error (.error .missingMailbox)

/-- A parameter of SELECT. -/
inductive Parameter where
  | condstore
  | qresync (value : QResync)

/-- The parameters, up to the parenthesis or the end. -/
inductive ParametersText : List Token → List Parameter → Prop
  | atEnd : ParametersText [] []
  | close (rest : List Token) : ParametersText (.parenthesisClose :: rest) []
  | condstore {param : Bytes} {tokens : List Token} {parameters : List Parameter}
      (hname : eqIgnoreAsciiCase param (asBytes "CONDSTORE") = true)
      (h : ParametersText tokens parameters) :
      ParametersText (.argument param :: tokens) (.condstore :: parameters)
  | qresync {param : Bytes} {text tokens : List Token} {parameters : List Parameter}
      {qresync : QResync} (hname : eqIgnoreAsciiCase param (asBytes "QRESYNC") = true)
      (htext : QResyncText text qresync) (h : ParametersText tokens parameters) :
      ParametersText (.argument param :: .parenthesisOpen :: (text ++ .parenthesisClose :: tokens))
        (.qresync qresync :: parameters)

/-- One parameter after the other. -/
def Parameter.apply (found : Bool × Option QResync) : Parameter → Bool × Option QResync
  | .condstore => (true, found.2)
  | .qresync value => (found.1, some value)

/-- SELECT and EXAMINE, after the name of the command. -/
inductive SelectText (isRev2 : Bool) : List Token → SelectArguments → Prop
  | bare {token : Token} {mailboxName : String} (hname : token.unwrapString = some mailboxName) :
      SelectText isRev2 [token] ⟨utf7MaybeDecode mailboxName isRev2, false, none⟩
  | parameters {token : Token} {mailboxName : String} {tokens : List Token}
      {parameters : List Parameter} (hname : token.unwrapString = some mailboxName)
      (h : ParametersText tokens parameters) :
      SelectText isRev2 (token :: .parenthesisOpen :: tokens)
        ⟨utf7MaybeDecode mailboxName isRev2, (parameters.foldl Parameter.apply (false, none)).1,
          (parameters.foldl Parameter.apply (false, none)).2⟩

section Parameters

variable {condstore : Bool} {qresync : Option QResync} {tokens : List Token}
variable {found : Bool × Option QResync}

theorem qresync_ne_condstore {param : Bytes}
    (h : eqIgnoreAsciiCase param (asBytes "QRESYNC") = true) :
    ¬ eqIgnoreAsciiCase param (asBytes "CONDSTORE") = true := by
  intro h'
  have hlen := congrArg List.length (beq_iff_eq.mp h)
  have hlen' := congrArg List.length (beq_iff_eq.mp h')
  simp only [List.length_map] at hlen hlen'
  have hq : (asBytes "QRESYNC").length = 7 := by decide
  have hc : (asBytes "CONDSTORE").length = 9 := by decide
  omega

theorem readParameters_qresync {param : Bytes} {rest : List Token} {value : QResync}
    (hname : eqIgnoreAsciiCase param (asBytes "QRESYNC") = true)
    (h : readQResync tokens = .ok (value, rest)) :
    readParameters condstore qresync (.argument param :: tokens) =
      readParameters condstore (some value) rest := by
  rw [readParameters, if_neg (qresync_ne_condstore hname), if_pos hname]
  split
  · rename_i e he
    rw [h] at he
    cases he
  · rename_i value' rest' hok
    rw [h] at hok
    cases hok
    rfl

/-- **The parameters** are read from the left. -/
theorem readParameters_eq_ok_iff : readParameters condstore qresync tokens = .ok found ↔
    ∃ parameters, ParametersText tokens parameters ∧
      parameters.foldl Parameter.apply (condstore, qresync) = found := by
  constructor
  · intro h
    fun_induction readParameters condstore qresync tokens with
    | case1 =>
        cases h
        exact ⟨[], .atEnd, rfl⟩
    | case2 condstore qresync rest =>
        cases h
        exact ⟨[], .close rest, rfl⟩
    | case3 condstore qresync param tokens hname ih =>
        obtain ⟨parameters, htext, hfound⟩ := ih h
        exact ⟨.condstore :: parameters, .condstore hname htext, hfound⟩
    | case4 => cases h
    | case5 condstore qresync param tokens hnot hname value rest hread hlt ih =>
        obtain ⟨parameters, htext, hfound⟩ := ih h
        obtain ⟨text, hvalue, rfl⟩ := readQResync_eq_ok_iff.mp hread
        exact ⟨.qresync value :: parameters, .qresync hname hvalue htext, hfound⟩
    | case6 => cases h
    | case7 => cases h
  · rintro ⟨parameters, htext, hfound⟩
    induction htext generalizing condstore qresync with
    | atEnd =>
        rw [readParameters]
        exact congrArg Except.ok hfound
    | close rest =>
        rw [readParameters]
        exact congrArg Except.ok hfound
    | condstore hname h ih =>
        rw [readParameters, if_pos hname]
        exact ih hfound
    | qresync hname hvalue h ih =>
        rw [readParameters_qresync hname (readQResync_eq_ok_iff.mpr ⟨_, hvalue, rfl⟩)]
        exact ih hfound

/-- **SELECT and EXAMINE are read as they are written.** -/
theorem parseSelect_eq_ok_iff {isRev2 : Bool} {request : Request Command}
    {arguments : SelectArguments} :
    parseSelect isRev2 request = .ok arguments ↔ SelectText isRev2 request.tokens arguments := by
  obtain ⟨tag, command, tokens⟩ := request
  cases tokens with
  | nil => exact ⟨nofun, nofun⟩
  | cons token tokens =>
      have hstart : parseSelect isRev2 ⟨tag, command, token :: tokens⟩ =
          (do
            let mailboxName ← okOr .invalidUtf8 token.unwrapString
            let (condstore, qresync) ← lift id (readOptions tokens)
            .ok ⟨utf7MaybeDecode mailboxName isRev2, condstore, qresync⟩) := rfl
      rw [hstart]
      constructor
      · intro h
        obtain ⟨mailboxName, hname, h⟩ := Fallible.bind_eq_ok_iff.mp h
        obtain ⟨found, hoptions, h⟩ := Fallible.bind_eq_ok_iff.mp h
        rw [okOr_eq_ok_iff] at hname
        rw [lift_eq_ok_iff] at hoptions
        cases h
        unfold readOptions at hoptions
        split at hoptions
        · cases hoptions
          exact .bare hname
        · obtain ⟨parameters, htext, rfl⟩ := readParameters_eq_ok_iff.mp hoptions
          exact .parameters hname htext
        · cases hoptions
      · rintro (hname | ⟨hname, htext⟩)
        · exact Fallible.bind_eq_ok_iff.mpr ⟨_, okOr_eq_ok_iff.mpr hname, rfl⟩
        · refine Fallible.bind_eq_ok_iff.mpr ⟨_, okOr_eq_ok_iff.mpr hname, ?_⟩
          refine Fallible.bind_eq_ok_iff.mpr ⟨_, lift_eq_ok_iff.mpr ?_, rfl⟩
          exact readParameters_eq_ok_iff.mpr ⟨_, htext, rfl⟩

/-- The mailbox name is there to be unwrapped. -/
theorem sound_parseSelect (isRev2 : Bool) (request : Request Command) :
    Sound (parseSelect isRev2 request) := by
  rw [parseSelect]
  split
  · rename_i hne
    obtain ⟨token, tokens, hcons⟩ := List.exists_cons_of_ne_nil hne
    rw [hcons]
    refine sound_bind (sound_unwrap_iff.mpr rfl) fun _ _ ↦ ?_
    refine sound_bind (sound_okOr _ _) fun _ _ ↦ ?_
    exact sound_bind (sound_lift _ _) fun _ _ ↦ sound_ok _
  · exact sound_error _

end Parameters

end Select

end ImapToJmap
