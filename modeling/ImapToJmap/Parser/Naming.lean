import ImapToJmap.Commands.Acl
import ImapToJmap.Core.RoundTrip
import ImapToJmap.Parser.Arguments
import ImapToJmap.Parser.Select
import ImapToJmap.Protocol.Listing
import ImapToJmap.Protocol.Verbatim

/-!
# Commands that name a mailbox

The parsers of STATUS, CREATE, DELETE, RENAME, SUBSCRIBE and LIST; SELECT, APPEND, COPY, MOVE and
the commands of ACL have theirs elsewhere.  Each decides on its own whether the name is decoded.

`oneName_iff`: in IMAP4rev1 the encoding of a name stands for one name in all of them if and only if
the name is printable ASCII without `&`, or the low 16 bits of its characters are no UTF-16.
-/

namespace ImapToJmap

open Jmap (Role)

namespace Naming

/-- The errors of these parsers. -/
inductive NameError where
  | /-- `Missing arguments.` -/
    missingArguments
  | /-- `Missing argument.` -/
    missingArgument
  | /-- `Missing mailbox name.` -/
    missingMailbox
  | /-- `Missing new mailbox name.` -/
    missingNewMailbox
  | /-- `Missing reference name.` -/
    missingReference
  | /-- `Too many arguments.` -/
    tooManyArguments
  | /-- `Invalid UTF-8 in argument.` -/
    invalidUtf8
  | /-- `Failed to parse, expected 'USE'.` -/
    expectedUse
  | /-- `Expected '(' after 'USE'.` -/
    useParenthesis
  | /-- `A mailbox with the "\\All" attribute already exists.` -/
    allExists
  | /-- `Special use attribute {:?} is not supported.` -/
    unsupportedUse (value : Bytes)
  | /-- `Invalid SPECIAL-USE attribute.` -/
    invalidUse
  | /-- `Expected parenthesis after mailbox name.` -/
    statusParenthesis
  | /-- `Invalid status return option argument.` -/
    statusArgument
  | /-- `Invalid status option '{}'.` -/
    statusOption (value : Bytes)
  | /-- `At least one status item is required.` -/
    noStatusItem
  | /-- `Invalid selection option argument.` -/
    selectionArgument
  | /-- `Invalid selection option {:?}.` -/
    selectionOption (value : Bytes)
  | /-- `Invalid return option, expected parenthesis.` -/
    returnParenthesis
  | /-- `Invalid return option, expected parenthesis after STATUS.` -/
    returnStatusParenthesis
  | /-- `Invalid return option argument.` -/
    returnArgument
  | /-- `Invalid return option {:?}` -/
    returnOption (value : Bytes)
deriving DecidableEq

/-- `unwrap_string` of a token. -/
def readString (token : Token) : Except NameError String :=
  match token.unwrapString with
  | some text => .ok text
  | none => .error .invalidUtf8

/-- `unwrap_string` of a token, decoded. -/
def readName (isRev2 : Bool) (token : Token) : Except NameError String :=
  (readString token).map (utf7MaybeDecode · isRev2)

/-! ## DELETE, SUBSCRIBE, UNSUBSCRIBE and RENAME -/

/-- A mailbox name and nothing else. -/
def parseMailbox (isRev2 : Bool) (request : Request Command) : Except NameError String :=
  match request.tokens with
  | [] => .error .missingMailbox
  | [token] => readName isRev2 token
  | _ => .error .tooManyArguments

/-- `parse_delete` -/
def parseDelete : Bool → Request Command → Except NameError String := parseMailbox

/-- `parse_subscribe`, of SUBSCRIBE and UNSUBSCRIBE. -/
def parseSubscribe : Bool → Request Command → Except NameError String := parseMailbox

/-- `parse_rename`: the name and the new name. -/
def parseRename (isRev2 : Bool) (request : Request Command) : Except NameError (String × String) :=
  match request.tokens with
  | [] => .error .missingArgument
  | [_] => .error .missingNewMailbox
  | [token, newToken] => do
      let mailboxName ← readName isRev2 token
      let newMailboxName ← readName isRev2 newToken
      .ok (mailboxName, newMailboxName)
  | _ => .error .tooManyArguments

/-! ## CREATE -/

def specialUses : List (String × Role) := [
  ("\\Archive", .archive),
  ("\\Drafts", .drafts),
  ("\\Junk", .junk),
  ("\\Sent", .sent),
  ("\\Trash", .trash),
  ("\\Important", .important)]

/-- The attribute of a mailbox to be created. -/
def readUse : List Token → Except NameError Role
  | .argument value :: _ =>
      match specialUses.find? fun e ↦ eqIgnoreAsciiCase value (asBytes e.1) with
      | some (_, role) => .ok role
      | none =>
          if eqIgnoreAsciiCase value (asBytes "\\All") then .error .allExists
          else .error (.unsupportedUse value)
  | _ => .error .invalidUse

/-- What comes after the name; whatever is no parenthesis is not looked at. -/
def readRole : List Token → Except NameError Role
  | .parenthesisOpen :: .argument param :: tokens =>
      if eqIgnoreAsciiCase param (asBytes "USE") then
        match tokens with
        | .parenthesisOpen :: tokens => readUse tokens
        | _ => .error .useParenthesis
      else .error .expectedUse
  | .parenthesisOpen :: _ => .error .expectedUse
  | _ => .ok .none

/-- `parse_create`: the name and the role. -/
def parseCreate (isRev2 : Bool) (request : Request Command) : Except NameError (String × Role) :=
  match request.tokens with
  | [] => .error .tooManyArguments
  | token :: tokens => do
      let mailboxName ← readName isRev2 token
      let mailboxRole ← readRole tokens
      .ok (mailboxName, mailboxRole)

/-! ## STATUS -/

/-- `Status::parse` -/
def statusNames : List (String × Listing.Status) := [
  ("messages", .messages), ("uidnext", .uidNext), ("uidvalidity", .uidValidity),
  ("unseen", .unseen), ("deleted", .deleted), ("size", .size),
  ("highestmodseq", .highestModSeq), ("mailboxid", .mailboxId), ("recent", .recent)]

/-- The items, up to the parenthesis. -/
def readStatuses : List Token → Except NameError (List Listing.Status × List Token)
  | [] => .ok ([], [])
  | .parenthesisClose :: tokens => .ok ([], tokens)
  | .argument value :: tokens =>
      match statusNames.find? fun e ↦ eqIgnoreAsciiCase value (asBytes e.1) with
      | some (_, status) => do
          let (items, tokens) ← readStatuses tokens
          .ok (status :: items, tokens)
      | none => .error (.statusOption value)
  | _ :: _ => .error .statusArgument

theorem length_readStatuses {tokens rest : List Token} {items : List Listing.Status}
    (h : readStatuses tokens = .ok (items, rest)) : rest.length ≤ tokens.length := by
  fun_induction readStatuses tokens generalizing items with
  | case1 =>
      cases h
      exact le_rfl
  | case2 tokens =>
      cases h
      exact Nat.le_succ _
  | case3 value tokens name status hstatus ih =>
      cases hread : readStatuses tokens with
      | error e =>
          rw [hread] at h
          cases h
      | ok found =>
          rw [hread] at h
          cases h
          exact (ih hread).trans (Nat.le_succ _)
  | case4 => cases h
  | case5 => cases h

/-- `parse_status`: the name and the items. -/
def parseStatus (isRev2 : Bool) (request : Request Command) :
    Except NameError (String × List Listing.Status) :=
  if request.tokens.length ≤ 3 then .error .missingArguments
  else
    match request.tokens with
    | token :: tokens => do
        let mailboxName ← readName isRev2 token
        match tokens with
        | .parenthesisOpen :: tokens =>
            let (items, _) ← readStatuses tokens
            if items ≠ [] then .ok (mailboxName, items) else .error .noStatusItem
        | _ => .error .statusParenthesis
    | [] => .error .missingArguments

/-! ## LIST -/

inductive SelectionOption where
  | subscribed
  | remote
  | recursiveMatch
  | specialUse
deriving DecidableEq

inductive ReturnOption where
  | subscribed
  | children
  | status (items : List Listing.Status)
  | specialUse
deriving DecidableEq

/-- `list::Arguments` -/
inductive ListArguments where
  | basic (referenceName mailboxName : String)
  | extended (referenceName : String) (mailboxName : List String)
      (selectionOptions : List SelectionOption) (returnOptions : List ReturnOption)
deriving DecidableEq

/-- `SelectionOption::parse` -/
def selectionOptions : List (String × SelectionOption) := [
  ("subscribed", .subscribed), ("remote", .remote), ("recursivematch", .recursiveMatch),
  ("special-use", .specialUse)]

/-- `ReturnOption::parse` -/
def returnOptions : List (String × ReturnOption) := [
  ("subscribed", .subscribed), ("children", .children), ("status", .status []),
  ("special-use", .specialUse)]

/-- The selection options, up to the parenthesis. -/
def readSelection : List Token → Except NameError (List SelectionOption × List Token)
  | [] => .ok ([], [])
  | .parenthesisClose :: tokens => .ok ([], tokens)
  | .argument value :: tokens =>
      match selectionOptions.find? fun e ↦ eqIgnoreAsciiCase value (asBytes e.1) with
      | some (_, option) => do
          let (options, tokens) ← readSelection tokens
          .ok (option :: options, tokens)
      | none => .error (.selectionOption value)
  | _ :: _ => .error .selectionArgument

/-- The selection options, if there are any, and the reference name. -/
def readReference : List Token → Except NameError ((List SelectionOption × String) × List Token)
  | .parenthesisOpen :: tokens => do
      let (options, tokens) ← readSelection tokens
      match tokens with
      | [] => .error .missingReference
      | token :: tokens => do
          let referenceName ← readString token
          .ok ((options, referenceName), tokens)
  | token :: tokens => do
      let referenceName ← readString token
      .ok (([], referenceName), tokens)
  | [] => .error .missingReference

/-- The patterns in a parenthesis. -/
def readPatterns : List Token → Except NameError (List String × List Token)
  | [] => .ok ([], [])
  | .parenthesisClose :: tokens => .ok ([], tokens)
  | token :: tokens => do
      let mailboxName ← readString token
      let (mailboxNames, tokens) ← readPatterns tokens
      .ok (mailboxName :: mailboxNames, tokens)

/-- One pattern, or a list of them in a parenthesis. -/
def readMailboxes (isRev2 : Bool) : List Token → Except NameError (List String × List Token)
  | [] => .error .missingMailbox
  | .parenthesisOpen :: tokens => readPatterns tokens
  | token :: tokens => do
      let mailboxName ← readName isRev2 token
      .ok ([mailboxName], tokens)

/-- The return options, up to the parenthesis. -/
def readReturns : List Token → Except NameError (List ReturnOption)
  | [] => .ok []
  | .parenthesisClose :: _ => .ok []
  | .argument value :: tokens =>
      match returnOptions.find? fun e ↦ eqIgnoreAsciiCase value (asBytes e.1) with
      | some (_, .status _) =>
          match tokens with
          | .parenthesisOpen :: tokens =>
              match h : readStatuses tokens with
              | .ok (items, rest) =>
                  have : rest.length ≤ tokens.length := length_readStatuses h
                  (readReturns rest).map (.status items :: ·)
              | .error e => .error e
          | _ => .error .returnStatusParenthesis
      | some (_, option) => (readReturns tokens).map (option :: ·)
      | none => .error (.returnOption value)
  | _ :: _ => .error .returnArgument
termination_by tokens => tokens.length

/-- What comes after the patterns; whatever is not `RETURN` is not looked at. -/
def readReturnOptions : List Token → Except NameError (List ReturnOption)
  | [] => .ok []
  | token :: tokens =>
      if token.eqIgnoreAsciiCase (asBytes "return") then
        match tokens with
        | .parenthesisOpen :: tokens => readReturns tokens
        | _ => .error .returnParenthesis
      else .ok []

/-- `parse_list` -/
def parseList (isRev2 : Bool) (request : Request Command) : Except NameError ListArguments :=
  match request.tokens with
  | [] | [_] => .error .missingArguments
  | [token, name] => do
      let referenceName ← readString token
      let mailboxName ← readName isRev2 name
      .ok (.basic referenceName mailboxName)
  | tokens => do
      let ((selectionOptions, referenceName), tokens) ← readReference tokens
      let (mailboxNames, tokens) ← readMailboxes isRev2 tokens
      let returnOptions ← readReturnOptions tokens
      .ok (.extended referenceName mailboxNames selectionOptions returnOptions)

/-! ## One name -/

/-- A text as a client sends it, in quotes. -/
abbrev quoted (text : String) : Token := (Item.quoted text).token

/-- In the request the text stands for a mailbox, or for a pattern of LIST, and the arguments that
are read of it in IMAP4rev1 have this name there. -/
inductive Refers (r : ArgumentReaders) (text : String) : Request Command → String → Prop
  | select {tag : String} {command : Command} {tokens : List Token} {arguments : SelectArguments}
      (hcommand : command = .select ∨ command = .examine)
      (h : Select.parseSelect false ⟨tag, command, quoted text :: tokens⟩ = .ok arguments) :
      Refers r text ⟨tag, command, quoted text :: tokens⟩ arguments.mailboxName
  | status {tag : String} {tokens : List Token} {name : String} {items : List Listing.Status}
      (h : parseStatus false ⟨tag, .status, quoted text :: tokens⟩ = .ok (name, items)) :
      Refers r text ⟨tag, .status, quoted text :: tokens⟩ name
  | create {tag : String} {tokens : List Token} {name : String} {role : Role}
      (h : parseCreate false ⟨tag, .create, quoted text :: tokens⟩ = .ok (name, role)) :
      Refers r text ⟨tag, .create, quoted text :: tokens⟩ name
  | delete {tag name : String} (h : parseDelete false ⟨tag, .delete, [quoted text]⟩ = .ok name) :
      Refers r text ⟨tag, .delete, [quoted text]⟩ name
  | rename {tag : String} {token : Token} {name newName : String}
      (h : parseRename false ⟨tag, .rename, [quoted text, token]⟩ = .ok (name, newName)) :
      Refers r text ⟨tag, .rename, [quoted text, token]⟩ name
  | renameTo {tag : String} {token : Token} {name newName : String}
      (h : parseRename false ⟨tag, .rename, [token, quoted text]⟩ = .ok (name, newName)) :
      Refers r text ⟨tag, .rename, [token, quoted text]⟩ newName
  | subscribe {tag : String} {command : Command} {name : String}
      (hcommand : command = .subscribe ∨ command = .unsubscribe)
      (h : parseSubscribe false ⟨tag, command, [quoted text]⟩ = .ok name) :
      Refers r text ⟨tag, command, [quoted text]⟩ name
  | append {tag : String} {tokens : List Token} {arguments : Append.Arguments}
      (h : Append.parseAppend r ⟨tag, .append, quoted text :: tokens⟩ = .ok arguments) :
      Refers r text ⟨tag, .append, quoted text :: tokens⟩ arguments.mailboxName
  | copyMove {tag : String} {command : Command} {isUid : Bool} {token : Token}
      {tokens : List Token} {arguments : CopyMove.Arguments}
      (hcommand : command = .copy isUid ∨ command = .move isUid)
      (h : CopyMove.parseCopyMove ⟨tag, command, token :: quoted text :: tokens⟩ = .ok arguments) :
      Refers r text ⟨tag, command, token :: quoted text :: tokens⟩ arguments.mailboxName
  | /-- SETACL, DELETEACL, LISTRIGHTS, GETACL and MYRIGHTS. -/
    acl {tag : String} {command : Command} {tokens : List Token} {arguments : AclArguments}
      (h : parseAcl ⟨tag, command, quoted text :: tokens⟩ = .ok arguments) :
      Refers r text ⟨tag, command, quoted text :: tokens⟩ arguments.mailboxName
  | /-- The pattern of LIST without options. -/
    list {tag : String} {token : Token} {referenceName name : String}
      (h : parseList false ⟨tag, .list, [token, quoted text]⟩ = .ok (.basic referenceName name)) :
      Refers r text ⟨tag, .list, [token, quoted text]⟩ name
  | /-- The pattern of LIST with options. -/
    listExtended {tag : String} {tokens rest : List Token} {referenceName name : String}
      {names : List String} {selection : List SelectionOption} {returns : List ReturnOption}
      (hreference : readReference tokens = .ok ((selection, referenceName), quoted text :: rest))
      (h : parseList false ⟨tag, .list, tokens⟩ =
        .ok (.extended referenceName names selection returns))
      (hname : name ∈ names) : Refers r text ⟨tag, .list, tokens⟩ name
  | /-- A pattern of LIST in a parenthesis. -/
    listParenthesis {tag : String} {tokens before rest : List Token} {referenceName name : String}
      {names : List String} {selection : List SelectionOption} {returns : List ReturnOption}
      (hreference : readReference tokens =
        .ok ((selection, referenceName), .parenthesisOpen :: (before ++ quoted text :: rest)))
      (hbefore : .parenthesisClose ∉ before)
      (h : parseList false ⟨tag, .list, tokens⟩ =
        .ok (.extended referenceName names selection returns))
      (hname : names[before.length]? = some name) : Refers r text ⟨tag, .list, tokens⟩ name

/-- The text stands for one name in all requests. -/
def OneName (r : ArgumentReaders) (text : String) : Prop :=
  ∃ name, ∀ request name', Refers r text request name' → name' = name

section

variable {r : ArgumentReaders} {text name : String} {request : Request Command}

theorem exists_of_bind {ε α β : Type} {x : Except ε α} {next : α → Except ε β} {b : β}
    (h : x >>= next = .ok b) : ∃ a, x = .ok a ∧ next a = .ok b := by
  cases x with
  | error e => cases h
  | ok a => exact ⟨a, rfl, h⟩

theorem unwrapString_quoted (text : String) : (quoted text).unwrapString = some text := by
  have hnil (h : asBytes text = []) : text = "" := asBytes_inj.mp (h.trans rfl)
  rw [quoted, Item.token]
  split
  · rename_i h
    rw [hnil h]
    rfl
  · exact fromUtf8_asBytes text

theorem quoted_ne (text : String) : quoted text ≠ .parenthesisOpen ∧
    quoted text ≠ .parenthesisClose := by
  rw [quoted, Item.token]
  split
  · exact ⟨Token.noConfusion, Token.noConfusion⟩
  · exact ⟨Token.noConfusion, Token.noConfusion⟩

theorem readString_quoted (text : String) : readString (quoted text) = .ok text := by
  rw [readString, unwrapString_quoted]

theorem readName_quoted (isRev2 : Bool) (text : String) :
    readName isRev2 (quoted text) = .ok (utf7MaybeDecode text isRev2) := by
  rw [readName, readString_quoted]
  rfl

theorem readPatterns_quoted {before rest : List Token} {names : List String} {tokens : List Token}
    (h : readPatterns (before ++ quoted text :: rest) = .ok (names, tokens))
    (hbefore : .parenthesisClose ∉ before) : names[before.length]? = some text := by
  induction before generalizing names with
  | nil =>
      rw [List.nil_append, readPatterns.eq_3 _ _ (quoted_ne text).2, readString_quoted] at h
      obtain ⟨_, hname, h⟩ := exists_of_bind h
      cases hname
      obtain ⟨found, _, h⟩ := exists_of_bind h
      cases h
      rfl
  | cons token before ih =>
      obtain ⟨htoken, hbefore⟩ := not_or.mp (mt List.mem_cons.mpr hbefore)
      rw [List.cons_append, readPatterns.eq_3 _ _ (Ne.symm htoken)] at h
      obtain ⟨_, _, h⟩ := exists_of_bind h
      obtain ⟨found, hfound, h⟩ := exists_of_bind h
      cases h
      exact ih hfound hbefore

/-- The patterns of LIST with options are read after the reference name. -/
theorem readMailboxes_of_parseList {isRev2 : Bool} {tag referenceName referenceName' : String}
    {tokens rest : List Token} {selection selection' : List SelectionOption} {names : List String}
    {returns : List ReturnOption}
    (hreference : readReference tokens = .ok ((selection, referenceName), rest))
    (h : parseList isRev2 ⟨tag, .list, tokens⟩ =
      .ok (.extended referenceName' names selection' returns)) :
    ∃ tokens', readMailboxes isRev2 rest = .ok (names, tokens') := by
  unfold parseList at h
  dsimp only at h
  split at h
  · cases h
  · cases h
  · obtain ⟨_, _, h⟩ := exists_of_bind h
    obtain ⟨_, _, h⟩ := exists_of_bind h
    cases h
  · obtain ⟨_, hreference', h⟩ := exists_of_bind h
    cases hreference.symm.trans hreference'
    obtain ⟨⟨found, tokens'⟩, hfound, h⟩ := exists_of_bind h
    obtain ⟨_, _, h⟩ := exists_of_bind h
    cases h
    exact ⟨tokens', hfound⟩

/-- Each request decodes the name or takes it as it is. -/
theorem name_of_refers (h : Refers r text request name) :
    name = utf7MaybeDecode text false ∨ name = text := by
  cases h with
  | select hcommand h =>
      left
      rw [Select.parseSelect, if_pos (List.cons_ne_nil _ _)] at h
      obtain ⟨_, htoken, h⟩ := exists_of_bind h
      cases htoken
      obtain ⟨_, hname, h⟩ := exists_of_bind h
      rw [unwrapString_quoted] at hname
      cases hname
      obtain ⟨_, _, h⟩ := exists_of_bind h
      cases h
      rfl
  | status h =>
      left
      rw [parseStatus] at h
      split at h
      · cases h
      · obtain ⟨_, hname, h⟩ := exists_of_bind h
        rw [readName_quoted] at hname
        cases hname
        split at h
        · obtain ⟨_, _, h⟩ := exists_of_bind h
          dsimp only at h
          split at h
          · cases h
            rfl
          · cases h
        · cases h
  | create h =>
      left
      obtain ⟨_, hname, h⟩ := exists_of_bind h
      rw [readName_quoted] at hname
      cases hname
      obtain ⟨_, _, h⟩ := exists_of_bind h
      cases h
      rfl
  | delete h =>
      left
      exact Except.ok.inj (h.symm.trans (readName_quoted false text))
  | rename h =>
      left
      obtain ⟨_, hname, h⟩ := exists_of_bind h
      rw [readName_quoted] at hname
      cases hname
      obtain ⟨_, _, h⟩ := exists_of_bind h
      cases h
      rfl
  | renameTo h =>
      left
      obtain ⟨_, _, h⟩ := exists_of_bind h
      obtain ⟨_, hname, h⟩ := exists_of_bind h
      rw [readName_quoted] at hname
      cases hname
      cases h
      rfl
  | subscribe hcommand h =>
      left
      exact Except.ok.inj (h.symm.trans (readName_quoted false text))
  | append h =>
      right
      rw [Append.parseAppend] at h
      split at h
      · cases h
      · obtain ⟨_, htoken, h⟩ := exists_of_bind h
        cases htoken
        obtain ⟨_, hname, h⟩ := exists_of_bind h
        rw [unwrapString_quoted] at hname
        cases hname
        obtain ⟨_, _, h⟩ := exists_of_bind h
        cases h
        rfl
  | copyMove hcommand h =>
      right
      rw [CopyMove.parseCopyMove] at h
      split at h
      · obtain ⟨⟨set, tokens⟩, hset, h⟩ := exists_of_bind h
        obtain ⟨_, hname, h⟩ := exists_of_bind h
        rw [Arguments.readSequenceSet] at hset
        split at hset
        · cases hset
          rw [Arguments.readMailbox, unwrapString_quoted] at hname
          cases hname
          cases h
          rfl
        · cases hset
      · cases h
  | acl h =>
      right
      obtain ⟨_, _, h⟩ := exists_of_bind h
      obtain ⟨_, hname, h⟩ := exists_of_bind h
      rw [Fallible.lift_eq_ok_iff, ImapToJmap.readString, unwrapString_quoted] at hname
      cases hname
      obtain ⟨_, _, h⟩ := exists_of_bind h
      obtain ⟨_, _, h⟩ := exists_of_bind h
      cases h
      rfl
  | list h =>
      left
      obtain ⟨_, _, h⟩ := exists_of_bind h
      obtain ⟨_, hname, h⟩ := exists_of_bind h
      rw [readName_quoted] at hname
      cases hname
      cases h
      rfl
  | listExtended hreference h hname =>
      left
      obtain ⟨tokens, hnames⟩ := readMailboxes_of_parseList hreference h
      rw [readMailboxes.eq_3 _ _ _ (quoted_ne text).1, readName_quoted] at hnames
      cases hnames
      exact List.mem_singleton.mp hname
  | listParenthesis hreference hbefore h hname =>
      right
      obtain ⟨tokens, hnames⟩ := readMailboxes_of_parseList hreference h
      rw [readPatterns_quoted hnames hbefore] at hname
      exact (Option.some.inj hname).symm

theorem parseAcl_quoted (tag text : String) :
    parseAcl ⟨tag, .myRights, [quoted text]⟩ = .ok ⟨text, none, none⟩ := by
  have hstart : parseAcl ⟨tag, .myRights, [quoted text]⟩ =
      (Fallible.lift id (ImapToJmap.readString .missingMailbox [quoted text]) >>= fun found ↦
        .ok ⟨found.1, none, none⟩) := rfl
  rw [hstart, ImapToJmap.readString, unwrapString_quoted]
  rfl

/-- A request that decodes and one that does not differ unless the text is not changed by it. -/
theorem oneName_iff_maybeDecode : OneName r text ↔ utf7MaybeDecode text false = text := by
  constructor
  · rintro ⟨name, hone⟩
    have hdelete := hone ⟨"", .delete, [quoted text]⟩ _ (.delete (readName_quoted false text))
    have hrights := hone _ _ (.acl (parseAcl_quoted "" text))
    exact hdelete.trans hrights.symm
  · intro h
    refine ⟨text, fun request name hrefers ↦ ?_⟩
    rcases name_of_refers hrefers with rfl | rfl
    · exact h
    · rfl

end

/-- **The encoding of a name stands for one name in all requests** if and only if the name is
printable ASCII without `&`, or the low 16 bits of its characters are no UTF-16. -/
theorem oneName_iff (r : ArgumentReaders) (mailboxName : String) :
    OneName r (utf7Encode mailboxName) ↔
      (∀ ch ∈ mailboxName.toList, Utf7.IsVerbatim ch) ∨
        Utf7.fromUtf16 (Utf7.codes mailboxName.toList) = none :=
  oneName_iff_maybeDecode.trans (utf7MaybeDecode_encode_iff mailboxName)

/-- Readers that know no date and no charset. -/
def noReaders : ArgumentReaders := ⟨fun _ ↦ none, fun _ ↦ none, fun _ ↦ none⟩

/-- CREATE makes the mailbox `é`, and SETACL is about a mailbox `&AOk-`. -/
theorem oneName_differs : utf7Encode "é" = "&AOk-" ∧
    parseCreate false ⟨"a", .create, [quoted "&AOk-"]⟩ = .ok ("é", .none) ∧
    parseAcl ⟨"b", .setAcl, [quoted "&AOk-", .argument (asBytes "x"), .argument (asBytes "l")]⟩ =
      .ok ⟨"&AOk-", some "x", some ⟨.replace, [.lookup]⟩⟩ ∧
    ¬OneName noReaders (utf7Encode "é") := by
  refine ⟨by decide +kernel, by decide +kernel, by decide +kernel, ?_⟩
  rw [oneName_iff_maybeDecode]
  decide +kernel

end Naming

end ImapToJmap
