import ImapToJmap.Commands.Select
import ImapToJmap.Core.Authenticate
import ImapToJmap.Data.Unwrap
import ImapToJmap.Parser.Fetch

/-!
# The commands of ACL

`parser/acl.rs` and `commands/acl.rs`.  One parser serves five commands, so the identifier and the
rights are optional fields of its arguments, and the handlers unwrap them.  Which command has which
is decided in the parser (`aclFields`), and that the handlers agree with it is `sound_handleSetAcl`
and its siblings.
-/

namespace ImapToJmap

open Fallible

/-- `Rights` -/
inductive Rights where
  | lookup
  | read
  | seen
  | write
  | insert
  | post
  | createMailbox
  | deleteMailbox
  | deleteMessages
  | expunge
  | administer
deriving DecidableEq

/-- `ModRightsOp` -/
inductive ModRightsOp where
  | add
  | remove
  | replace
deriving DecidableEq

/-- `ModRights` -/
structure ModRights where
  op : ModRightsOp
  rights : List Rights
deriving DecidableEq

/-- `acl::Arguments` -/
structure AclArguments where
  mailboxName : String
  identifier : Option String
  modRights : Option ModRights
deriving DecidableEq

/-- The errors of `parse_acl` and of the handlers. -/
inductive AclError where
  | /-- `Missing mailbox name.` -/
    missingMailbox
  | /-- `Missing identifier.` -/
    missingIdentifier
  | /-- `Missing rights.` -/
    missingRights
  | /-- `Invalid UTF-8 in argument.` -/
    invalidUtf8
  | /-- `Invalid character {:?} in rights.` -/
    invalidRight (ch : UInt8)
  | /-- `At least one right has to be specified.` -/
    noRights
  | /-- `Mailbox does not exist.` -/
    nonExistent
  | /-- `ACL operations are not permitted on this mailbox.` -/
    notPermitted
deriving DecidableEq

/-! ## The parser -/

/-- The characters of the rights; the last two are those of RFC 2086. -/
def rightsChars : List (Char × Rights) := [
  ('l', .lookup), ('r', .read), ('s', .seen), ('w', .write), ('i', .insert), ('p', .post),
  ('k', .createMailbox), ('x', .deleteMailbox), ('t', .deleteMessages), ('e', .expunge),
  ('a', .administer), ('d', .deleteMessages), ('c', .createMailbox)]

/-- The loop of `ModRights::parse`. -/
def readRights (rights : List Rights) : Bytes → Except AclError (List Rights)
  | [] => .ok rights
  | ch :: value =>
      match rightsChars.find? fun e ↦ e.1.toNat == ch.toNat with
      | some (_, right) => readRights (Fetch.pushUnique rights right) value
      | none => .error (.invalidRight ch)

/-- The sign in front of the rights. -/
def readOp : Bytes → ModRightsOp × Bytes
  | 43 :: value => (.add, value)
  | 45 :: value => (.remove, value)
  | value => (.replace, value)

/-- `ModRights::parse` -/
def ModRights.parse (value : Bytes) : Except AclError ModRights := do
  let (op, value) := readOp value
  let rights ← readRights [] value
  if rights ≠ [] then .ok ⟨op, rights⟩ else .error .noRights

example : (ModRights.parse (asBytes "+lrl")).toOption = some ⟨.add, [.lookup, .read]⟩ := by
  decide +kernel

/-- `(has_identifier, has_mod_rights)`; `none` where it is `unreachable!()`. -/
def aclFields : Command → Option (Bool × Bool)
  | .setAcl => some (true, true)
  | .deleteAcl | .listRights => some (true, false)
  | .getAcl | .myRights => some (false, false)
  | _ => none

/-- The string at the front of the tokens. -/
def readString (e : AclError) : List Token → Except AclError (String × List Token)
  | [] => .error e
  | token :: tokens =>
      match token.unwrapString with
      | none => .error .invalidUtf8
      | some text => .ok (text, tokens)

/-- The identifier, where the command has one. -/
def readIdentifier (hasIdentifier : Bool) (tokens : List Token) :
    Except AclError (Option String × List Token) :=
  if hasIdentifier then do
    let (identifier, tokens) ← readString .missingIdentifier tokens
    .ok (some identifier, tokens)
  else .ok (none, tokens)

/-- The rights, where the command has them. -/
def readModRights (hasModRights : Bool) (tokens : List Token) :
    Except AclError (Option ModRights) :=
  if hasModRights then
    match tokens with
    | [] => .error .missingRights
    | token :: _ => (ModRights.parse token.unwrapBytes).map some
  else .ok none

/-- `parse_acl` -/
def parseAcl (request : Request Command) : Fallible AclError AclArguments := do
  let (hasIdentifier, hasModRights) ← unwrap (aclFields request.command)
  let (mailboxName, tokens) ← lift id (readString .missingMailbox request.tokens)
  let (identifier, tokens) ← lift id (readIdentifier hasIdentifier tokens)
  let modRights ← lift id (readModRights hasModRights tokens)
  .ok ⟨mailboxName, identifier, modRights⟩

/-! ## The handlers -/

/-- The access rights of JMAP. -/
inductive Acl where
  | read
  | readItems
  | modifyItems
  | addItems
  | submit
  | createChild
  | delete
  | removeItems
  | administer
deriving DecidableEq

/-- `Rights::into_acl` -/
def Rights.intoAcl : Rights → Acl
  | lookup => .read
  | read => .readItems
  | seen => .modifyItems
  | write => .modifyItems
  | insert => .addItems
  | post => .submit
  | createMailbox => .createChild
  | deleteMailbox => .delete
  | deleteMessages => .removeItems
  | expunge => .removeItems
  | administer => .administer

/-- What is set in an update of a mailbox. -/
inductive AclChange where
  | /-- `acl_set` -/
    right (identifier : String) (acl : Acl) (isSet : Bool)
  | /-- `acl` -/
    rights (identifier : String) (acls : List Acl)
deriving DecidableEq

/-- What an ACL handler does. -/
inductive AclOutcome where
  | getAcl (accountId mailboxId : String)
  | myRights (accountId mailboxId : String)
  | update (accountId mailboxId : String) (changes : List AclChange)
  | /-- `ListRightsResponse` -/
    listRights (mailboxName identifier : String) (permissions : List (List Rights))
deriving DecidableEq

section Handlers

variable (getMailboxByName : String → Option MailboxId) (request : Request Command)

/-- `SessionData::get_acl_mailbox` -/
def getAclMailbox (arguments : AclArguments) : Except AclError MailboxId :=
  match getMailboxByName arguments.mailboxName with
  | some mailbox => if mailbox.mailboxId.isSome then .ok mailbox else .error .notPermitted
  | none => .error .nonExistent

/-- How the handlers that ask the server begin: the arguments, the account and the mailbox. -/
def openAcl : Fallible AclError (AclArguments × String × String) := do
  let arguments ← parseAcl request
  let mailbox ← lift id (getAclMailbox getMailboxByName arguments)
  let mailboxId ← unwrap mailbox.mailboxId
  .ok (arguments, mailbox.accountId, mailboxId)

def handleGetAcl : Fallible AclError AclOutcome := do
  let (_, accountId, mailboxId) ← openAcl getMailboxByName request
  .ok (.getAcl accountId mailboxId)

def handleMyRights : Fallible AclError AclOutcome := do
  let (_, accountId, mailboxId) ← openAcl getMailboxByName request
  .ok (.myRights accountId mailboxId)

/-- A right that is added or removed. -/
def changeRight (identifier : Option String) (isSet : Bool) (right : Rights) :
    Fallible AclError AclChange := do
  let name ← unwrap identifier
  .ok (.right name right.intoAcl isSet)

/-- The changes that SETACL makes. -/
def setAclChanges (identifier : Option String) (modRights : ModRights) :
    Fallible AclError (List AclChange) :=
  match modRights.op with
  | .add => modRights.rights.mapM (changeRight identifier true)
  | .remove => modRights.rights.mapM (changeRight identifier false)
  | .replace => do
      let name ← unwrap identifier
      .ok [.rights name (modRights.rights.map Rights.intoAcl)]

def handleSetAcl : Fallible AclError AclOutcome := do
  let (arguments, accountId, mailboxId) ← openAcl getMailboxByName request
  let modRights ← unwrap arguments.modRights
  let changes ← setAclChanges arguments.identifier modRights
  .ok (.update accountId mailboxId changes)

def handleDeleteAcl : Fallible AclError AclOutcome := do
  let (arguments, accountId, mailboxId) ← openAcl getMailboxByName request
  let identifier ← unwrap arguments.identifier
  .ok (.update accountId mailboxId [.rights identifier []])

/-- It asks nobody. -/
def handleListRights : Fallible AclError AclOutcome := do
  let arguments ← parseAcl request
  let identifier ← unwrap arguments.identifier
  .ok (.listRights arguments.mailboxName identifier [[.read], [.lookup], [.write, .seen], [.insert],
    [.expunge, .deleteMessages], [.createMailbox], [.deleteMailbox], [.post], [.administer]])

end Handlers

/-! ## What is there to unwrap -/

section Sound

variable {getMailboxByName : String → Option MailboxId} {request : Request Command}
variable {hasIdentifier hasModRights : Bool} {arguments : AclArguments}

theorem isSome_readIdentifier {tokens rest : List Token} {identifier : Option String}
    (h : readIdentifier hasIdentifier tokens = .ok (identifier, rest)) :
    identifier.isSome = hasIdentifier := by
  rw [readIdentifier] at h
  split at h
  · rename_i htrue
    cases hread : readString .missingIdentifier tokens with
    | error e =>
        rw [hread] at h
        cases h
    | ok found =>
        rw [hread] at h
        cases h
        exact htrue.symm
  · rename_i hfalse
    cases h
    exact (Bool.eq_false_iff.mpr hfalse).symm

theorem isSome_readModRights {tokens : List Token} {modRights : Option ModRights}
    (h : readModRights hasModRights tokens = .ok modRights) : modRights.isSome = hasModRights := by
  unfold readModRights at h
  split at h
  · rename_i htrue
    split at h
    · cases h
    · rename_i token rest
      cases hparse : ModRights.parse token.unwrapBytes with
      | error e =>
          rw [hparse] at h
          cases h
      | ok found =>
          rw [hparse] at h
          cases h
          exact htrue.symm
  · rename_i hfalse
    cases h
    exact (Bool.eq_false_iff.mpr hfalse).symm

/-- **The fields that a command has**, and no others, are present. -/
theorem parseAcl_fields (h : parseAcl request = .ok arguments) :
    aclFields request.command = some (arguments.identifier.isSome, arguments.modRights.isSome) := by
  obtain ⟨fields, hfields, h⟩ := Fallible.bind_eq_ok_iff.mp h
  obtain ⟨mailbox, -, h⟩ := Fallible.bind_eq_ok_iff.mp h
  obtain ⟨identifier, hidentifier, h⟩ := Fallible.bind_eq_ok_iff.mp h
  obtain ⟨modRights, hmodRights, h⟩ := Fallible.bind_eq_ok_iff.mp h
  cases h
  rw [unwrap_eq_ok_iff.mp hfields]
  show some fields = some (identifier.1.isSome, modRights.isSome)
  rw [isSome_readIdentifier (lift_eq_ok_iff.mp hidentifier),
    isSome_readModRights (lift_eq_ok_iff.mp hmodRights)]

theorem sound_parseAcl (h : (aclFields request.command).isSome = true) :
    Sound (parseAcl request) := by
  refine sound_bind (sound_unwrap_iff.mpr h) fun _ _ ↦ ?_
  refine sound_bind (sound_lift _ _) fun _ _ ↦ ?_
  refine sound_bind (sound_lift _ _) fun _ _ ↦ ?_
  exact sound_bind (sound_lift _ _) fun _ _ ↦ sound_ok _

theorem isSome_mailboxId {mailbox : MailboxId}
    (h : getAclMailbox getMailboxByName arguments = .ok mailbox) :
    mailbox.mailboxId.isSome = true := by
  rw [getAclMailbox] at h
  split at h
  · split at h
    · cases h
      assumption
    · cases h
  · cases h

theorem sound_openAcl (h : (aclFields request.command).isSome = true) :
    Sound (openAcl getMailboxByName request) := by
  refine sound_bind (sound_parseAcl h) fun arguments _ ↦ ?_
  refine sound_bind (sound_lift _ _) fun mailbox hmailbox ↦ ?_
  have hid : mailbox.mailboxId.isSome = true := isSome_mailboxId (lift_eq_ok_iff.mp hmailbox)
  exact sound_bind (sound_unwrap_iff.mpr hid) fun _ _ ↦ sound_ok _

theorem openAcl_fields {found : AclArguments × String × String}
    (h : openAcl getMailboxByName request = .ok found) :
    aclFields request.command = some (found.1.identifier.isSome, found.1.modRights.isSome) := by
  obtain ⟨arguments, hparse, h⟩ := Fallible.bind_eq_ok_iff.mp h
  obtain ⟨mailbox, -, h⟩ := Fallible.bind_eq_ok_iff.mp h
  obtain ⟨mailboxId, -, h⟩ := Fallible.bind_eq_ok_iff.mp h
  cases h
  exact parseAcl_fields hparse

theorem sound_handleGetAcl (h : request.command = .getAcl) :
    Sound (handleGetAcl getMailboxByName request) :=
  sound_bind (sound_openAcl (by rw [h]; rfl)) fun _ _ ↦ sound_ok _

theorem sound_handleMyRights (h : request.command = .myRights) :
    Sound (handleMyRights getMailboxByName request) :=
  sound_bind (sound_openAcl (by rw [h]; rfl)) fun _ _ ↦ sound_ok _

theorem sound_setAclChanges {identifier : Option String} (h : identifier.isSome = true)
    (modRights : ModRights) : Sound (setAclChanges identifier modRights) := by
  have hright : ∀ isSet, ∀ right ∈ modRights.rights, Sound (changeRight identifier isSet right) :=
    fun isSet right _ ↦ sound_bind (sound_unwrap_iff.mpr h) fun _ _ ↦ sound_ok _
  rw [setAclChanges]
  cases modRights.op with
  | add => exact sound_mapM (hright true)
  | remove => exact sound_mapM (hright false)
  | replace => exact sound_bind (sound_unwrap_iff.mpr h) fun _ _ ↦ sound_ok _

/-- **SETACL** has an identifier and rights. -/
theorem sound_handleSetAcl (h : request.command = .setAcl) :
    Sound (handleSetAcl getMailboxByName request) := by
  refine sound_bind (sound_openAcl (by rw [h]; rfl)) fun found hfound ↦ ?_
  have hfields := openAcl_fields hfound
  rw [h] at hfields
  have hboth := Option.some.inj hfields
  have hidentifier : found.1.identifier.isSome = true := (congrArg Prod.fst hboth).symm
  have hmodRights : found.1.modRights.isSome = true := (congrArg Prod.snd hboth).symm
  refine sound_bind (sound_unwrap_iff.mpr hmodRights) fun modRights _ ↦ ?_
  exact sound_bind (sound_setAclChanges hidentifier modRights) fun _ _ ↦ sound_ok _

theorem sound_handleDeleteAcl (h : request.command = .deleteAcl) :
    Sound (handleDeleteAcl getMailboxByName request) := by
  refine sound_bind (sound_openAcl (by rw [h]; rfl)) fun found hfound ↦ ?_
  have hfields := openAcl_fields hfound
  rw [h] at hfields
  have hidentifier : found.1.identifier.isSome = true :=
    (congrArg Prod.fst (Option.some.inj hfields)).symm
  exact sound_bind (sound_unwrap_iff.mpr hidentifier) fun _ _ ↦ sound_ok _

theorem sound_handleListRights (h : request.command = .listRights) :
    Sound (handleListRights request) := by
  refine sound_bind (sound_parseAcl (by rw [h]; rfl)) fun arguments hparse ↦ ?_
  have hfields := parseAcl_fields hparse
  rw [h] at hfields
  have hidentifier : arguments.identifier.isSome = true :=
    (congrArg Prod.fst (Option.some.inj hfields)).symm
  exact sound_bind (sound_unwrap_iff.mpr hidentifier) fun _ _ ↦ sound_ok _

end Sound

end ImapToJmap
