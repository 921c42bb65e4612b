import ImapToJmap.Core.Key
import ImapToJmap.Data.Name
import ImapToJmap.Jmap.Request

/-!
# The cached mailboxes

A session keeps the mailboxes of every account it has access to: two maps per account, from names
to ids and from ids to data, behind one lock.  Here are the data (`core/mailbox.rs`), the tree of
names that a listing is turned into, and what the commands read and write while they hold the lock.
-/

namespace ImapToJmap

open Jmap

/-- `Mailbox` -/
structure Mailbox where
  hasChildren : Bool := false
  isSubscribed : Bool := false
  role : Role := .none
  totalMessages : Option ℕ := none
  totalUnseen : Option ℕ := none
  totalDeleted : Option ℕ := none
  uidValidity : Option ℕ := none
  uidNext : Option ℕ := none
  size : Option ℕ := none
deriving DecidableEq

/-- `BTreeMap<String, String>` -/
abbrev Names := Std.ExtTreeMap String String compare

/-- `AHashMap<String, Mailbox>` -/
abbrev MailboxMap := Std.ExtTreeMap String Mailbox compare

/-- `Account`; the prefix is that of the names of a shared account. -/
structure Account where
  accountId : String
  namePrefix : Option String
  mailboxState : String
  mailboxNames : Names
  mailboxData : MailboxMap
  modseq : Option ℕ
deriving DecidableEq

/-- What the server and the client are configured with: the names of the virtual folders and the
account of the user. -/
structure Folders where
  folderAll : String
  folderShared : String
  defaultAccountId : String
deriving DecidableEq

/-- Change the first account with an id. -/
def updateAccount (accountId : String) (f : Account → Account) : List Account → List Account
  | [] => []
  | account :: accounts =>
      if account.accountId = accountId then f account :: accounts
      else account :: updateAccount accountId f accounts

/-! ## The tree of names -/

/-- The entry of a mailbox of a listing. -/
def Mailbox.ofObject (mailbox : MailboxObject) (hasChildren : Bool) : Mailbox where
  hasChildren := hasChildren
  isSubscribed := mailbox.isSubscribed
  role := mailbox.role
  totalMessages := some mailbox.totalEmails
  totalUnseen := some mailbox.unreadEmails

/-- The last part of the path of a mailbox: the inbox of the user's own account is `INBOX`. -/
def pathItem (namePrefix : Option String) (mailbox : MailboxObject) : String :=
  if mailbox.role ≠ .inbox ∨ namePrefix.isSome then mailbox.name.getD "" else "INBOX"

/-- Enter a mailbox under its path. -/
def Account.enter (account : Account) (mailbox : MailboxObject) (mailboxId : String)
    (mailboxPath : List String) (hasChildren : Bool) : Account :=
  { account with
    mailboxData := account.mailboxData.insert mailboxId (.ofObject mailbox hasChildren)
    mailboxNames := account.mailboxNames.insert (joinPath mailboxPath) mailboxId }

/-- One level of the loop of `fetch_account_mailboxes` that builds the names: the children of a
mailbox, each followed by what is below it if the stack of the source has room for one more level.
The failure is a mailbox without an id. -/
def visitLevel (result : List MailboxObject)
    (below : Option (Option String → List String → Account → Option Account))
    (parentId : Option String) (path : List String) (account : Account) : Option Account :=
  result.foldlM (fun account mailbox ↦
    if mailbox.parentId = parentId then do
      let mailboxId ← mailbox.id
      let mailboxPath := path ++ [pathItem account.namePrefix mailbox]
      let hasChildren := result.any fun child ↦ child.parentId = mailbox.id
      let account := account.enter mailbox mailboxId mailboxPath hasChildren
      match below with
      | some below => if hasChildren then below mailbox.id mailboxPath account else account
      | none => account
    else account) account

/-- The loop that builds the names, with room for so many levels on the stack. -/
def buildTree (result : List MailboxObject) :
    ℕ → Option String → List String → Account → Option Account
  | 0 => visitLevel result none
  | levels + 1 => visitLevel result (some (buildTree result levels))

/-- The account that `fetch_account_mailboxes` makes of a complete listing. -/
def Account.ofListing (accountId : String) (namePrefix : Option String) (mailboxState : String)
    (result : List MailboxObject) : Option Account :=
  buildTree result 100 none namePrefix.toList
    { accountId, namePrefix, mailboxState, mailboxNames := ∅, mailboxData := ∅, modseq := none }

/-! ## Looking a name up -/

/-- The accounts a name can belong to. -/
def Account.admits (account : Account) (mailboxName : String) : Bool :=
  account.namePrefix.all fun p ↦ startsWith mailboxName p

/-- `SessionData::get_mailbox_by_name` -/
def getMailboxByName (folders : Folders) (accounts : List Account) (mailboxName : String) :
    Option MailboxId :=
  if mailboxName = folders.folderAll then some ⟨folders.defaultAccountId, none⟩
  else
    accounts.findSome? fun account ↦
      if account.admits mailboxName then
        account.mailboxNames[mailboxName]?.map fun id ↦ ⟨account.accountId, some id⟩
      else none

/-- The names of an account as `delete_folder` goes through them: the mailbox itself, or a child of
it, whichever comes first. -/
def scanNames (mailboxName : String) : List (String × String) →
    Option (Except StatusResponse String)
  | [] => none
  | (name, id) :: rest =>
      if name = mailboxName then some (.ok id)
      else if startsWith name (mailboxName ++ "/") then
        some (.error ((StatusResponse.no
          "Mailbox has children that need to be deleted first.").withCode .hasChildren))
      else scanNames mailboxName rest

/-- The mailbox `delete_folder` finds: its account, its id, and whether its UIDs are to be deleted
from the database. -/
def deleteTarget (accounts : List Account) (mailboxName : String) :
    Except StatusResponse (String × String × Bool) :=
  let found := accounts.findSome? fun account ↦
    if account.admits mailboxName then
      (scanNames mailboxName account.mailboxNames.toList).map fun r ↦
        r.map fun id ↦ (account.accountId, id, account.namePrefix.isNone)
    else none
  found.getD (.error (.no "Mailbox does not exist."))

/-! ## CREATE -/

/-- `CreateParams` -/
structure CreateParams where
  accountId : String
  path : List String
  fullPath : String
  parentMailboxId : Option String
  parentMailboxName : Option String
deriving DecidableEq

def maxMailboxDepth : ℕ := 10

/-- Leading and trailing separators removed. -/
def trimSeparators (mailboxName : String) : String :=
  let name := trim mailboxName
  let name := match stripPrefix? name "/" with
    | some suffix => trim suffix
    | none => name
  match stripSuffix? name "/" with
  | some rest => trim rest
  | none => name

/-- The path to be created. -/
def buildPath (mailboxName : String) : Except String (List String) :=
  let name := trimSeparators mailboxName
  if name = "" then .error ("Invalid folder name '" ++ mailboxName ++ "'.")
  else if '/' ∈ name.toList then
    let path := (splitPath name).map trim
    if "" ∈ path then .error "Invalid empty path item."
    else if maxMailboxDepth < path.length then .error "Mailbox path is too deep."
    else .ok path
  else .ok [name]

/-- The account a path is in. -/
def locateAccount (folders : Folders) (accounts : List Account) (path : List String) :
    Except String Account :=
  let first := path.headD ""
  if first = folders.folderAll then .error "Mailboxes cannot be created under virtual folders."
  else if first = folders.folderShared then
    if path.length < 3 then .error "Mailboxes under root shared folders are not allowed."
    else
      let namePrefix := first ++ "/" ++ path.getD 1 ""
      match (accounts.drop 1).find? fun account ↦ account.namePrefix = some namePrefix with
      | some account => .ok account
      | none => .error ("Shared account '" ++ namePrefix ++ "' not found.")
  else
    match accounts with
    | account :: _ => .ok account
    | [] => .error "Internal error."

/-- The loop that splits a path, given in reverse, at its longest part that exists. -/
def locateParent (names : Names) : List String → List String →
    Option (String × String) × List String
  | [], createPath => (none, createPath)
  | item :: path, createPath =>
      let mailboxName := joinPath (item :: path).reverse
      match names[mailboxName]? with
      | some mailboxId => (some (mailboxId, mailboxName), createPath)
      | none => locateParent names path (item :: createPath)

/-- `SessionData::validate_mailbox_create` -/
def validateMailboxCreate (folders : Folders) (accounts : List Account) (mailboxName : String) :
    Except String CreateParams := do
  let path ← buildPath mailboxName
  let account ← locateAccount folders accounts path
  let fullPath := joinPath path
  if account.mailboxNames.contains fullPath then
    .error ("Mailbox '" ++ fullPath ++ "' already exists.")
  else
    let (parent, createPath) :=
      if 1 < path.length then locateParent account.mailboxNames path.reverse []
      else (none, path)
    .ok {
      accountId := account.accountId
      path := createPath
      fullPath := fullPath
      parentMailboxId := parent.map Prod.fst
      parentMailboxName := parent.map Prod.snd }

/-- Set the flag of a mailbox. -/
def setHasChildren (data : MailboxMap) (mailboxId : String) (hasChildren : Bool) : MailboxMap :=
  data.modify mailboxId fun mailbox ↦ { mailbox with hasChildren := hasChildren }

/-- The entry of a mailbox that has just been created. -/
def Mailbox.created (hasChildren : Bool) : Mailbox where
  hasChildren := hasChildren
  totalMessages := some 0
  totalUnseen := some 0
  totalDeleted := some 0
  size := some 0

/-- The loop of `add_created_mailboxes`. -/
def Account.insertCreated (hasUpdated : Bool) :
    List (String × String) → String → Account → Account
  | [], _, account => account
  | (mailboxId, pathItem) :: rest, mailboxName, account =>
      let mailboxName := if mailboxName ≠ "" then mailboxName ++ "/" ++ pathItem else pathItem
      insertCreated hasUpdated rest mailboxName { account with
        mailboxNames := account.mailboxNames.insert mailboxName mailboxId
        mailboxData :=
          account.mailboxData.insert mailboxId (.created (!rest.isEmpty || hasUpdated)) }

/-- `SessionData::add_created_mailboxes` on the account. -/
def Account.addCreated (account : Account) (params : CreateParams) (mailboxIds : List String)
    (newState : String) (hasUpdated : Bool) : Except String String × Account :=
  let account := { account with mailboxState := newState }
  if mailboxIds.length ≠ params.path.length then
    (.error "Some mailboxes could not be created.", account)
  else
    let newMailboxId := account.accountId ++ "-" ++ mailboxIds.getLastD ""
    let created := mailboxIds.zip params.path
    match params.parentMailboxName with
    | some parent =>
        let data := setHasChildren account.mailboxData (params.parentMailboxId.getD "") true
        (.ok newMailboxId,
          { account with mailboxData := data }.insertCreated hasUpdated created parent)
    | none =>
        (.ok newMailboxId, account.insertCreated hasUpdated created (account.namePrefix.getD ""))

/-! ## RENAME -/

/-- The mailbox `rename_folder` is to rename: one of the account the new name is in. -/
def renameSource (accounts : List Account) (mailboxName accountId : String) :
    Except StatusResponse String :=
  let found := accounts.findSome? fun account ↦
    account.mailboxNames[mailboxName]?.map fun id ↦
      if account.accountId = accountId then .ok id
      else .error ((StatusResponse.no "Cannot move mailboxes between accounts.").withCode .cannot)
  found.getD (.error
    ((StatusResponse.no ("Mailbox '" ++ mailboxName ++ "' not found.")).withCode .nonExistent))

/-- The flag of the old parent, from the names that are there before the renaming. -/
def Account.updateOldParent (account : Account) (mailboxName : String) : Account :=
  if '/' ∈ mailboxName.toList then
    let parentPath := joinPath (splitPath mailboxName).dropLast
    match account.mailboxNames[parentPath]? with
    | some oldParentId =>
        { account with
          mailboxData := setHasChildren account.mailboxData oldParentId
            (account.mailboxNames.keys.any fun name ↦
              name ≠ mailboxName && startsWith name (parentPath ++ "/")) }
    | none => account
  else account

/-- The name of a mailbox after the renaming, `none` for the mailbox itself. -/
def renamedName (mailboxName fullPath name : String) : Option String :=
  if name = mailboxName then none
  else
    match stripPrefix? name (mailboxName ++ "/") with
    | some childName => some (fullPath ++ "/" ++ childName)
    | none => some name

/-- The loop of `rename_folder` over the names. -/
def renameNames (names : Names) (mailboxName fullPath mailboxId : String) : Names :=
  let newNames := names.toList.foldl (fun (newNames : Names) e ↦
    match renamedName mailboxName fullPath e.1 with
    | some name => newNames.insert name e.2
    | none => newNames) ∅
  newNames.insert fullPath mailboxId

/-- The cache update of `rename_folder` on the account. -/
def Account.rename (account : Account) (mailboxName mailboxId : String) (params : CreateParams)
    (newState : String) : Account :=
  let account := { account with mailboxState := newState }
  let account := account.updateOldParent mailboxName
  { account with
    mailboxData := match params.parentMailboxId with
      | some parentId => setHasChildren account.mailboxData parentId true
      | none => account.mailboxData
    mailboxNames := renameNames account.mailboxNames mailboxName params.fullPath mailboxId }

/-! ## Synchronization -/

/-- `MailboxSync` -/
structure MailboxSync where
  added : List String
  changed : List String
  deleted : List String
deriving DecidableEq

/-- The accounts that are still in the session, the names of the mailboxes that are not any more,
and the ids of the accounts that are new. -/
def unlinkAccounts (folders : Folders) (session : List (String × String))
    (accounts : List Account) : List Account × List String × List String :=
  let linked (e : Account × ℕ) := e.2 = 0 || session.any fun a ↦ a.1 == e.1.accountId
  let kept := (accounts.zipIdx.filter linked).map Prod.fst
  let gone := accounts.zipIdx.filter fun e ↦ !linked e
  let added := (session.map Prod.fst).filter fun id ↦
    id ≠ folders.defaultAccountId && !(kept.drop 1).any fun account ↦ account.accountId == id
  (kept, gone.flatMap fun e ↦ e.1.mailboxNames.keys, added)

/-- Forget the counts of a mailbox. -/
def Mailbox.resetStats (mailbox : Mailbox) : Mailbox :=
  { mailbox with
    totalDeleted := none
    totalUnseen := none
    totalMessages := none
    size := none
    uidNext := none }

/-- What `synchronize_mailboxes` does to an account with changes; the `modseq` is forgotten in the
loop over the mailboxes. -/
def Account.change (account : Account) (newState : String) (resetStats : Bool) : Account :=
  let account := { account with mailboxState := newState }
  if resetStats then
    { account with
      mailboxData := account.mailboxData.map fun _ mailbox ↦ mailbox.resetStats
      modseq := if account.mailboxData.isEmpty then account.modseq else none }
  else account

/-- The names of a refetched account that are to be reported. -/
def MailboxSync.compare (changes : MailboxSync) (old new : Account) : MailboxSync where
  added := changes.added ++ (new.mailboxNames.toList.filter fun e ↦
    !old.mailboxData.contains e.2).map Prod.fst
  changed := changes.changed ++ (new.mailboxNames.toList.filter fun e ↦
    match old.mailboxData[e.2]?, new.mailboxData[e.2]? with
    | some oldMailbox, some mailbox =>
        mailbox.totalMessages.getD 0 ≠ oldMailbox.totalMessages.getD 0 ||
          mailbox.totalUnseen.getD 0 ≠ oldMailbox.totalUnseen.getD 0
    | _, _ => false).map Prod.fst
  deleted := changes.deleted ++ (old.mailboxNames.toList.filter fun e ↦
    !new.mailboxData.contains e.2).map Prod.fst

/-- Put a refetched account in its place. -/
def replaceAccount (changes : MailboxSync) (accounts : List Account) (new : Account) :
    MailboxSync × List Account :=
  match accounts.find? fun account ↦ account.accountId = new.accountId with
  | some old => (changes.compare old new, updateAccount new.accountId (fun _ ↦ new) accounts)
  | none =>
      ({ changes with added := changes.added ++ new.mailboxNames.keys }, accounts ++ [new])

/-- The last part of `synchronize_mailboxes`. -/
def updateMailboxes (changes : MailboxSync) (accounts changed added : List Account) :
    MailboxSync × List Account :=
  let (changes, accounts) := changed.foldl (fun s new ↦ replaceAccount s.1 s.2 new)
    (changes, accounts)
  ({ changes with added := changes.added ++ added.flatMap fun a ↦ a.mailboxNames.keys },
    accounts ++ added)

end ImapToJmap
