import ImapToJmap.Job.Basic
import ImapToJmap.Mailboxes.Status

/-!
# Critical sections

The calls of a session's tasks: a critical section of the lock on the cached mailboxes, a request
to the JMAP server, or an operation of the database, which a worker carries out.

`Section.run` is what a critical section does to the cache.  The server and the database are the
`Outside` of a session, an arbitrary machine that answers the other calls in the order in which
they are made; `answer` puts the two together.
-/

namespace ImapToJmap

open Jmap

/-- The critical sections. -/
inductive Section where
  | /-- `synchronize_mailboxes`: drop the accounts that have left the session. -/
    unlink (session : List (String × String))
  | /-- `synchronize_mailboxes`: the accounts with their states. -/
    mailboxStates
  | /-- `synchronize_mailboxes`: the new state of an account. -/
    change (accountId newState : String) (resetStats : Bool)
  | /-- `synchronize_mailboxes`: enter the refetched accounts. -/
    update (changes : MailboxSync) (changed added : List Account)
  | /-- `get_mailbox_by_name` -/
    mailboxByName (mailboxName : String)
  | /-- `validate_mailbox_create` -/
    validateCreate (mailboxName : String)
  | /-- `add_created_mailboxes` -/
    addCreated (params : CreateParams) (mailboxIds : List String) (newState : String)
      (hasUpdated : Bool)
  | /-- `rename_folder`: the mailbox to be renamed. -/
    renameSource (mailboxName accountId : String)
  | /-- `rename_folder`: the cache update, with the new parents if there are any. -/
    rename (mailboxName mailboxId : String) (params : CreateParams)
      (created : Option (List String)) (response : MailboxSet)
  | /-- `delete_folder`: the mailbox to be deleted. -/
    deleteTarget (mailboxName : String)
  | /-- `delete_folder`: the cache update. -/
    delete (accountId mailboxName mailboxId : String)
  | /-- `subscribe_folder`: the cache update. -/
    subscribe (accountId mailboxId : String) (isSubscribed : Bool)
  | /-- `list`: the mailboxes with their data. -/
    list
  | /-- `status`: the items in the cache. -/
    statusCached (mailbox : MailboxId) (items : List Status)
  | /-- `status`: UIDNEXT, UIDVALIDITY and MESSAGES. -/
    statusMessages (mailbox : MailboxId) (status : MailboxData) (update : List Status)
  | /-- `status`: UNSEEN and DELETED. -/
    statusTotals (mailbox : MailboxId) (update : List Status)
      (responses : List (Except StatusResponse (Option ℕ)))
  | /-- `status`: SIZE. -/
    statusSize (mailbox : MailboxId) (mailboxSize : ℕ)
  | /-- `status`: HIGHESTMODSEQ. -/
    statusModseq (accountId : String) (modseq : ℕ)

namespace Section

/-- What a critical section returns. -/
def Return : Section → Type
  | unlink _ => List String × List String
  | mailboxStates => List (String × String)
  | change .. | delete .. | subscribe .. | statusModseq .. => Unit
  | update .. => MailboxSync
  | mailboxByName _ => Option MailboxId
  | validateCreate _ => Except String CreateParams
  | addCreated .. => Except String String
  | renameSource .. => Except StatusResponse String
  | rename .. => Except StatusResponse Unit
  | deleteTarget _ => Except StatusResponse (String × String × Bool)
  | list => List (Option String × List (String × Option Mailbox))
  | statusCached .. => StatusItems × List Status
  | statusMessages .. | statusSize .. => StatusItems
  | statusTotals .. => Except StatusResponse StatusItems

/-- The cache update of a creation: the account, if it is still there, with its new mailboxes. -/
def runAddCreated (params : CreateParams) (mailboxIds : List String) (newState : String)
    (hasUpdated : Bool) (accounts : List Account) : Except String String × List Account :=
  onAccount params.accountId (.error "Account no longer available.")
    (fun account ↦ account.addCreated params mailboxIds newState hasUpdated) accounts

/-- The cache update of a renaming.  The state goes out of the response with the new parents, and
what is left of it is empty when the renaming comes to it. -/
def runRename (mailboxName mailboxId : String) (params : CreateParams)
    (created : Option (List String)) (response : MailboxSet) (accounts : List Account) :
    Except StatusResponse Unit × List Account :=
  let (added, accounts) := match created with
    | some mailboxIds =>
        runAddCreated params mailboxIds response.newState response.hasUpdated accounts
    | none => (.ok "", accounts)
  match added with
  | .error message => (.error (.no message), accounts)
  | .ok _ =>
      let newState := if created.isSome then "" else response.newState
      match response.updated with
      | .error err => (.error err, accounts)
      | .ok _ =>
          (.ok (), updateAccount params.accountId
            (fun account ↦ account.rename mailboxName mailboxId params newState) accounts)

/-- Run a critical section on the cache. -/
def run (folders : Folders) : (s : Section) → List Account → s.Return × List Account
  | unlink session, accounts =>
      let (kept, deleted, added) := unlinkAccounts folders session accounts
      ((deleted, added), kept)
  | mailboxStates, accounts => (accounts.map fun a ↦ (a.accountId, a.mailboxState), accounts)
  | change accountId newState resetStats, accounts =>
      ((), updateAccount accountId (fun account ↦ account.change newState resetStats) accounts)
  | update changes changed added, accounts => updateMailboxes changes accounts changed added
  | mailboxByName mailboxName, accounts => (getMailboxByName folders accounts mailboxName, accounts)
  | validateCreate mailboxName, accounts =>
      (validateMailboxCreate folders accounts mailboxName, accounts)
  | addCreated params mailboxIds newState hasUpdated, accounts =>
      runAddCreated params mailboxIds newState hasUpdated accounts
  | renameSource mailboxName accountId, accounts =>
      (ImapToJmap.renameSource accounts mailboxName accountId, accounts)
  | rename mailboxName mailboxId params created response, accounts =>
      runRename mailboxName mailboxId params created response accounts
  | deleteTarget mailboxName, accounts => (ImapToJmap.deleteTarget accounts mailboxName, accounts)
  | delete accountId mailboxName mailboxId, accounts =>
      ((), updateAccount accountId (fun account ↦ { account with
        mailboxNames := account.mailboxNames.erase mailboxName
        mailboxData := account.mailboxData.erase mailboxId }) accounts)
  | subscribe accountId mailboxId isSubscribed, accounts =>
      ((), updateAccount accountId (fun account ↦ { account with
        mailboxData := account.mailboxData.modify mailboxId fun mailbox ↦
          { mailbox with isSubscribed := isSubscribed } }) accounts)
  | list, accounts =>
      (accounts.map fun a ↦
        (a.namePrefix, a.mailboxNames.toList.map fun e ↦ (e.1, a.mailboxData[e.2]?)), accounts)
  | statusCached mailbox items, accounts =>
      onAccount mailbox.accountId ([], [])
        (fun account ↦ account.statusCached mailbox items) accounts
  | statusMessages mailbox status items, accounts =>
      onAccount mailbox.accountId [] (fun account ↦ account.statusMessages mailbox status items)
        accounts
  | statusTotals mailbox items responses, accounts =>
      onAccount mailbox.accountId (.ok [])
        (fun account ↦ account.statusTotals mailbox items responses) accounts
  | statusSize mailbox mailboxSize, accounts =>
      onAccount mailbox.accountId [] (fun account ↦ account.statusSize mailbox mailboxSize) accounts
  | statusModseq accountId modseq, accounts =>
      ((), updateAccount accountId (fun account ↦ { account with modseq := some modseq }) accounts)

end Section

/-- The operations of the database the commands ask for; `none` is a failure. -/
inductive DbCall where
  | updateUids (mailbox : MailboxId) (jmapIds : List String)
  | deleteMailbox (accountId mailboxId : String)
  | jmapToImap (mailbox : MailboxId) (jmapIds : List String) (options : MappingOptions)
  | uids (mailbox : MailboxId)
  | deleteIds (mailbox : MailboxId) (jmapIds : List String)
  | stateToModseq (accountId state : String)
  | modseqToState (accountId : String) (modseq : ℕ)

/-- What an operation of the database returns. -/
def DbCall.Return : DbCall → Type
  | updateUids .. => Option MailboxData
  | deleteMailbox .. | deleteIds .. => Unit
  | jmapToImap .. => Option (List String × List ℕ)
  | uids _ => Option (ℕ × ℕ)
  | stateToModseq .. => Option ℕ
  | modseqToState .. => Option (Option String)

/-- What a task of a session calls. -/
inductive SessionCall where
  | locked (s : Section)
  | jmap (request : Jmap.Request)
  | database (op : DbCall)

def SessionCall.Return : SessionCall → Type
  | .locked s => s.Return
  | .jmap request => request.Return
  | .database op => op.Return

/-- A task of a session. -/
abbrev SessionM := Job SessionCall SessionCall.Return

namespace SessionM

def locked (s : Section) : SessionM s.Return :=
  Job.perform (P := SessionCall.Return) (SessionCall.locked s)

def jmap (request : Jmap.Request) : SessionM request.Return :=
  Job.perform (P := SessionCall.Return) (SessionCall.jmap request)

def database (op : DbCall) : SessionM op.Return :=
  Job.perform (P := SessionCall.Return) (SessionCall.database op)

end SessionM

/-- The JMAP server and the database: a machine that answers requests in their order. -/
structure Outside (S : Type) where
  jmap : (request : Jmap.Request) → S → request.Return × S
  database : (op : DbCall) → S → op.Return × S

/-- The cached mailboxes of a session, and what is outside of it. -/
structure World (S : Type) where
  accounts : List Account
  outside : S

/-- One call. -/
def answer {S : Type} (folders : Folders) (outside : Outside S) :
    (c : SessionCall) → World S → c.Return × World S
  | .locked s, w =>
      let (r, accounts) := s.run folders w.accounts
      (r, { w with accounts := accounts })
  | .jmap request, w =>
      let (r, s) := outside.jmap request w.outside
      (r, { w with outside := s })
  | .database op, w =>
      let (r, s) := outside.database op w.outside
      (r, { w with outside := s })

end ImapToJmap
