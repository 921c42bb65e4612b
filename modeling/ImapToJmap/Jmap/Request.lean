import ImapToJmap.Jmap.Store
import ImapToJmap.Core.Command

/-!
# Requests to the JMAP server

The requests the commands send, one constructor for each shape, with the accounts as the command
passes them: a method or helper that is given no account addresses the default account of the
client.  `Request.Return` is what a command takes from the response; the errors of the client
stand here as the status responses they are turned into.
-/

namespace ImapToJmap.Jmap

/-! ## Objects -/

/-- `mailbox::Role` -/
inductive Role where
  | archive
  | drafts
  | important
  | inbox
  | junk
  | sent
  | trash
  | other (role : String)
  | none
deriving DecidableEq, Inhabited

/-- The properties of a mailbox that are asked for. -/
structure MailboxObject where
  id : Option String
  name : Option String
  parentId : Option String
  role : Role
  isSubscribed : Bool
  totalEmails : ℕ
  unreadEmails : ℕ
deriving DecidableEq

/-- The parent of a mailbox to be created or moved: an id, or a mailbox created before it in the
same request. -/
inductive Parent where
  | id (id : Option String)
  | created (position : ℕ)
deriving DecidableEq

structure MailboxCreate where
  name : String
  parent : Parent
  role : Role := .none
deriving DecidableEq

structure MailboxUpdate where
  id : String
  name : String
  parent : Parent
deriving DecidableEq

/-- `email::query::Filter` -/
inductive Condition where
  | inMailbox (id : String)
  | id (ids : List String)
  | inThread (id : String)
  | after (date : ℤ)
  | before (date : ℤ)
  | sentAfter (date : ℤ)
  | sentBefore (date : ℤ)
  | minSize (size : ℕ)
  | maxSize (size : ℕ)
  | hasKeyword (keyword : String)
  | notKeyword (keyword : String)
  | text (value : String)
  | «from» (value : String)
  | to (value : String)
  | cc (value : String)
  | bcc (value : String)
  | subject (value : String)
  | body (value : String)
  | header (name : String) (value : Option String)
deriving DecidableEq

/-- `query::Operator` -/
inductive Operator where
  | and
  | or
  | not
deriving DecidableEq

/-- `query::Filter` -/
inductive Query where
  | condition (condition : Condition)
  | operator (operator : Operator) (conditions : List Query)

/-- The property of an `email::query::Comparator`. -/
inductive Comparator where
  | receivedAt
  | cc
  | sentAt
  | «from»
  | size
  | subject
  | to
deriving DecidableEq

/-- `email::Property`, of those that are asked for. -/
inductive Property where
  | id
  | threadId
  | blobId
  | size
  | keywords
  | receivedAt
deriving DecidableEq

/-! ## Responses -/

/-- A `ChangesResponse`; of the properties said to have changed, whether each is a count. -/
structure Changes where
  accountId : String
  newState : String
  created : List String
  updated : List String
  destroyed : List String
  updatedProperties : Option (List Bool)
deriving DecidableEq

/-- A page of a listing of mailboxes. -/
structure MailboxPage where
  state : String
  list : List MailboxObject
  total : Option ℕ
deriving DecidableEq

/-- A `SetResponse` for mailboxes: the outcome of each creation by its position in the request,
whether any mailbox is listed as updated, and the outcome of the update. -/
structure MailboxSet where
  newState : String
  created : ℕ → Except String String
  hasUpdated : Bool
  updated : Except StatusResponse Unit

/-- A page of a query. -/
structure Page (α : Type) where
  items : List α
  total : Option ℕ
deriving DecidableEq

/-- An email with the properties asked for. -/
structure EmailObject where
  id : Option String
  blobId : Option String
  keywords : List String
deriving DecidableEq

/-! ## Requests -/

inductive Request where
  | /-- `Client::is_session_updated` -/
    isSessionUpdated
  | /-- `Client::refresh_session` -/
    refreshSession
  | /-- `Client::session`: the accounts with their names. -/
    session
  | /-- `Mailbox/changes` for each account since a state. -/
    changesMailbox (accounts : List (String × String))
  | /-- `Mailbox/query` with `Mailbox/get`. -/
    queryMailboxes (accountId : Option String) (position : ℕ)
  | /-- `Mailbox/set` -/
    setMailbox (accountId : Option String) (create : List MailboxCreate)
      (update : Option MailboxUpdate)
  | /-- `Client::mailbox_destroy` -/
    mailboxDestroy (id : String) (deleteEmails : Bool)
  | /-- `Client::mailbox_subscribe` -/
    mailboxSubscribe (id : String) (isSubscribed : Bool)
  | /-- `Email/query` -/
    queryEmail (accountId : Option String) (filter : Option Query)
      (sort : Option (List (Comparator × Bool))) (position : ℕ)
  | /-- `Email/query` with `Email/get` of the thread ids. -/
    queryThreads (accountId : Option String) (filter : Query) (position limit : ℕ)
  | /-- `Email/query` with `Email/get` of the sizes. -/
    querySizes (accountId : Option String) (filter : Option Query) (position limit : ℕ)
  | /-- `Email/query` for the number of results of each filter. -/
    queryTotals (accountId : Option String) (filters : List Query)
  | /-- `Email/get` -/
    getEmail (accountId : Option String) (ids : List String) (properties : List Property)
  | /-- `Email/changes` -/
    changesEmail (accountId : Option String) (sinceState : String)
  | /-- `Email/set` with the same patches of all emails, a method call for each chunk of ids, and
    `Email/get` of their keywords. -/
    setEmail (accountId : Option String) (update : List (List String)) (patches : List Patch)
      (get : List (List String))
  | /-- `Email/query` with `Email/set` that destroys the results. -/
    destroyEmail (accountId : Option String) (filter : Query)
  | /-- `Email/copy` -/
    copyEmail (fromAccountId : String) (accountId : Option String) (create : List (List String))
      (mailboxId : String) (onSuccessDestroyOriginal : Bool)
  | /-- `Client::download` -/
    download (blobId : String)

namespace Request

/-- What the command takes from the response. -/
def Return : Request → Type
  | isSessionUpdated => Bool
  | refreshSession => Except StatusResponse Unit
  | session => List (String × String)
  | changesMailbox _ => Except StatusResponse (List (Option Changes))
  | queryMailboxes .. => Option MailboxPage
  | setMailbox .. => Except StatusResponse MailboxSet
  | mailboxDestroy .. | mailboxSubscribe .. => Except StatusResponse Unit
  | queryEmail .. => Except StatusResponse (Page String)
  | queryThreads .. => Except StatusResponse (Page String × List (String × Option String))
  | querySizes .. => Except StatusResponse (Page ℕ)
  | queryTotals .. => Except StatusResponse (List (Except StatusResponse (Option ℕ)))
  | getEmail .. => Except StatusResponse (String × List EmailObject)
  | changesEmail .. => Except StatusResponse Changes
  | setEmail .. | copyEmail .. =>
      Except StatusResponse (String × List String × List (List String))
  | destroyEmail .. => Except StatusResponse String
  | download _ => Except StatusResponse (List UInt8)

/-- The accounts whose objects a request addresses, given the default account of the client.  The
session is no object of an account. -/
def accounts (default : String) : Request → List String
  | isSessionUpdated | refreshSession | session => []
  | changesMailbox accounts => accounts.map Prod.fst
  | queryMailboxes accountId _ | setMailbox accountId .. | queryEmail accountId .. |
    queryThreads accountId .. | querySizes accountId .. | queryTotals accountId _ |
    getEmail accountId .. | changesEmail accountId _ | setEmail accountId .. |
    destroyEmail accountId _ => [accountId.getD default]
  | copyEmail fromAccountId accountId .. => [fromAccountId, accountId.getD default]
  | mailboxDestroy .. | mailboxSubscribe .. | download _ => [default]

end Request

end ImapToJmap.Jmap
