import ImapToJmap.Core.Authenticate
import ImapToJmap.Core.Ingest
import ImapToJmap.Core.View
import ImapToJmap.Parser.Basic

/-!
# An IMAP connection

`Session` of `core/client.rs` with `Session::ingest`, the handlers it calls, and the loop of
`core/connection.rs` that feeds it.

A read is ingested in two phases.  All its requests are parsed and admitted (`is_allowed`) against
the state before the read; then the handlers of the admitted ones run, one after the other, each in
the state that the ones before it have left.  An accessor of the state that finds the wrong state is
`unreachable!()`: the task of the connection panics, and the connection is gone.

What a handler learns from outside is its `Answer`: whether its arguments parse (the parsers of
`src/parser` other than those of LOGIN and AUTHENTICATE are not modelled, and any of them may accept
or refuse), and how the JMAP server and the database answer.  Nothing is assumed about it.  Writing
to the client always succeeds here; a connection that cannot write is dropped, which cuts a run
short.
-/

namespace ImapToJmap.Imap

/-! ## The session -/

/-- `ProtocolVersion` -/
inductive ProtocolVersion where
  | rev1
  | rev2
deriving DecidableEq

/-- `SessionData`: the JMAP client that was connected with these credentials. -/
structure SessionData where
  credentials : Credentials
deriving DecidableEq

/-- `State` -/
inductive State where
  | notAuthenticated (authFailures : ℕ)
  | authenticated (data : SessionData)
  | selected (data : SessionData) (mailbox : SelectedMailbox)

namespace State

/-! An accessor is `none` where it is `unreachable!()`. -/

/-- `State::auth_failures` -/
def authFailures : State → Option ℕ
  | notAuthenticated authFailures => some authFailures
  | _ => none

/-- `State::session_data` -/
def sessionData : State → Option SessionData
  | authenticated data | selected data _ => some data
  | _ => none

/-- `State::mailbox_data` -/
def mailboxData : State → Option (SessionData × SelectedMailbox)
  | selected data mailbox => some (data, mailbox)
  | _ => none

/-- `State::session_mailbox_data` -/
def sessionMailboxData : State → Option (SessionData × Option SelectedMailbox)
  | authenticated data => some (data, none)
  | selected data mailbox => some (data, some mailbox)
  | _ => none

/-- `State::select_data` -/
def selectData : State → Option (SessionData × SelectedMailbox)
  | selected data mailbox => some (data, mailbox)
  | _ => none

/-- The selected mailbox. -/
def mailbox? : State → Option SelectedMailbox
  | selected _ mailbox => some mailbox
  | _ => none

end State

/-- `Session`; `idle` is `idle_tx`, with the tag that the idling task will answer. -/
structure Session where
  receiver : Receiver Command
  version : ProtocolVersion
  state : State
  isTls : Bool
  isCondstore : Bool
  isQresync : Bool
  idle : Option String

/-- `Session::new` -/
def Session.new (maxRequestSize : ℕ) (isTls : Bool) : Session where
  receiver := .withMaxRequestSize maxRequestSize
  version := .rev1
  state := .notAuthenticated 0
  isTls := isTls
  isCondstore := false
  isQresync := false
  idle := none

/-- `Request::is_allowed` -/
def isAllowed (state : State) (isTls : Bool) (request : Request Command) :
    Except StatusResponse (Request Command) :=
  match request.command with
  | .capability | .noop | .logout | .id => .ok request
  | .startTls =>
      if !isTls then .ok request
      else .error ((StatusResponse.no "Already in TLS mode.").withTag request.tag)
  | .authenticate =>
      match state with
      | .notAuthenticated _ => .ok request
      | _ => .error ((StatusResponse.no "Already authenticated.").withTag request.tag)
  | .login =>
      match state with
      | .notAuthenticated _ =>
          if isTls then .ok request
          else .error ((StatusResponse.no "LOGIN is disabled on the clear-text port.").withTag
            request.tag)
      | _ => .error ((StatusResponse.no "Already authenticated.").withTag request.tag)
  | .enable | .select | .examine | .create | .delete | .rename | .subscribe | .unsubscribe
  | .list | .lsub | .namespace | .status | .append | .idle | .setAcl | .deleteAcl | .getAcl
  | .listRights | .myRights | .unauthenticate =>
      match state with
      | .authenticated _ | .selected _ _ => .ok request
      | _ => .error ((StatusResponse.no "Not authenticated.").withTag request.tag)
  | .close | .unselect | .expunge _ | .search _ | .fetch _ | .store _ | .copy _ | .move _
  | .check | .sort _ | .thread _ =>
      match state with
      | .selected _ mailbox =>
          if mailbox.isSelect || !(match request.command with
              | .store _ | .expunge _ | .move _ => true
              | _ => false) then .ok request
          else .error ((StatusResponse.no "Not permitted in EXAMINE state.").withTag request.tag)
      | .authenticated _ =>
          .error ((StatusResponse.bad "No mailbox is selected.").withTag request.tag)
      | .notAuthenticated _ =>
          .error ((StatusResponse.no "Not authenticated.").withTag request.tag)

/-! ## What happens -/

/-- `Capability`, of those that can be enabled. -/
inductive Capability where
  | imap4rev2
  | imap4rev1
  | condStore
  | qResync
  | utf8Accept
  | other
deriving DecidableEq

/-- What a handler meets outside. -/
structure Answer where
  /-- The arguments parse; of several CREATE or DELETE at once, those of one of them. -/
  parsed : Bool
  /-- LIST: the query for the hierarchy separator. -/
  isSeparatorQuery : Bool
  /-- ENABLE: the capabilities asked for. -/
  enable : List Capability
  /-- FETCH: `changed_since` is given, or MODSEQ asked for. -/
  asksModSeq : Bool
  /-- FETCH: an attribute that sets `\Seen` is asked for. -/
  asksSeen : Bool
  /-- COPY and MOVE: the destination is there. -/
  destination : Bool
  /-- The JMAP server accepts the credentials. -/
  connected : Bool
  /-- `fetch_mailboxes` succeeds. -/
  mailboxesFetched : Bool
  /-- `purge_deleted_mailboxes` succeeds. -/
  purged : Bool
  /-- SELECT and EXAMINE: the mailbox, if everything about it could be obtained. -/
  opened : Option (MailboxId × MailboxData)
  /-- IDLE: the event source could be started. -/
  eventSource : Bool

/-- A change that a command makes to the messages of a mailbox. -/
inductive Change where
  | store
  | move
  | seen
  | expunge
deriving DecidableEq

/-- A task that a handler has spawned, and that changes messages. -/
structure Task where
  change : Change
  mailbox : SelectedMailbox

/-- The requests that one handler call is for: one, or a group of CREATE or of DELETE. -/
structure Call where
  request : Request Command
  more : List (Request Command)

/-- The command a handler is called for. -/
abbrev Call.command (call : Call) : Command := call.request.command

inductive Event where
  | /-- `ingest` refuses a request. -/
    refuse (request : Request Command) (response : StatusResponse)
  | /-- `ingest` cannot parse a request. -/
    respond (response : StatusResponse)
  | /-- `ingest` asks for a literal. -/
    goAhead (size : ℕ)
  | /-- A handler is called. -/
    call (call : Call) (state : State) (isTls : Bool)
  | /-- A handler has got hold of the session data. -/
    useData (command : Command) (data : SessionData)
  | /-- Credentials are forwarded to the JMAP server. -/
    connect (credentials : Credentials)
  | /-- `authenticate` has succeeded. -/
    authenticated (data : SessionData)
  | unauthenticated
  | /-- Messages of a mailbox are changed, while the session is in this state. -/
    change (change : Change) (mailbox : SelectedMailbox) (state : State)
  | /-- The idling task answers its command. -/
    idleDone (tag : String)
  | /-- A handler has reached `unreachable!()`. -/
    panic (command : Command)

/-- What a handler leaves behind. -/
structure Handled where
  session : Session
  events : List Event
  tasks : List Task
  flow : Flow

/-! ## Handlers -/

namespace Session

/-- Go on. -/
def next (s : Session) : Handled := ⟨s, [], [], .next⟩

/-- `unreachable!()` -/
def panic (s : Session) (command : Command) : Handled := ⟨s, [.panic command], [], .panic⟩

/-- A handler that asks for the session data. -/
def withData (s : Session) (command : Command) (data : Option SessionData)
    (body : SessionData → Handled) : Handled :=
  match data with
  | some data => { body data with events := .useData command data :: (body data).events }
  | none => s.panic command

/-- A handler that asks for the session data and the selected mailbox. -/
def withMailbox (s : Session) (command : Command)
    (data : Option (SessionData × SelectedMailbox))
    (body : SessionData → SelectedMailbox → Handled) :
    Handled :=
  s.withData command (data.map Prod.fst) fun session ↦
    match data with
    | some (_, mailbox) => body session mailbox
    | none => s.panic command

variable (base64 : String → Option Bytes) (s : Session) (call : Call) (answer : Answer)

/-- A handler that spawns its work on the session data, once its arguments have parsed. -/
def onSessionData : Handled :=
  if answer.parsed then s.withData call.command s.state.sessionData fun _ ↦ s.next else s.next

/-- A handler that spawns work on the selected mailbox, once its arguments have parsed. -/
def onMailbox (tasks : SelectedMailbox → List Task) : Handled :=
  if answer.parsed then
    s.withMailbox call.command s.state.mailboxData fun _ mailbox ↦
      ⟨s, [], tasks mailbox, .next⟩
  else s.next

def handleList : Handled :=
  if answer.isSeparatorQuery then s.next else s.onSessionData call answer

def handleSelect : Handled :=
  if answer.parsed then
    s.withData call.command s.state.sessionData fun data ↦
      match answer.opened with
      | some (id, state) =>
          next { s with
            state := .selected data ⟨id, state, .none, call.command == .select⟩ }
      | none => s.next
  else s.next

def handleCreate : Handled := s.onSessionData call answer

def handleDelete : Handled := s.onSessionData call answer

def handleRename : Handled := s.onSessionData call answer

def handleStatus : Handled := s.onSessionData call answer

def handleSubscribe : Handled := s.onSessionData call answer

def handleSetAcl : Handled := s.onSessionData call answer

def handleDeleteAcl : Handled := s.onSessionData call answer

def handleGetAcl : Handled := s.onSessionData call answer

def handleMyRights : Handled := s.onSessionData call answer

def handleAppend : Handled :=
  if answer.parsed then
    s.withData call.command (s.state.sessionMailboxData.map Prod.fst) fun _ ↦ s.next
  else s.next

/-- An expunge that fails is not told apart: it may have changed something. -/
def handleClose : Handled :=
  s.withMailbox call.command s.state.selectData fun data mailbox ↦
    { next { s with state := .authenticated data } with
      events := if mailbox.isSelect then [.change .expunge mailbox s.state] else [] }

def handleUnselect : Handled :=
  s.withData call.command s.state.sessionData fun data ↦
    next { s with state := .authenticated data }

def handleExpunge : Handled :=
  s.withMailbox call.command s.state.selectData fun _ mailbox ↦
    ⟨s, [.change .expunge mailbox s.state], [], .next⟩

def handleSearch : Handled := s.onMailbox call answer fun _ ↦ []

def handleThread : Handled := s.onMailbox call answer fun _ ↦ []

def handleFetch : Handled :=
  if answer.parsed then
    s.withMailbox call.command s.state.selectData fun _ mailbox ↦
      ⟨{ s with isCondstore := s.isCondstore || answer.asksModSeq }, [],
        if mailbox.isSelect && answer.asksSeen then [⟨.seen, mailbox⟩] else [], .next⟩
  else s.next

def handleStore : Handled :=
  if answer.parsed then
    s.withMailbox call.command s.state.selectData fun _ mailbox ↦
      ⟨s, [], [⟨.store, mailbox⟩], .next⟩
  else s.next

def handleCopyMove (isMove : Bool) : Handled :=
  s.onMailbox call answer fun mailbox ↦
    if answer.destination && isMove then [⟨.move, mailbox⟩] else []

def handleIdle : Handled :=
  s.withData call.command s.state.sessionData fun _ ↦
    if answer.eventSource then next { s with idle := some call.request.tag } else s.next

def handleNamespace : Handled :=
  s.withData call.command s.state.sessionData fun _ ↦ s.next

/-- NOOP and CHECK report changes if there is a session, and do nothing otherwise. -/
def handleNoop : Handled :=
  match s.state.sessionData with
  | some _ => s.withData call.command s.state.sessionData fun _ ↦ s.next
  | none => s.next

/-- The loop over the capabilities; it stops at the first one that cannot be enabled. -/
def enable : Session → List Capability → Session
  | s, [] => s
  | s, .imap4rev2 :: capabilities => enable { s with version := .rev2 } capabilities
  | s, .imap4rev1 :: capabilities => enable { s with version := .rev1 } capabilities
  | s, .condStore :: capabilities => enable { s with isCondstore := true } capabilities
  | s, .qResync :: capabilities => enable { s with isQresync := true } capabilities
  | s, .utf8Accept :: capabilities => enable s capabilities
  | s, .other :: _ => s

def handleEnable : Handled := if answer.parsed then next (s.enable answer.enable) else s.next

/-- CAPABILITY, ID and LISTRIGHTS only answer. -/
def handleCapability : Handled := s.next

def handleId : Handled := s.next

def handleListRights : Handled := s.next

def handleLogout : Handled := { s.next with flow := .disconnect }

def handleStarttls : Handled := { s.next with flow := .upgrade }

def authenticate (credentials : Credentials) : Handled :=
  if answer.connected then
    if answer.mailboxesFetched && answer.purged then
      ⟨{ s with state := .authenticated ⟨credentials⟩ },
        [.connect credentials, .authenticated ⟨credentials⟩], [], .next⟩
    else ⟨s, [.connect credentials], [], .disconnect⟩
  else
    match s.state.authFailures with
    | some authFailures =>
        if authFailures < 3 then
          ⟨{ s with state := .notAuthenticated (authFailures + 1) }, [.connect credentials], [],
            .next⟩
        else ⟨s, [.connect credentials], [], .disconnect⟩
    | none => ⟨s, [.connect credentials, .panic call.command], [], .panic⟩

/-- `handle_login` after `parse_login`: two strings. -/
def handleLogin : Handled :=
  match call.request.tokens with
  | [username, password] =>
      match username.unwrapString, password.unwrapString with
      | some username, some password => s.authenticate call answer (.basic username password)
      | _, _ => s.next
  | _ => s.next

/-- Without a parameter the receiver is set up to read the next line as one. -/
def handleAuthenticate : Handled :=
  match parseAuthenticate call.request.tokens with
  | some (mechanism, params) =>
      if mechanism = .plain ∨ mechanism = .oAuthBearer then
        if params ≠ [] then
          match challengeCredentials base64 mechanism params with
          | some credentials => s.authenticate call answer credentials
          | none => s.next
        else
          next { s with receiver := { s.receiver with
            request := ⟨call.request.tag, .authenticate, [.argument (asBytes mechanism.name)]⟩
            state := .argument Ascii.space } }
      else s.next
  | none => s.next

def handleUnauthenticate : Handled :=
  { next { s with state := .notAuthenticated 0 } with events := [.unauthenticated] }

/-- The handler `ingest` calls for a command. -/
def dispatch : Handled :=
  match call.command with
  | .list | .lsub => s.handleList call answer
  | .select | .examine => s.handleSelect call answer
  | .create => s.handleCreate call answer
  | .delete => s.handleDelete call answer
  | .rename => s.handleRename call answer
  | .status => s.handleStatus call answer
  | .append => s.handleAppend call answer
  | .close => s.handleClose call
  | .unselect => s.handleUnselect call
  | .expunge _ => s.handleExpunge call
  | .search _ => s.handleSearch call answer
  | .fetch _ => s.handleFetch call answer
  | .store _ => s.handleStore call answer
  | .copy _ => s.handleCopyMove call answer false
  | .move _ => s.handleCopyMove call answer true
  | .sort _ => s.handleSearch call answer
  | .thread _ => s.handleThread call answer
  | .idle => s.handleIdle call answer
  | .subscribe => s.handleSubscribe call answer
  | .unsubscribe => s.handleSubscribe call answer
  | .namespace => s.handleNamespace call
  | .authenticate => s.handleAuthenticate base64 call answer
  | .login => s.handleLogin call answer
  | .capability => s.handleCapability
  | .enable => s.handleEnable answer
  | .startTls => s.handleStarttls
  | .noop | .check => s.handleNoop call
  | .logout => s.handleLogout
  | .setAcl => s.handleSetAcl call answer
  | .deleteAcl => s.handleDeleteAcl call answer
  | .getAcl => s.handleGetAcl call answer
  | .listRights => s.handleListRights
  | .myRights => s.handleMyRights call answer
  | .unauthenticate => s.handleUnauthenticate
  | .id => s.handleId

/-- One turn of the second loop of `ingest`. -/
def handle : Handled :=
  let handled := s.dispatch base64 call answer
  { handled with events := .call call s.state s.isTls :: handled.events }

end Session

end ImapToJmap.Imap
