import ImapToJmap.Core.Authenticate
import ImapToJmap.Core.Ingest

/-!
# A ManageSieve connection

`managesieve/client.rs`, its handlers in `managesieve/commands`, and the commands and responses of
`managesieve/mod.rs`.  The session is ingested like that of IMAP; there are no tags, nothing is
spawned, and no command but AUTHENTICATE, UNAUTHENTICATE and the end of a connection changes the
state.

What the handlers answer is not modelled, and no more are the answers of the JMAP server to a
command on scripts: they do not change the state.
-/

namespace ImapToJmap.ManageSieve

/-- `managesieve::Command` -/
inductive Command where
  | authenticate
  | startTls
  | logout
  | capability
  | haveSpace
  | putScript
  | listScripts
  | setActive
  | getScript
  | deleteScript
  | renameScript
  | checkScript
  | noop
  | unauthenticate
deriving DecidableEq

/-- The arms of `Command::parse`. -/
def Command.names : List (String × Command) := [
  ("AUTHENTICATE", .authenticate),
  ("STARTTLS", .startTls),
  ("LOGOUT", .logout),
  ("CAPABILITY", .capability),
  ("HAVESPACE", .haveSpace),
  ("PUTSCRIPT", .putScript),
  ("LISTSCRIPTS", .listScripts),
  ("SETACTIVE", .setActive),
  ("GETSCRIPT", .getScript),
  ("DELETESCRIPT", .deleteScript),
  ("RENAMESCRIPT", .renameScript),
  ("CHECKSCRIPT", .checkScript),
  ("NOOP", .noop),
  ("UNAUTHENTICATE", .unauthenticate)]

/-- `Command::parse` -/
def Command.parse (value : Bytes) (_ : Bool) : Option Command :=
  (Command.names.find? fun e ↦ asBytes e.1 = value).map Prod.snd

instance : CommandParser Command where
  default := .noop
  parse := Command.parse
  tokenizeBrackets := fun _ ↦ false

/-- `managesieve::ResponseCode`, the code of `is_allowed`. -/
inductive ResponseCode where
  | encryptNeeded
deriving DecidableEq

/-- `managesieve::ResponseType` -/
inductive ResponseType where
  | ok
  | no
  | bye
deriving DecidableEq

/-- `managesieve::StatusResponse` -/
structure StatusResponse where
  code : Option ResponseCode
  message : String
  rtype : ResponseType
deriving DecidableEq

namespace StatusResponse

/-- `StatusResponse::no` -/
def no (message : String) : StatusResponse := ⟨none, message, .no⟩

/-- `StatusResponse::with_code` -/
def withCode (response : StatusResponse) (code : ResponseCode) : StatusResponse :=
  { response with code := some code }

end StatusResponse

/-- `State`; a client is known by the credentials it was connected with. -/
inductive State where
  | notAuthenticated (authFailures : ℕ)
  | authenticated (client : Credentials)
deriving DecidableEq

/-- `Session::client`, which is `unreachable!()` in the other state. -/
def State.client : State → Option Credentials
  | authenticated client => some client
  | notAuthenticated _ => none

/-- `Session` -/
structure Session where
  receiver : Receiver Command
  state : State
  isTls : Bool

/-- `Session::new` -/
def Session.new (maxRequestSize : ℕ) (isTls : Bool) : Session where
  receiver := (Receiver.withMaxRequestSize maxRequestSize).withStartState (.command false)
  state := .notAuthenticated 0
  isTls := isTls

/-- `Request::is_allowed`, as it is built for production. -/
def isAllowed (state : State) (isTls : Bool) (request : Request Command) :
    Except StatusResponse (Request Command) :=
  match request.command with
  | .capability | .logout | .noop => .ok request
  | .authenticate =>
      match state with
      | .notAuthenticated _ =>
          if isTls then .ok request
          else .error ((StatusResponse.no "Cannot authenticate over plain-text.").withCode
            .encryptNeeded)
      | _ => .error (.no "Already authenticated.")
  | .startTls => if !isTls then .ok request else .error (.no "Already in TLS mode.")
  | .haveSpace | .putScript | .listScripts | .setActive | .getScript | .deleteScript
  | .renameScript | .checkScript | .unauthenticate =>
      match state with
      | .authenticated _ => .ok request
      | _ => .error (.no "Not authenticated.")

/-! ## Handlers -/

/-- What AUTHENTICATE meets outside: whether the JMAP server accepts the credentials, and whether it
supports Sieve. -/
structure Answer where
  connected : Bool
  sieve : Bool

inductive Event where
  | /-- `ingest` refuses a request. -/
    refuse (request : Request Command) (response : StatusResponse)
  | /-- `ingest` cannot parse a request. -/
    respond (response : StatusResponse)
  | /-- `ingest` asks for a literal. -/
    goAhead (size : ℕ)
  | /-- A handler is called. -/
    call (request : Request Command)
  | /-- A handler has reached `unreachable!()`. -/
    panic (command : Command)

/-- What a handler leaves behind. -/
structure Handled where
  session : Session
  events : List Event
  flow : Flow

namespace Session

/-- Go on, whether or not the command was successful. -/
def next (s : Session) : Handled := ⟨s, [], .next⟩

/-- `unreachable!()` -/
def panic (s : Session) (command : Command) : Handled := ⟨s, [.panic command], .panic⟩

variable (base64 : String → Option Bytes) (s : Session) (request : Request Command)
  (answer : Answer)

/-- A handler that talks to the JMAP server. -/
def withClient : Handled :=
  match s.state.client with
  | some _ => s.next
  | none => s.panic request.command

/-- The first parameter of a command, as a string. -/
def name? : Option String :=
  match request.tokens with
  | token :: _ => token.unwrapString
  | [] => none

def handleListscripts : Handled := s.withClient request

def handlePutscript : Handled :=
  match name? request, request.tokens with
  | some _, _ :: _ :: _ => s.withClient request
  | _, _ => s.next

/-- SETACTIVE, GETSCRIPT and DELETESCRIPT take the name of a script. -/
def onScript : Handled := if (name? request).isSome then s.withClient request else s.next

def handleSetactive : Handled := s.onScript request

def handleGetscript : Handled := s.onScript request

def handleDeletescript : Handled := s.onScript request

def handleRenamescript : Handled :=
  match name? request, request.tokens with
  | some _, _ :: newName :: _ =>
      if newName.unwrapString.isSome then s.withClient request else s.next
  | _, _ => s.next

def handleCheckscript : Handled := if request.tokens ≠ [] then s.withClient request else s.next

/-- HAVESPACE reads its parameters and agrees; CAPABILITY and NOOP only answer. -/
def handleHavespace : Handled := s.next

def handleCapability : Handled := s.next

def handleNoop : Handled := s.next

def handleLogout : Handled := { s.next with flow := .disconnect }

def handleStarttls : Handled := { s.next with flow := .upgrade }

def handleUnauthenticate : Handled := next { s with state := .notAuthenticated 0 }

/-- The credentials are tried. -/
def authenticate (credentials : Credentials) : Handled :=
  if answer.connected then
    if answer.sieve then next { s with state := .authenticated credentials }
    else { s.next with flow := .disconnect }
  else
    match s.state with
    | .notAuthenticated authFailures =>
        if authFailures < 3 then next { s with state := .notAuthenticated (authFailures + 1) }
        else { s.next with flow := .disconnect }
    | _ => s.panic request.command

/-- Without a parameter the receiver is set up to read the next line as one. -/
def handleAuthenticate : Handled :=
  match parseAuthenticate request.tokens with
  | some (mechanism, params) =>
      if mechanism = .plain ∨ mechanism = .oAuthBearer then
        if params ≠ [] then
          match challengeCredentials base64 mechanism params with
          | some credentials => s.authenticate request answer credentials
          | none => s.next
        else
          next { s with receiver := { s.receiver with
            request := ⟨"", .authenticate, [.argument (asBytes mechanism.name)]⟩
            state := .argument Ascii.space } }
      else s.next
  | none => s.next

/-- The handler `ingest` calls for a request. -/
def dispatch : Handled :=
  match request.command with
  | .listScripts => s.handleListscripts request
  | .putScript => s.handlePutscript request
  | .setActive => s.handleSetactive request
  | .getScript => s.handleGetscript request
  | .deleteScript => s.handleDeletescript request
  | .renameScript => s.handleRenamescript request
  | .checkScript => s.handleCheckscript request
  | .haveSpace => s.handleHavespace
  | .capability => s.handleCapability
  | .authenticate => s.handleAuthenticate base64 request answer
  | .startTls => s.handleStarttls
  | .logout => s.handleLogout
  | .noop => s.handleNoop
  | .unauthenticate => s.handleUnauthenticate

end Session

end ImapToJmap.ManageSieve
