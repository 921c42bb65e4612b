import ImapToJmap.Core.Bytes

/-!
# Commands and status responses

`core/mod.rs`: the IMAP commands, and the responses a command is answered with.
-/

namespace ImapToJmap

/-- `Command`; the flag of a command is its `UID` prefix. -/
inductive Command where
  | capability
  | noop
  | logout
  | startTls
  | authenticate
  | login
  | enable
  | select
  | examine
  | create
  | delete
  | rename
  | subscribe
  | unsubscribe
  | list
  | namespace
  | status
  | append
  | idle
  | close
  | unselect
  | expunge (isUid : Bool)
  | search (isUid : Bool)
  | fetch (isUid : Bool)
  | store (isUid : Bool)
  | copy (isUid : Bool)
  | move (isUid : Bool)
  | lsub
  | check
  | sort (isUid : Bool)
  | thread (isUid : Bool)
  | setAcl
  | deleteAcl
  | getAcl
  | listRights
  | myRights
  | unauthenticate
  | id
deriving DecidableEq

/-- The commands that know a `UID` form carry its flag. -/
def Command.isUid : Command → Bool
  | expunge isUid | search isUid | fetch isUid | store isUid | copy isUid | move isUid
  | sort isUid | thread isUid => isUid
  | _ => false

/-- `ResponseType` -/
inductive ResponseType where
  | ok
  | no
  | bad
  | preAuth
  | bye
deriving DecidableEq

/-- `ResponseCode`, the codes of the modelled functions. -/
inductive ResponseCode where
  | authenticationFailed
  | cannot
  | contactAdmin
  | hasChildren
  | mailboxId (mailboxId : String)
  | nonExistent
  | parse
deriving DecidableEq

/-- `StatusResponse` -/
structure StatusResponse where
  tag : Option String
  code : Option ResponseCode
  message : String
  rtype : ResponseType
deriving DecidableEq

namespace StatusResponse

/-- `StatusResponse::ok` -/
def ok (message : String) : StatusResponse := ⟨none, none, message, .ok⟩

/-- `StatusResponse::no` -/
def no (message : String) : StatusResponse := ⟨none, none, message, .no⟩

/-- `StatusResponse::bad` -/
def bad (message : String) : StatusResponse := ⟨none, none, message, .bad⟩

/-- `StatusResponse::bye` -/
def bye (message : String) : StatusResponse := ⟨none, none, message, .bye⟩

/-- `StatusResponse::with_tag` -/
def withTag (response : StatusResponse) (tag : String) : StatusResponse :=
  { response with tag := some tag }

/-- `StatusResponse::with_code` -/
def withCode (response : StatusResponse) (code : ResponseCode) : StatusResponse :=
  { response with code := some code }

/-- `StatusResponse::database_failure` -/
def databaseFailure : StatusResponse := (no "Database failure.").withCode .contactAdmin

end StatusResponse

end ImapToJmap
