import ImapToJmap.ManageSieve.Client
import ImapToJmap.Protocol.Values

/-!
# The replies of ManageSieve

The responses of `managesieve/mod.rs` with all their codes, the table of `managesieve/commands/mod.rs`
from the errors of the JMAP server to them, and what the handlers write in front of a status.

A client of this protocol reads lines up to one that begins with `OK`, `NO` or `BYE`.
`replies_read_iff`: it gets, from the bytes of any number of replies, the lines of each, just if
GETSCRIPT is not among those that succeed.  There the literal is not followed by a line end, so that
the status is not at the beginning of a line, and the client takes that of the next reply for it.
-/

namespace ImapToJmap.ManageSieve.Replies

open Ascii Wire Wire.Buffer Writer

/-! ## Statuses -/

/-- `ResponseCode` -/
inductive ResponseCode where
  | authTooWeak
  | encryptNeeded
  | quota
  | quotaMaxScripts
  | quotaMaxSize
  | referral
  | sasl
  | transitionNeeded
  | tryLater
  | active
  | nonExistent
  | alreadyExists
  | tag (text : String)
  | warnings
deriving DecidableEq

namespace ResponseCode

/-- The word a code begins with. -/
def word : ResponseCode → String
  | authTooWeak => "AUTH-TOO-WEAK"
  | encryptNeeded => "ENCRYPT-NEEDED"
  | quota => "QUOTA"
  | quotaMaxScripts => "QUOTA/MAXSCRIPTS"
  | quotaMaxSize => "QUOTA/MAXSIZE"
  | referral => "REFERRAL"
  | sasl => "SASL"
  | transitionNeeded => "TRANSITION-NEEDED"
  | tryLater => "TRYLATER"
  | active => "ACTIVE"
  | nonExistent => "NONEXISTENT"
  | alreadyExists => "ALREADYEXISTS"
  | tag _ => "TAG"
  | warnings => "WARNINGS"

/-- `ResponseCode::serialize` -/
def serialize (self : ResponseCode) : Buffer :=
  match self with
  | tag text => fixed "TAG " ++ literal text
  | code => fixed code.word

/-- What a client reads of a code. -/
def values (self : ResponseCode) : List Tree :=
  match self with
  | tag text => [.ofAtom (asBytes "TAG"), Fetch.string text]
  | code => [.ofAtom (asBytes code.word)]

theorem isAtom_word (self : ResponseCode) : IsAtom (asBytes self.word) := by
  have htag : IsAtom (asBytes "TAG") := by decide +kernel
  cases self with
  | tag text => exact htag
  | _ => decide +kernel

theorem free_serialize (self : ResponseCode) : Free self.serialize := by
  cases self <;> simp [serialize, word]

theorem readsAs_serialize (self : ResponseCode) : ReadsAs self.serialize.bytes self.values := by
  have hword := reads_atom self.isAtom_word
  cases self with
  | tag text =>
      have hspace : asBytes "TAG " = asBytes "TAG" ++ [space] := by decide
      have h := hword.settles_space.append_reads (settles_literal (asBytes text)).reads
      rw [serialize, bytes_append, Fetch.bytes_fixed, hspace, bytes_literal]
      exact h
  | _ => exact (Fetch.bytes_fixed _).symm ▸ hword

end ResponseCode

/-- `ResponseType::serialize` -/
def responseWord : ResponseType → String
  | .ok => "OK"
  | .no => "NO"
  | .bye => "BYE"

/-- `StatusResponse` -/
structure StatusResponse where
  code : Option ResponseCode
  message : String
  rtype : ResponseType
deriving DecidableEq

namespace StatusResponse

/-- `StatusResponse::ok` -/
def ok (message : String) : StatusResponse := ⟨none, message, .ok⟩

/-- `StatusResponse::no` -/
def no (message : String) : StatusResponse := ⟨none, message, .no⟩

/-- `StatusResponse::bye` -/
def bye (message : String) : StatusResponse := ⟨none, message, .bye⟩

/-- `StatusResponse::with_code` -/
def withCode (response : StatusResponse) (code : ResponseCode) : StatusResponse :=
  { response with code := some code }

/-- `StatusResponse::serialize`, without the end of the line. -/
def serializeLine (self : StatusResponse) : Buffer :=
  fixed (responseWord self.rtype) ++
    (match self.code with
    | some code => fixed " (" ++ code.serialize ++ fixed ")"
    | none => []) ++
    if self.message ≠ "" then fixed " " ++ quoted self.message else []

/-- `StatusResponse::serialize`, behind what the buffer has. -/
def serialize (self : StatusResponse) (buf : Buffer) : Buffer := buf ++ (self.serializeLine ++ crlf)

/-- What a client reads of a status. -/
def values (self : StatusResponse) : List Tree :=
  .ofAtom (asBytes (responseWord self.rtype)) ::
    (self.code.toList.map fun code ↦ .list code.values) ++
    if self.message ≠ "" then [Fetch.string self.message] else []

theorem free_serializeLine (self : StatusResponse) :
    Free self.serializeLine ↔ Plain self.message := by
  have hword : Free (fixed (responseWord self.rtype)) := by
    cases self.rtype <;> simp [responseWord]
  have hcode : Free (match self.code with
      | some code => fixed " (" ++ code.serialize ++ fixed ")"
      | none => []) := by
    cases self.code with
    | none => exact free_nil
    | some code => simp [code.free_serialize]
  rw [serializeLine, free_append, free_append, and_iff_right ⟨hword, hcode⟩]
  split
  · simp
  · next h =>
      have hempty : Plain "" := by decide
      simp [not_not.mp h, hempty]

theorem sealed_serializeLine (self : StatusResponse) : Sealed self.serializeLine := by
  obtain ⟨code, message, rtype⟩ := self
  by_cases hmessage : message = ""
  · cases code with
    | none =>
        have hword : ∃ last c, asBytes (responseWord rtype) = last ++ [c] ∧ c ≠ braceClose := by
          cases rtype with
          | ok => exact ⟨[79], 75, by decide, by decide⟩
          | no => exact ⟨[78], 79, by decide, by decide⟩
          | bye => exact ⟨[66, 89], 69, by decide, by decide⟩
        obtain ⟨last, c, hlast, hc⟩ := hword
        exact ⟨[], last, c, by simp [serializeLine, hmessage, fixed, hlast], hc⟩
    | some code =>
        have h : Sealed (fixed ")") := sealed_fixed (by decide)
        simpa [serializeLine, hmessage] using
          h.append (fixed (responseWord rtype) ++ (fixed " (" ++ code.serialize))
  · have h : Sealed (fixed "\"") := sealed_fixed (by decide)
    have hquoted : Sealed (quoted message) := h.append _
    rw [serializeLine, if_pos hmessage]
    exact (hquoted.append _).append _

theorem oneResponse_serializeLine (self : StatusResponse) (h : Plain self.message) :
    OneResponse (self.serializeLine ++ crlf) :=
  (oneResponse_iff self.sealed_serializeLine).mpr (self.free_serializeLine.mpr h)

theorem readsAs_serializeLine (self : StatusResponse) :
    ReadsAs self.serializeLine.bytes self.values := by
  obtain ⟨code, message, rtype⟩ := self
  have hatom : IsAtom (asBytes (responseWord rtype)) := by
    cases rtype <;> decide +kernel
  have hopen : asBytes " (" = [space, parenOpen] := by decide +kernel
  have hcode : ReadsAs (fixed (responseWord rtype) ++
      (match code with
      | some code => fixed " (" ++ code.serialize ++ fixed ")"
      | none => [])).bytes
      (.ofAtom (asBytes (responseWord rtype)) :: code.toList.map fun code ↦ .list code.values) := by
    cases code with
    | none => simpa [Fetch.bytes_fixed] using reads_atom hatom
    | some code =>
        simpa [Fetch.bytes_fixed, hopen, Fetch.asBytes_close] using
          (reads_atom hatom).append_space code.readsAs_serialize.list.reads
  by_cases hmessage : message = ""
  · simpa [serializeLine, values, hmessage] using hcode
  · have h := hcode.append_space (Fetch.settles_quotedString message).reads
    simpa [serializeLine, values, hmessage, Fetch.bytes_fixed, Fetch.asBytes_space] using h

end StatusResponse

/-! ## Errors of the JMAP server -/

/-- `JMAPError` -/
inductive JmapProblem where
  | unknownCapability
  | notJson
  | notRequest
  | limit

/-- `MethodErrorType` -/
inductive MethodErrorType where
  | serverUnavailable
  | serverFail
  | serverPartialFail
  | unknownMethod
  | invalidArguments
  | invalidResultReference
  | forbidden
  | accountNotFound
  | accountNotSupportedByMethod
  | accountReadOnly
  | requestTooLarge
  | cannotCalculateChanges
  | stateMismatch
  | alreadyExists
  | fromAccountNotFound
  | fromAccountNotSupportedByMethod
  | anchorNotFound
  | unsupportedSort
  | unsupportedFilter
  | tooManyChanges

/-- `SetErrorType` -/
inductive SetErrorType where
  | forbidden
  | overQuota
  | tooLarge
  | rateLimit
  | notFound
  | invalidPatch
  | willDestroy
  | invalidProperties
  | singleton
  | mailboxHasChild
  | mailboxHasEmail
  | blobNotFound
  | tooManyKeywords
  | tooManyMailboxes
  | forbiddenFrom
  | invalidEmail
  | tooManyRecipients
  | noRecipients
  | invalidRecipients
  | forbiddenMailFrom
  | forbiddenToSend
  | cannotUnsend
  | alreadyExists
  | invalidScript
  | scriptIsActive

/-- `jmap_client::Error`, with the texts of the server that are looked at. -/
inductive JmapError where
  | transport
  | parse
  | internal
  | problem (error : JmapProblem) (limit : Option String)
  | otherProblem (status : Option ℕ) (detail : Option String)
  | server (text : String)
  | method (error : MethodErrorType)
  | set (error : SetErrorType) (description : Option String)
  | webSocket

/-- `JMAPError`, and the limit it names. -/
def JmapProblem.status (limit : Option String) : JmapProblem → Option ResponseCode × String
  | unknownCapability => (none, "JMAP capability unknown.")
  | notJson => (none, "JMAP server failed to parse JSON request.")
  | notRequest => (none, "JMAP server could not process the request.")
  | .limit => (some .quota,
      if limit.getD "other" = "maxSizeRequest" then "Request size exceeds maximum allowed."
      else if limit.getD "other" = "maxCallsInRequest" then
        "Too many method calls in the same request."
      else if limit.getD "other" = "maxConcurrentRequests" then "Too many concurrent requests."
      else "Server limit exceeded.")

def MethodErrorType.status : MethodErrorType → Option ResponseCode × String
  | serverUnavailable => (some .tryLater, "Server unavailable.")
  | serverFail => (some .tryLater, "Server failed.")
  | serverPartialFail => (some .tryLater, "Partial server failure.")
  | unknownMethod => (none, "Unknown JMAP Method.")
  | invalidArguments => (none, "Invalid arguments.")
  | invalidResultReference => (none, "Invalid result reference.")
  | forbidden => (none, "Access forbidden.")
  | accountNotFound => (some .nonExistent, "Account not found.")
  | accountNotSupportedByMethod => (none, "Action not supported on this account.")
  | accountReadOnly => (none, "Account is read only.")
  | requestTooLarge => (some .quota, "Request is too large.")
  | cannotCalculateChanges => (none, "Cannot calculate changes.")
  | stateMismatch => (none, "State mismatch.")
  | alreadyExists => (some .alreadyExists, ".")
  | fromAccountNotFound => (some .nonExistent, "Source account not found.")
  | fromAccountNotSupportedByMethod => (none, "Action not supported on source account.")
  | anchorNotFound => (none, "Anchor not found.")
  | unsupportedSort => (none, "Sort criteria not supported by the server.")
  | unsupportedFilter => (none, "Filter not supported by the server.")
  | tooManyChanges => (some .quota, "Too many changes.")

/-- The text may be one of the server instead, if the error is described. -/
def SetErrorType.status : SetErrorType → Option ResponseCode × String
  | forbidden => (none, "You don't have enough permissions.")
  | overQuota => (some .quota, "You have exceeded your quota.")
  | tooLarge => (some .quota, "Request is too large.")
  | rateLimit => (some .quota, "Too many requests, please try again later.")
  | notFound => (some .nonExistent, "Not found.")
  | invalidPatch => (none, "Operation not supported by the server.")
  | willDestroy => (none, "Item will be destroyed.")
  | invalidProperties => (none, "Invalid properties.")
  | singleton => (none, "Failed operation on singleton.")
  | mailboxHasChild => (none, "Mailbox has children and cannot be deleted.")
  | mailboxHasEmail => (none, "Mailbox has messages and cannot be deleted.")
  | blobNotFound => (some .nonExistent,
      "One or more message parts are not available for retrieval.")
  | tooManyKeywords => (some .quota, "Too many keywords.")
  | tooManyMailboxes => (some .quota, "Too many mailboxes.")
  | forbiddenFrom => (none, "From address is not allowed.")
  | invalidEmail => (none, "Invalid e-mail address.")
  | tooManyRecipients => (some .quota, "Too many recipients.")
  | noRecipients => (none, "No recipients speficied.")
  | invalidRecipients => (none, "One or more recipients are invalid.")
  | forbiddenMailFrom => (none, "Mail from is forbidden.")
  | forbiddenToSend => (none, "Sending is not allowed.")
  | cannotUnsend => (none, "Cannot unsend.")
  | alreadyExists => (some .alreadyExists, "The referenced script name already exists.")
  | invalidScript => (none, "Invalid script")
  | scriptIsActive => (some .active, "You may not delete an active script.")

/-- The errors whose description is looked at. -/
def SetErrorType.isDescribed : SetErrorType → Bool
  | invalidProperties | invalidScript => true
  | _ => false

theorem JmapProblem.plain_status (limit : Option String) (self : JmapProblem) :
    Plain (self.status limit).2 := by
  have hnone : ∀ self : JmapProblem, Plain (self.status none).2 := by
    intro self
    cases self <;> decide
  cases self with
  | unknownCapability => exact hnone .unknownCapability
  | notJson => exact hnone .notJson
  | notRequest => exact hnone .notRequest
  | limit =>
      show Plain (if _ then _ else if _ then _ else if _ then _ else _)
      split_ifs <;> decide

theorem MethodErrorType.plain_status (self : MethodErrorType) : Plain self.status.2 := by
  cases self <;> decide

theorem SetErrorType.plain_status (self : SetErrorType) : Plain self.status.2 := by
  cases self <;> decide

namespace JmapError

/-- The pair of `into_status_response`. -/
def status : JmapError → Option ResponseCode × String
  | transport => (none, "Could not connect to JMAP server.")
  | parse => (none, "Failed to parse JMAP server response.")
  | internal => (none, "Internal Error.")
  | problem error limit => error.status limit
  | otherProblem status detail =>
      if status.getD 0 = 403 then
        (none, "You do not have enough permissions to perform this action.")
      else if status.getD 0 = 429 then
        (some .quota, "Too many requests, please try again later.")
      else (none, "Server error, " ++ detail.getD "unknown.")
  | server text => (some .tryLater, "Server error, " ++ text)
  | method error => error.status
  | set error description =>
      (error.status.1,
        if error.isDescribed then description.getD error.status.2 else error.status.2)
  | webSocket => (none, "WebSockets protocol error.")

/-- `into_status_response` -/
def intoStatusResponse (self : JmapError) : StatusResponse :=
  match self.status.1 with
  | some code => (StatusResponse.no self.status.2).withCode code
  | none => .no self.status.2

/-- The texts of the server that may be in a response. -/
def texts : JmapError → List String
  | otherProblem _ detail => detail.toList
  | server text => [text]
  | set _ description => description.toList
  | _ => []

theorem intoStatusResponse_eq (self : JmapError) :
    self.intoStatusResponse = ⟨self.status.1, self.status.2, .no⟩ := by
  rw [intoStatusResponse]
  cases self.status.1 <;> rfl

theorem plain_append {a b : String} : Plain (a ++ b) ↔ Plain a ∧ Plain b := by
  simp only [plain_iff, String.toList_append, List.mem_append]
  tauto

theorem plain_getD {text : Option String} {default : String} (h : AllPlain text.toList)
    (hdefault : Plain default) : Plain (text.getD default) := by
  cases text with
  | none => exact hdefault
  | some text => exact h text (.head _)

/-- A response is on one line if what the server says is. -/
theorem plain_message (self : JmapError) (h : AllPlain self.texts) :
    Plain self.intoStatusResponse.message := by
  have hserver : Plain "Server error, " := by decide
  rw [intoStatusResponse_eq]
  cases self with
  | problem error limit => exact error.plain_status limit
  | otherProblem status detail =>
      simp only [JmapError.status]
      split_ifs
      · decide
      · decide
      · exact plain_append.mpr ⟨hserver, plain_getD h (by decide)⟩
  | server text => exact plain_append.mpr ⟨hserver, h text (.head _)⟩
  | method error => exact error.plain_status
  | set error description =>
      simp only [JmapError.status]
      split
      · exact plain_getD h error.plain_status
      · exact error.plain_status
  | _ => decide

end JmapError

/-! ## What is in front of a status -/

/-- `SieveCapabilities`, of the JMAP server. -/
structure SieveCapabilities where
  extensions : List String
  notificationMethods : Option (List String)
  maxRedirects : Option ℕ

/-- `CARGO_PKG_VERSION` -/
def version : String := "0.2.0"

/-- The value in `EXTENSIONS_ALL`. -/
def extensionsAll : String :=
  "body comparator-elbonia comparator-i;ascii-casemap comparator-i;ascii-numeric " ++
  "comparator-i;octet convert copy date duplicate editheader enclose encoded-character enotify " ++
  "envelope envelope-deliverby envelope-dsn environment ereject extlists extracttext fcc " ++
  "fileinto foreverypart ihave imap4flags imapsieve include index mailbox mailboxid " ++
  "mboxmetadata mime redirect-deliverby redirect-dsn regex reject relational replace " ++
  "servermetadata spamtest spamtestplus special-use subaddress vacation vacation-seconds " ++
  "variables virustest"

/-- `join(" ")` -/
def joined (words : List String) : Bytes := List.intercalate [space] (words.map asBytes)

/-- The capabilities that the JMAP server has for an authenticated client. -/
def SieveCapabilities.values (self : SieveCapabilities) : List (String × Option Bytes) :=
  ("SIEVE", some (joined self.extensions)) ::
    (self.notificationMethods.toList.map fun methods ↦ ("NOTIFY", some (joined methods))) ++
    self.maxRedirects.toList.map fun n ↦ ("MAXREDIRECTS", some (decimal n))

/-- The capabilities in `handle_capability`, each with its value. -/
def capabilities (isTls : Bool) (sieve : Option SieveCapabilities) :
    List (String × Option Bytes) :=
  [("IMPLEMENTATION", some (asBytes "Stalwart ManageSieve v" ++ asBytes version)),
    ("VERSION", some (asBytes "1.0"))] ++
    (if !isTls then [("SASL", some []), ("STARTTLS", none)]
      else [("SASL", some (asBytes "PLAIN OAUTHBEARER"))]) ++
    match sieve with
    | some sieve => sieve.values
    | none => [("SIEVE", some (asBytes extensionsAll))]

/-- A capability and its value, which is not escaped. -/
def capability (name : String) (value : Option Bytes) : Buffer :=
  fixed "\"" ++ raw name ++ fixed "\"" ++
    match value with
    | some value => [.text (space :: quote :: value ++ [quote])]
    | none => []

/-- A script in the list of `handle_listscripts`; without a name, an empty one is written. -/
def listing (name : Option String) (isActive : Bool) : Buffer :=
  quoted (name.getD "") ++ if isActive then fixed " ACTIVE" else []

/-- What a handler writes. -/
inductive Reply where
  | status (response : StatusResponse)
  | /-- `handle_capability` -/
    capabilities (isTls : Bool) (sieve : Option SieveCapabilities) (message : String)
  | /-- `handle_listscripts` -/
    scripts (list : List (Option String × Bool))
  | /-- `handle_getscript` -/
    script (content : Bytes)

namespace Reply

/-- The bytes of a reply. -/
def serialize : Reply → Buffer
  | status response => response.serialize []
  | capabilities isTls sieve message =>
      (StatusResponse.ok message).serialize
        ((Replies.capabilities isTls sieve).flatMap fun e ↦ capability e.1 e.2 ++ crlf)
  | scripts list =>
      (StatusResponse.ok "").serialize (list.flatMap fun e ↦ listing e.1 e.2 ++ crlf)
  | script content => (StatusResponse.ok "").serialize [.literal content]

/-- The lines of a reply in the grammar of the protocol. -/
def lines : Reply → List (List Tree)
  | status response => [response.values]
  | capabilities isTls sieve message =>
      (Replies.capabilities isTls sieve).map
        (fun e ↦ Fetch.string e.1 :: (e.2.toList.map Tree.string)) ++
        [(StatusResponse.ok message).values]
  | scripts list =>
      list.map (fun e ↦ Fetch.string (e.1.getD "") ::
        if e.2 then [.ofAtom (asBytes "ACTIVE")] else []) ++ [(StatusResponse.ok "").values]
  | script content => [[.string content], (StatusResponse.ok "").values]

end Reply

/-- The line of a status. -/
def isStatus : List Tree → Bool
  | .atom b :: _ => b = asBytes "OK" || b = asBytes "NO" || b = asBytes "BYE"
  | _ => false

/-! ## Reading -/

theorem isStatus_values (response : StatusResponse) : isStatus response.values = true := by
  have hatom : ∀ rtype, Tree.ofAtom (asBytes (responseWord rtype)) =
      .atom (asBytes (responseWord rtype)) := by
    intro rtype
    cases rtype with
    | ok => exact (if_neg (by decide)).trans (if_neg (by decide))
    | no => exact (if_neg (by decide)).trans (if_neg (by decide))
    | bye => exact (if_neg (by decide)).trans (if_neg (by decide))
  rw [StatusResponse.values, hatom, List.cons_append, isStatus]
  cases response.rtype <;> simp [responseWord]

theorem lineOf_status {response : StatusResponse} (h : Plain response.message) :
    LineOf (response.serializeLine ++ crlf).bytes response.values :=
  lineOf_of_reads (response.oneResponse_serializeLine h) response.readsAs_serializeLine

/-- A status behind other lines. -/
theorem replyOf_serialize {α : Type} {l : List α} {f : α → Buffer} {g : α → List Tree}
    (h : ∀ a ∈ l, LineOf (f a ++ crlf).bytes (g a) ∧ isStatus (g a) = false)
    {response : StatusResponse} (hresponse : Plain response.message) :
    ReplyOf isStatus (response.serialize (l.flatMap fun a ↦ f a ++ crlf)).bytes
      (l.map g ++ [response.values]) := by
  have hlast := ReplyOf.last (lineOf_status hresponse) (isStatus_values response)
  have hbytes : (Buffer.bytes (l.flatMap fun a ↦ f a ++ crlf)) =
      l.flatMap fun a ↦ (f a ++ crlf).bytes := List.flatMap_assoc
  rw [StatusResponse.serialize, bytes_append, hbytes]
  exact ReplyOf.lines h hlast

theorem lineOf_listing {name : Option String} (h : Plain (name.getD "")) (isActive : Bool) :
    LineOf (listing name isActive ++ crlf).bytes (Fetch.string (name.getD "") ::
      if isActive then [.ofAtom (asBytes "ACTIVE")] else []) := by
  have hquoted := Fetch.settles_quotedString (name.getD "")
  have hactive : IsAtom (asBytes "ACTIVE") := by decide +kernel
  have hspace : asBytes " ACTIVE" = space :: asBytes "ACTIVE" := by decide +kernel
  cases isActive with
  | false =>
      have hsealed : Sealed (listing name false) := by
        have hquote : Sealed (fixed "\"") := sealed_fixed (by decide)
        rw [listing, if_neg (by decide), List.append_nil]
        exact hquote.append _
      have hfree : Free (listing name false) := by
        rw [listing, if_neg (by decide), List.append_nil]
        exact (free_quoted _).mpr h
      refine lineOf_of_reads ((oneResponse_iff hsealed).mpr hfree) ?_
      simpa [listing] using hquoted.reads
  | true =>
      have hsealed : Sealed (listing name true) := by
        have hword : Sealed (fixed " ACTIVE") :=
          ⟨[], [32, 65, 67, 84, 73, 86], 69, by decide, by decide⟩
        exact hword.append _
      have hfree : Free (listing name true) := by
        rw [listing, if_pos rfl, free_append]
        exact ⟨(free_quoted _).mpr h, free_fixed (by decide)⟩
      refine lineOf_of_reads ((oneResponse_iff hsealed).mpr hfree) ?_
      simpa [listing, Fetch.bytes_fixed, hspace] using
        hquoted.reads.append_space (reads_atom hactive)

/-- On one line, and in no need of an escape. -/
structure Clean (b : Bytes) : Prop where
  lineFree : LineFree b
  unquoted : quote ∉ b ∧ backslash ∉ b

theorem clean_nil : Clean [] := ⟨lineFree_nil, List.not_mem_nil, List.not_mem_nil⟩

theorem Clean.append {a b : Bytes} (ha : Clean a) (hb : Clean b) : Clean (a ++ b) :=
  ⟨lineFree_append.mpr ⟨ha.lineFree, hb.lineFree⟩,
    fun h ↦ (List.mem_append.mp h).elim ha.unquoted.1 hb.unquoted.1,
    fun h ↦ (List.mem_append.mp h).elim ha.unquoted.2 hb.unquoted.2⟩

theorem clean_joined {words : List String} (h : ∀ w ∈ words, Clean (asBytes w)) :
    Clean (joined words) := by
  have hspace : Clean [space] := ⟨by decide, by decide⟩
  induction words with
  | nil => exact clean_nil
  | cons w words ih =>
      obtain ⟨hw, hwords⟩ := List.forall_mem_cons.mp h
      cases words with
      | nil => simpa [joined] using hw
      | cons v words =>
          have htail := hspace.append (ih hwords)
          simpa [joined, List.intercalate] using hw.append htail

theorem clean_decimal (n : ℕ) : Clean (decimal n) := by
  refine ⟨lineFree_decimal n, fun h ↦ ?_, fun h ↦ ?_⟩
  · exact absurd (isAsciiDigit_of_mem_decimal h) (by decide)
  · exact absurd (isAsciiDigit_of_mem_decimal h) (by decide)

/-- The words of the JMAP server need no escape. -/
def SieveCapabilities.Clean (sieve : SieveCapabilities) : Prop :=
  (∀ w ∈ sieve.extensions, Replies.Clean (asBytes w)) ∧
    ∀ methods ∈ sieve.notificationMethods, ∀ w ∈ methods, Replies.Clean (asBytes w)

theorem SieveCapabilities.Clean.values {sieve : SieveCapabilities} (h : sieve.Clean) :
    ∀ e ∈ sieve.values, Replies.Clean (asBytes e.1) ∧ ∀ v ∈ e.2, Replies.Clean v := by
  have hnames : ∀ s ∈ ["SIEVE", "NOTIFY", "MAXREDIRECTS"], Replies.Clean (asBytes s) :=
    fun s hs ↦ ⟨(by decide : ∀ s ∈ ["SIEVE", "NOTIFY", "MAXREDIRECTS"],
      LineFree (asBytes s)) s hs, (by decide : ∀ s ∈ ["SIEVE", "NOTIFY", "MAXREDIRECTS"],
      quote ∉ asBytes s ∧ backslash ∉ asBytes s) s hs⟩
  intro e he
  rcases List.mem_append.mp he with he | he
  · rcases List.mem_cons.mp he with rfl | he
    · refine ⟨hnames _ (.head _), fun v hv ↦ ?_⟩
      obtain rfl := Option.mem_some_iff.mp hv
      exact clean_joined h.1
    · obtain ⟨methods, hmethods, rfl⟩ := List.mem_map.mp he
      refine ⟨hnames _ (.tail _ (.head _)), fun v hv ↦ ?_⟩
      obtain rfl := Option.mem_some_iff.mp hv
      exact clean_joined (h.2 methods (Option.mem_toList.mp hmethods))
  · obtain ⟨n, -, rfl⟩ := List.mem_map.mp he
    refine ⟨hnames _ (.tail _ (.tail _ (.head _))), fun v hv ↦ ?_⟩
    obtain rfl := Option.mem_some_iff.mp hv
    exact clean_decimal n

/-- What the program says itself needs no escape. -/
theorem clean_capabilities (isTls : Bool) {sieve : Option SieveCapabilities}
    (h : ∀ s ∈ sieve, s.Clean) :
    ∀ e ∈ capabilities isTls sieve, Clean (asBytes e.1) ∧ ∀ v ∈ e.2, Clean v := by
  have hfixed : ∀ e ∈ capabilities isTls none, (LineFree (asBytes e.1) ∧
      quote ∉ asBytes e.1 ∧ backslash ∉ asBytes e.1) ∧
      ∀ v ∈ e.2, LineFree v ∧ quote ∉ v ∧ backslash ∉ v := by
    cases isTls <;> decide +kernel
  have hclean : ∀ e ∈ capabilities isTls none, Clean (asBytes e.1) ∧ ∀ v ∈ e.2, Clean v := by
    intro e he
    obtain ⟨hname, hvalue⟩ := hfixed e he
    exact ⟨⟨hname.1, hname.2⟩, fun v hv ↦ ⟨(hvalue v hv).1, (hvalue v hv).2⟩⟩
  cases sieve with
  | none => exact hclean
  | some sieve =>
      intro e he
      rcases List.mem_append.mp he with he | he
      · exact hclean e (List.mem_append_left _ he)
      · exact (h sieve rfl).values e he

theorem lineOf_capability {name : String} {value : Option Bytes} (hname : Clean (asBytes name))
    (hvalue : ∀ v ∈ value, Clean v) :
    LineOf (capability name value ++ crlf).bytes
      (Fetch.string name :: value.toList.map Tree.string) := by
  have hquote : asBytes "\"" = [quote] := by decide
  have hsealed : Sealed (fixed "\"") := sealed_fixed (by decide)
  have hfront : Free (fixed "\"" ++ raw name ++ fixed "\"") := by
    simp [Plain, hname.lineFree]
  have hreads := (Fetch.settles_unquoted hname.unquoted).reads
  cases value with
  | none =>
      rw [capability, List.append_nil]
      exact lineOf_of_reads ((oneResponse_iff (hsealed.append _)).mpr hfront) hreads
  | some value =>
      have hclean := hvalue value rfl
      have hstring : Settles (quote :: value.flatMap (fun c ↦ [c]) ++ [quote]) [.string value] :=
        settles_quoted fun c hc ↦ .inl ⟨rfl, fun h ↦ hclean.unquoted.1 (h ▸ hc),
          fun h ↦ hclean.unquoted.2 (h ▸ hc)⟩
      rw [List.flatMap_singleton'] at hstring
      refine lineOf_of_reads ((oneResponse_iff ?_).mpr ?_) ?_
      · exact ⟨fixed "\"" ++ raw name ++ fixed "\"", space :: quote :: value, quote, rfl, by decide⟩
      · refine free_append.mpr ⟨hfront, free_text.mpr ?_⟩
        have hspace : LineFree [space, quote] := by decide
        have hend : LineFree [quote] := by decide
        exact lineFree_append.mpr ⟨lineFree_append.mpr ⟨hspace, hclean.lineFree⟩, hend⟩
      · have hbytes : Buffer.bytes [.text (space :: quote :: value ++ [quote])] =
            space :: (quote :: value ++ [quote]) := List.append_nil _
        rw [capability, bytes_append, hbytes]
        exact hreads.append_space hstring.reads

/-! ## The replies -/

namespace Reply

/-- What is quoted is on one line. -/
def Quotable : Reply → Prop
  | status response => Plain response.message
  | capabilities _ sieve message => (∀ s ∈ sieve, s.Clean) ∧ Plain message
  | scripts list => ∀ e ∈ list, Plain (e.1.getD "")
  | script _ => True

/-- GETSCRIPT was successful. -/
def IsScript : Reply → Prop
  | script _ => True
  | _ => False

theorem replyOf_serialize {reply : Reply} (h : reply.Quotable) (hscript : ¬ reply.IsScript) :
    ReplyOf isStatus reply.serialize.bytes reply.lines := by
  cases reply with
  | status response => exact .last (lineOf_status h) (isStatus_values response)
  | capabilities isTls sieve message =>
      refine Replies.replyOf_serialize (fun e he ↦ ⟨?_, rfl⟩) h.2
      obtain ⟨hname, hvalue⟩ := clean_capabilities isTls h.1 e he
      exact lineOf_capability hname hvalue
  | scripts list =>
      have hempty : Plain (StatusResponse.ok "").message := by decide
      exact Replies.replyOf_serialize (fun e he ↦ ⟨lineOf_listing (h e he) e.2, rfl⟩) hempty
  | script content => exact absurd trivial hscript

/-- A script and the status behind it are on one line. -/
theorem lineOf_script (content : Bytes) :
    LineOf (script content).serialize.bytes
      [.string content, .ofAtom (asBytes (responseWord .ok))] := by
  have hword : IsAtom (asBytes "OK") := by decide +kernel
  have hsealed : Sealed ([.literal content] ++ fixed "OK") :=
    ⟨[.literal content], [79], 75, by simp [fixed]; decide +kernel, by decide⟩
  have hfree : Free ([.literal content] ++ fixed "OK") :=
    free_append.mpr ⟨free_literal content, free_fixed (by decide)⟩
  have hbytes : Buffer.bytes [.literal content] = announce content.length ++ content :=
    List.append_nil _
  have hreads : ReadsAs ([.literal content] ++ fixed "OK" : Buffer).bytes
      [.string content, .ofAtom (asBytes "OK")] := by
    rw [bytes_append, Fetch.bytes_fixed, hbytes]
    exact (settles_literal content).append_reads (reads_atom hword)
  have h := lineOf_of_reads ((oneResponse_iff hsealed).mpr hfree) hreads
  simpa [serialize, StatusResponse.serialize, StatusResponse.serializeLine, StatusResponse.ok,
    responseWord] using h

end Reply

/-- **What a client reads** of any number of replies, one after the other, is the lines of each, if
and only if none of them is a script. -/
theorem replies_read_iff {replies : List Reply} (h : ∀ reply ∈ replies, reply.Quotable)
    (rest : Bytes) :
    readReplies isStatus replies.length
        (replies.flatMap (fun reply ↦ reply.serialize.bytes) ++ rest) =
        some (replies.map Reply.lines, rest) ↔
      ∀ reply ∈ replies, ¬ reply.IsScript := by
  refine readReplies_iff (fun reply hmem hscript ↦ ?_) (fun reply hmem hscript ↦ ?_) rest
  · exact Reply.replyOf_serialize (h reply hmem) hscript
  · cases reply with
    | script content =>
        refine ⟨_, _, [], (List.append_nil _).symm, Reply.lineOf_script content, ?_⟩
        simp [Reply.lines]
    | _ => exact absurd id hscript

/-- The answer to a NOOP, and a list with a script whose name looks like a status. -/
def deceptive : List Reply :=
  [.status ((StatusResponse.ok "Done").withCode (.tag "a)\r\nNO")),
    .scripts [(some "\"\\NO", true), (none, false)]]

/-- They are read as they are meant. -/
theorem replies_read_deceptive :
    readReplies isStatus deceptive.length
      (deceptive.flatMap (fun reply ↦ reply.serialize.bytes) ++ asBytes "OK") =
        some (deceptive.map Reply.lines, asBytes "OK") := by
  have hdone : Plain "Done" := by decide
  have hnames : ∀ e ∈ [(some "\"\\NO", true), (none, false)], Plain (e.1.getD "") := by
    decide
  refine (replies_read_iff ?_ _).mpr ?_
  · exact List.forall_mem_cons.mpr ⟨hdone, List.forall_mem_cons.mpr ⟨hnames, List.forall_mem_nil _⟩⟩
  · exact List.forall_mem_cons.mpr ⟨id, List.forall_mem_cons.mpr ⟨id, List.forall_mem_nil _⟩⟩

/-- The reply to a GETSCRIPT is not one. -/
example : (readReply isStatus (Reply.script [107, 101, 101, 112]).serialize.bytes).isNone := by
  decide

end ImapToJmap.ManageSieve.Replies
