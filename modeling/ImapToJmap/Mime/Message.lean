import ImapToJmap.Protocol.Fetch

/-!
# Messages as the mail parser gives them

A message has its bytes and a list of parts, the first of which is the root; a multipart part lists
the indices of its children in the same message, and a message part holds a message of its own.  Of
the headers there is what `commands/fetch.rs` asks the parser for.

`as_body_part` and `envelope` of `commands/fetch.rs`.
-/

namespace ImapToJmap.Mime

open Fetch

/-! ## Headers -/

/-- The value of a header such as Content-Type. -/
structure ContentType where
  cType : String
  cSubtype : Option String
  attributes : Option (List (String × String))

/-- An address as the parser gives it. -/
structure Addr where
  name : Option String
  address : Option String

structure Group where
  name : Option String
  addresses : List Addr

/-- The value of a header with addresses. -/
inductive HeaderValue where
  | address (addr : Addr)
  | addressList (list : List Addr)
  | group (g : Group)
  | groupList (list : List Group)
  | /-- Any other value. -/
    other

/-- The headers of a message that an envelope has. -/
structure EnvelopeHeaders where
  date : Option ℤ
  subject : Option String
  «from» : List HeaderValue
  sender : List HeaderValue
  replyTo : List HeaderValue
  «to» : List HeaderValue
  cc : List HeaderValue
  bcc : List HeaderValue
  inReplyTo : Option (List String)
  messageId : Option String

/-- The MIME headers of a part. -/
structure PartHeaders where
  contentType : Option ContentType
  contentId : Option String
  contentDescription : Option String
  contentTransferEncoding : Option String
  contentDisposition : Option ContentType
  contentLanguage : Option (List String)
  contentLocation : Option String

/-- Where a header stands in the message. -/
structure Header where
  name : String
  isMimeHeader : Bool
  offsetStart : ℕ
  offsetEnd : ℕ

/-! ## Parts -/

inductive PartType (μ : Type) where
  | text (text : String)
  | html (text : String)
  | binary (bytes : Bytes)
  | inlineBinary (bytes : Bytes)
  | message (message : μ)
  | multipart (parts : List ℕ)

structure MessagePart (μ : Type) where
  headers : List Header
  values : PartHeaders
  isEncodingProblem : Bool
  body : PartType μ
  offsetHeader : ℕ
  offsetBody : ℕ
  offsetEnd : ℕ

/-- A message: the root part, and the others. -/
inductive Message where
  | mk (rawMessage : Bytes) (headers : EnvelopeHeaders) (root : MessagePart Message)
      (others : List (MessagePart Message))

namespace MessagePart

variable {μ : Type}

/-- The indices of the children of a multipart. -/
def getSubParts (part : MessagePart μ) : Option (List ℕ) :=
  match part.body with
  | .multipart parts => some parts
  | _ => none

def isMessage (part : MessagePart μ) : Bool :=
  match part.body with
  | .message _ => true
  | _ => false

end MessagePart

namespace Message

def rawMessage : Message → Bytes
  | mk rawMessage _ _ _ => rawMessage

def headers : Message → EnvelopeHeaders
  | mk _ headers _ _ => headers

/-- `get_root_part` -/
def getRootPart : Message → MessagePart Message
  | mk _ _ root _ => root

def parts : Message → List (MessagePart Message)
  | mk _ _ root others => root :: others

@[simp] theorem parts_zero (message : Message) : message.parts[0]? = some message.getRootPart := by
  cases message
  rfl

/-- `raw_message.get(first..last)` -/
def rawRange (message : Message) (first last : ℕ) : Option Bytes :=
  if first ≤ last ∧ last ≤ message.rawMessage.length then
    some ((message.rawMessage.take last).drop first)
  else none

end Message

/-! ## Envelopes -/

/-- An address, if it has one. -/
def Addr.email (addr : Addr) : Option EmailAddress :=
  addr.address.map fun email ↦ ⟨addr.name, email⟩

def Group.toImap (group : Group) : Address :=
  .group ⟨group.name, group.addresses.filterMap Addr.email⟩

/-- `as_imap_address` -/
def HeaderValue.asImapAddress : HeaderValue → List Address
  | address addr => (addr.email.map Address.single).toList
  | addressList list => list.filterMap fun addr ↦ addr.email.map Address.single
  | group g => [g.toImap]
  | groupList list => list.map Group.toImap
  | other => []

/-- `Message::envelope` -/
def Message.envelope (message : Message) : Envelope where
  date := message.headers.date
  subject := message.headers.subject
  «from» := message.headers.«from».flatMap HeaderValue.asImapAddress
  sender := message.headers.sender.flatMap HeaderValue.asImapAddress
  replyTo := message.headers.replyTo.flatMap HeaderValue.asImapAddress
  «to» := message.headers.«to».flatMap HeaderValue.asImapAddress
  cc := message.headers.cc.flatMap HeaderValue.asImapAddress
  bcc := message.headers.bcc.flatMap HeaderValue.asImapAddress
  inReplyTo := message.headers.inReplyTo.map fun list ↦
    " ".intercalate (list.map fun id ↦ "<" ++ id ++ ">")
  messageId := message.headers.messageId.map fun id ↦ "<" ++ id ++ ">"

/-! ## The part without its children -/

section

variable (md5 : Bytes → String) (isExtended : Bool)

/-- What both forms have of a part that is no multipart. -/
def bodyPartFields (values : PartHeaders) (isText : Bool) (body : Option Bytes) :
    BodyPartFields where
  bodySubtype :=
    let subtype := values.contentType.bind (·.cSubtype)
    if isText then some (subtype.getD "plain") else subtype
  bodyParameters :=
    let parameters := values.contentType.bind (·.attributes)
    if isText then some (parameters.getD [("charset", "us-ascii")]) else parameters
  bodyId := values.contentId.map fun id ↦ "<" ++ id ++ ">"
  bodyDescription := values.contentDescription
  bodyEncoding :=
    if isText then some (values.contentTransferEncoding.getD "7bit")
    else values.contentTransferEncoding
  bodySizeOctets := (body.map List.length).getD 0

def bodyPartExtension (values : PartHeaders) : BodyPartExtension :=
  if isExtended then {
    bodyDisposition := values.contentDisposition.map fun cd ↦ (cd.cType, cd.attributes.getD [])
    bodyLanguage := values.contentLanguage
    bodyLocation := values.contentLocation }
  else ⟨none, none, none⟩

/-- `Message::as_body_part`, of a part of the message. -/
def Message.asBodyPart (message : Message) (part : MessagePart Message) : BodyPart :=
  let body := message.rawRange part.offsetBody part.offsetEnd
  let bodyMd5 := if isExtended then body.map md5 else none
  let ext := bodyPartExtension isExtended part.values
  match part.body with
  | .multipart _ =>
      .multipart [] ((part.values.contentType.bind (·.cSubtype)).getD "")
        (if isExtended then part.values.contentType.bind (·.attributes) else none) ext
  | .message _ => .message (bodyPartFields part.values false body) none none 0 bodyMd5 ext
  | .text _ | .html _ =>
      .text (bodyPartFields part.values true body)
        ((body.map fun b ↦ (b.filter (· == 10)).length).getD 0) bodyMd5 ext
  | .binary _ | .inlineBinary _ =>
      .basic (part.values.contentType.map (·.cType)) (bodyPartFields part.values false body) bodyMd5
        ext

end

end ImapToJmap.Mime
