import ImapToJmap.Protocol.Writer

/-!
# FETCH responses

`protocol/fetch.rs`: the items of a FETCH response and how they are written.  Beside each
`serialize` stands `strings`, the strings of the value that are written outside a literal; the
lemmas `free_serialize` say that these decide whether the response is one line.
-/

namespace ImapToJmap.Fetch

open Wire Wire.Buffer Writer

/-! ## Addresses -/

/-- `str::split_once` -/
def splitOnce (c : Char) (s : String) : Option (String × String) :=
  match s.toList.dropWhile (· != c) with
  | [] => none
  | _ :: rest => some (String.ofList (s.toList.takeWhile (· != c)), String.ofList rest)

theorem toList_of_splitOnce {c : Char} {s a b : String} (h : splitOnce c s = some (a, b)) :
    s.toList = a.toList ++ c :: b.toList := by
  unfold splitOnce at h
  split at h
  · cases h
  · rename_i d rest hdrop
    obtain ⟨rfl, rfl⟩ := Prod.mk.inj (Option.some.inj h)
    have hd : d = c := by
      have hne : s.toList.dropWhile (· != c) ≠ [] := by rw [hdrop]; exact List.cons_ne_nil _ _
      have hhead := List.head_dropWhile_not (· != c) hne
      simpa [hdrop] using hhead
    rw [String.toList_ofList, String.toList_ofList, ← hd, ← hdrop, hd,
      List.takeWhile_append_dropWhile]

/-- What stands on the two sides of a separator is on one line if all of it is. -/
theorem plain_splitOnce {c : Char} {s a b : String} (h : splitOnce c s = some (a, b))
    (hr : c ≠ '\r') (hn : c ≠ '\n') : Plain s ↔ Plain a ∧ Plain b := by
  rw [plain_iff, plain_iff, plain_iff, toList_of_splitOnce h]
  simp only [List.mem_append, List.mem_cons, Ne.symm hr, Ne.symm hn, false_or, not_or]
  tauto

structure EmailAddress where
  name : Option String
  address : String

structure AddressGroup where
  name : Option String
  addresses : List EmailAddress

inductive Address where
  | single (addr : EmailAddress)
  | group (addr : AddressGroup)

namespace EmailAddress

/-- The mailbox and the host; without an `@` the whole address is written as the mailbox. -/
def serializeMailbox (self : EmailAddress) (addr : String) : Buffer :=
  match splitOnce '@' addr with
  | some (mailbox, host) => quoted mailbox ++ fixed " " ++ quoted host
  | none => quoted self.address ++ fixed " \"\""

/-- `EmailAddress::serialize` -/
def serialize (self : EmailAddress) : Buffer :=
  fixed "(" ++ quotedStringOrNil self.name ++
    (match splitOnce ':' self.address with
      | some (route, addr) => fixed " " ++ quoted route ++ fixed " " ++ self.serializeMailbox addr
      | none => fixed " NIL " ++ self.serializeMailbox self.address) ++
    fixed ")"

def strings (self : EmailAddress) : List String := self.name.toList ++ [self.address]

/-- Whatever part of the address `addr` is, mailbox and host end a line only if the address does,
and without an `@` the address is written as it is. -/
theorem free_serializeMailbox (self : EmailAddress) (addr : String) :
    Free (self.serializeMailbox addr) ↔
      if (splitOnce '@' addr).isSome then Plain addr else Plain self.address := by
  unfold serializeMailbox
  cases hsplit : splitOnce '@' addr with
  | none => simp
  | some parts =>
      have hplain := plain_splitOnce hsplit (by decide) (by decide)
      simp [hplain]

@[simp] theorem free_serialize (self : EmailAddress) :
    Free self.serialize ↔ AllPlain self.strings := by
  simp (disch := decide) only [serialize, strings, free_append, free_fixed, true_and, and_true,
    free_quotedStringOrNil, allPlain_append, allPlain_cons, allPlain_nil]
  refine and_congr_right fun _ ↦ ?_
  cases hsplit : splitOnce ':' self.address with
  | none =>
      simp (disch := decide) only [free_append, free_fixed, true_and, free_serializeMailbox]
      split <;> rfl
  | some parts =>
      have hplain := plain_splitOnce hsplit (by decide) (by decide)
      simp (disch := decide) only [free_append, free_fixed, true_and, and_true, free_quoted,
        free_serializeMailbox]
      split
      · rw [hplain]
      · exact and_iff_right_of_imp fun h ↦ (hplain.mp h).1

end EmailAddress

namespace AddressGroup

/-- `AddressGroup::serialize` -/
def serialize (self : AddressGroup) : Buffer :=
  fixed "(NIL NIL " ++
    (match self.name with
      | some name => quoted name
      | none => fixed "\"\"") ++
    fixed " NIL)" ++ (self.addresses.map EmailAddress.serialize).flatten ++
    fixed "(NIL NIL NIL NIL)"

def strings (self : AddressGroup) : List String :=
  self.name.toList ++ self.addresses.flatMap EmailAddress.strings

@[simp] theorem free_serialize (self : AddressGroup) :
    Free self.serialize ↔ AllPlain self.strings := by
  obtain ⟨name, addresses⟩ := self
  cases name with
  | none => simp [serialize, strings]
  | some name => simp [serialize, strings]

end AddressGroup

namespace Address

/-- `Address::serialize` -/
def serialize : Address → Buffer
  | single addr => addr.serialize
  | group addr => addr.serialize

def strings : Address → List String
  | single addr => addr.strings
  | group addr => addr.strings

@[simp] theorem free_serialize (self : Address) :
    Free self.serialize ↔ AllPlain self.strings := by
  cases self with
  | single addr => exact addr.free_serialize
  | group addr => exact addr.free_serialize

/-- `Envelope::serialize_addresses` -/
def serializeAddresses (addresses : List Address) : Buffer :=
  fixed " " ++
    if addresses ≠ [] then fixed "(" ++ (addresses.map serialize).flatten ++ fixed ")"
    else fixed "NIL"

@[simp] theorem free_serializeAddresses (addresses : List Address) :
    Free (serializeAddresses addresses) ↔ AllPlain (addresses.flatMap strings) := by
  unfold serializeAddresses
  split
  · simp
  · rename_i h
    simp [not_not.mp h]

end Address

/-! ## Envelopes -/

structure Envelope where
  date : Option ℤ
  subject : Option String
  «from» : List Address
  sender : List Address
  replyTo : List Address
  «to» : List Address
  cc : List Address
  bcc : List Address
  inReplyTo : Option String
  messageId : Option String

namespace Envelope

open Address

/-- `Envelope::serialize` -/
def serialize (dates : Dates) (self : Envelope) : Buffer :=
  fixed "(" ++ quotedRfc2822OrNil dates self.date ++ fixed " " ++ quotedStringOrNil self.subject ++
    serializeAddresses self.«from» ++
    serializeAddresses (if self.sender ≠ [] then self.sender else self.«from») ++
    serializeAddresses (if self.replyTo ≠ [] then self.replyTo else self.«from») ++
    serializeAddresses self.«to» ++ serializeAddresses self.cc ++ serializeAddresses self.bcc ++
    fixed " " ++ quotedStringOrNil self.inReplyTo ++
    fixed " " ++ quotedStringOrNil self.messageId ++ fixed ")"

def strings (self : Envelope) : List String :=
  self.subject.toList ++ self.«from».flatMap Address.strings ++
    self.sender.flatMap Address.strings ++ self.replyTo.flatMap Address.strings ++
    self.«to».flatMap Address.strings ++ self.cc.flatMap Address.strings ++
    self.bcc.flatMap Address.strings ++ self.inReplyTo.toList ++ self.messageId.toList

/-- Addresses that stand in for missing ones add nothing when they are written themselves. -/
theorem allPlain_fallback {addresses other : List Address}
    (h : AllPlain (other.flatMap Address.strings)) :
    AllPlain ((if addresses ≠ [] then addresses else other).flatMap Address.strings) ↔
      AllPlain (addresses.flatMap Address.strings) := by
  split
  · rfl
  · rename_i hnil
    rw [not_not.mp hnil]
    exact iff_of_true h allPlain_nil

theorem free_serialize {dates : Dates} (hdates : dates.Plain) (self : Envelope) :
    Free (self.serialize dates) ↔ AllPlain self.strings := by
  simp (disch := decide) only [serialize, strings, free_append, free_fixed, true_and, and_true,
    and_assoc, free_quotedRfc2822OrNil hdates, free_quotedStringOrNil, free_serializeAddresses,
    allPlain_append]
  refine and_congr_right fun _ ↦ and_congr_right fun hfrom ↦ ?_
  rw [allPlain_fallback hfrom, allPlain_fallback hfrom]

end Envelope

/-! ## Body structures -/

/-- `key value` pairs, as they stand in a parenthesised list. -/
def parameters (pairs : List (String × String)) : Buffer :=
  join (fixed " ") (pairs.map fun pair ↦ quoted pair.1 ++ fixed " " ++ quoted pair.2)

def parametersOrNil : Option (List (String × String)) → Buffer
  | some pairs => fixed " (" ++ parameters pairs ++ fixed ")"
  | none => fixed " NIL"

def parameterStrings (pairs : List (String × String)) : List String :=
  pairs.flatMap fun pair ↦ [pair.1, pair.2]

@[simp] theorem free_parameters (pairs : List (String × String)) :
    Free (parameters pairs) ↔ AllPlain (parameterStrings pairs) := by
  simp [parameters, parameterStrings]

@[simp] theorem free_parametersOrNil (pairs : Option (List (String × String))) :
    Free (parametersOrNil pairs) ↔ AllPlain (pairs.toList.flatMap parameterStrings) := by
  cases pairs with
  | none => simp [parametersOrNil]
  | some pairs => simp [parametersOrNil]

structure BodyPartFields where
  bodySubtype : Option String
  bodyParameters : Option (List (String × String))
  bodyId : Option String
  bodyDescription : Option String
  bodyEncoding : Option String
  bodySizeOctets : ℕ

namespace BodyPartFields

/-- `BodyPartFields::serialize` -/
def serialize (self : BodyPartFields) : Buffer :=
  quotedStringOrNil self.bodySubtype ++ parametersOrNil self.bodyParameters ++
    ([self.bodyId, self.bodyDescription, self.bodyEncoding].map fun item ↦
      fixed " " ++ quotedStringOrNil item).flatten ++
    fixed " " ++ number self.bodySizeOctets

def strings (self : BodyPartFields) : List String :=
  self.bodySubtype.toList ++ self.bodyParameters.toList.flatMap parameterStrings ++
    self.bodyId.toList ++ self.bodyDescription.toList ++ self.bodyEncoding.toList

@[simp] theorem free_serialize (self : BodyPartFields) :
    Free self.serialize ↔ AllPlain self.strings := by
  simp [serialize, strings]

end BodyPartFields

structure BodyPartExtension where
  bodyDisposition : Option (String × List (String × String))
  bodyLanguage : Option (List String)
  bodyLocation : Option String

namespace BodyPartExtension

def serializeDisposition : Option (String × List (String × String)) → Buffer
  | some (disposition, pairs) =>
      fixed "(" ++ quoted disposition ++ fixed " (" ++ parameters pairs ++ fixed "))"
  | none => fixed "NIL"

def serializeLanguage : Option (List String) → Buffer
  | none => fixed " NIL"
  | some [] => fixed " NIL"
  | some [language] => fixed " " ++ quoted language
  | some languages => fixed " (" ++ join (fixed " ") (languages.map quoted) ++ fixed ")"

/-- `BodyPartExtension::serialize` -/
def serialize (self : BodyPartExtension) : Buffer :=
  serializeDisposition self.bodyDisposition ++ serializeLanguage self.bodyLanguage ++ fixed " " ++
    quotedStringOrNil self.bodyLocation

def strings (self : BodyPartExtension) : List String :=
  (self.bodyDisposition.toList.flatMap fun (disposition, pairs) ↦
      disposition :: parameterStrings pairs) ++
    self.bodyLanguage.getD [] ++ self.bodyLocation.toList

@[simp] theorem free_serialize (self : BodyPartExtension) :
    Free self.serialize ↔ AllPlain self.strings := by
  have hdisposition : Free (serializeDisposition self.bodyDisposition) ↔
      AllPlain (self.bodyDisposition.toList.flatMap fun (disposition, pairs) ↦
        disposition :: parameterStrings pairs) := by
    cases self.bodyDisposition with
    | none => simp [serializeDisposition]
    | some disposition => simp [serializeDisposition]
  have hlanguage : Free (serializeLanguage self.bodyLanguage) ↔
      AllPlain (self.bodyLanguage.getD []) := by
    cases self.bodyLanguage with
    | none => simp [serializeLanguage]
    | some languages =>
        cases languages with
        | nil => simp [serializeLanguage]
        | cons language languages =>
            cases languages with
            | nil => simp [serializeLanguage]
            | cons next languages => simp [serializeLanguage, AllPlain, free_join_fixed]
  simp [serialize, strings, hdisposition, hlanguage]

end BodyPartExtension

inductive BodyPart where
  | multipart (bodyParts : List BodyPart) (bodySubtype : String)
      (bodyParameters : Option (List (String × String))) (ext : BodyPartExtension)
  | basic (bodyType : Option String) (fields : BodyPartFields) (bodyMd5 : Option String)
      (ext : BodyPartExtension)
  | text (fields : BodyPartFields) (bodySizeLines : ℕ) (bodyMd5 : Option String)
      (ext : BodyPartExtension)
  | message (fields : BodyPartFields) (envelope : Option Envelope) (body : Option BodyPart)
      (bodySizeLines : ℕ) (bodyMd5 : Option String) (ext : BodyPartExtension)

namespace BodyPart

/-- The checksum and the extension data, which only BODYSTRUCTURE shows. -/
def serializeExtension (isExtended : Bool) (bodyMd5 : Option String) (ext : BodyPartExtension) :
    Buffer :=
  if isExtended then fixed " " ++ quotedStringOrNil bodyMd5 ++ fixed " " ++ ext.serialize else []

def extensionStrings (isExtended : Bool) (bodyMd5 : Option String) (ext : BodyPartExtension) :
    List String :=
  if isExtended then bodyMd5.toList ++ ext.strings else []

def serializeEnvelope (dates : Dates) : Option Envelope → Buffer
  | some envelope => envelope.serialize dates
  | none => fixed "NIL"

mutual

/-- `BodyPart::serialize` -/
def serialize (dates : Dates) (isExtended : Bool) : BodyPart → Buffer
  | multipart bodyParts bodySubtype bodyParameters ext =>
      fixed "(" ++ join (fixed " ") (serializeAll dates isExtended bodyParts) ++ fixed " " ++
        quoted bodySubtype ++
        (if isExtended then parametersOrNil bodyParameters ++ fixed " " ++ ext.serialize else []) ++
        fixed ")"
  | basic bodyType fields bodyMd5 ext =>
      fixed "(" ++ quotedStringOrNil bodyType ++ fixed " " ++ fields.serialize ++
        serializeExtension isExtended bodyMd5 ext ++ fixed ")"
  | text fields bodySizeLines bodyMd5 ext =>
      fixed "(" ++ fixed "\"text\" " ++ fields.serialize ++ fixed " " ++ number bodySizeLines ++
        serializeExtension isExtended bodyMd5 ext ++ fixed ")"
  | message fields envelope body bodySizeLines bodyMd5 ext =>
      fixed "(" ++ fixed "\"message\" " ++ fields.serialize ++ fixed " " ++
        serializeEnvelope dates envelope ++ fixed " " ++ serializeOrNil dates isExtended body ++
        fixed " " ++ number bodySizeLines ++ serializeExtension isExtended bodyMd5 ext ++ fixed ")"

def serializeAll (dates : Dates) (isExtended : Bool) : List BodyPart → List Buffer
  | [] => []
  | part :: parts => part.serialize dates isExtended :: serializeAll dates isExtended parts

def serializeOrNil (dates : Dates) (isExtended : Bool) : Option BodyPart → Buffer
  | some part => part.serialize dates isExtended
  | none => fixed "NIL"

end

mutual

def strings (isExtended : Bool) : BodyPart → List String
  | multipart bodyParts bodySubtype bodyParameters ext =>
      allStrings isExtended bodyParts ++ bodySubtype ::
        if isExtended then bodyParameters.toList.flatMap parameterStrings ++ ext.strings else []
  | basic bodyType fields bodyMd5 ext =>
      bodyType.toList ++ fields.strings ++ extensionStrings isExtended bodyMd5 ext
  | text fields _ bodyMd5 ext => fields.strings ++ extensionStrings isExtended bodyMd5 ext
  | message fields envelope body _ bodyMd5 ext =>
      fields.strings ++ envelope.toList.flatMap Envelope.strings ++ stringsOrNil isExtended body ++
        extensionStrings isExtended bodyMd5 ext

def allStrings (isExtended : Bool) : List BodyPart → List String
  | [] => []
  | part :: parts => part.strings isExtended ++ allStrings isExtended parts

def stringsOrNil (isExtended : Bool) : Option BodyPart → List String
  | some part => part.strings isExtended
  | none => []

end

@[simp] theorem free_serializeExtension (isExtended : Bool) (bodyMd5 : Option String)
    (ext : BodyPartExtension) : Free (serializeExtension isExtended bodyMd5 ext) ↔
      AllPlain (extensionStrings isExtended bodyMd5 ext) := by
  cases isExtended with
  | false => simp [serializeExtension, extensionStrings]
  | true => simp [serializeExtension, extensionStrings]

theorem free_serializeEnvelope {dates : Dates} (hdates : dates.Plain) (envelope : Option Envelope) :
    Free (serializeEnvelope dates envelope) ↔
      AllPlain (envelope.toList.flatMap Envelope.strings) := by
  cases envelope with
  | none => simp [serializeEnvelope]
  | some envelope => simp [serializeEnvelope, envelope.free_serialize hdates]

mutual

/-- By induction on the part: in each of the four forms a part is one line exactly if its strings
and its subparts are. -/
theorem free_serialize {dates : Dates} (hdates : dates.Plain) (isExtended : Bool) :
    (part : BodyPart) →
      (Free (part.serialize dates isExtended) ↔ AllPlain (part.strings isExtended))
  | multipart bodyParts bodySubtype bodyParameters ext => by
      have hparts := free_serializeAll hdates isExtended bodyParts
      cases isExtended with
      | false => simp [serialize, strings, free_join_fixed, hparts]
      | true => simp [serialize, strings, free_join_fixed, hparts]
  | basic bodyType fields bodyMd5 ext => by
      simp [serialize, strings]
  | text fields bodySizeLines bodyMd5 ext => by
      simp [serialize, strings]
  | message fields envelope body bodySizeLines bodyMd5 ext => by
      have hbody := free_serializeOrNil hdates isExtended body
      simp [serialize, strings, hbody, free_serializeEnvelope hdates]

theorem free_serializeAll {dates : Dates} (hdates : dates.Plain) (isExtended : Bool) :
    (parts : List BodyPart) →
      ((∀ b ∈ serializeAll dates isExtended parts, Free b) ↔
        AllPlain (allStrings isExtended parts))
  | [] => by simp [serializeAll, allStrings]
  | part :: parts => by
      have hpart := free_serialize hdates isExtended part
      have hparts := free_serializeAll hdates isExtended parts
      rw [serializeAll, allStrings, List.forall_mem_cons, hpart, hparts, allPlain_append]

theorem free_serializeOrNil {dates : Dates} (hdates : dates.Plain) (isExtended : Bool) :
    (part : Option BodyPart) →
      (Free (serializeOrNil dates isExtended part) ↔ AllPlain (stringsOrNil isExtended part))
  | none => by simp [serializeOrNil, stringsOrNil]
  | some part => by
      rw [serializeOrNil, stringsOrNil]
      exact free_serialize hdates isExtended part

end

end BodyPart

/-! ## Items -/

inductive BodyContents where
  | text (contents : String)
  | bytes (contents : Bytes)

/-- `Section` -/
inductive SectionPart where
  | part (num : ℕ)
  | header
  | headerFields (not : Bool) (fields : List String)
  | text
  | mime

namespace SectionPart

/-- A header field name, `to_ascii_uppercase`. -/
def serializeField (field : String) : Buffer := [.text ((asBytes field).map toAsciiUppercase)]

/-- `Section::serialize` -/
def serialize : SectionPart → Buffer
  | part num => number num
  | header => fixed "HEADER"
  | headerFields not fields =>
      (if not then fixed "HEADER.FIELDS.NOT " else fixed "HEADER.FIELDS ") ++ fixed "(" ++
        join (fixed " ") (fields.map serializeField) ++ fixed ")"
  | text => fixed "TEXT"
  | mime => fixed "MIME"

def strings : SectionPart → List String
  | headerFields _ fields => fields
  | _ => []

@[simp] theorem free_serializeField (field : String) :
    Free (serializeField field) ↔ Plain field := by
  have hupper : ∀ c d : UInt8, d.toNat < 32 → (toAsciiUppercase c = d ↔ c = d) := by
    intro c d hd
    unfold toAsciiUppercase
    split
    · rename_i hlower
      simp only [Bool.and_eq_true, decide_eq_true_eq, UInt8.le_iff_toNat_le,
        UInt8.reduceToNat] at hlower
      rw [← UInt8.toNat_inj, ← UInt8.toNat_inj, UInt8.toNat_sub_of_le _ _
        (UInt8.le_iff_toNat_le.mpr (by simp only [UInt8.reduceToNat]; omega))]
      simp only [UInt8.reduceToNat]
      omega
    · rfl
  rw [serializeField, free_text,
    lineFree_map (fun c ↦ hupper c _ (by decide)) (fun c ↦ hupper c _ (by decide)), Plain]

@[simp] theorem free_serialize (part : SectionPart) :
    Free part.serialize ↔ AllPlain part.strings := by
  cases part with
  | headerFields not fields =>
      cases not with
      | false => simp [serialize, strings, AllPlain]
      | true => simp [serialize, strings, AllPlain]
  | _ => simp [serialize, strings]

end SectionPart

inductive DataItem where
  | binary (sections : List ℕ) (offset : Option ℕ) (contents : BodyContents)
  | binarySize (sections : List ℕ) (size : ℕ)
  | body (part : BodyPart)
  | bodyStructure (part : BodyPart)
  | bodySection (sections : List SectionPart) (originOctet : Option ℕ) (contents : String)
  | envelope (envelope : Envelope)
  | flags (flags : List Flag)
  | internalDate (date : ℤ)
  | uid (uid : ℕ)
  | rfc822 (contents : String)
  | rfc822Header (contents : String)
  | rfc822Size (size : ℕ)
  | rfc822Text (contents : String)
  | preview (contents : Option String)
  | modSeq (modseq : ℕ)
  | emailId (emailId : String)
  | threadId (threadId : String)

namespace DataItem

/-- The end of a section specification, with the offset of a partial fetch. -/
def serializeOrigin : Option ℕ → Buffer
  | some offset => fixed "]<" ++ number offset ++ fixed "> "
  | none => fixed "] "

/-- The contents of a BINARY item: a literal, or a `literal8` for bytes that are no text. -/
def serializeContents : BodyContents → Buffer
  | .text contents => literal contents
  | .bytes contents => fixed "~" ++ [.literal contents]

def literalOrNil : Option String → Buffer
  | some contents => literal contents
  | none => fixed "NIL"

/-- `DataItem::serialize` -/
def serialize (dates : Dates) : DataItem → Buffer
  | binary sections offset contents =>
      fixed "BINARY[" ++ join (fixed ".") (sections.map number) ++ serializeOrigin offset ++
        serializeContents contents
  | binarySize sections size =>
      fixed "BINARY.SIZE[" ++ join (fixed ".") (sections.map number) ++ fixed "] " ++ number size
  | body part => fixed "BODY " ++ part.serialize dates false
  | bodyStructure part => fixed "BODYSTRUCTURE " ++ part.serialize dates true
  | bodySection sections originOctet contents =>
      fixed "BODY[" ++ join (fixed ".") (sections.map SectionPart.serialize) ++
        serializeOrigin originOctet ++ literal contents
  | envelope value => fixed "ENVELOPE " ++ value.serialize dates
  | flags values => fixed "FLAGS (" ++ join (fixed " ") (values.map Flag.serialize) ++ fixed ")"
  | internalDate date => fixed "INTERNALDATE " ++ quotedTimestamp dates date
  | uid value => fixed "UID " ++ number value
  | rfc822 contents => fixed "RFC822 " ++ literal contents
  | rfc822Header contents => fixed "RFC822.HEADER " ++ literal contents
  | rfc822Size size => fixed "RFC822.SIZE " ++ number size
  | rfc822Text contents => fixed "RFC822.TEXT " ++ literal contents
  | preview contents => fixed "PREVIEW " ++ literalOrNil contents
  | modSeq modseq => fixed "MODSEQ (" ++ number modseq ++ fixed ")"
  | emailId value => fixed "EMAILID (" ++ raw value ++ fixed ")"
  | threadId value => fixed "THREADID (" ++ raw value ++ fixed ")"

/-- The strings that stand outside the literals. -/
def strings : DataItem → List String
  | body part => part.strings false
  | bodyStructure part => part.strings true
  | bodySection sections _ _ => sections.flatMap SectionPart.strings
  | envelope value => value.strings
  | flags values => values.flatMap Flag.strings
  | emailId value => [value]
  | threadId value => [value]
  | _ => []

@[simp] theorem free_serializeOrigin (offset : Option ℕ) : Free (serializeOrigin offset) := by
  cases offset with
  | none => simp [serializeOrigin]
  | some offset => simp [serializeOrigin]

@[simp] theorem free_serializeContents (contents : BodyContents) :
    Free (serializeContents contents) := by
  cases contents with
  | text contents => simp [serializeContents]
  | bytes contents => simp [serializeContents]

@[simp] theorem free_literalOrNil (contents : Option String) : Free (literalOrNil contents) := by
  cases contents with
  | none => simp [literalOrNil]
  | some contents => simp [literalOrNil]

theorem free_serialize {dates : Dates} (hdates : dates.Plain) (item : DataItem) :
    Free (item.serialize dates) ↔ AllPlain item.strings := by
  cases item with
  | body part => simp [serialize, strings, part.free_serialize hdates]
  | bodyStructure part => simp [serialize, strings, part.free_serialize hdates]
  | envelope value => simp [serialize, strings, value.free_serialize hdates]
  | internalDate date => simp [serialize, strings, free_quotedTimestamp hdates]
  | _ => simp [serialize, strings]

end DataItem

structure FetchItem where
  id : ℕ
  items : List DataItem

namespace FetchItem

/-- What `FetchItem::serialize` writes before the line end. -/
def serializeLine (dates : Dates) (self : FetchItem) : Buffer :=
  fixed "* " ++ number self.id ++ fixed " FETCH (" ++
    join (fixed " ") (self.items.map (DataItem.serialize dates)) ++ fixed ")"

/-- `FetchItem::serialize` -/
def serialize (dates : Dates) (self : FetchItem) : Buffer := self.serializeLine dates ++ crlf

def strings (self : FetchItem) : List String := self.items.flatMap DataItem.strings

theorem free_serializeLine {dates : Dates} (hdates : dates.Plain) (self : FetchItem) :
    Free (self.serializeLine dates) ↔ AllPlain self.strings := by
  simp [serializeLine, strings, DataItem.free_serialize hdates]

/-- The response to a FETCH is one response exactly if its strings are on one line each. -/
theorem oneResponse_serialize {dates : Dates} (hdates : dates.Plain) (self : FetchItem) :
    OneResponse (self.serialize dates) ↔ AllPlain self.strings := by
  have hsealed : Sealed (self.serializeLine dates) :=
    (sealed_fixed (s := ")") (by decide +kernel)).append _
  rw [serialize, oneResponse_iff hsealed, free_serializeLine hdates]

end FetchItem

end ImapToJmap.Fetch
