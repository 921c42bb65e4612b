import ImapToJmap.Protocol.Fetch
import ImapToJmap.Wire.Tree

/-!
# FETCH responses read back

What a client reads of a FETCH response: for each item its name and its value, which for ENVELOPE
and BODYSTRUCTURE is a list of lists.  `tree` and `trees` are these values.

`readValues_serialize`: a client that takes a response apart without knowing any item gets just
them, so that nothing in a message (a quote, a backslash, a parenthesis, `NIL` as a subject) passes
for the structure around it.  What is written without quotes has to be an atom.
-/

namespace ImapToJmap.Fetch

open Ascii Wire Wire.Buffer Writer

/-! ## The pieces -/

theorem bytes_fixed (s : String) : (fixed s).bytes = asBytes s := List.append_nil _

theorem bytes_raw (s : String) : (raw s).bytes = asBytes s := List.append_nil _

theorem bytes_number (n : ℕ) : (number n).bytes = decimal n := List.append_nil _

theorem asBytes_open : asBytes "(" = [parenOpen] := by decide

theorem asBytes_close : asBytes ")" = [parenClose] := by decide

theorem asBytes_space : asBytes " " = [space] := by decide

theorem bytes_join (bs : List Buffer) : (join (fixed " ") bs).bytes = spaced (bs.map bytes) := by
  induction bs with
  | nil => rfl
  | cons b bs ih =>
      cases bs with
      | nil => rfl
      | cons c bs =>
          have hjoin : join (fixed " ") (b :: c :: bs) =
              b ++ fixed " " ++ join (fixed " ") (c :: bs) := rfl
          rw [hjoin, bytes_append, bytes_append, ih, bytes_fixed, asBytes_space,
            List.append_assoc]
          rfl

theorem bytes_flatten (bs : List Buffer) :
    Buffer.bytes bs.flatten = (bs.map bytes).flatten := by
  induction bs with
  | nil => rfl
  | cons b bs ih => rw [List.flatten_cons, bytes_append, ih, List.map_cons, List.flatten_cons]

def string (s : String) : Tree := .string (asBytes s)

def stringOrNil : Option String → Tree
  | some s => string s
  | none => .nil

theorem settles_quotedString (s : String) : Settles (quoted s).bytes [string s] := by
  rw [bytes_quoted]
  refine settles_quoted fun c _ ↦ ?_
  rw [escape]
  split
  · exact .inr rfl
  · next h => exact .inl ⟨rfl, fun hc ↦ h (.inr hc), fun hc ↦ h (.inl hc)⟩

theorem reads_nil : ReadsAs (asBytes "NIL") [.nil] :=
  have h : IsAtom (asBytes "NIL") := by decide +kernel
  have hnil : Tree.ofAtom (asBytes "NIL") = .nil := if_pos (by decide +kernel)
  hnil ▸ reads_atom h

theorem reads_quotedStringOrNil (s : Option String) :
    ReadsAs (quotedStringOrNil s).bytes [stringOrNil s] := by
  cases s with
  | none => exact (bytes_fixed "NIL").symm ▸ reads_nil
  | some s => exact (settles_quotedString s).reads

theorem reads_number (n : ℕ) : ReadsAs (number n).bytes [.number n] :=
  (bytes_number n).symm ▸ reads_decimal n

/-- A list of pieces with a space between any two. -/
theorem settles_spaced {bs : List Bytes} {xs : List (List Tree)} (h : List.Forall₂ ReadsAs bs xs) :
    Settles (parenOpen :: spaced bs ++ [parenClose]) [.list xs.flatten] := (reads_spaced h).list

/-- A list of pieces that are each a value. -/
theorem reads_join_map {α : Type} {l : List α} {f : α → Buffer} {g : α → List Tree}
    (h : ∀ a ∈ l, ReadsAs (f a).bytes (g a)) :
    ReadsAs (join (fixed " ") (l.map f)).bytes (l.flatMap g) := by
  rw [bytes_join, List.map_map, List.flatMap_def]
  refine reads_spaced ?_
  rw [List.forall₂_map_left_iff, List.forall₂_map_right_iff, List.forall₂_same]
  exact h

theorem settles_flatten_map {α : Type} {l : List α} {f : α → Buffer} {g : α → List Tree}
    (h : ∀ a ∈ l, Settles (f a).bytes (g a)) :
    Settles (Buffer.bytes (l.map f).flatten) (l.flatMap g) := by
  rw [bytes_flatten, List.map_map, List.flatMap_def]
  refine settles_flatten ?_
  rw [List.forall₂_map_left_iff, List.forall₂_map_right_iff, List.forall₂_same]
  exact h

/-! ## Envelopes -/

namespace EmailAddress

/-- The mailbox and the host. -/
def mailboxTrees (self : EmailAddress) (addr : String) : List Tree :=
  match splitOnce '@' addr with
  | some (mailbox, host) => [string mailbox, string host]
  | none => [string self.address, string ""]

def tree (self : EmailAddress) : Tree :=
  .list (stringOrNil self.name ::
    match splitOnce ':' self.address with
    | some (route, addr) => string route :: self.mailboxTrees addr
    | none => .nil :: self.mailboxTrees self.address)

theorem reads_serializeMailbox (self : EmailAddress) (addr : String) :
    ReadsAs (self.serializeMailbox addr).bytes (self.mailboxTrees addr) := by
  unfold serializeMailbox mailboxTrees
  cases splitOnce '@' addr with
  | some parts =>
      obtain ⟨mailbox, host⟩ := parts
      rw [bytes_append, bytes_append, bytes_fixed, asBytes_space]
      exact ((settles_quotedString mailbox).reads.settles_space).append_reads
        (settles_quotedString host).reads
  | none =>
      have hempty : asBytes " \"\"" = [space] ++ (quoted "").bytes := by decide
      dsimp only
      rw [bytes_append, bytes_fixed, hempty, ← List.append_assoc]
      exact ((settles_quotedString self.address).reads.settles_space).append_reads
        (settles_quotedString "").reads

theorem settles_serialize (self : EmailAddress) : Settles self.serialize.bytes [self.tree] := by
  have hname := reads_quotedStringOrNil self.name
  unfold serialize tree
  cases splitOnce ':' self.address with
  | some parts =>
      obtain ⟨route, addr⟩ := parts
      have h := settles_spaced (.cons hname (.cons (settles_quotedString route).reads
        (.cons (self.reads_serializeMailbox addr) .nil)))
      simpa [asBytes_open, asBytes_close, asBytes_space, bytes_fixed, spaced] using h
  | none =>
      have hnil : asBytes " NIL " = space :: (asBytes "NIL" ++ [space]) := by decide
      have h := settles_spaced (.cons hname (.cons reads_nil
        (.cons (self.reads_serializeMailbox self.address) .nil)))
      simpa [asBytes_open, asBytes_close, hnil, bytes_fixed, spaced] using h

end EmailAddress

namespace AddressGroup

/-- The group between two addresses without a host, of which the first has its name. -/
def trees (self : AddressGroup) : List Tree :=
  .list [.nil, .nil, string (self.name.getD ""), .nil] :: self.addresses.map EmailAddress.tree ++
    [.list [.nil, .nil, .nil, .nil]]

theorem settles_serialize (self : AddressGroup) : Settles self.serialize.bytes self.trees := by
  have hopen : asBytes "(NIL NIL " =
      parenOpen :: (asBytes "NIL" ++ space :: (asBytes "NIL" ++ [space])) := by decide
  have hclose : asBytes " NIL)" = space :: (asBytes "NIL" ++ [parenClose]) := by decide
  have hend : asBytes "(NIL NIL NIL NIL)" = parenOpen :: spaced [asBytes "NIL", asBytes "NIL",
      asBytes "NIL", asBytes "NIL"] ++ [parenClose] := by decide
  have hempty : (fixed "\"\"").bytes = (quoted "").bytes := by decide
  have hname (s : String) := settles_spaced (.cons reads_nil (.cons reads_nil
    (.cons (settles_quotedString s).reads (.cons reads_nil .nil))))
  have haddresses : Settles (Buffer.bytes (self.addresses.map EmailAddress.serialize).flatten)
      (self.addresses.map EmailAddress.tree) := by
    rw [List.map_eq_flatMap (f := EmailAddress.tree)]
    exact settles_flatten_map fun addr _ ↦ EmailAddress.settles_serialize addr
  have hlast := settles_spaced (.cons reads_nil (.cons reads_nil (.cons reads_nil
    (.cons reads_nil .nil))))
  have h (s : String) := ((hname s).append haddresses).append hlast
  unfold serialize trees
  rw [bytes_append, bytes_append, bytes_append, bytes_append, bytes_fixed, bytes_fixed,
    bytes_fixed, hopen, hclose, hend]
  cases self.name with
  | none =>
      dsimp only
      rw [hempty]
      simpa [spaced] using h ""
  | some name => simpa [spaced] using h name

end AddressGroup

namespace Address

def trees : Address → List Tree
  | single addr => [addr.tree]
  | group addr => addr.trees

def treeOfAddresses (addresses : List Address) : Tree :=
  if addresses ≠ [] then .list (addresses.flatMap trees) else .nil

theorem settles_serialize (self : Address) : Settles self.serialize.bytes self.trees := by
  cases self with
  | single addr => exact addr.settles_serialize
  | group addr => exact addr.settles_serialize

theorem reads_serializeAddresses {b : Bytes} {x : List Tree} (hb : ReadsAs b x)
    (addresses : List Address) : ReadsAs (b ++ (serializeAddresses addresses).bytes)
      (x ++ [treeOfAddresses addresses]) := by
  unfold serializeAddresses treeOfAddresses
  rw [bytes_append, bytes_fixed, asBytes_space, ← List.append_assoc]
  refine hb.settles_space.append_reads ?_
  split
  · rw [bytes_append, bytes_append, bytes_fixed, bytes_fixed, asBytes_open, asBytes_close]
    exact (settles_flatten_map fun address _ ↦ address.settles_serialize).reads.list.reads
  · exact (bytes_fixed "NIL").symm ▸ reads_nil

end Address

/-- The formats of the dates need no quoting. -/
structure Unquoted (dates : Dates) : Prop where
  rfc2822 : ∀ t, quote ∉ asBytes (dates.rfc2822 t) ∧ backslash ∉ asBytes (dates.rfc2822 t)
  internal : ∀ t, quote ∉ asBytes (dates.internal t) ∧ backslash ∉ asBytes (dates.internal t)

theorem settles_unquoted {s : String} (h : quote ∉ asBytes s ∧ backslash ∉ asBytes s) :
    Settles (fixed "\"" ++ raw s ++ fixed "\"").bytes [string s] := by
  have hquote : asBytes "\"" = [quote] := by decide
  have hsettles : Settles (quote :: (asBytes s).flatMap (fun c ↦ [c]) ++ [quote]) [string s] :=
    settles_quoted fun c hc ↦ .inl ⟨rfl, fun heq ↦ h.1 (heq ▸ hc), fun heq ↦ h.2 (heq ▸ hc)⟩
  rw [List.flatMap_singleton'] at hsettles
  rw [bytes_append, bytes_append, bytes_fixed, bytes_raw, hquote]
  exact hsettles

namespace Envelope

open Address

def treeOfDate (dates : Dates) : Option ℤ → Tree
  | some date => string (dates.rfc2822 date)
  | none => .nil

def tree (dates : Dates) (self : Envelope) : Tree :=
  .list [treeOfDate dates self.date, stringOrNil self.subject, treeOfAddresses self.«from»,
    treeOfAddresses (if self.sender ≠ [] then self.sender else self.«from»),
    treeOfAddresses (if self.replyTo ≠ [] then self.replyTo else self.«from»),
    treeOfAddresses self.«to», treeOfAddresses self.cc, treeOfAddresses self.bcc,
    stringOrNil self.inReplyTo, stringOrNil self.messageId]

theorem settles_serialize {dates : Dates} (hdates : Unquoted dates) (self : Envelope) :
    Settles (self.serialize dates).bytes [self.tree dates] := by
  have hdate : ReadsAs (quotedRfc2822OrNil dates self.date).bytes [treeOfDate dates self.date] := by
    cases self.date with
    | none => exact (bytes_fixed "NIL").symm ▸ reads_nil
    | some date => exact (settles_unquoted (hdates.rfc2822 date)).reads
  have h := hdate.append_space (reads_quotedStringOrNil self.subject)
  have h := reads_serializeAddresses h self.«from»
  have h := reads_serializeAddresses h (if self.sender ≠ [] then self.sender else self.«from»)
  have h := reads_serializeAddresses h (if self.replyTo ≠ [] then self.replyTo else self.«from»)
  have h := reads_serializeAddresses h self.«to»
  have h := reads_serializeAddresses h self.cc
  have h := reads_serializeAddresses h self.bcc
  have h := h.append_space (reads_quotedStringOrNil self.inReplyTo)
  have h := h.append_space (reads_quotedStringOrNil self.messageId)
  have hlist := h.list
  simpa only [serialize, tree, bytes_append, bytes_fixed, asBytes_open, asBytes_close,
    asBytes_space, List.append_assoc, List.cons_append, List.nil_append] using hlist

end Envelope

/-! ## Body structures -/

/-- The keys and values one after the other. -/
def treeOfParameters (pairs : List (String × String)) : Tree :=
  .list (pairs.flatMap fun pair ↦ [string pair.1, string pair.2])

def treeOfParametersOrNil : Option (List (String × String)) → Tree
  | some pairs => treeOfParameters pairs
  | none => .nil

section

variable {b : Bytes} {x : List Tree}

theorem asBytes_spaceOpen : asBytes " (" = [space, parenOpen] := by decide

theorem asBytes_spaceNil : asBytes " NIL" = space :: asBytes "NIL" := by decide

theorem reads_parameters (pairs : List (String × String)) :
    ReadsAs (parameters pairs).bytes
      (pairs.flatMap fun pair ↦ [string pair.1, string pair.2]) := by
  refine reads_join_map fun pair _ ↦ ?_
  rw [bytes_append, bytes_append, bytes_fixed, asBytes_space]
  exact ((settles_quotedString pair.1).reads.settles_space).append_reads
    (settles_quotedString pair.2).reads

theorem reads_parametersOrNil (hb : ReadsAs b x) (pairs : Option (List (String × String))) :
    ReadsAs (b ++ (parametersOrNil pairs).bytes) (x ++ [treeOfParametersOrNil pairs]) := by
  cases pairs with
  | none =>
      have hnil : (parametersOrNil none).bytes = space :: asBytes "NIL" :=
        (bytes_fixed " NIL").trans asBytes_spaceNil
      exact hnil ▸ hb.append_space reads_nil
  | some pairs =>
      have h := hb.append_space (reads_parameters pairs).list.reads
      simpa [parametersOrNil, treeOfParametersOrNil, treeOfParameters, bytes_fixed,
        asBytes_spaceOpen, asBytes_close] using h

end

namespace BodyPartFields

def trees (self : BodyPartFields) : List Tree :=
  [stringOrNil self.bodySubtype, treeOfParametersOrNil self.bodyParameters,
    stringOrNil self.bodyId, stringOrNil self.bodyDescription, stringOrNil self.bodyEncoding,
    .number self.bodySizeOctets]

theorem reads_serialize (self : BodyPartFields) : ReadsAs self.serialize.bytes self.trees := by
  have h := reads_parametersOrNil (reads_quotedStringOrNil self.bodySubtype) self.bodyParameters
  have h := h.append_space (reads_quotedStringOrNil self.bodyId)
  have h := h.append_space (reads_quotedStringOrNil self.bodyDescription)
  have h := h.append_space (reads_quotedStringOrNil self.bodyEncoding)
  have h := h.append_space (reads_number self.bodySizeOctets)
  simpa [serialize, trees, bytes_fixed, asBytes_space] using h

end BodyPartFields

namespace BodyPartExtension

def treeOfDisposition : Option (String × List (String × String)) → Tree
  | some (disposition, pairs) => .list [string disposition, treeOfParameters pairs]
  | none => .nil

def treeOfLanguage : Option (List String) → Tree
  | none => .nil
  | some [] => .nil
  | some [language] => string language
  | some languages => .list (languages.map string)

def trees (self : BodyPartExtension) : List Tree :=
  [treeOfDisposition self.bodyDisposition, treeOfLanguage self.bodyLanguage,
    stringOrNil self.bodyLocation]

theorem reads_serializeDisposition (disposition : Option (String × List (String × String))) :
    ReadsAs (serializeDisposition disposition).bytes [treeOfDisposition disposition] := by
  cases disposition with
  | none => exact (bytes_fixed "NIL").symm ▸ reads_nil
  | some disposition =>
      have hclose : asBytes "))" = [parenClose, parenClose] := by decide
      have h := (settles_quotedString disposition.1).reads.append_space
        (reads_parameters disposition.2).list.reads
      have h := h.list.reads
      simpa [serializeDisposition, treeOfDisposition, treeOfParameters, bytes_fixed,
        asBytes_spaceOpen, asBytes_open, hclose] using h

theorem reads_serializeLanguage {b : Bytes} {x : List Tree} (hb : ReadsAs b x)
    (languages : Option (List String)) :
    ReadsAs (b ++ (serializeLanguage languages).bytes) (x ++ [treeOfLanguage languages]) := by
  have hnil : ReadsAs (b ++ (fixed " NIL").bytes) (x ++ [.nil]) := by
    rw [bytes_fixed, asBytes_spaceNil]
    exact hb.append_space reads_nil
  cases languages with
  | none => exact hnil
  | some languages =>
      cases languages with
      | nil => exact hnil
      | cons language languages =>
          cases languages with
          | nil =>
              have h := hb.append_space (settles_quotedString language).reads
              simpa [serializeLanguage, treeOfLanguage, bytes_fixed, asBytes_space] using h
          | cons next languages =>
              have hlanguages : ReadsAs
                  (join (fixed " ") ((language :: next :: languages).map quoted)).bytes
                  ((language :: next :: languages).map string) := by
                rw [List.map_eq_flatMap (f := string)]
                exact reads_join_map fun s _ ↦ (settles_quotedString s).reads
              have h := hb.append_space hlanguages.list.reads
              simpa only [serializeLanguage, treeOfLanguage, bytes_append, bytes_fixed,
                asBytes_spaceOpen, asBytes_close, List.append_assoc, List.cons_append,
                List.nil_append] using h

theorem reads_serialize (self : BodyPartExtension) : ReadsAs self.serialize.bytes self.trees := by
  have h := reads_serializeLanguage (reads_serializeDisposition self.bodyDisposition)
    self.bodyLanguage
  have h := h.append_space (reads_quotedStringOrNil self.bodyLocation)
  simpa [serialize, trees, bytes_fixed, asBytes_space] using h

end BodyPartExtension

namespace BodyPart

def extensionTrees (isExtended : Bool) (bodyMd5 : Option String) (ext : BodyPartExtension) :
    List Tree :=
  if isExtended then stringOrNil bodyMd5 :: ext.trees else []

def treeOfEnvelope (dates : Dates) : Option Envelope → Tree
  | some envelope => envelope.tree dates
  | none => .nil

mutual

def tree (dates : Dates) (isExtended : Bool) : BodyPart → Tree
  | multipart bodyParts bodySubtype bodyParameters ext =>
      .list (allTrees dates isExtended bodyParts ++ string bodySubtype ::
        if isExtended then treeOfParametersOrNil bodyParameters :: ext.trees else [])
  | basic bodyType fields bodyMd5 ext =>
      .list (stringOrNil bodyType :: (fields.trees ++ extensionTrees isExtended bodyMd5 ext))
  | text fields bodySizeLines bodyMd5 ext =>
      .list (string "text" :: (fields.trees ++ .number bodySizeLines ::
        extensionTrees isExtended bodyMd5 ext))
  | message fields envelope body bodySizeLines bodyMd5 ext =>
      .list (string "message" :: (fields.trees ++ treeOfEnvelope dates envelope ::
        treeOrNil dates isExtended body :: .number bodySizeLines ::
        extensionTrees isExtended bodyMd5 ext))

def allTrees (dates : Dates) (isExtended : Bool) : List BodyPart → List Tree
  | [] => []
  | part :: parts => part.tree dates isExtended :: allTrees dates isExtended parts

def treeOrNil (dates : Dates) (isExtended : Bool) : Option BodyPart → Tree
  | some part => part.tree dates isExtended
  | none => .nil

end

theorem reads_serializeExtension {b : Bytes} {x : List Tree} (hb : ReadsAs b x) (isExtended : Bool)
    (bodyMd5 : Option String) (ext : BodyPartExtension) :
    ReadsAs (b ++ (serializeExtension isExtended bodyMd5 ext).bytes)
      (x ++ extensionTrees isExtended bodyMd5 ext) := by
  cases isExtended with
  | false => simpa [serializeExtension, extensionTrees] using hb
  | true =>
      have h := hb.append_space (reads_quotedStringOrNil bodyMd5)
      have h := h.append_space ext.reads_serialize
      simpa [serializeExtension, extensionTrees, bytes_fixed, asBytes_space] using h

theorem reads_serializeEnvelope {dates : Dates} (hdates : Unquoted dates)
    (envelope : Option Envelope) :
    ReadsAs (serializeEnvelope dates envelope).bytes [treeOfEnvelope dates envelope] := by
  cases envelope with
  | none => exact (bytes_fixed "NIL").symm ▸ reads_nil
  | some envelope => exact (envelope.settles_serialize hdates).reads

theorem settles_text : Settles (asBytes "\"text\"") [string "text"] := by
  have h : asBytes "\"text\"" = (quoted "text").bytes := by decide
  exact h ▸ settles_quotedString "text"

theorem settles_message : Settles (asBytes "\"message\"") [string "message"] := by
  have h : asBytes "\"message\"" = (quoted "message").bytes := by decide
  exact h ▸ settles_quotedString "message"

theorem asBytes_text : asBytes "\"text\" " = asBytes "\"text\"" ++ [space] := by decide

theorem asBytes_message : asBytes "\"message\" " = asBytes "\"message\"" ++ [space] := by
  decide

mutual

/-- By induction on the part. -/
theorem settles_serialize {dates : Dates} (hdates : Unquoted dates) (isExtended : Bool) :
    (part : BodyPart) → Settles (part.serialize dates isExtended).bytes
      [part.tree dates isExtended]
  | multipart bodyParts bodySubtype bodyParameters ext => by
      have h := (reads_serializeAll hdates isExtended bodyParts).append_space
        (settles_quotedString bodySubtype).reads
      cases isExtended with
      | false =>
          have hlist := h.list
          simpa [serialize, tree, bytes_fixed, asBytes_open, asBytes_close, asBytes_space]
            using hlist
      | true =>
          have h := reads_parametersOrNil h bodyParameters
          have hlist := (h.append_space ext.reads_serialize).list
          simpa [serialize, tree, bytes_fixed, asBytes_open, asBytes_close, asBytes_space]
            using hlist
  | basic bodyType fields bodyMd5 ext => by
      have h := (reads_quotedStringOrNil bodyType).append_space fields.reads_serialize
      have hlist := (reads_serializeExtension h isExtended bodyMd5 ext).list
      simpa [serialize, tree, bytes_fixed, asBytes_open, asBytes_close, asBytes_space] using hlist
  | text fields bodySizeLines bodyMd5 ext => by
      have h := settles_text.reads.append_space fields.reads_serialize
      have h := h.append_space (reads_number bodySizeLines)
      have hlist := (reads_serializeExtension h isExtended bodyMd5 ext).list
      simpa [serialize, tree, bytes_fixed, asBytes_open, asBytes_close, asBytes_space,
        asBytes_text] using hlist
  | message fields envelope body bodySizeLines bodyMd5 ext => by
      have h := settles_message.reads.append_space fields.reads_serialize
      have h := h.append_space (reads_serializeEnvelope hdates envelope)
      have h := h.append_space (reads_serializeOrNil hdates isExtended body)
      have h := h.append_space (reads_number bodySizeLines)
      have hlist := (reads_serializeExtension h isExtended bodyMd5 ext).list
      simpa [serialize, tree, bytes_fixed, asBytes_open, asBytes_close, asBytes_space,
        asBytes_message] using hlist

theorem reads_serializeAll {dates : Dates} (hdates : Unquoted dates) (isExtended : Bool) :
    (parts : List BodyPart) →
      ReadsAs (join (fixed " ") (serializeAll dates isExtended parts)).bytes
        (allTrees dates isExtended parts)
  | [] => settles_nil.reads
  | [part] => by
      have h := settles_serialize hdates isExtended part
      exact h.reads
  | part :: next :: parts => by
      have hpart := settles_serialize hdates isExtended part
      have hparts := reads_serializeAll hdates isExtended (next :: parts)
      have h := hpart.reads.append_space hparts
      simpa [serializeAll, allTrees, join, bytes_fixed, asBytes_space] using h

theorem reads_serializeOrNil {dates : Dates} (hdates : Unquoted dates) (isExtended : Bool) :
    (part : Option BodyPart) → ReadsAs (serializeOrNil dates isExtended part).bytes
      [treeOrNil dates isExtended part]
  | none => (bytes_fixed "NIL").symm ▸ reads_nil
  | some part => (settles_serialize hdates isExtended part).reads

end

end BodyPart

/-! ## Items -/

/-- The offset of a partial fetch. -/
def originBytes : Option ℕ → Bytes
  | some offset => lt :: decimal offset ++ [gt]
  | none => []

/-- A name with a section specification and an offset. -/
def sectionName (name : String) (sections : Buffer) (origin : Option ℕ) : Bytes :=
  asBytes name ++ bracketOpen :: (sections.bytes ++ bracketClose :: originBytes origin)

def BodyContents.octets : BodyContents → Bytes
  | text contents => asBytes contents
  | bytes contents => contents

namespace DataItem

/-- The name of an item in the response. -/
def name : DataItem → Bytes
  | binary sections offset _ => sectionName "BINARY" (join (fixed ".") (sections.map number)) offset
  | binarySize sections _ =>
      sectionName "BINARY.SIZE" (join (fixed ".") (sections.map number)) none
  | body _ => asBytes "BODY"
  | bodyStructure _ => asBytes "BODYSTRUCTURE"
  | bodySection sections originOctet _ =>
      sectionName "BODY" (join (fixed ".") (sections.map SectionPart.serialize)) originOctet
  | envelope _ => asBytes "ENVELOPE"
  | flags _ => asBytes "FLAGS"
  | internalDate _ => asBytes "INTERNALDATE"
  | uid _ => asBytes "UID"
  | rfc822 _ => asBytes "RFC822"
  | rfc822Header _ => asBytes "RFC822.HEADER"
  | rfc822Size _ => asBytes "RFC822.SIZE"
  | rfc822Text _ => asBytes "RFC822.TEXT"
  | preview _ => asBytes "PREVIEW"
  | modSeq _ => asBytes "MODSEQ"
  | emailId _ => asBytes "EMAILID"
  | threadId _ => asBytes "THREADID"

/-- The value of an item. -/
def value (dates : Dates) : DataItem → Tree
  | binary _ _ contents => .string contents.octets
  | binarySize _ size => .number size
  | body part => part.tree dates false
  | bodyStructure part => part.tree dates true
  | bodySection _ _ contents => string contents
  | envelope value => value.tree dates
  | flags values => .list (values.map fun flag ↦ .ofAtom flag.serialize.bytes)
  | internalDate date => string (dates.internal date)
  | uid n => .number n
  | rfc822 contents => string contents
  | rfc822Header contents => string contents
  | rfc822Size size => .number size
  | rfc822Text contents => string contents
  | preview contents => stringOrNil contents
  | modSeq modseq => .list [.number modseq]
  | emailId value | threadId value => .list [.ofAtom (asBytes value)]

/-- What is written as it is can be read: keywords and ids are atoms, and no header field has a
bracket that closes. -/
def Readable : DataItem → Prop
  | flags values => ∀ s ∈ values.flatMap Flag.strings, IsAtom (asBytes s)
  | emailId value | threadId value => IsAtom (asBytes value)
  | bodySection sections _ _ =>
      ∀ s ∈ sections.flatMap SectionPart.strings, bracketClose ∉ asBytes s
  | _ => True

instance (item : DataItem) : Decidable item.Readable := by
  unfold Readable
  split <;> infer_instance

end DataItem

section

variable {name s : String} {v : Buffer} {value : Tree}

/-- An item whose name is a word. -/
theorem reads_word (hs : asBytes s = asBytes name ++ [space]) (hname : IsAtom (asBytes name))
    (hv : ReadsAs v.bytes [value]) :
    ReadsAs (fixed s ++ v).bytes [.ofAtom (asBytes name), value] := by
  rw [bytes_append, bytes_fixed, hs]
  exact (reads_atom hname).settles_space.append_reads hv

/-- One whose value is a list. -/
theorem reads_wordList {x : List Tree} (hs : asBytes s = asBytes name ++ [space, parenOpen])
    (hname : IsAtom (asBytes name)) (hv : ReadsAs v.bytes x) :
    ReadsAs (fixed s ++ v ++ fixed ")").bytes [.ofAtom (asBytes name), .list x] := by
  have h := (reads_atom hname).settles_space.append_reads hv.list.reads
  simpa [bytes_fixed, hs, asBytes_close] using h

theorem settles_literalString (contents : String) : Settles (literal contents).bytes
    [string contents] := by
  have h := settles_literal (asBytes contents)
  rwa [← List.append_nil (announce _ ++ _)] at h

theorem isAtomByte_origin (origin : Option ℕ) : ∀ c ∈ originBytes origin, IsAtomByte c := by
  cases origin with
  | none => exact List.forall_mem_nil _
  | some offset =>
      intro c hc
      rcases List.mem_cons.mp hc with rfl | hc
      · decide
      · rcases List.mem_append.mp hc with hc | hc
        · exact isAtomByte_digit (isAsciiDigit_of_mem_decimal hc)
        · obtain rfl := List.mem_singleton.mp hc
          decide

theorem bytes_serializeOrigin (origin : Option ℕ) :
    (DataItem.serializeOrigin origin).bytes = bracketClose :: originBytes origin ++ [space] := by
  cases origin with
  | none => decide
  | some offset =>
      have hopen : asBytes "]<" = [bracketClose, lt] := by decide
      have hclose : asBytes "> " = [gt, space] := by decide
      simp [DataItem.serializeOrigin, originBytes, bytes_fixed, bytes_number, hopen, hclose]

/-- An item with a section specification. -/
theorem reads_section {sections : Buffer} {origin : Option ℕ}
    (hs : asBytes s = asBytes name ++ [bracketOpen]) (hname : IsAtom (asBytes name))
    (hsections : bracketClose ∉ sections.bytes) (hv : ReadsAs v.bytes [value]) :
    ReadsAs (fixed s ++ sections ++ DataItem.serializeOrigin origin ++ v).bytes
      [.ofAtom (sectionName name sections origin), value] := by
  have h := (reads_brackets hname hsections (isAtomByte_origin origin)).append_space hv
  simpa [bytes_fixed, hs, bytes_serializeOrigin, sectionName] using h

end

/-- A byte that stands in no piece and not in the separator. -/
theorem not_mem_join {c : UInt8} {sep : String} (hsep : c ∉ asBytes sep) {bs : List Buffer}
    (hbs : ∀ b ∈ bs, c ∉ b.bytes) : c ∉ (join (fixed sep) bs).bytes := by
  induction bs with
  | nil => exact List.not_mem_nil
  | cons b bs ih =>
      obtain ⟨hb, hbs⟩ := List.forall_mem_cons.mp hbs
      cases bs with
      | nil => exact hb
      | cons next bs =>
          have hjoin : join (fixed sep) (b :: next :: bs) =
              b ++ fixed sep ++ join (fixed sep) (next :: bs) := rfl
          rw [hjoin, bytes_append, bytes_append, bytes_fixed, List.mem_append, List.mem_append]
          rintro ((h | h) | h)
          · exact hb h
          · exact hsep h
          · exact ih hbs h

theorem bracketClose_not_mem_number (n : ℕ) : bracketClose ∉ (number n).bytes := by
  rw [bytes_number]
  intro h
  exact absurd (isAsciiDigit_of_mem_decimal h) (by decide)

theorem bracketClose_not_mem_numbers (sections : List ℕ) :
    bracketClose ∉ (join (fixed ".") (sections.map number)).bytes :=
  not_mem_join (by decide) (List.forall_mem_map.mpr fun n _ ↦ bracketClose_not_mem_number n)

/-- Upper case makes no bracket. -/
theorem bracketClose_not_mem_field {field : String} (h : bracketClose ∉ asBytes field) :
    bracketClose ∉ (SectionPart.serializeField field).bytes := by
  have hbytes : (SectionPart.serializeField field).bytes =
      (asBytes field).map toAsciiUppercase := List.append_nil _
  rw [hbytes, List.mem_map]
  rintro ⟨c, hc, hupper⟩
  unfold toAsciiUppercase at hupper
  split at hupper
  · next hlower =>
      obtain rfl : c = bracketClose + 32 := by rw [← hupper, sub_add_cancel]
      exact absurd hlower (by decide)
  · exact h (hupper ▸ hc)

theorem bracketClose_not_mem_section {part : SectionPart}
    (h : ∀ s ∈ part.strings, bracketClose ∉ asBytes s) : bracketClose ∉ part.serialize.bytes := by
  cases part with
  | part num => exact bracketClose_not_mem_number num
  | header | text | mime =>
      decide
  | headerFields not fields =>
      have hfields : bracketClose ∉
          (join (fixed " ") (fields.map SectionPart.serializeField)).bytes :=
        not_mem_join (by decide) (List.forall_mem_map.mpr fun field hfield ↦
          bracketClose_not_mem_field (h field hfield))
      have hword : bracketClose ∉
          (if not then fixed "HEADER.FIELDS.NOT " else fixed "HEADER.FIELDS ").bytes := by
        cases not <;> decide
      have hopen : bracketClose ∉ (fixed "(").bytes := by decide
      have hclose : bracketClose ∉ (fixed ")").bytes := by decide
      rw [SectionPart.serialize, bytes_append, bytes_append, bytes_append]
      simp only [List.mem_append, not_or]
      exact ⟨⟨⟨hword, hopen⟩, hfields⟩, hclose⟩

theorem isAtom_serialize {flag : Flag} (h : ∀ s ∈ flag.strings, IsAtom (asBytes s)) :
    IsAtom flag.serialize.bytes := by
  cases flag with
  | keyword name => exact (bytes_raw name).symm ▸ h name List.mem_cons_self
  | _ => decide +kernel

namespace DataItem

theorem reads_serialize {dates : Dates} (hdates : Unquoted dates) {item : DataItem}
    (h : item.Readable) :
    ReadsAs (item.serialize dates).bytes [.ofAtom item.name, item.value dates] := by
  cases item with
  | binary sections offset contents =>
      refine reads_section (by decide +kernel) (by decide +kernel)
        (bracketClose_not_mem_numbers sections) ?_
      cases contents with
      | text contents => exact (settles_literalString contents).reads
      | bytes contents =>
          have htilde : asBytes "~" = [126] := by decide
          have hbytes : (serializeContents (.bytes contents)).bytes =
              126 :: (announce contents.length ++ contents) := by
            rw [serializeContents, bytes_append, bytes_fixed, htilde]
            simp [Buffer.bytes, Piece.bytes]
          exact hbytes ▸ (settles_literal8 contents).reads
  | binarySize sections size =>
      show ReadsAs (fixed "BINARY.SIZE[" ++ join (fixed ".") (sections.map number) ++
        serializeOrigin none ++ number size).bytes _
      exact reads_section (by decide +kernel) (by decide +kernel)
        (bracketClose_not_mem_numbers sections) (reads_number size)
  | body part =>
      exact reads_word (by decide +kernel) (by decide +kernel)
        (part.settles_serialize hdates false).reads
  | bodyStructure part =>
      exact reads_word (by decide +kernel) (by decide +kernel)
        (part.settles_serialize hdates true).reads
  | bodySection sections originOctet contents =>
      refine reads_section (by decide +kernel) (by decide +kernel) ?_
        (settles_literalString contents).reads
      refine not_mem_join (by decide +kernel) (List.forall_mem_map.mpr fun part hpart ↦ ?_)
      exact bracketClose_not_mem_section fun s hs ↦ h s (List.mem_flatMap.mpr ⟨part, hpart, hs⟩)
  | envelope value =>
      exact reads_word (by decide +kernel) (by decide +kernel)
        (value.settles_serialize hdates).reads
  | flags values =>
      refine reads_wordList (by decide +kernel) (by decide +kernel) ?_
      rw [List.map_eq_flatMap (f := fun flag ↦ Tree.ofAtom (Flag.serialize flag).bytes)]
      refine reads_join_map fun flag hflag ↦ reads_atom (isAtom_serialize fun s hs ↦ ?_)
      exact h s (List.mem_flatMap.mpr ⟨flag, hflag, hs⟩)
  | internalDate date =>
      exact reads_word (by decide +kernel) (by decide +kernel)
        (settles_unquoted (hdates.internal date)).reads
  | uid n => exact reads_word (by decide +kernel) (by decide +kernel) (reads_number n)
  | rfc822 contents | rfc822Header contents | rfc822Text contents =>
      exact reads_word (by decide +kernel) (by decide +kernel)
        (settles_literalString contents).reads
  | rfc822Size size => exact reads_word (by decide +kernel) (by decide +kernel) (reads_number size)
  | preview contents =>
      refine reads_word (by decide +kernel) (by decide +kernel) ?_
      cases contents with
      | none => exact (bytes_fixed "NIL").symm ▸ reads_nil
      | some contents => exact (settles_literalString contents).reads
  | modSeq modseq =>
      exact reads_wordList (by decide +kernel) (by decide +kernel) (reads_number modseq)
  | emailId value | threadId value =>
      exact reads_wordList (by decide +kernel) (by decide +kernel)
        ((bytes_raw value).symm ▸ reads_atom h)

end DataItem

namespace FetchItem

/-- The values of a response: the star, the number, the word and the list of the items. -/
def values (dates : Dates) (self : FetchItem) : List Tree :=
  [.ofAtom (asBytes "*"), .number self.id, .ofAtom (asBytes "FETCH"),
    .list (self.items.flatMap fun item ↦ [.ofAtom item.name, item.value dates])]

theorem reads_serializeLine {dates : Dates} (hdates : Unquoted dates) {self : FetchItem}
    (h : ∀ item ∈ self.items, item.Readable) :
    ReadsAs (self.serializeLine dates).bytes (self.values dates) := by
  have hstar : asBytes "* " = asBytes "*" ++ [space] := by decide +kernel
  have hfetch : asBytes " FETCH (" = space :: (asBytes "FETCH" ++ [space, parenOpen]) := by
    decide +kernel
  have hword : ∀ s ∈ ["*", "FETCH"], IsAtom (asBytes s) := by decide +kernel
  have hitems := reads_join_map fun item hitem ↦
    DataItem.reads_serialize hdates (h item hitem)
  have hline := (reads_atom (hword "*" (by decide))).append_space (reads_number self.id)
  have hline := hline.append_space (reads_atom (hword "FETCH" (by decide)))
  have hline := hline.append_space hitems.list.reads
  simpa [serializeLine, values, bytes_fixed, hstar, hfetch, asBytes_close] using hline

/-- **A client reads a FETCH response back**, whatever the messages are: a number, and for each item
its name and its value.  The strings that are quoted are on one line, and those that are not are
atoms. -/
theorem readValues_serialize {dates : Dates} (hplain : dates.Plain) (hdates : Unquoted dates)
    {self : FetchItem} (hstrings : AllPlain self.strings)
    (hitems : ∀ item ∈ self.items, item.Readable) (rest : Bytes) :
    readValues ((self.serialize dates).bytes ++ rest) = some (self.values dates, rest) :=
  readValues_of_reads ((oneResponse_serialize hplain self).mpr hstrings)
    (reads_serializeLine hdates hitems) rest

/-- A subject that looks like the rest of an envelope. -/
def misleading : FetchItem :=
  ⟨4, [.uid 7, .flags [.seen, .keyword "$Work"],
    .envelope ⟨some 0, some "NIL) \\\" (NIL", [.single ⟨none, "jane@example.org"⟩], [], [],
      [.group ⟨some "team", [⟨some "\"", "joe"⟩]⟩], [], [], none, none⟩,
    .bodySection [.part 1, .headerFields false ["Subject"]] (some 3) "NIL)\r\n* 4 EXPUNGE"]⟩

/-- It is read back, and so is a literal that looks like a response. -/
theorem readValues_serialize_misleading :
    readValues ((misleading.serialize epochDates).bytes ++ asBytes "* 4 EXPUNGE\r\n") =
      some (misleading.values epochDates, asBytes "* 4 EXPUNGE\r\n") := by
  have hquote : ∀ s ∈ [epochDates.rfc2822 0, epochDates.internal 0],
      quote ∉ asBytes s ∧ backslash ∉ asBytes s := by
    decide +kernel
  exact readValues_serialize epochDates_plain
    ⟨fun _ ↦ hquote _ (.head _), fun _ ↦ hquote _ (.tail _ (.head _))⟩ (by decide +kernel)
    (by decide +kernel) _

end FetchItem

end ImapToJmap.Fetch
