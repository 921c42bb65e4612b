import ImapToJmap.Protocol.Fetch
import ImapToJmap.Protocol.Utf7

/-!
# LIST and STATUS responses

`protocol/list.rs` and `protocol/status.rs`.  A mailbox name is sent as it is to an IMAP4rev2
client, and in modified UTF-7 to others; only the second form is free of line ends whatever the
name.
-/

namespace ImapToJmap.Listing

open Wire Wire.Buffer Writer

/-! ## LIST -/

inductive Attribute where
  | noInferiors
  | noSelect
  | marked
  | unmarked
  | nonExistent
  | hasChildren
  | hasNoChildren
  | subscribed
  | remote
  | all
  | archive
  | drafts
  | flagged
  | junk
  | sent
  | trash
  | important
deriving DecidableEq

/-- `Attribute::serialize` -/
def Attribute.serialize : Attribute → Buffer
  | noInferiors => fixed "\\NoInferiors"
  | noSelect => fixed "\\NoSelect"
  | marked => fixed "\\Marked"
  | unmarked => fixed "\\Unmarked"
  | nonExistent => fixed "\\NonExistent"
  | hasChildren => fixed "\\HasChildren"
  | hasNoChildren => fixed "\\HasNoChildren"
  | subscribed => fixed "\\Subscribed"
  | remote => fixed "\\Remote"
  | all => fixed "\\All"
  | archive => fixed "\\Archive"
  | drafts => fixed "\\Drafts"
  | flagged => fixed "\\Flagged"
  | junk => fixed "\\Junk"
  | sent => fixed "\\Sent"
  | trash => fixed "\\Trash"
  | important => fixed "\\Important"

@[simp] theorem Attribute.free_serialize (attr : Attribute) : Free attr.serialize := by
  cases attr <;> simp [serialize]

inductive ChildInfo where
  | subscribed
deriving DecidableEq

/-- `ChildInfo::serialize` -/
def ChildInfo.serialize : ChildInfo → Buffer
  | subscribed => fixed "\"" ++ fixed "SUBSCRIBED" ++ fixed "\""

inductive Tag where
  | childInfo (infos : List ChildInfo)
  | oldName (name : String)

namespace Tag

/-- `Tag::serialize` -/
def serialize : Tag → Buffer
  | childInfo infos =>
      fixed "\"CHILDINFO\" (" ++ join (fixed " ") (infos.map ChildInfo.serialize) ++ fixed ")"
  | oldName name => fixed "\"OLDNAME\" (" ++ quoted name ++ fixed ")"

def strings : Tag → List String
  | childInfo _ => []
  | oldName name => [name]

@[simp] theorem free_serialize (tag : Tag) : Free tag.serialize ↔ AllPlain tag.strings := by
  cases tag with
  | childInfo infos => simp [serialize, strings, ChildInfo.serialize]
  | oldName name => simp [serialize, strings]

end Tag

structure ListItem where
  mailboxName : String
  attributes : List Attribute
  tags : List Tag

namespace ListItem

/-- The name as it is sent; one that modified UTF-7 changes goes to an IMAP4rev2 client
unchanged. -/
def serializeName (isRev2 : Bool) (self : ListItem) : Buffer :=
  if utf7Encode self.mailboxName ≠ self.mailboxName then
    if isRev2 then quoted self.mailboxName else quoted (utf7Encode self.mailboxName)
  else quoted self.mailboxName

/-- `extra_tags` -/
def extraTags (isRev2 : Bool) (self : ListItem) : List Tag :=
  if utf7Encode self.mailboxName ≠ self.mailboxName ∧ isRev2 then
    [.oldName (utf7Encode self.mailboxName)]
  else []

/-- What `ListItem::serialize` writes before the line end. -/
def serializeLine (isRev2 isLsub : Bool) (self : ListItem) : Buffer :=
  (if isLsub then fixed "* LSUB (" else fixed "* LIST (") ++
    join (fixed " ") (self.attributes.map Attribute.serialize) ++ fixed ") \"/\" " ++
    self.serializeName isRev2 ++
    if self.extraTags isRev2 ++ self.tags ≠ [] then
      fixed " (" ++ join (fixed " ") ((self.extraTags isRev2 ++ self.tags).map Tag.serialize) ++
        fixed ")"
    else []

/-- `ListItem::serialize` -/
def serialize (isRev2 isLsub : Bool) (self : ListItem) : Buffer :=
  self.serializeLine isRev2 isLsub ++ crlf

def strings (self : ListItem) : List String :=
  self.mailboxName :: self.tags.flatMap Tag.strings

/-- The old name is always on one line. -/
theorem allPlain_extraTags (isRev2 : Bool) (self : ListItem) :
    AllPlain ((self.extraTags isRev2).flatMap Tag.strings) := by
  unfold extraTags
  split
  · simp [Tag.strings]
  · simp

theorem free_serializeName (self : ListItem) :
    Free (self.serializeName true) ↔ Plain self.mailboxName := by
  unfold serializeName
  split
  · simp
  · simp

theorem free_serializeLine (isLsub : Bool) (self : ListItem) :
    Free (self.serializeLine true isLsub) ↔ AllPlain self.strings := by
  have hkeyword : Free (if isLsub then fixed "* LSUB (" else fixed "* LIST (") := by
    split <;> simp
  have htags : Free (if self.extraTags true ++ self.tags ≠ [] then
      fixed " (" ++ join (fixed " ") ((self.extraTags true ++ self.tags).map Tag.serialize) ++
        fixed ")"
      else []) ↔ AllPlain (self.tags.flatMap Tag.strings) := by
    have hextra := self.allPlain_extraTags true
    rw [allPlain_flatMap] at hextra ⊢
    split
    · simp (disch := decide) only [free_append, free_fixed, true_and, and_true, free_join_map,
        Tag.free_serialize, List.forall_mem_append]
      exact and_iff_right hextra
    · rename_i h
      rw [ne_eq, not_not, List.append_eq_nil_iff] at h
      simp [h.2]
  simp (disch := decide) only [serializeLine, strings, free_append, free_fixed, and_true,
    free_join_map, Attribute.free_serialize, implies_true, hkeyword, true_and, htags,
    free_serializeName, allPlain_cons]

theorem sealed_serializeLine (isRev2 isLsub : Bool) (self : ListItem) :
    Sealed (self.serializeLine isRev2 isLsub) := by
  have hquoted : ∀ name, Sealed (quoted name) := fun name ↦
    (sealed_fixed (s := "\"") (by decide +kernel)).append _
  have hname : Sealed (self.serializeName isRev2) := by
    unfold serializeName
    split
    · split
      · exact hquoted _
      · exact hquoted _
    · exact hquoted _
  unfold serializeLine
  by_cases htags : self.extraTags isRev2 ++ self.tags ≠ []
  · rw [if_pos htags]
    exact ((sealed_fixed (s := ")") (by decide +kernel)).append _).append _
  · rw [if_neg htags, List.append_nil]
    exact hname.append _

/-- To an IMAP4rev2 client a LIST response is one response exactly if its names are on one line
each. -/
theorem oneResponse_serialize (isLsub : Bool) (self : ListItem) :
    OneResponse (self.serialize true isLsub) ↔ AllPlain self.strings := by
  rw [serialize, oneResponse_iff (self.sealed_serializeLine true isLsub), free_serializeLine]

end ListItem

/-! ## STATUS -/

inductive Status where
  | messages
  | uidNext
  | uidValidity
  | unseen
  | deleted
  | size
  | recent
  | highestModSeq
  | mailboxId
deriving DecidableEq

inductive StatusItemType where
  | number (value : ℕ)
  | string (value : String)

structure StatusItem where
  mailboxName : String
  items : List (Status × StatusItemType)

def Status.serialize : Status → Buffer
  | messages => fixed "MESSAGES "
  | uidNext => fixed "UIDNEXT "
  | uidValidity => fixed "UIDVALIDITY "
  | unseen => fixed "UNSEEN "
  | deleted => fixed "DELETED "
  | size => fixed "SIZE "
  | recent => fixed "RECENT "
  | highestModSeq => fixed "HIGHESTMODSEQ "
  | mailboxId => fixed "MAILBOXID "

@[simp] theorem Status.free_serialize (status : Status) : Free status.serialize := by
  cases status <;> simp [serialize]

namespace StatusItemType

def serialize : StatusItemType → Buffer
  | number value => Writer.number value
  | string value => fixed "(" ++ raw value ++ fixed ")"

def strings : StatusItemType → List String
  | number _ => []
  | string value => [value]

@[simp] theorem free_serialize (value : StatusItemType) :
    Free value.serialize ↔ AllPlain value.strings := by
  cases value with
  | number value => simp [serialize, strings]
  | string value => simp [serialize, strings]

end StatusItemType

namespace StatusItem

/-- What `StatusItem::serialize` writes before the line end. -/
def serializeLine (isRev2 : Bool) (self : StatusItem) : Buffer :=
  fixed "* STATUS " ++
    (if isRev2 then quoted self.mailboxName else quoted (utf7Encode self.mailboxName)) ++
    fixed " (" ++
    join (fixed " ") (self.items.map fun item ↦ item.1.serialize ++ item.2.serialize) ++ fixed ")"

/-- `StatusItem::serialize` -/
def serialize (isRev2 : Bool) (self : StatusItem) : Buffer := self.serializeLine isRev2 ++ crlf

/-- The strings that are sent as they are. -/
def strings (isRev2 : Bool) (self : StatusItem) : List String :=
  (if isRev2 then [self.mailboxName] else []) ++
    self.items.flatMap fun item ↦ item.2.strings

theorem free_serializeLine (isRev2 : Bool) (self : StatusItem) :
    Free (self.serializeLine isRev2) ↔ AllPlain (self.strings isRev2) := by
  cases isRev2 with
  | false => simp [serializeLine, strings]
  | true => simp [serializeLine, strings]

/-- A STATUS response is one response exactly if what is sent as it is is on one line. -/
theorem oneResponse_serialize (isRev2 : Bool) (self : StatusItem) :
    OneResponse (self.serialize isRev2) ↔ AllPlain (self.strings isRev2) := by
  have hsealed : Sealed (self.serializeLine isRev2) :=
    (sealed_fixed (s := ")") (by decide +kernel)).append _
  rw [serialize, oneResponse_iff hsealed, free_serializeLine]

end StatusItem

end ImapToJmap.Listing

/-! ## One response -/

namespace ImapToJmap

open Wire Wire.Buffer Fetch Listing Writer

/-- A FETCH response, a LIST response to an IMAP4rev2 client and a STATUS response are each read
back as exactly one response if and only if none of the strings they show outside a literal holds a
CR or an LF: quoting leaves both alone. -/
theorem serialize_oneResponse_iff (dates : Dates) (hdates : dates.Plain) :
    (∀ item : FetchItem, OneResponse (item.serialize dates) ↔ AllPlain item.strings) ∧
    (∀ (item : ListItem) (isLsub : Bool),
      OneResponse (item.serialize true isLsub) ↔ AllPlain item.strings) ∧
    (∀ (item : StatusItem) (isRev2 : Bool),
      OneResponse (item.serialize isRev2) ↔ AllPlain (item.strings isRev2)) :=
  ⟨FetchItem.oneResponse_serialize hdates, fun item isLsub ↦ item.oneResponse_serialize isLsub,
    fun item isRev2 ↦ item.oneResponse_serialize isRev2⟩

/-- A FETCH of the envelope of a message that has this subject. -/
def fetchSubject (subject : String) : FetchItem where
  id := 1
  items := [.envelope ⟨some 0, some subject, [], [], [], [], [], [], none, none⟩]

theorem serialize_oneResponse_subject : OneResponse ((fetchSubject "hello").serialize epochDates) :=
  ((serialize_oneResponse_iff epochDates epochDates_plain).1 (fetchSubject "hello")).mpr
    (by decide +kernel)

/-- A subject with a line end in it: the client takes the rest of it for another response. -/
theorem serialize_injects :
    (¬ ∀ dates : Dates, dates.Plain →
      ∀ item : FetchItem, OneResponse (item.serialize dates)) ∧
    (readResponse ((fetchSubject "a\r\n* 2 EXPUNGE\r\n").serialize epochDates).bytes).map Prod.fst =
      some (asBytes "* 1 FETCH (ENVELOPE (\"Thu, 01 Jan 1970 00:00:00 +0000\" \"a\r\n") := by
  constructor
  · intro h
    have hone := h epochDates epochDates_plain (fetchSubject "a\r\n* 2 EXPUNGE\r\n")
    exact absurd ((FetchItem.oneResponse_serialize epochDates_plain _).mp hone) (by decide +kernel)
  · decide +kernel

end ImapToJmap
