import ImapToJmap.Commands.Acl
import ImapToJmap.Commands.Store
import ImapToJmap.Imap.Client
import ImapToJmap.Parser.Arguments
import ImapToJmap.Parser.Select
import ImapToJmap.Run.Basic

/-!
# What the handlers unwrap

The handlers of SELECT, of the commands of ACL, and of STORE, FETCH, SEARCH, APPEND, COPY and MOVE,
each from its tokens to the point where all of its arguments have been looked at.  Parsers look
before they unwrap, and what the handlers unwrap has been looked at by the parser, or by the handler
itself, but for one place.  SELECT takes the known UIDs of QRESYNC, or those of the sequence match
data, and the parser accepts a QRESYNC without both.

`sound_handle_iff` says when a handler unwraps what is not there, and `along_sound_iff` the same of
the runs of a session.
-/

namespace ImapToJmap.Imap

open Fallible Run

/-- Why a handler ends, without a panic, before its arguments have been used. -/
inductive HandlerError where
  | select (error : Select.ParseError)
  | acl (error : AclError)
  | fetch (error : Fetch.ParseError)
  | arguments (error : ArgumentError)
  | /-- The mailboxes could not be brought up to date. -/
    mailboxes
  | /-- `Mailbox does not exist.` or `Destination mailbox does not exist.` -/
    nonExistent
  | /-- `Appending messages to this mailbox is not allowed.` -/
    notAllowed
  | /-- `Source and destination mailboxes are the same.` -/
    sameMailbox
  | sequence (error : SequenceError)
  | /-- `No messages were found.` -/
    noMessages
  | /-- No mailbox is selected: it is not the arguments that the handler misses. -/
    notSelected

/-- What the handlers are answered when they ask the server, the database and the clock. -/
structure World where
  readers : ArgumentReaders
  select : SelectContext
  changesEmail : String → Option Jmap.Changes
  emailChanges : String → Option EmailChanges
  order : IdMap → IdMap
  now : ℕ
  savedSearch : Option (List ImapId)
  pages : List (Option QueryPage)
  snapshot : Except SearchError MailboxData

/-- A message that is sent to the server. -/
structure AppendCall where
  accountId : String
  mailboxId : String
  message : Append.Message

/-- What a handler has made of its arguments. -/
inductive Done where
  | select (outcome : SelectOutcome)
  | acl (outcome : AclOutcome)
  | store (request : Except StoreError StoreRequest)
  | fetch (start : FetchStart)
  | search (response : Option (Except SearchError (SearchResponse × SelectedMailbox)))
  | append (calls : List AppendCall)
  | /-- The account, and the emails with the mailbox that they are put into. -/
    copy (accountId : String) (emails : List (String × String))
  | /-- The command is none of these. -/
    other

/-- The fields of the session that SELECT reads. -/
def Session.select (s : Session) : SelectSession where
  isCondstore := s.isCondstore
  isQresync := s.isQresync
  isMailboxSelected := s.state.mailbox?.isSome
  isRev2 := s.version = .rev2

namespace World

variable (w : World) (s : Session) (request : Request Command)

def handleSelect : Fallible HandlerError Done := do
  let arguments ← convert .select (Select.parseSelect s.select.isRev2 request)
  let outcome :=
    w.select.handleSelect s.select arguments (request.command = .select) w.changesEmail
  if outcome.status = .panics then .error .panics else .ok (.select outcome)

/-- The selected mailbox. -/
def selected : Except HandlerError SelectedMailbox :=
  s.state.mailbox?.elim (.error .notSelected) .ok

def handleStore (isUid : Bool) : Fallible HandlerError Done := do
  let arguments ← lift .arguments (Store.parseStore request)
  let m ← lift id (selected s)
  .ok (.store (store w.order (w.select.db m.id.accountId).modseqToState w.emailChanges m
    arguments.sequenceSet isUid arguments.unchangedSince))

def handleFetch (isUid : Bool) : Fallible HandlerError Done := do
  let arguments ← lift .fetch (Fetch.parseFetch request)
  let m ← lift id (selected s)
  let enabledCondstore :=
    (!s.isCondstore && arguments.changedSince.isSome) || arguments.attributes.contains .modSeq
  .ok (.fetch (fetch (w.select.db m.id.accountId) m
    ⟨arguments.sequenceSet, arguments.changedSince, arguments.includeVanished⟩ isUid s.isQresync
    enabledCondstore w.changesEmail))

def handleSearch (isUid : Bool) : Fallible HandlerError Done := do
  let arguments ← convert .arguments (Search.parseSearch w.readers s.select.isRev2 request)
  let m ← lift id (selected s)
  let c : SearchContext :=
    { db := w.select.db m.id.accountId
      mailbox := m
      order := w.order
      now := w.now
      prevSavedSearch := if arguments.has .save then some w.savedSearch else none
      isUid := isUid }
  .ok (.search (c.search arguments w.changesEmail w.pages w.snapshot))

/-- The mailbox that messages are put into. -/
def destination (mailboxName : String) : Except HandlerError MailboxId :=
  if !w.select.synchronizeMailboxes then .error .mailboxes
  else
    match w.select.getMailboxByName mailboxName with
    | some mailbox => if mailbox.mailboxId.isSome then .ok mailbox else .error .notAllowed
    | none => .error .nonExistent

/-- One turn of the loop over the messages. -/
def appendMessage (mailbox : MailboxId) (message : Append.Message) :
    Fallible HandlerError AppendCall := do
  let mailboxId ← unwrap mailbox.mailboxId
  .ok ⟨mailbox.accountId, mailboxId, message⟩

def handleAppend : Fallible HandlerError Done := do
  let arguments ← convert .arguments (Append.parseAppend w.readers request)
  let mailbox ← lift id (w.destination arguments.mailboxName)
  let calls ← arguments.messages.mapM (appendMessage mailbox)
  .ok (.append calls)

/-- One turn of the loop over the emails. -/
def copyEmail (mailbox : MailboxId) (id : String) : Fallible HandlerError (String × String) := do
  let mailboxId ← unwrap mailbox.mailboxId
  .ok (id, mailboxId)

/-- The emails that are copied. -/
def copied (m : SelectedMailbox) (mailbox : MailboxId) (sequenceSet : Sequence) (isUid : Bool) :
    Except HandlerError IdMap :=
  if m.id.accountId = mailbox.accountId ∧ m.id.mailboxId = mailbox.mailboxId then
    .error .sameMailbox
  else
    match m.sequenceToJmap sequenceSet isUid with
    | .ok [] => .error .noMessages
    | .ok ids => .ok ids
    | .error e => .error (.sequence e)

def handleCopyMove (isUid : Bool) : Fallible HandlerError Done := do
  let arguments ← lift .arguments (CopyMove.parseCopyMove request)
  let m ← lift id (selected s)
  let mailbox ← lift id (w.destination arguments.mailboxName)
  let ids ← lift id (copied m mailbox arguments.sequenceSet isUid)
  let emails ← ids.keys.mapM (copyEmail mailbox)
  .ok (.copy mailbox.accountId emails)

/-- A handler of ACL. -/
def handleAcl (outcome : Fallible AclError AclOutcome) : Fallible HandlerError Done :=
  convert .acl outcome >>= fun outcome ↦ .ok (.acl outcome)

/-- The handlers of these commands. -/
def handle : Fallible HandlerError Done :=
  match request.command with
  | .select | .examine => w.handleSelect s request
  | .store isUid => w.handleStore s request isUid
  | .fetch isUid => w.handleFetch s request isUid
  | .search isUid => w.handleSearch s request isUid
  | .append => w.handleAppend request
  | .copy isUid => w.handleCopyMove s request isUid
  | .move isUid => w.handleCopyMove s request isUid
  | .setAcl => handleAcl (handleSetAcl w.select.getMailboxByName request)
  | .deleteAcl => handleAcl (handleDeleteAcl w.select.getMailboxByName request)
  | .getAcl => handleAcl (handleGetAcl w.select.getMailboxByName request)
  | .myRights => handleAcl (handleMyRights w.select.getMailboxByName request)
  | .listRights => handleAcl (handleListRights request)
  | _ => .ok .other

end World

/-! ## What is unwrapped -/

section Sound

variable {w : World} {s : Session} {request : Request Command} {isUid : Bool}

theorem sound_handleStore : Sound (w.handleStore s request isUid) := by
  refine sound_bind (sound_lift _ _) fun _ _ ↦ ?_
  exact sound_bind (sound_lift _ _) fun _ _ ↦ sound_ok _

theorem sound_handleFetch : Sound (w.handleFetch s request isUid) := by
  refine sound_bind (sound_lift _ _) fun _ _ ↦ ?_
  exact sound_bind (sound_lift _ _) fun _ _ ↦ sound_ok _

theorem sound_handleSearch : Sound (w.handleSearch s request isUid) := by
  refine sound_bind (sound_convert_iff.mpr (Search.sound_parseSearch _ _ _)) fun _ _ ↦ ?_
  exact sound_bind (sound_lift _ _) fun _ _ ↦ sound_ok _

theorem isSome_destination {mailboxName : String} {mailbox : MailboxId}
    (h : w.destination mailboxName = .ok mailbox) : mailbox.mailboxId.isSome = true := by
  rw [World.destination] at h
  split at h
  · cases h
  · split at h
    · split at h
      · cases h
        assumption
      · cases h
    · cases h

theorem sound_handleAppend : Sound (w.handleAppend request) := by
  refine sound_bind (sound_convert_iff.mpr (Append.sound_parseAppend _ _)) fun arguments _ ↦ ?_
  refine sound_bind (sound_lift _ _) fun mailbox hmailbox ↦ ?_
  have hid : mailbox.mailboxId.isSome = true := isSome_destination (lift_eq_ok_iff.mp hmailbox)
  refine sound_bind (sound_mapM fun message _ ↦ ?_) fun _ _ ↦ sound_ok _
  exact sound_bind (sound_unwrap_iff.mpr hid) fun _ _ ↦ sound_ok _

theorem sound_handleCopyMove : Sound (w.handleCopyMove s request isUid) := by
  refine sound_bind (sound_lift _ _) fun arguments _ ↦ ?_
  refine sound_bind (sound_lift _ _) fun m _ ↦ ?_
  refine sound_bind (sound_lift _ _) fun mailbox hmailbox ↦ ?_
  have hid : mailbox.mailboxId.isSome = true := isSome_destination (lift_eq_ok_iff.mp hmailbox)
  refine sound_bind (sound_lift _ _) fun ids _ ↦ ?_
  refine sound_bind (sound_mapM fun id _ ↦ ?_) fun _ _ ↦ sound_ok _
  exact sound_bind (sound_unwrap_iff.mpr hid) fun _ _ ↦ sound_ok _

theorem sound_handleAcl {outcome : Fallible AclError AclOutcome} (h : Sound outcome) :
    Sound (World.handleAcl outcome) :=
  sound_bind (sound_convert_iff.mpr h) fun _ _ ↦ sound_ok _

/-- A SELECT or EXAMINE whose last QRESYNC has neither known UIDs nor sequence match data, although
QRESYNC is enabled, of a mailbox that opens with the UIDVALIDITY it names. -/
structure Trips (w : World) (s : Session) (request : Request Command) : Prop where
  command : request.command = .select ∨ request.command = .examine
  text : ∃ arguments qresync, Select.SelectText s.select.isRev2 request.tokens arguments ∧
    arguments.qresync = some qresync ∧ qresync.knownUids = none ∧ qresync.seqMatch = none ∧
    s.isQresync = true ∧ w.select.Opens s.select arguments qresync.uidValidity

theorem sound_handleSelect_iff (h : request.command = .select ∨ request.command = .examine) :
    Sound (w.handleSelect s request) ↔ ¬ Trips w s request := by
  have hparse : Sound (convert HandlerError.select (Select.parseSelect s.select.isRev2 request)) :=
    sound_convert_iff.mpr (Select.sound_parseSelect _ _)
  rw [World.handleSelect, sound_bind_iff hparse]
  constructor
  · rintro hsound ⟨-, arguments, qresync, htext, hqresync, huids, hmatch, hq, hopens⟩
    have hok : convert HandlerError.select (Select.parseSelect s.select.isRev2 request) =
        .ok arguments := convert_eq_ok_iff.mpr (Select.parseSelect_eq_ok_iff.mpr htext)
    have hpanics : (w.select.handleSelect s.select arguments (request.command = .select)
        w.changesEmail).status = .panics :=
      SelectContext.handleSelect_panics_iff.mpr ⟨qresync, hqresync, huids, hmatch, hq, hopens⟩
    have := hsound arguments hok
    rw [if_pos hpanics] at this
    exact not_sound_panics this
  · intro hnot arguments hok
    have htext : Select.SelectText s.select.isRev2 request.tokens arguments :=
      Select.parseSelect_eq_ok_iff.mp (convert_eq_ok_iff.mp hok)
    rw [if_neg]
    · exact sound_ok _
    · intro hpanics
      obtain ⟨qresync, hqresync, huids, hmatch, hq, hopens⟩ :=
        SelectContext.handleSelect_panics_iff.mp hpanics
      exact hnot ⟨h, arguments, qresync, htext, hqresync, huids, hmatch, hq, hopens⟩

/-- **One command.** -/
theorem sound_handle_iff : Sound (w.handle s request) ↔ ¬ Trips w s request := by
  have hother : ∀ {outcome : Fallible HandlerError Done}, Sound outcome →
      (request.command ≠ .select ∧ request.command ≠ .examine) →
      (Sound outcome ↔ ¬ Trips w s request) := by
    intro outcome houtcome hne
    refine iff_of_true houtcome fun h ↦ ?_
    rcases h.command with hselect | hexamine
    · exact hne.1 hselect
    · exact hne.2 hexamine
  rw [World.handle]
  split
  case h_1 hcommand => exact sound_handleSelect_iff (.inl hcommand)
  case h_2 hcommand => exact sound_handleSelect_iff (.inr hcommand)
  case h_3 hcommand => exact hother sound_handleStore (by simp [hcommand])
  case h_4 hcommand => exact hother sound_handleFetch (by simp [hcommand])
  case h_5 hcommand => exact hother sound_handleSearch (by simp [hcommand])
  case h_6 hcommand => exact hother sound_handleAppend (by simp [hcommand])
  case h_7 hcommand => exact hother sound_handleCopyMove (by simp [hcommand])
  case h_8 hcommand => exact hother sound_handleCopyMove (by simp [hcommand])
  case h_9 hcommand =>
    exact hother (sound_handleAcl (sound_handleSetAcl hcommand)) (by simp [hcommand])
  case h_10 hcommand =>
    exact hother (sound_handleAcl (sound_handleDeleteAcl hcommand)) (by simp [hcommand])
  case h_11 hcommand =>
    exact hother (sound_handleAcl (sound_handleGetAcl hcommand)) (by simp [hcommand])
  case h_12 hcommand =>
    exact hother (sound_handleAcl (sound_handleMyRights hcommand)) (by simp [hcommand])
  case h_13 hcommand =>
    exact hother (sound_handleAcl (sound_handleListRights hcommand)) (by simp [hcommand])
  case h_14 => exact hother (sound_ok _) ⟨by assumption, by assumption⟩

end Sound

/-! ## Runs -/

/-- A command of a session, with what its handler meets. -/
structure Turn where
  call : Call
  answer : Answer
  world : World

/-- The session after it. -/
def Turn.next (base64 : String → Option Bytes) (s : Session) (t : Turn) : Session :=
  (s.handle base64 t.call t.answer).session

/-- **No command of a run unwraps what is not there**, if and only if none is such a SELECT. -/
theorem along_sound_iff (base64 : String → Option Bytes) (s : Session) (turns : List Turn) :
    Along (Turn.next base64) (fun s t ↦ Sound (t.world.handle s t.call.request)) s turns ↔
      Along (Turn.next base64) (fun s t ↦ ¬ Trips t.world s t.call.request) s turns :=
  along_congr fun _ _ ↦ sound_handle_iff

/-! ## A client that knows no UIDs -/

/-- A server with an empty INBOX, whose UIDVALIDITY is 7. -/
def emptyInbox : World where
  readers := ⟨fun _ ↦ none, fun _ ↦ none, fun _ ↦ none⟩
  select := {
    synchronizeMailboxes := true
    getMailboxByName := fun name ↦ if name = "INBOX" then some ⟨"a", some "b"⟩ else none
    synchronizeMessages := fun _ ↦ some ⟨1, 7, [], [], 0, "s"⟩
    getJmapState := fun _ ↦ some "s"
    db := fun _ ↦ ⟨fun _ ↦ none, fun _ ↦ some 1, fun _ ↦ none⟩ }
  changesEmail := fun _ ↦ none
  emailChanges := fun _ ↦ none
  order := id
  now := 0
  savedSearch := none
  pages := []
  snapshot := .error .server

/-- Nothing fails, and ENABLE is asked for QRESYNC. -/
def willing : Answer where
  parsed := true
  isSeparatorQuery := false
  enable := [.qResync]
  asksModSeq := false
  asksSeen := false
  destination := true
  connected := true
  mailboxesFetched := true
  purged := true
  opened := none
  eventSource := true

/-- `LOGIN jdoe secret` and `ENABLE QRESYNC` -/
def enabling : List Turn := [
  ⟨⟨⟨"1", .login, [.argument (asBytes "jdoe"), .argument (asBytes "secret")]⟩, []⟩, willing,
    emptyInbox⟩,
  ⟨⟨⟨"2", .enable, [.argument (asBytes "QRESYNC")]⟩, []⟩, willing, emptyInbox⟩]

/-- `SELECT INBOX (QRESYNC (7 1))` -/
def bareQresync : Request Command := ⟨"3", .select, [
  .argument (asBytes "INBOX"), .parenthesisOpen, .argument (asBytes "QRESYNC"), .parenthesisOpen,
  .argument (asBytes "7"), .argument (asBytes "1"), .parenthesisClose, .parenthesisClose]⟩

/-- The tokens inside the parenthesis are a QRESYNC. -/
theorem bareQresync_text : Select.QResyncText [.argument (asBytes "7"), .argument (asBytes "1")]
    ⟨7, 1, none, none⟩ := by
  have hvalidity : parseNumber 32 (Token.argument (asBytes "7")).unwrapBytes =
      some (QResync.mk 7 1 none none).uidValidity := by decide +kernel
  have hmodseq : parseNumber 64 (Token.argument (asBytes "1")).unwrapBytes =
      some (QResync.mk 7 1 none none).modseq := by decide +kernel
  exact .intro hvalidity hmodseq .absent .absent

/-- The parser accepts a QRESYNC with neither set, and the handler unwraps the second. -/
theorem select_panics : ¬ Along (Turn.next fun _ ↦ none)
    (fun s t ↦ Sound (t.world.handle s t.call.request)) (Session.new 8192 true)
    (enabling ++ [⟨⟨bareQresync, []⟩, willing, emptyInbox⟩]) := by
  intro h
  have hsound := (along_append.mp h).2.1
  have hname : (Token.argument (asBytes "INBOX")).unwrapString = some "INBOX" := by decide +kernel
  have hqresync : eqIgnoreAsciiCase (asBytes "QRESYNC") (asBytes "QRESYNC") =
    true := by decide +kernel
  have hdecode : utf7MaybeDecode "INBOX" false = "INBOX" := by decide +kernel
  refine sound_handle_iff.mp hsound ⟨.inl rfl, _, ⟨7, 1, none, none⟩,
    .parameters hname (.qresync hqresync bareQresync_text (.close [])), rfl, rfl, rfl, rfl, rfl, ?_⟩
  refine ⟨⟨"a", some "b"⟩, ⟨1, 7, [], [], 0, "s"⟩, "s", ?_, rfl, rfl, fun _ ↦ rfl, rfl⟩
  show emptyInbox.select.getMailboxByName (utf7MaybeDecode "INBOX" false) = _
  rw [hdecode]
  rfl

end ImapToJmap.Imap
