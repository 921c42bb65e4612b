import ImapToJmap.Commands.Fetch
import ImapToJmap.Commands.Selected
import ImapToJmap.Commands.Store
import ImapToJmap.Data.Journal
import ImapToJmap.Job.Basic

/-!
# Polling for changes

What a session tells its client about the flags that others change: `write_changes`, which NOOP and
CHECK call, and the commands that move `last_state`, the state from which it asks for the changes.
STORE, MOVE and EXPUNGE set it to the state that their own update has led to.

The commands are jobs (`Job`), and their calls are the requests to the JMAP server and the FETCH
responses with flags.  Before any call other clients may change keywords; which, and what the server
decides, stands in the `Moment` of the call.  Of keywords only that they change matters here.
-/

namespace ImapToJmap

/-! ## The server -/

/-- The account of the selected mailbox: what has happened to its emails, and the ids of the emails
in the mailbox. -/
structure MailServer where
  journal : Journal String
  mailbox : List String
  nodup : mailbox.Nodup
  alive : ∀ id ∈ mailbox, journal.Alive id

namespace MailServer

theorem alive_append {journal : Journal String} {entry : Changed String} {id : String}
    (h : journal.Alive id) (hentry : id ∉ entry.destroyed) :
    Journal.Alive (journal ++ [entry]) id := by
  intro e he
  rcases List.mem_append.mp he with he | he
  · exact h e he
  · rwa [List.mem_singleton.mp he]

/-- Some emails are updated; `remove` if that takes them out of the mailbox. -/
def update (server : MailServer) (ids : List String) (remove : Bool) : MailServer where
  journal := server.journal ++ [{ updated := ids }]
  mailbox := server.mailbox.filter fun id ↦ !remove || id ∉ ids
  nodup := server.nodup.filter _
  alive id hid := alive_append (server.alive id (List.mem_of_mem_filter hid)) (List.not_mem_nil)

/-- Some emails are destroyed. -/
def destroy (server : MailServer) (ids : List String) : MailServer where
  journal := server.journal ++ [{ destroyed := ids }]
  mailbox := server.mailbox.filter (· ∉ ids)
  nodup := server.nodup.filter _
  alive id hid := by
    obtain ⟨hmem, hnot⟩ := List.mem_filter.mp hid
    exact alive_append (server.alive id hmem) (by simpa using hnot)

end MailServer

/-- What happens that the session can or cannot tell its client of. -/
inductive MailEvent where
  | /-- Another client changes keywords of a message of the mailbox. -/
    changed (id : String)
  | /-- A FETCH response with the flags of the message is sent. -/
    reported (id : String)
  | /-- An `Email/set` of the session is carried out, and the session learns the new state. -/
    set
deriving DecidableEq

/-- What happens at a call: the emails whose keywords other clients change before it, whether it
fails (the response may be lost), and which ids the server accepts for an update, or for a
destruction. -/
structure Moment where
  others : List String := []
  fails : Bool := false
  accepted : List String := []
  destroyed : List String := []

/-- The server, the events so far with the latest first, and the moments to come. -/
structure MailWorld where
  server : MailServer
  log : List MailEvent
  moments : List Moment

/-- Another client changes keywords of an email. -/
def MailWorld.interfere (w : MailWorld) (id : String) : MailWorld :=
  { w with
    server := w.server.update [id] false
    log := if id ∈ w.server.mailbox then .changed id :: w.log else w.log }

/-- What happens at the next call. -/
def MailWorld.moment (w : MailWorld) : Moment := w.moments.headD {}

/-- The world in which the next call is made. -/
def MailWorld.next (w : MailWorld) : MailWorld :=
  w.moment.others.foldl MailWorld.interfere { w with moments := w.moments.tail }

/-! ## Calls -/

/-- The calls of the commands. -/
inductive MailCall where
  | /-- `get_jmap_state` -/
    getState
  | /-- `Email/changes` -/
    changes (sinceState : String)
  | /-- `synchronize_messages`: none of its requests depends on keywords. -/
    synchronizeMessages
  | /-- `Email/set` with updates, and `Email/get` of the keywords if asked for. -/
    update (ids : List String) (remove get : Bool)
  | /-- `Email/copy` to another account with `on_success_destroy_original`. -/
    copy (ids : List String)
  | /-- `Email/query` with `Email/set` that destroys the results, of the given ids if any. -/
    destroy (ids : Option (List String))
  | /-- `Email/get` of the keywords. -/
    get (ids : List String)
  | /-- Write FETCH responses with FLAGS. -/
    write (ids : List String)

/-- The response to `Email/set` with updates: the new state, the ids that were updated, and the
emails of `Email/get`. -/
structure UpdateReply where
  newState : String
  updatedIds : List String
  emails : List String

/-- What a call returns; `none` if it fails. -/
def MailCall.Return : MailCall → Type
  | getState => Option String
  | changes _ => Option (String × EmailChanges)
  | synchronizeMessages => Option MailboxData
  | update .. => Option UpdateReply
  | copy _ => Option (List String × Option (String × List String))
  | destroy _ => Option String
  | get _ => Option (List String)
  | write _ => Unit

/-- What the commands run in.  The server names its states, and the table of UIDs numbers its
messages. -/
structure MailEnvironment where
  stateName : ℕ ↪ String
  uid : String ↪ ℕ
  uid_pos : ∀ id, 0 < uid id
  uidValidity : ℕ
  uidNext : ℕ
  db : AccountDb
  /-- The order in which a map of ids is gone over. -/
  order : IdMap → IdMap
  order_perm : ∀ ids, (order ids).Perm ids
  /-- `slice::chunks`, with as many ids as a request may have. -/
  chunks : List String → List (List String)
  flatten_chunks : ∀ ids, (chunks ids).flatten = ids

namespace MailEnvironment

variable (env : MailEnvironment)

/-- The state of the account. -/
def state (server : MailServer) : String := env.stateName server.journal.length

/-- Where in the journal a state stands. -/
def position? (server : MailServer) (state : String) : Option ℕ :=
  (List.range (server.journal.length + 1)).find? fun k ↦ env.stateName k = state

/-- What `synchronize_messages` finds. -/
def snapshot (server : MailServer) : MailboxData where
  uidNext := env.uidNext
  uidValidity := env.uidValidity
  jmapIds := server.mailbox
  imapUids := server.mailbox.map env.uid
  totalMessages := server.mailbox.length
  lastState := ""

/-- `Email/changes` -/
def changesSince (server : MailServer) (sinceState : String) : Option (String × EmailChanges) :=
  (env.position? server sinceState).map fun k ↦
    let changed := server.journal.since k
    (env.state server, ⟨changed.created, changed.updated, changed.destroyed⟩)

/-- The answer to a call, in the world it is made in. -/
def act (moment : Moment) : (q : MailCall) → MailWorld → q.Return × MailWorld
  | .getState, w => (if moment.fails then none else some (env.state w.server), w)
  | .changes sinceState, w =>
      (if moment.fails then none else env.changesSince w.server sinceState, w)
  | .synchronizeMessages, w => (if moment.fails then none else some (env.snapshot w.server), w)
  | .update ids remove get, w =>
      let updatedIds := ids.filter (· ∈ moment.accepted)
      let server := w.server.update updatedIds remove
      let emails := if get then ids.filter fun id ↦ server.journal.Alive id else []
      if moment.fails then (none, { w with server })
      else (some ⟨env.state server, updatedIds, emails⟩, { w with server, log := .set :: w.log })
  | .copy ids, w =>
      let copied := ids.filter (· ∈ moment.accepted)
      let destroyed := copied.filter (· ∈ moment.destroyed)
      -- without a copy nothing is destroyed, and there is no response to an `Email/set`
      if copied = [] then (if moment.fails then none else some ([], none), w)
      else
        let server := w.server.destroy destroyed
        if moment.fails then (none, { w with server })
        else (some (copied, some (env.state server, destroyed)),
          { w with server, log := .set :: w.log })
  | .destroy ids, w =>
      let destroyed := w.server.mailbox.filter fun id ↦
        id ∈ moment.destroyed && ids.all (id ∈ ·)
      let server := w.server.destroy destroyed
      if moment.fails then (none, { w with server })
      else (some (env.state server), { w with server, log := .set :: w.log })
  | .get ids, w =>
      (if moment.fails then none else some (ids.filter fun id ↦ w.server.journal.Alive id), w)
  | .write ids, w => ((), { w with log := ids.map .reported ++ w.log })

/-- The answer to a call. -/
def answer (q : MailCall) (w : MailWorld) : q.Return × MailWorld := env.act w.moment q w.next

end MailEnvironment

/-! ## Commands -/

/-- A command on the selected mailbox. -/
abbrev MailJob (R : Type) := Job MailCall MailCall.Return R

/-- The selected mailbox with another `last_state`. -/
def SelectedMailbox.withLastState (m : SelectedMailbox) (lastState : String) : SelectedMailbox :=
  { m with state := { m.state with lastState } }

namespace MailJob

/-- Make a call. -/
def ask (q : MailCall) : MailJob q.Return := Job.perform q

variable (env : MailEnvironment) (m : SelectedMailbox)

/-- Write one FETCH response after the other. -/
def writeEach : List String → MailJob Unit
  | [] => pure ()
  | id :: ids => do
      ask (.write [id])
      writeEach ids

/-- `SessionData::fetch` of FLAGS, the second half: a request for each chunk. -/
def fetchChunks (ids : IdMap) : List (List String) → MailJob Unit
  | [] => pure ()
  | chunk :: chunks => do
      match ← ask (.get chunk) with
      | none => pure ()
      | some emails =>
          writeEach (emails.filter (· ∈ ids.keys))
          fetchChunks ids chunks

/-- `SessionData::fetch` of FLAGS and UID, as `write_changes` calls it. -/
def fetchFlags (uids : List ℕ) (isQresync : Bool) : MailJob Unit :=
  let sequenceSet := Sequence.list (uids.map .number)
  match (fetch env.db m ⟨sequenceSet, none, false⟩ true isQresync false fun _ ↦ none).next with
  | .error _ => pure ()
  | .ok ids => fetchChunks ids (env.chunks (env.order ids).keys)

/-- The UIDs of the messages of the view that have changed. -/
def changedUids (state : MailboxData) (changes : EmailChanges) : List ℕ :=
  (state.pairs.filter fun x ↦ x.1 ∈ changes.updated ∨ x.1 ∈ changes.created).map Prod.snd

/-- `SessionData::write_changes`, for the emails: NOOP and CHECK. -/
def writeChanges (isQresync : Bool) : MailJob SelectedMailbox := do
  match ← ask (.changes m.state.lastState) with
  | none => pure m
  | some (newState, changes) =>
      match ← ask .synchronizeMessages with
      | none => pure m
      | some snapshot =>
          let m := m.apply (.synchronize snapshot true)
          if changes.created.length + changes.updated.length + changes.destroyed.length =
            0 then pure m
          else
            let m := m.withLastState newState
            let changedIds := changedUids m.state changes
            if changedIds = [] then pure m
            else
              fetchFlags env m changedIds isQresync
              pure m

/-- `store::Arguments` -/
structure StoreArguments where
  sequence : Sequence
  isUid : Bool
  unchangedSince : Option ℕ
  isSilent : Bool

/-- The state for which STORE asks for the changes. -/
def StoreArguments.asks (arguments : StoreArguments) : Option String :=
  match m.sequenceToJmap arguments.sequence arguments.isUid, arguments.unchangedSince with
  | .ok (_ :: _), some modseq => (env.db.modseqToState (modseq % 2 ^ 32)).join
  | _, _ => none

/-- The changes that STORE looks at. -/
def StoreArguments.changes (arguments : StoreArguments) : MailJob (Option EmailChanges) :=
  match arguments.asks env m with
  | none => pure none
  | some state => do
      let reply ← ask (.changes state)
      pure (reply.map Prod.snd)

/-- `SessionData::store` -/
def storeFlags (arguments : StoreArguments) : MailJob SelectedMailbox := do
  let changes ← arguments.changes env m
  match store env.order env.db.modseqToState (fun _ ↦ changes) m arguments.sequence arguments.isUid
      arguments.unchangedSince with
  | .error _ => pure m
  | .ok request =>
      if request.ids = [] then pure m
      else
        match ← ask (.update (env.order request.ids).keys false (!arguments.isSilent)) with
        | none => pure m
        | some reply =>
            ask (.write (reply.emails.filter (· ∈ request.ids.keys)))
            pure (m.withLastState reply.newState)

/-- `SessionData::copy_move`, for MOVE; `mapped` if the database numbers the copies. -/
def moveMessages (sequence : Sequence) (isUid : Bool) (dest : MailboxId) (mapped : Bool) :
    MailJob SelectedMailbox :=
  match m.sequenceToJmap sequence isUid with
  | .error _ | .ok [] => pure m
  | .ok ids =>
      if m.id.accountId = dest.accountId then do
        match ← ask (.update (env.order ids).keys m.id.mailboxId.isSome false) with
        | none => pure m
        | some reply =>
            let m := m.withLastState reply.newState
            if reply.updatedIds = [] ∨ mapped = false then pure m
            else pure (m.apply (.move reply.updatedIds))
      else do
        match ← ask (.copy (env.order ids).keys) with
        | none => pure m
        | some (copiedIds, set) =>
            let m := set.elim m fun set ↦ m.withLastState set.1
            if copiedIds = [] ∨ mapped = false then pure m
            else pure (m.apply (.move (set.elim [] Prod.snd)))

/-- `Session::handle_expunge` -/
def expungeMessages (sequence : Option Sequence) : MailJob SelectedMailbox :=
  let ids := match sequence with
    | none => Except.ok none
    | some sequence => (m.sequenceToJmap sequence true).map fun ids ↦ some (env.order ids).keys
  match ids with
  | .error _ => pure m
  | .ok ids => do
      match ← ask (.destroy ids) with
      | none => pure m
      | some newState => do
          let snapshot ← ask .synchronizeMessages
          pure (m.apply (.expunge snapshot newState))

/-- `Session::handle_select`, for the view and `last_state`. -/
def selectMailbox (id : MailboxId) (isSelect : Bool) : MailJob (Option SelectedMailbox) := do
  match ← ask .synchronizeMessages with
  | none => pure none
  | some state =>
      match ← ask .getState with
      | none => pure none
      | some lastState => pure (some ⟨id, { state with lastState }, .none, isSelect⟩)

end MailJob

/-! ## Histories -/

/-- The commands of the history but SELECT. -/
inductive MailCommand where
  | store (arguments : MailJob.StoreArguments)
  | move (sequence : Sequence) (isUid : Bool) (dest : MailboxId) (mapped : Bool)
  | expunge (sequence : Option Sequence)
  | /-- NOOP and CHECK. -/
    noop (isQresync : Bool)

/-- The job of a command. -/
def MailCommand.job (env : MailEnvironment) (m : SelectedMailbox) : MailCommand →
    MailJob SelectedMailbox
  | .store arguments => MailJob.storeFlags env m arguments
  | .move sequence isUid dest mapped =>
      -- `handle_copy_move` refuses a move within the mailbox
      if m.id = dest then pure m else MailJob.moveMessages env m sequence isUid dest mapped
  | .expunge sequence => MailJob.expungeMessages env m sequence
  | .noop isQresync => MailJob.writeChanges env m isQresync

/-- A command of the session with the moments of its calls; a SELECT finds an account as it is. -/
inductive MailInput where
  | select (id : MailboxId) (isSelect : Bool) (server : MailServer) (moments : List Moment)
  | command (command : MailCommand) (moments : List Moment)

/-- A session with a mailbox selected, and the account of that mailbox. -/
abbrev Watching := SelectedMailbox × MailWorld

/-- One command after the other; before the first SELECT there is nothing to watch. -/
def watch (env : MailEnvironment) : Option Watching → MailInput → Option Watching
  | s, .select id isSelect server moments =>
      match (MailJob.selectMailbox id isSelect).run env.answer ⟨server, [], moments⟩ with
      | (some m, w) => some (m, { w with log := [] })
      | (none, _) => s
  | some (m, w), .command command moments =>
      some ((command.job env m).run env.answer { w with moments })
  | none, .command .. => none

end ImapToJmap
