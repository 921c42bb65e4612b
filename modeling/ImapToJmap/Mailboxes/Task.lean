import ImapToJmap.Mailboxes.Section
import ImapToJmap.Protocol.Basic

/-!
# The tasks of a session

The commands on mailboxes, each as the calls it makes: `core/mailbox.rs`, and CREATE, RENAME,
DELETE, SUBSCRIBE, LIST and STATUS.  Every one of them looks a mailbox up, lets go of the lock for
a request, and takes the lock again to edit the cache by what it remembers.
-/

namespace ImapToJmap

open Jmap SessionM

/-! ## Fetching -/

/-- The loop of `fetch_account_mailboxes` over the pages of the listing. -/
def fetchPages (accountId : String) :
    ℕ → ℕ → String → List MailboxObject → SessionM (Option (String × List MailboxObject))
  | 0, _, mailboxState, result => pure (some (mailboxState, result))
  | n + 1, position, _, result => do
      match ← jmap (.queryMailboxes (some accountId) position) with
      | none => pure none
      | some page =>
          let result := result ++ page.list
          if page.list ≠ [] ∧ result.length < page.total.getD 0 then
            fetchPages accountId n (position + page.list.length) page.state result
          else pure (some (page.state, result))

/-- `Core::fetch_account_mailboxes` -/
def fetchAccountMailboxes (accountId : String) (namePrefix : Option String) :
    SessionM (Option Account) := do
  match ← fetchPages accountId 100 0 "" [] with
  | none => pure none
  | some (mailboxState, result) => pure (Account.ofListing accountId namePrefix mailboxState result)

/-- Fetch the mailboxes of several accounts, leaving out those that fail. -/
def fetchAccounts : List (String × Option String) → SessionM (List Account)
  | [] => pure []
  | (accountId, namePrefix) :: rest => do
      let account ← fetchAccountMailboxes accountId namePrefix
      let accounts ← fetchAccounts rest
      pure (account.toList ++ accounts)

/-- The prefix of a shared account; an account that is not in the session has no name. -/
def sharedPrefix (folders : Folders) (session : List (String × String)) (accountId : String) :
    String :=
  folders.folderShared ++ "/" ++ (session.lookup accountId).getD ""

/-- `Core::fetch_mailboxes`, which a session begins with. -/
def fetchMailboxes (folders : Folders) : SessionM (Option (List Account)) := do
  match ← fetchAccountMailboxes folders.defaultAccountId none with
  | none => pure none
  | some account =>
      let session ← jmap .session
      let shared := session.filter fun a ↦ a.1 ≠ folders.defaultAccountId
      let accounts ← fetchAccounts (shared.map fun a ↦
        (a.1, some (sharedPrefix folders session a.1)))
      pure (some (account :: accounts))

/-- The first part of `synchronize_mailboxes`: if the session has changed, drop the accounts that
are gone and fetch those that are new. -/
def linkAccounts (folders : Folders) (forceSessionRefresh : Bool) :
    SessionM (Except StatusResponse (List String × List Account)) := do
  let isSessionUpdated ← jmap .isSessionUpdated
  if forceSessionRefresh || !isSessionUpdated then
    match ← jmap .refreshSession with
    | .error err => pure (.error err)
    | .ok _ =>
        let session ← jmap .session
        let (deleted, addedIds) ← locked (.unlink session)
        let added ← fetchAccounts (addedIds.map fun id ↦
          (id, some (sharedPrefix folders session id)))
        pure (.ok (deleted, added))
  else pure (.ok ([], []))

/-- Whether the changes are such that only counts have to be forgotten. -/
def Jmap.Changes.resetStats (changes : Changes) (returnChanges : Bool) : Bool :=
  changes.created.isEmpty && changes.destroyed.isEmpty &&
    (changes.updated.isEmpty ||
      !changes.updatedProperties.all fun p ↦ p.isEmpty || p.any fun isCount ↦ !isCount) &&
    !returnChanges

/-- The loop over the changes of the accounts, with the ids of those to be refetched.  The id of
these has been taken out of the response when the state is entered, so that it is entered for none
of the accounts. -/
def applyChanges (returnChanges : Bool) : List (Option Changes) → SessionM (List String)
  | [] => pure []
  | none :: rest => applyChanges returnChanges rest
  | some changes :: rest =>
      if changes.created.length + changes.updated.length + changes.destroyed.length = 0 then
        applyChanges returnChanges rest
      else do
        let resetStats := changes.resetStats returnChanges
        let accountId := if resetStats then changes.accountId else ""
        locked (.change accountId changes.newState resetStats)
        let changed ← applyChanges returnChanges rest
        pure (if resetStats then changed else changes.accountId :: changed)

/-- `SessionData::synchronize_mailboxes` -/
def synchronizeMailboxes (folders : Folders) (returnChanges forceSessionRefresh : Bool) :
    SessionM (Except StatusResponse MailboxSync) := do
  match ← linkAccounts folders forceSessionRefresh with
  | .error err => pure (.error err)
  | .ok (deleted, added) =>
      let accounts ← locked .mailboxStates
      match ← jmap (.changesMailbox accounts) with
      | .error err => pure (.error err)
      | .ok responses =>
          let changedIds ← applyChanges returnChanges responses
          let session ← jmap .session
          let changed ← fetchAccounts (changedIds.map fun id ↦
            (id, if id = folders.defaultAccountId then none
              else some (sharedPrefix folders session id)))
          let changes : MailboxSync := ⟨[], [], deleted⟩
          if changed.isEmpty && added.isEmpty then pure (.ok changes)
          else
            let changes ← locked (.update changes changed added)
            pure (.ok changes)

/-! ## CREATE and RENAME -/

/-- The mailboxes to be created along a path, each in the one before it. -/
def createItems (params : CreateParams) (role : Role) : List MailboxCreate :=
  params.path.zipIdx.map fun (item, pos) ↦ {
    name := item
    parent := match pos with
      | 0 => .id params.parentMailboxId
      | pos + 1 => .created pos
    role := if pos + 1 = params.path.length then role else .none }

/-- The ids of the created mailboxes. -/
def createdIds (params : CreateParams) (response : MailboxSet) : Except String (List String) :=
  (List.range params.path.length).mapM response.created

/-- `SessionData::create_folder` -/
def createFolder (folders : Folders) (mailboxName : String) (role : Role) :
    SessionM StatusResponse := do
  match ← synchronizeMailboxes folders false false with
  | .error err => pure err
  | .ok _ =>
      match ← locked (.validateCreate mailboxName) with
      | .error message => pure (.no message)
      | .ok params =>
          match ← jmap (.setMailbox (some params.accountId) (createItems params role) none) with
          | .error err => pure err
          | .ok response =>
              match createdIds params response with
              | .error message => pure (.no message)
              | .ok mailboxIds =>
                  match ← locked (.addCreated params mailboxIds response.newState
                      response.hasUpdated) with
                  | .error message => pure (.no message)
                  | .ok mailboxId =>
                      pure ((StatusResponse.ok "Mailbox created.").withCode (.mailboxId mailboxId))

/-- `SessionData::rename_folder` -/
def renameFolder (folders : Folders) (mailboxName newMailboxName : String) :
    SessionM StatusResponse := do
  match ← synchronizeMailboxes folders false false with
  | .error err => pure err
  | .ok _ =>
      match ← locked (.validateCreate newMailboxName) with
      | .error message => pure (.no message)
      | .ok params =>
          match ← locked (.renameSource mailboxName params.accountId) with
          | .error response => pure response
          | .ok mailboxId =>
              let newName := params.path.getLastD ""
              let params := { params with path := params.path.dropLast }
              match ← jmap (.setMailbox (some params.accountId) (createItems params .none) (some {
                  id := mailboxId
                  name := newName
                  parent := match params.path.length with
                    | 0 => .id params.parentMailboxId
                    | pos + 1 => .created pos })) with
              | .error err => pure err
              | .ok response =>
                  match createdIds params response with
                  | .error message => pure (.no message)
                  | .ok mailboxIds =>
                      let created := if params.path.isEmpty then none else some mailboxIds
                      match ← locked (.rename mailboxName mailboxId params created response) with
                      | .error response => pure response
                      | .ok _ => pure (.ok "RENAME completed")

/-! ## DELETE and SUBSCRIBE -/

/-- `SessionData::delete_folder` -/
def deleteFolder (folders : Folders) (mailboxName : String) : SessionM StatusResponse := do
  match ← synchronizeMailboxes folders false false with
  | .error err => pure err
  | .ok _ =>
      match ← locked (.deleteTarget mailboxName) with
      | .error response => pure response
      | .ok (accountId, mailboxId, deleteUidCache) =>
          match ← jmap (.mailboxDestroy mailboxId true) with
          | .error err => pure err
          | .ok _ =>
              if deleteUidCache then
                database (.deleteMailbox accountId mailboxId)
              locked (.delete accountId mailboxName mailboxId)
              pure (.ok "Mailbox deleted.")

/-- `SessionData::subscribe_folder` -/
def subscribeFolder (folders : Folders) (mailboxName : String) (isSubscribed : Bool) :
    SessionM StatusResponse := do
  match ← synchronizeMailboxes folders false false with
  | .error err => pure err
  | .ok _ =>
      match ← locked (.mailboxByName mailboxName) with
      | none => pure ((StatusResponse.no "Mailbox does not exist.").withCode .nonExistent)
      | some ⟨_, none⟩ =>
          pure <|
            (StatusResponse.no "Subscribing to this mailbox is not supported.").withCode .cannot
      | some ⟨accountId, some mailboxId⟩ =>
          match ← jmap (.mailboxSubscribe mailboxId isSubscribed) with
          | .error err => pure err
          | .ok _ =>
              locked (.subscribe accountId mailboxId isSubscribed)
              pure (.ok (if isSubscribed then "Mailbox subscribed." else "Mailbox unsubscribed."))

/-! ## STATUS and LIST -/

/-- The loop of `synchronize_messages` over the pages of the listing. -/
def listMessages (mailbox : MailboxId) :
    ℕ → ℕ → List String → SessionM (Except StatusResponse (List String))
  | 0, _, validIds => pure (.ok validIds)
  | n + 1, position, validIds => do
      match ← jmap (.queryEmail (some mailbox.accountId)
          (mailbox.mailboxId.map fun id ↦ .condition (.inMailbox id)) none position) with
      | .error err => pure (.error err)
      | .ok page =>
          let validIds := validIds ++ page.items
          if page.items ≠ [] ∧ validIds.length < page.total.getD 0 then
            listMessages mailbox n (position + page.items.length) validIds
          else pure (.ok validIds)

/-- `SessionData::synchronize_messages` -/
def synchronizeMessages (mailbox : MailboxId) : SessionM (Except StatusResponse MailboxData) := do
  match ← listMessages mailbox 100 0 [] with
  | .error err => pure (.error err)
  | .ok validIds =>
      match ← database (.updateUids mailbox validIds) with
      | some data => pure (.ok data)
      | none => pure (.error .databaseFailure)

/-- `SessionData::get_jmap_state` -/
def getJmapState (accountId : String) : SessionM (Except StatusResponse String) := do
  match ← jmap (.getEmail (some accountId) [] []) with
  | .error err => pure (.error err)
  | .ok (state, _) => pure (.ok state)

/-- `SessionData::synchronize_state` -/
def synchronizeState (accountId : String) : SessionM (Except StatusResponse ℕ) := do
  match ← getJmapState accountId with
  | .error err => pure (.error err)
  | .ok state =>
      match ← database (.stateToModseq accountId state) with
      | some modseq => pure (.ok modseq)
      | none => pure (.error .databaseFailure)

/-- The filter of a query for a number of messages. -/
def totalFilter (mailbox : MailboxId) (condition : Condition) : Query :=
  .operator .and ((mailbox.mailboxId.map fun id ↦ Query.condition (.inMailbox id)).toList ++
    [.condition condition])

/-- The loop that adds up the sizes of the messages of a mailbox. -/
def addSizes (mailbox : MailboxId) (maxObjectsInGet : ℕ) :
    ℕ → ℕ → ℕ → SessionM (Except StatusResponse ℕ)
  | 0, _, mailboxSize => pure (.ok mailboxSize)
  | n + 1, position, mailboxSize => do
      match ← jmap (.querySizes (some mailbox.accountId)
          (mailbox.mailboxId.map fun id ↦ .condition (.inMailbox id)) position maxObjectsInGet) with
      | .error err => pure (.error err)
      | .ok page =>
          let position := position + page.items.length
          let mailboxSize := mailboxSize + page.items.sum
          if page.items ≠ [] ∧ position < page.total.getD 0 then
            addSizes mailbox maxObjectsInGet n position mailboxSize
          else pure (.ok mailboxSize)

/-- The update of UIDNEXT, UIDVALIDITY and MESSAGES. -/
def updateMessages (mailbox : MailboxId) (update : List Status) :
    SessionM (Except StatusResponse StatusItems) :=
  if .uidNext ∈ update ∨ .uidValidity ∈ update ∨ .messages ∈ update then do
    match ← synchronizeMessages mailbox with
    | .error err => pure (.error err)
    | .ok status => do
        let items ← locked (.statusMessages mailbox status update)
        pure (.ok items)
  else pure (.ok [])

/-- The update of UNSEEN and DELETED. -/
def updateTotals (mailbox : MailboxId) (update : List Status) :
    SessionM (Except StatusResponse StatusItems) :=
  if .unseen ∈ update ∨ .deleted ∈ update then do
    let filters :=
      (if .unseen ∈ update then [totalFilter mailbox (.notKeyword Flag.seen.toJmap)] else []) ++
        (if .deleted ∈ update then [totalFilter mailbox (.hasKeyword Flag.deleted.toJmap)] else [])
    match ← jmap (.queryTotals (some mailbox.accountId) filters) with
    | .error err => pure (.error err)
    | .ok responses => locked (.statusTotals mailbox update responses)
  else pure (.ok [])

/-- The update of SIZE. -/
def updateSize (mailbox : MailboxId) (maxObjectsInGet : ℕ) (update : List Status) :
    SessionM (Except StatusResponse StatusItems) :=
  if .size ∈ update then do
    match ← addSizes mailbox maxObjectsInGet 100 0 0 with
    | .error err => pure (.error err)
    | .ok mailboxSize => do
        let items ← locked (.statusSize mailbox mailboxSize)
        pure (.ok items)
  else pure (.ok [])

/-- The update of HIGHESTMODSEQ. -/
def updateModseq (mailbox : MailboxId) (update : List Status) :
    SessionM (Except StatusResponse StatusItems) :=
  if .highestModSeq ∈ update then do
    match ← synchronizeState mailbox.accountId with
    | .error err => pure (.error err)
    | .ok modseq => do
        locked (.statusModseq mailbox.accountId modseq)
        pure (.ok [(.highestModSeq, .number modseq)])
  else pure (.ok [])

/-- `SessionData::status` -/
def status (mailboxName : String) (items : List Status) (maxObjectsInGet : ℕ) :
    SessionM (Except StatusResponse StatusItems) := do
  match ← locked (.mailboxByName mailboxName) with
  | none => pure (.error ((StatusResponse.no "Mailbox does not exist.").withCode .nonExistent))
  | some mailbox =>
      let (cached, update) ← locked (.statusCached mailbox items)
      match ← updateMessages mailbox update with
      | .error err => pure (.error err)
      | .ok messages =>
          match ← updateTotals mailbox update with
          | .error err => pure (.error err)
          | .ok totals =>
              match ← updateSize mailbox maxObjectsInGet update with
              | .error err => pure (.error err)
              | .ok size =>
                  match ← updateModseq mailbox update with
                  | .error err => pure (.error err)
                  | .ok modseq => pure (.ok (cached ++ messages ++ totals ++ size ++ modseq))

/-- `Session::handle_status` -/
def handleStatus (folders : Folders) (mailboxName : String) (items : List Status)
    (maxObjectsInGet : ℕ) : SessionM (Except StatusResponse StatusItems) := do
  match ← synchronizeMailboxes folders false false with
  | .error err => pure (.error err)
  | .ok _ => status mailboxName items maxObjectsInGet

/-- STATUS of each listed mailbox, leaving out those that fail. -/
def statusOfEach (maxObjectsInGet : ℕ) (items : List Status) :
    List String → SessionM (List (String × StatusItems))
  | [] => pure []
  | mailboxName :: rest => do
      let answer ← status mailboxName items maxObjectsInGet
      let answers ← statusOfEach maxObjectsInGet items rest
      pure (match answer with
        | .ok values => (mailboxName, values) :: answers
        | .error _ => answers)

/-- `SessionData::list`.  Which mailboxes a LIST selects, by their names and data, is a parameter;
`none` is the panic on a mailbox without data. -/
def listFolders (folders : Folders) (isMatch : String → Bool) (isListed : String → Mailbox → Bool)
    (includeStatus : Option (List Status)) (maxObjectsInGet : ℕ) :
    SessionM (Except StatusResponse (Option (List (String × StatusItems)))) := do
  match ← synchronizeMailboxes folders false false with
  | .error err => pure (.error err)
  | .ok _ =>
      let accounts ← locked .list
      let names := accounts.flatMap fun a ↦ a.2.filter fun e ↦ isMatch e.1
      if names.any fun e ↦ e.2.isNone then pure (.ok none)
      else
        let listed := names.filter fun e ↦ e.2.any fun mailbox ↦ isListed e.1 mailbox
        match includeStatus with
        | none => pure (.ok (some []))
        | some items =>
            let answers ← statusOfEach maxObjectsInGet items (listed.map Prod.fst)
            pure (.ok (some answers))

/-! ## Tasks -/

/-- What a session runs a task for. -/
inductive Task where
  | create (mailboxName : String) (role : Role)
  | rename (mailboxName newMailboxName : String)
  | delete (mailboxName : String)
  | subscribe (mailboxName : String) (isSubscribed : Bool)
  | status (mailboxName : String) (items : List Status) (maxObjectsInGet : ℕ)
  | list (isMatch : String → Bool) (isListed : String → Mailbox → Bool)
      (includeStatus : Option (List Status)) (maxObjectsInGet : ℕ)
  | synchronize (returnChanges forceSessionRefresh : Bool)

/-- A job without its result. -/
def Job.unit {R : Type} (job : SessionM R) : SessionM Unit := do
  let _ ← job
  pure ()

/-- The job of a task; what it answers is not needed here. -/
def Task.job (folders : Folders) : Task → SessionM Unit
  | create mailboxName role => (createFolder folders mailboxName role).unit
  | rename mailboxName newMailboxName => (renameFolder folders mailboxName newMailboxName).unit
  | delete mailboxName => (deleteFolder folders mailboxName).unit
  | subscribe mailboxName isSubscribed => (subscribeFolder folders mailboxName isSubscribed).unit
  | status mailboxName items maxObjectsInGet =>
      (handleStatus folders mailboxName items maxObjectsInGet).unit
  | list isMatch isListed includeStatus maxObjectsInGet =>
      (listFolders folders isMatch isListed includeStatus maxObjectsInGet).unit
  | synchronize returnChanges forceSessionRefresh =>
      (synchronizeMailboxes folders returnChanges forceSessionRefresh).unit

end ImapToJmap
