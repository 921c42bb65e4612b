import ImapToJmap.Mailboxes.Task

/-!
# What the tasks hand to the cache

The accounts that `synchronize_mailboxes` enters have been built from a listing, and a renaming
comes with an id for each parent it has asked for.  `SessionCall.Proper` says so of the two critical
sections, and `Task.uses_proper` of every call of every task, whatever its requests return.
-/

namespace ImapToJmap

open Jmap SessionM

/-- An account as `fetch_account_mailboxes` makes it of a listing. -/
def Account.Listed (account : Account) : Prop :=
  ∃ accountId namePrefix mailboxState result,
    Account.ofListing accountId namePrefix mailboxState result = some account

/-- What is entered into the cache is of the form that the tasks give it. -/
def SessionCall.Proper : SessionCall → Prop
  | .locked (.update _ changed added) => ∀ account ∈ changed ++ added, account.Listed
  | .locked (.rename _ _ params created _) => ∀ ids ∈ created, ids.length = params.path.length
  | _ => True

/-- The call is a request to the server. -/
def SessionCall.IsRequest (q : SessionCall) : Prop := ∃ request, q = .jmap request

/-- The call enters neither mailboxes nor the state of an account. -/
def SessionCall.IsPlain : SessionCall → Prop
  | .locked (.change ..) | .locked (.update ..) | .locked (.addCreated ..) | .locked (.rename ..) =>
      False
  | _ => True

/-- The call is one of the server or the database. -/
def SessionCall.IsOutside : SessionCall → Prop
  | .locked _ => False
  | .jmap _ | .database _ => True

theorem SessionCall.IsOutside.isPlain {q : SessionCall} (h : q.IsOutside) : q.IsPlain := by
  cases q with
  | locked s => exact h.elim
  | jmap request => trivial
  | database op => trivial

theorem SessionCall.IsPlain.proper {q : SessionCall} (h : q.IsPlain) : q.Proper := by
  unfold SessionCall.Proper
  split
  · exact h.elim
  · exact h.elim
  · trivial

/-! ## Fetching -/

section

variable {C : SessionCall → Prop}
  (hC : ∀ accountId position, C (.jmap (.queryMailboxes accountId position)))

include hC

theorem fetchPages_uses (accountId : String) (n position : ℕ) (mailboxState : String)
    (result : List MailboxObject) :
    (fetchPages accountId n position mailboxState result).Uses C := by
  induction n generalizing position mailboxState result with
  | zero => trivial
  | succ n ih =>
      refine Job.Uses.bind ⟨hC _ _, fun _ ↦ trivial⟩ ?_
      rintro (_ | page)
      · trivial
      · dsimp only
        split
        · exact ih _ _ _
        · trivial

theorem fetchAccountMailboxes_uses (accountId : String) (namePrefix : Option String) :
    (fetchAccountMailboxes accountId namePrefix).Uses C := by
  refine Job.Uses.bind (fetchPages_uses hC _ _ _ _ _) ?_
  rintro (_ | ⟨mailboxState, result⟩)
  · trivial
  · trivial

theorem fetchAccounts_uses (ids : List (String × Option String)) : (fetchAccounts ids).Uses C := by
  induction ids with
  | nil => trivial
  | cons e ids ih =>
      refine Job.Uses.bind (fetchAccountMailboxes_uses hC _ _) fun account ↦ ?_
      exact Job.Uses.bind ih fun accounts ↦ trivial

end

theorem fetchAccountMailboxes_returns {accountId : String} {namePrefix : Option String}
    {account : Account} (h : (fetchAccountMailboxes accountId namePrefix).Returns (some account)) :
    account.Listed := by
  obtain ⟨_ | ⟨mailboxState, result⟩, -, h⟩ := Job.returns_bind_iff.mp h
  · cases Job.returns_pure.mp h
  · exact ⟨_, _, _, _, (Job.returns_pure.mp h)⟩

theorem fetchAccounts_returns {ids : List (String × Option String)} {accounts : List Account}
    (h : (fetchAccounts ids).Returns accounts) : ∀ account ∈ accounts, account.Listed := by
  induction ids generalizing accounts with
  | nil =>
      rw [← Job.returns_pure.mp h]
      simp
  | cons e ids ih =>
      obtain ⟨first, hfirst, h⟩ := Job.returns_bind_iff.mp h
      obtain ⟨rest, hrest, h⟩ := Job.returns_bind_iff.mp h
      rw [← Job.returns_pure.mp h]
      intro account hmem
      rcases List.mem_append.mp hmem with hmem | hmem
      · rw [Option.mem_toList] at hmem
        obtain rfl := Option.mem_def.mp hmem
        exact fetchAccountMailboxes_returns hfirst
      · exact ih hrest account hmem

/-- What a session begins with. -/
theorem fetchMailboxes_returns {folders : Folders} {accounts : List Account}
    (h : (fetchMailboxes folders).Returns (some accounts)) :
    ∀ account ∈ accounts, account.Listed := by
  obtain ⟨_ | first, hfirst, h⟩ := Job.returns_bind_iff.mp h
  · cases Job.returns_pure.mp h
  · obtain ⟨session, -, h⟩ := Job.returns_bind_iff.mp h
    obtain ⟨rest, hrest, h⟩ := Job.returns_bind_iff.mp h
    rw [← Option.some.inj (Job.returns_pure.mp h)]
    intro account hmem
    rcases List.mem_cons.mp hmem with rfl | hmem
    · exact fetchAccountMailboxes_returns hfirst
    · exact fetchAccounts_returns hrest account hmem

/-! ## Synchronization -/

theorem linkAccounts_uses (folders : Folders) (forceSessionRefresh : Bool) :
    (linkAccounts folders forceSessionRefresh).Uses SessionCall.IsPlain := by
  refine Job.Uses.bind ⟨trivial, fun _ ↦ trivial⟩ fun isSessionUpdated ↦ ?_
  split
  · refine Job.Uses.bind ⟨trivial, fun _ ↦ trivial⟩ ?_
    rintro (err | _)
    · trivial
    · refine Job.Uses.bind ⟨trivial, fun _ ↦ trivial⟩ fun session ↦ ?_
      refine Job.Uses.bind ⟨trivial, fun _ ↦ trivial⟩ fun unlinked ↦ ?_
      exact Job.Uses.bind (fetchAccounts_uses (fun _ _ ↦ trivial) _) fun _ ↦ trivial
  · trivial

theorem linkAccounts_returns {folders : Folders} {forceSessionRefresh : Bool}
    {deleted : List String} {added : List Account}
    (h : (linkAccounts folders forceSessionRefresh).Returns (.ok (deleted, added))) :
    ∀ account ∈ added, account.Listed := by
  obtain ⟨isSessionUpdated, -, h⟩ := Job.returns_bind_iff.mp h
  split at h
  · obtain ⟨err | _, -, h⟩ := Job.returns_bind_iff.mp h
    · cases Job.returns_pure.mp h
    · obtain ⟨session, -, h⟩ := Job.returns_bind_iff.mp h
      obtain ⟨unlinked, -, h⟩ := Job.returns_bind_iff.mp h
      obtain ⟨accounts, haccounts, h⟩ := Job.returns_bind_iff.mp h
      cases Job.returns_pure.mp h
      exact fetchAccounts_returns haccounts
  · cases Job.returns_pure.mp h
    simp

theorem applyChanges_uses (returnChanges : Bool) (responses : List (Option Changes)) :
    (applyChanges returnChanges responses).Uses SessionCall.Proper := by
  induction responses with
  | nil => trivial
  | cons response rest ih =>
      cases response with
      | none => exact ih
      | some changes =>
          unfold applyChanges
          split
          · exact ih
          · refine Job.Uses.bind ⟨trivial, fun _ ↦ trivial⟩ fun _ ↦ ?_
            exact Job.Uses.bind ih fun _ ↦ trivial

theorem synchronizeMailboxes_uses (folders : Folders) (returnChanges forceSessionRefresh : Bool) :
    (synchronizeMailboxes folders returnChanges forceSessionRefresh).Uses SessionCall.Proper := by
  refine Job.uses_bind_iff.mpr ⟨(linkAccounts_uses _ _).mono fun _ ↦ SessionCall.IsPlain.proper, ?_⟩
  rintro (err | ⟨deleted, added⟩) hlink
  · trivial
  · refine Job.Uses.bind ⟨trivial, fun _ ↦ trivial⟩ fun states ↦ ?_
    refine Job.Uses.bind ⟨trivial, fun _ ↦ trivial⟩ ?_
    rintro (err | responses)
    · trivial
    · refine Job.Uses.bind (applyChanges_uses _ _) fun changedIds ↦ ?_
      refine Job.Uses.bind ⟨trivial, fun _ ↦ trivial⟩ fun session ↦ ?_
      refine Job.uses_bind_iff.mpr
        ⟨fetchAccounts_uses (fun _ _ ↦ trivial) _, fun changed hchanged ↦ ?_⟩
      dsimp only
      split
      · trivial
      · refine Job.Uses.bind ⟨?_, fun _ ↦ trivial⟩ fun _ ↦ trivial
        intro account hmem
        rcases List.mem_append.mp hmem with hmem | hmem
        · exact fetchAccounts_returns hchanged account hmem
        · exact linkAccounts_returns hlink account hmem

/-! ## The commands -/

theorem createFolder_uses (folders : Folders) (mailboxName : String) (role : Role) :
    (createFolder folders mailboxName role).Uses SessionCall.Proper := by
  refine Job.Uses.bind (synchronizeMailboxes_uses _ _ _) ?_
  rintro (err | _)
  · trivial
  · refine Job.Uses.bind ⟨trivial, fun _ ↦ trivial⟩ ?_
    rintro (message | params)
    · trivial
    · refine Job.Uses.bind ⟨trivial, fun _ ↦ trivial⟩ ?_
      rintro (err | response)
      · trivial
      · dsimp only
        split
        · trivial
        · refine Job.Uses.bind ⟨trivial, fun _ ↦ trivial⟩ ?_
          rintro (message | mailboxId)
          · trivial
          · trivial

/-- There is an id for each of the mailboxes, or a failure. -/
theorem length_of_createdIds {params : CreateParams} {response : MailboxSet}
    {mailboxIds : List String} (h : createdIds params response = .ok mailboxIds) :
    mailboxIds.length = params.path.length := by
  have hlength : ∀ (l : List ℕ) (ids : List String), l.mapM response.created = .ok ids →
      ids.length = l.length := by
    intro l
    induction l with
    | nil =>
        rintro ids ⟨⟩
        rfl
    | cons i l ih =>
        intro ids h
        rw [List.mapM_cons] at h
        cases hi : response.created i with
        | error err => simp [hi, bind, Except.bind] at h
        | ok id =>
            cases hl : l.mapM response.created with
            | error err => simp [hi, hl, bind, Except.bind] at h
            | ok rest =>
                obtain rfl : id :: rest = ids := by
                  simpa [hi, hl, bind, Except.bind, pure, Except.pure] using h
                simp [ih rest hl]
  simpa using hlength _ _ h

theorem renameFolder_uses (folders : Folders) (mailboxName newMailboxName : String) :
    (renameFolder folders mailboxName newMailboxName).Uses SessionCall.Proper := by
  refine Job.Uses.bind (synchronizeMailboxes_uses _ _ _) ?_
  rintro (err | _)
  · trivial
  · refine Job.Uses.bind ⟨trivial, fun _ ↦ trivial⟩ ?_
    rintro (message | params)
    · trivial
    · refine Job.Uses.bind ⟨trivial, fun _ ↦ trivial⟩ ?_
      rintro (err | mailboxId)
      · trivial
      · refine Job.Uses.bind ⟨trivial, fun _ ↦ trivial⟩ ?_
        rintro (err | response)
        · trivial
        · dsimp only
          split
          · trivial
          · rename_i mailboxIds hids
            refine Job.Uses.bind ⟨?_, fun _ ↦ trivial⟩ ?_
            · intro ids hmem
              split at hmem
              · cases hmem
              · cases hmem
                exact length_of_createdIds hids
            · rintro (response | _)
              · trivial
              · trivial

theorem deleteFolder_extends (folders : Folders) (mailboxName : String) :
    Job.Extends SessionCall.IsPlain (synchronizeMailboxes folders false false)
      (deleteFolder folders mailboxName) := by
  refine ⟨_, rfl, ?_⟩
  rintro (err | _)
  · trivial
  · refine Job.Uses.bind ⟨trivial, fun _ ↦ trivial⟩ ?_
    rintro (err | ⟨accountId, mailboxId, deleteUidCache⟩)
    · trivial
    · refine Job.Uses.bind ⟨trivial, fun _ ↦ trivial⟩ ?_
      rintro (err | _)
      · trivial
      · dsimp only
        split
        · refine Job.Uses.bind ⟨trivial, fun _ ↦ trivial⟩ fun _ ↦ ?_
          exact Job.Uses.bind ⟨trivial, fun _ ↦ trivial⟩ fun _ ↦ trivial
        · exact Job.Uses.bind ⟨trivial, fun _ ↦ trivial⟩ fun _ ↦ trivial

theorem subscribeFolder_extends (folders : Folders) (mailboxName : String)
    (isSubscribed : Bool) :
    Job.Extends SessionCall.IsPlain (synchronizeMailboxes folders false false)
      (subscribeFolder folders mailboxName isSubscribed) := by
  refine ⟨_, rfl, ?_⟩
  rintro (err | _)
  · trivial
  · refine Job.Uses.bind ⟨trivial, fun _ ↦ trivial⟩ ?_
    rintro (_ | ⟨accountId, _ | mailboxId⟩)
    · trivial
    · trivial
    · refine Job.Uses.bind ⟨trivial, fun _ ↦ trivial⟩ ?_
      rintro (err | _)
      · trivial
      · exact Job.Uses.bind ⟨trivial, fun _ ↦ trivial⟩ fun _ ↦ trivial

theorem listMessages_uses (mailbox : MailboxId) (n position : ℕ) (validIds : List String) :
    (listMessages mailbox n position validIds).Uses SessionCall.IsOutside := by
  induction n generalizing position validIds with
  | zero => trivial
  | succ n ih =>
      refine Job.Uses.bind ⟨trivial, fun _ ↦ trivial⟩ ?_
      rintro (err | page)
      · trivial
      · dsimp only
        split
        · exact ih _ _
        · trivial

theorem synchronizeMessages_uses (mailbox : MailboxId) :
    (synchronizeMessages mailbox).Uses SessionCall.IsOutside := by
  refine Job.Uses.bind (listMessages_uses _ _ _ _) ?_
  rintro (err | validIds)
  · trivial
  · refine Job.Uses.bind ⟨trivial, fun _ ↦ trivial⟩ ?_
    rintro (_ | data)
    · trivial
    · trivial

theorem synchronizeState_uses (accountId : String) :
    (synchronizeState accountId).Uses SessionCall.IsOutside := by
  refine Job.Uses.bind (Job.Uses.bind ⟨trivial, fun _ ↦ trivial⟩ ?_) ?_
  · rintro (err | ⟨state, emails⟩)
    · trivial
    · trivial
  · rintro (err | state)
    · trivial
    · refine Job.Uses.bind ⟨trivial, fun _ ↦ trivial⟩ ?_
      rintro (_ | modseq)
      · trivial
      · trivial

theorem addSizes_uses (mailbox : MailboxId) (maxObjectsInGet n position mailboxSize : ℕ) :
    (addSizes mailbox maxObjectsInGet n position mailboxSize).Uses SessionCall.IsOutside := by
  induction n generalizing position mailboxSize with
  | zero => trivial
  | succ n ih =>
      refine Job.Uses.bind ⟨trivial, fun _ ↦ trivial⟩ ?_
      rintro (err | page)
      · trivial
      · dsimp only
        split
        · exact ih _ _
        · trivial

theorem updateMessages_uses (mailbox : MailboxId) (update : List Status) :
    (updateMessages mailbox update).Uses SessionCall.IsPlain := by
  unfold updateMessages
  split
  · refine Job.Uses.bind ((synchronizeMessages_uses _).mono fun _ h ↦ h.isPlain) ?_
    rintro (err | data)
    · trivial
    · exact Job.Uses.bind ⟨trivial, fun _ ↦ trivial⟩ fun _ ↦ trivial
  · trivial

theorem updateTotals_uses (mailbox : MailboxId) (update : List Status) :
    (updateTotals mailbox update).Uses SessionCall.IsPlain := by
  unfold updateTotals
  split
  · refine Job.Uses.bind ⟨trivial, fun _ ↦ trivial⟩ ?_
    rintro (err | responses)
    · trivial
    · exact ⟨trivial, fun _ ↦ trivial⟩
  · trivial

theorem updateSize_uses (mailbox : MailboxId) (maxObjectsInGet : ℕ) (update : List Status) :
    (updateSize mailbox maxObjectsInGet update).Uses SessionCall.IsPlain := by
  unfold updateSize
  split
  · refine Job.Uses.bind ((addSizes_uses _ _ _ _ _).mono fun _ h ↦ h.isPlain) ?_
    rintro (err | mailboxSize)
    · trivial
    · exact Job.Uses.bind ⟨trivial, fun _ ↦ trivial⟩ fun _ ↦ trivial
  · trivial

theorem updateModseq_uses (mailbox : MailboxId) (update : List Status) :
    (updateModseq mailbox update).Uses SessionCall.IsPlain := by
  unfold updateModseq
  split
  · refine Job.Uses.bind ((synchronizeState_uses _).mono fun _ h ↦ h.isPlain) ?_
    rintro (err | modseq)
    · trivial
    · exact Job.Uses.bind ⟨trivial, fun _ ↦ trivial⟩ fun _ ↦ trivial
  · trivial

theorem status_uses (mailboxName : String) (items : List Status) (maxObjectsInGet : ℕ) :
    (status mailboxName items maxObjectsInGet).Uses SessionCall.IsPlain := by
  refine Job.Uses.bind ⟨trivial, fun _ ↦ trivial⟩ ?_
  rintro (_ | mailbox)
  · trivial
  · refine Job.Uses.bind ⟨trivial, fun _ ↦ trivial⟩ ?_
    rintro ⟨cached, update⟩
    refine Job.Uses.bind (updateMessages_uses _ _) ?_
    rintro (err | messages)
    · trivial
    · refine Job.Uses.bind (updateTotals_uses _ _) ?_
      rintro (err | totals)
      · trivial
      · refine Job.Uses.bind (updateSize_uses _ _ _) ?_
        rintro (err | size)
        · trivial
        · refine Job.Uses.bind (updateModseq_uses _ _) ?_
          rintro (err | modseq)
          · trivial
          · trivial

theorem statusOfEach_uses (maxObjectsInGet : ℕ) (items : List Status) (names : List String) :
    (statusOfEach maxObjectsInGet items names).Uses SessionCall.IsPlain := by
  induction names with
  | nil => trivial
  | cons mailboxName names ih =>
      refine Job.Uses.bind (status_uses _ _ _) fun _ ↦ ?_
      exact Job.Uses.bind ih fun _ ↦ trivial

theorem handleStatus_extends (folders : Folders) (mailboxName : String) (items : List Status)
    (maxObjectsInGet : ℕ) :
    Job.Extends SessionCall.IsPlain (synchronizeMailboxes folders false false)
      (handleStatus folders mailboxName items maxObjectsInGet) := by
  refine ⟨_, rfl, ?_⟩
  rintro (err | _)
  · trivial
  · exact status_uses _ _ _

theorem listFolders_extends (folders : Folders) (isMatch : String → Bool)
    (isListed : String → Mailbox → Bool) (includeStatus : Option (List Status))
    (maxObjectsInGet : ℕ) :
    Job.Extends SessionCall.IsPlain (synchronizeMailboxes folders false false)
      (listFolders folders isMatch isListed includeStatus maxObjectsInGet) := by
  refine ⟨_, rfl, ?_⟩
  rintro (err | _)
  · trivial
  · refine Job.Uses.bind ⟨trivial, fun _ ↦ trivial⟩ fun accounts ↦ ?_
    dsimp only
    split
    · trivial
    · cases includeStatus with
      | none => trivial
      | some items => exact Job.Uses.bind (statusOfEach_uses _ _ _) fun _ ↦ trivial

/-- A task creates, renames, or does no more than synchronize before it goes on with plain calls. -/
theorem Task.job_cases (folders : Folders) (task : Task) :
    (∃ mailboxName role, task = .create mailboxName role) ∨
    (∃ mailboxName newMailboxName, task = .rename mailboxName newMailboxName) ∨
    ∃ returnChanges forceSessionRefresh, Job.Extends SessionCall.IsPlain
      (synchronizeMailboxes folders returnChanges forceSessionRefresh) (task.job folders) := by
  cases task with
  | create mailboxName role => exact .inl ⟨_, _, rfl⟩
  | rename mailboxName newMailboxName => exact .inr (.inl ⟨_, _, rfl⟩)
  | delete mailboxName =>
      exact .inr (.inr ⟨_, _, (deleteFolder_extends _ _).bind fun _ ↦ trivial⟩)
  | subscribe mailboxName isSubscribed =>
      exact .inr (.inr ⟨_, _, (subscribeFolder_extends _ _ _).bind fun _ ↦ trivial⟩)
  | status mailboxName items maxObjectsInGet =>
      exact .inr (.inr ⟨_, _, (handleStatus_extends _ _ _ _).bind fun _ ↦ trivial⟩)
  | list isMatch isListed includeStatus maxObjectsInGet =>
      exact .inr (.inr ⟨_, _, (listFolders_extends _ _ _ _ _).bind fun _ ↦ trivial⟩)
  | synchronize returnChanges forceSessionRefresh =>
      exact .inr (.inr ⟨_, _, _, rfl, fun _ ↦ trivial⟩)

/-- **The calls of the tasks.** -/
theorem Task.uses_proper (folders : Folders) (task : Task) :
    (task.job folders).Uses SessionCall.Proper := by
  obtain ⟨mailboxName, role, rfl⟩ | ⟨mailboxName, newMailboxName, rfl⟩ | ⟨_, _, h⟩ :=
    task.job_cases folders
  · exact (createFolder_uses _ _ _).bind fun _ ↦ trivial
  · exact (renameFolder_uses _ _ _).bind fun _ ↦ trivial
  · exact (h.mono fun _ ↦ SessionCall.IsPlain.proper).uses (synchronizeMailboxes_uses _ _ _)

end ImapToJmap
