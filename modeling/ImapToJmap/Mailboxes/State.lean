import ImapToJmap.Job.History
import ImapToJmap.Mailboxes.Consistent

/-!
# The states of the accounts

Every synchronization asks the server for what has changed since the state that an account was left
in, so that state has to be one the server has returned for the account.  It comes from a listing,
from the changes, or from the response to a creation or renaming, and is moved out of it.

A renaming that has to create parents moves it out twice: the creation takes it, and the renaming
enters what is left, an empty string.  `states_returned` says that nothing else goes wrong.
-/

namespace ImapToJmap

open Jmap SessionM

/-! ## What the server has returned -/

/-- What the calls of a session have returned, the last one first. -/
abbrev History := List (Reply SessionCall SessionCall.Return)

/-- The states of accounts in a reply. -/
def tokens : Reply SessionCall SessionCall.Return → List (String × String)
  | ⟨.jmap (.queryMailboxes (some accountId) _), some page⟩ => [(accountId, page.state)]
  | ⟨.jmap (.setMailbox (some accountId) _ _), .ok response⟩ => [(accountId, response.newState)]
  | ⟨.jmap (.changesMailbox _), .ok responses⟩ =>
      responses.filterMap fun response ↦ response.map fun changes ↦
        (changes.accountId, changes.newState)
  | _ => []

/-- The server has returned the state for the account. -/
def StateToken (history : History) (accountId state : String) : Prop :=
  ∃ reply ∈ history, (accountId, state) ∈ tokens reply

theorem StateToken.mono {history history' : History} {accountId state : String}
    (h : StateToken history accountId state) (hsub : history ⊆ history') :
    StateToken history' accountId state := by
  obtain ⟨reply, hmem, htoken⟩ := h
  exact ⟨reply, hsub hmem, htoken⟩

/-- Every account of a session has an id. -/
def Named (session : List (String × String)) : Prop := ∀ a ∈ session, a.1 ≠ ""

/-- The accounts of a reply have ids, and the new ones are among those of the session. -/
def ReplyOk : Reply SessionCall SessionCall.Return → Prop
  | ⟨.jmap .session, session⟩ => Named session
  | ⟨.jmap (.changesMailbox _), .ok responses⟩ =>
      ∀ changes : Changes, some changes ∈ responses → changes.accountId ≠ ""
  | ⟨.locked (.unlink session), (_, added)⟩ => ∀ accountId ∈ added, ∃ a ∈ session, a.1 = accountId
  | _ => True

/-- Every state that is to be entered for an account has been returned for it.  The empty id is what
is left of an id that has been taken out of a response. -/
def Grounded (history : History) (q : SessionCall) : Prop :=
  (∀ reply ∈ history, ReplyOk reply) →
    match q with
    | .locked (.change accountId newState _) => accountId ≠ "" →
        StateToken history accountId newState
    | .locked (.update _ changed added) => ∀ account ∈ changed ++ added,
        account.accountId ≠ "" ∧ StateToken history account.accountId account.mailboxState
    | .locked (.addCreated params _ newState _) => StateToken history params.accountId newState
    | .locked (.rename _ _ params _ response) =>
        StateToken history params.accountId response.newState
    | _ => True

theorem Grounded.mono (history history' : History) (q : SessionCall)
    (hsub : history ⊆ history') (h : Grounded history q) : Grounded history' q := by
  intro hok
  have hq := h fun reply hmem ↦ hok reply (hsub hmem)
  revert hq
  split
  · exact fun hq hne ↦ (hq hne).mono hsub
  · exact fun hq account hmem ↦ ⟨(hq account hmem).1, (hq account hmem).2.mono hsub⟩
  · exact fun hq ↦ hq.mono hsub
  · exact fun hq ↦ hq.mono hsub
  · exact fun hq ↦ hq

/-! ## Fetching -/

variable {h h' : History}

theorem IsRequest.honest {R : Type} {job : SessionM R} (hjob : job.Uses SessionCall.IsRequest) :
    job.Honest Grounded h := by
  refine Job.honest_of_uses ?_ hjob
  rintro history q ⟨request, rfl⟩ -
  trivial

/-- The state of the pages is that of the last one. -/
theorem fetchPages_ends {accountId : String} {n position : ℕ} {mailboxState state : String}
    {result list : List MailboxObject} (hstate : n = 0 → StateToken h accountId mailboxState)
    (hends : Job.Ends h (some (state, list)) h'
      (fetchPages accountId n position mailboxState result)) : StateToken h' accountId state := by
  induction n generalizing position mailboxState result h with
  | zero =>
      obtain ⟨heq, rfl⟩ := hends
      obtain ⟨rfl, -⟩ := Prod.mk.inj (Option.some.inj heq)
      exact hstate rfl
  | succ n ih =>
      obtain ⟨page, h₁, hpage, hrest⟩ := Job.ends_bind_iff.mp hends
      obtain rfl := Job.ends_perform.mp hpage
      cases page with
      | none =>
          obtain ⟨heq, -⟩ := hrest
          cases heq
      | some page =>
          have htoken : StateToken
              (⟨.jmap (.queryMailboxes (some accountId) position), some page⟩ :: h)
              accountId page.state := ⟨_, List.mem_cons_self, List.mem_cons_self⟩
          dsimp only at hrest
          split at hrest
          · exact ih (fun _ ↦ htoken) hrest
          · obtain ⟨heq, rfl⟩ := hrest
            obtain ⟨rfl, -⟩ := Prod.mk.inj (Option.some.inj heq)
            exact htoken

/-- A listing keeps the id and the state of its account. -/
theorem ofListing_state {accountId mailboxState : String} {namePrefix : Option String}
    {result : List MailboxObject} {account : Account}
    (h : Account.ofListing accountId namePrefix mailboxState result = some account) :
    account.accountId = accountId ∧ account.mailboxState = mailboxState := by
  refine Account.buildTree_induct
    (P := fun account ↦ account.accountId = accountId ∧ account.mailboxState = mailboxState) ?_ ?_ h
  · exact fun _ _ _ _ _ h ↦ h
  · exact ⟨rfl, rfl⟩

theorem fetchAccountMailboxes_ends {accountId : String} {namePrefix : Option String}
    {account : Account}
    (hends : Job.Ends h (some account) h' (fetchAccountMailboxes accountId namePrefix)) :
    account.accountId = accountId ∧ StateToken h' account.accountId account.mailboxState := by
  obtain ⟨r, h₁, hpages, hrest⟩ := Job.ends_bind_iff.mp hends
  cases r with
  | none =>
      obtain ⟨heq, -⟩ := hrest
      cases heq
  | some r =>
      obtain ⟨heq, rfl⟩ := hrest
      obtain ⟨hid, hstate⟩ := ofListing_state heq
      rw [hid, hstate]
      exact ⟨rfl, fetchPages_ends (by simp) hpages⟩

theorem fetchAccounts_ends {ids : List (String × Option String)} {accounts : List Account}
    (hends : Job.Ends h accounts h' (fetchAccounts ids)) :
    ∀ account ∈ accounts,
      account.accountId ∈ ids.map Prod.fst ∧ StateToken h' account.accountId
        account.mailboxState := by
  induction ids generalizing h accounts with
  | nil =>
      obtain ⟨rfl, -⟩ := hends
      simp
  | cons e ids ih =>
      obtain ⟨first, h₁, hfirst, hends⟩ := Job.ends_bind_iff.mp hends
      obtain ⟨rest, h₂, hrest, hends⟩ := Job.ends_bind_iff.mp hends
      obtain ⟨rfl, rfl⟩ := hends
      intro account hmem
      rcases List.mem_append.mp hmem with hmem | hmem
      · obtain rfl := Option.mem_def.mp (Option.mem_toList.mp hmem)
        obtain ⟨hid, htoken⟩ := fetchAccountMailboxes_ends hfirst
        exact ⟨hid ▸ List.mem_cons_self, htoken.mono hrest.subset⟩
      · obtain ⟨hid, htoken⟩ := ih hrest account hmem
        exact ⟨List.mem_cons_of_mem _ hid, htoken⟩

/-! ## Synchronization -/

theorem SessionCall.IsPlain.grounded (history : History) (q : SessionCall)
    (hq : q.IsPlain) : Grounded history q := by
  intro _
  split
  · exact hq.elim
  · exact hq.elim
  · exact hq.elim
  · exact hq.elim
  · trivial

/-- The accounts that are new have ids, and the states they have been fetched with. -/
theorem linkAccounts_ends {folders : Folders} {forceSessionRefresh : Bool} {deleted : List String}
    {added : List Account} (hok : ∀ reply ∈ h', ReplyOk reply)
    (hends : Job.Ends h (.ok (deleted, added)) h' (linkAccounts folders forceSessionRefresh)) :
    ∀ account ∈ added,
      account.accountId ≠ "" ∧ StateToken h' account.accountId account.mailboxState := by
  obtain ⟨isSessionUpdated, h₁, -, hends⟩ := Job.ends_bind_iff.mp hends
  split at hends
  · obtain ⟨err | _, h₂, -, hends⟩ := Job.ends_bind_iff.mp hends
    · obtain ⟨heq, -⟩ := hends
      cases heq
    · obtain ⟨(session : List (String × String)), h₃, hsession, hends⟩ :=
        Job.ends_bind_iff.mp hends
      obtain ⟨⟨deleted', addedIds⟩, h₄, hunlink, hends⟩ := Job.ends_bind_iff.mp hends
      obtain ⟨accounts, h₅, haccounts, hends⟩ := Job.ends_bind_iff.mp hends
      obtain ⟨heq, rfl⟩ := hends
      obtain ⟨-, rfl⟩ := Prod.mk.inj (Except.ok.inj heq)
      obtain rfl := Job.ends_perform.mp hsession
      obtain rfl := Job.ends_perform.mp hunlink
      have hnamed : Named session :=
        hok ⟨.jmap .session, session⟩ (haccounts.subset (List.mem_cons_of_mem _ List.mem_cons_self))
      have hadded : ∀ accountId ∈ addedIds, ∃ a ∈ session, a.1 = accountId :=
        hok ⟨.locked (.unlink session), (deleted', addedIds)⟩ (haccounts.subset List.mem_cons_self)
      intro account hmem
      obtain ⟨hid, htoken⟩ := fetchAccounts_ends haccounts account hmem
      obtain ⟨_, hmap, heq⟩ := List.mem_map.mp hid
      obtain ⟨accountId, hid, rfl⟩ := List.mem_map.mp hmap
      obtain ⟨a, ha, rfl⟩ := hadded accountId hid
      exact ⟨heq ▸ hnamed a ha, htoken⟩
  · obtain ⟨heq, -⟩ := hends
    obtain ⟨-, rfl⟩ := Prod.mk.inj (Except.ok.inj heq)
    simp

theorem applyChanges_honest {returnChanges : Bool} {responses : List (Option Changes)}
    (hresponses : ∀ changes, some changes ∈ responses →
      StateToken h changes.accountId changes.newState) :
    (applyChanges returnChanges responses).Honest Grounded h := by
  induction responses generalizing h with
  | nil => trivial
  | cons response rest ih =>
      have hrest : ∀ changes, some changes ∈ rest →
        StateToken h changes.accountId changes.newState :=
        fun changes hmem ↦ hresponses changes (List.mem_cons_of_mem _ hmem)
      cases response with
      | none => exact ih hrest
      | some changes =>
          unfold applyChanges
          split
          · exact ih hrest
          · refine Job.honest_bind_iff.mpr ⟨⟨?_, fun _ ↦ trivial⟩, fun _ h₁ hends ↦ ?_⟩
            · intro _ hne
              split
              · exact hresponses changes List.mem_cons_self
              · rename_i hstats
                rw [if_neg hstats] at hne
                exact absurd rfl hne
            · refine Job.honest_bind_iff.mpr ⟨ih fun changes hmem ↦ ?_, fun _ _ _ ↦ trivial⟩
              exact (hrest changes hmem).mono hends.subset

/-- The accounts to be refetched are those of the changes. -/
theorem applyChanges_returns {returnChanges : Bool} {responses : List (Option Changes)}
    {changedIds : List String}
    (hreturns : (applyChanges returnChanges responses).Returns changedIds) :
    ∀ accountId ∈ changedIds, ∃ changes, some changes ∈ responses ∧
      changes.accountId = accountId := by
  induction responses generalizing changedIds with
  | nil =>
      obtain rfl := Job.returns_pure.mp hreturns
      simp
  | cons response rest ih =>
      have hrest : ∀ {ids}, (applyChanges returnChanges rest).Returns ids → ∀ accountId ∈ ids,
          ∃ changes, some changes ∈ response :: rest ∧ changes.accountId = accountId := by
        intro ids hids accountId hmem
        obtain ⟨changes, hchanges, heq⟩ := ih hids accountId hmem
        exact ⟨changes, List.mem_cons_of_mem _ hchanges, heq⟩
      cases response with
      | none => exact hrest hreturns
      | some changes =>
          unfold applyChanges at hreturns
          split at hreturns
          · exact hrest hreturns
          · obtain ⟨_, -, hreturns⟩ := Job.returns_bind_iff.mp hreturns
            obtain ⟨changed, hchanged, hreturns⟩ := Job.returns_bind_iff.mp hreturns
            obtain rfl := Job.returns_pure.mp hreturns
            intro accountId hmem
            split at hmem
            · exact hrest hchanged accountId hmem
            · rcases List.mem_cons.mp hmem with rfl | hmem
              · exact ⟨changes, List.mem_cons_self, rfl⟩
              · exact hrest hchanged accountId hmem

theorem synchronizeMailboxes_honest (folders : Folders)
    (returnChanges forceSessionRefresh : Bool) :
    (synchronizeMailboxes folders returnChanges forceSessionRefresh).Honest Grounded h := by
  refine Job.honest_bind_iff.mpr
    ⟨Job.honest_of_uses SessionCall.IsPlain.grounded (linkAccounts_uses _ _), ?_⟩
  rintro (err | ⟨deleted, added⟩) h₁ hlink
  · trivial
  refine Job.honest_bind_iff.mpr ⟨⟨fun _ ↦ trivial, fun _ ↦ trivial⟩, fun states h₂ hstates ↦ ?_⟩
  refine Job.honest_bind_iff.mpr ⟨⟨fun _ ↦ trivial, fun _ ↦ trivial⟩, ?_⟩
  rintro (err | responses) h₃ hresponses
  · trivial
  obtain rfl := Job.ends_perform.mp hresponses
  refine Job.honest_bind_iff.mpr
    ⟨applyChanges_honest fun changes hmem ↦ ⟨_, List.mem_cons_self, ?_⟩, ?_⟩
  · exact List.mem_filterMap.mpr ⟨some changes, hmem, rfl⟩
  intro changedIds h₄ happly
  refine Job.honest_bind_iff.mpr ⟨⟨fun _ ↦ trivial, fun _ ↦ trivial⟩, fun session h₅ hsession ↦ ?_⟩
  refine Job.honest_bind_iff.mpr ⟨IsRequest.honest (fetchAccounts_uses (fun _ _ ↦ ⟨_, rfl⟩) _), ?_⟩
  intro changed h₆ hchanged
  dsimp only
  split
  · trivial
  refine Job.honest_bind_iff.mpr ⟨⟨?_, fun _ ↦ trivial⟩, fun _ _ _ ↦ trivial⟩
  intro hok account hmem
  rcases List.mem_append.mp hmem with hmem | hmem
  · obtain ⟨hid, htoken⟩ := fetchAccounts_ends hchanged account hmem
    refine ⟨?_, htoken⟩
    obtain ⟨_, hmap, heq⟩ := List.mem_map.mp hid
    obtain ⟨accountId, hchange, rfl⟩ := List.mem_map.mp hmap
    obtain ⟨changes, hchanges, rfl⟩ := applyChanges_returns happly.returns accountId hchange
    have hresponses : ∀ changes : Changes, some changes ∈ responses → changes.accountId ≠ "" :=
      hok ⟨.jmap (.changesMailbox states), .ok responses⟩
        (hchanged.subset (hsession.subset (happly.subset List.mem_cons_self)))
    exact heq ▸ hresponses changes hchanges
  · have hsub : h₁ ⊆ h₆ := fun reply hmem ↦ hchanged.subset (hsession.subset (happly.subset
      (List.mem_cons_of_mem _ (hstates.subset hmem))))
    obtain ⟨hid, htoken⟩ :=
      linkAccounts_ends (fun reply hmem ↦ hok reply (hsub hmem)) hlink account hmem
    exact ⟨hid, htoken.mono hsub⟩

/-! ## The commands -/

theorem createFolder_honest (folders : Folders) (mailboxName : String) (role : Role) :
    (createFolder folders mailboxName role).Honest Grounded h := by
  refine Job.honest_bind_iff.mpr ⟨synchronizeMailboxes_honest _ _ _, ?_⟩
  rintro (err | _) h₁ -
  · trivial
  refine Job.honest_bind_iff.mpr ⟨⟨fun _ ↦ trivial, fun _ ↦ trivial⟩, ?_⟩
  rintro (message | params) h₂ -
  · trivial
  refine Job.honest_bind_iff.mpr ⟨⟨fun _ ↦ trivial, fun _ ↦ trivial⟩, ?_⟩
  rintro (err | response) h₃ hresponse
  · trivial
  obtain rfl := Job.ends_perform.mp hresponse
  dsimp only
  split
  · trivial
  refine Job.honest_bind_iff.mpr ⟨⟨fun _ ↦ ?_, fun _ ↦ trivial⟩, ?_⟩
  · exact ⟨_, List.mem_cons_self, List.mem_cons_self⟩
  · rintro (message | mailboxId) _ -
    · trivial
    · trivial

theorem renameFolder_honest (folders : Folders) (mailboxName newMailboxName : String) :
    (renameFolder folders mailboxName newMailboxName).Honest Grounded h := by
  refine Job.honest_bind_iff.mpr ⟨synchronizeMailboxes_honest _ _ _, ?_⟩
  rintro (err | _) h₁ -
  · trivial
  refine Job.honest_bind_iff.mpr ⟨⟨fun _ ↦ trivial, fun _ ↦ trivial⟩, ?_⟩
  rintro (message | params) h₂ -
  · trivial
  refine Job.honest_bind_iff.mpr ⟨⟨fun _ ↦ trivial, fun _ ↦ trivial⟩, ?_⟩
  rintro (err | mailboxId) h₃ -
  · trivial
  refine Job.honest_bind_iff.mpr ⟨⟨fun _ ↦ trivial, fun _ ↦ trivial⟩, ?_⟩
  rintro (err | response) h₄ hresponse
  · trivial
  have htoken : StateToken h₄ params.accountId response.newState := by
    obtain rfl := Job.ends_perform.mp hresponse
    exact ⟨_, List.mem_cons_self, List.mem_cons_self⟩
  dsimp only
  split
  · trivial
  refine Job.honest_bind_iff.mpr ⟨⟨fun _ ↦ htoken, fun _ ↦ trivial⟩, ?_⟩
  rintro (response | _) _ -
  · trivial
  · trivial

/-- Every task enters only states that have been returned. -/
theorem Task.job_honest (folders : Folders) (task : Task) :
    (task.job folders).Honest Grounded h := by
  obtain ⟨mailboxName, role, rfl⟩ | ⟨mailboxName, newMailboxName, rfl⟩ | ⟨_, _, hjob⟩ :=
    task.job_cases folders
  · exact Job.honest_bind_iff.mpr ⟨createFolder_honest _ _ _, fun _ _ _ ↦ trivial⟩
  · exact Job.honest_bind_iff.mpr ⟨renameFolder_honest _ _ _, fun _ _ _ ↦ trivial⟩
  · exact hjob.honest SessionCall.IsPlain.grounded (synchronizeMailboxes_honest _ _ _)

/-! ## The cache -/

/-- The account has an id, and its state has been returned for it. -/
def Account.Returned (history : History) (account : Account) : Prop :=
  account.accountId ≠ "" ∧ StateToken history account.accountId account.mailboxState

/-- What a renaming needs to enter its state: no parents have been entered before, which would have
taken it. -/
def KeepsState (accounts : List Account) : Section → Prop
  | .rename _ _ params created response =>
      response.updated.isOk = true → created = none ∨
        accounts.find? (fun a ↦ a.accountId = params.accountId) = none
  | _ => True

instance (accounts : List Account) : ∀ s, Decidable (KeepsState accounts s)
  | .rename _ _ params created response =>
      inferInstanceAs (Decidable (response.updated.isOk = true → created = none ∨
        accounts.find? (fun a ↦ a.accountId = params.accountId) = none))
  | .unlink _ | .mailboxStates | .change .. | .update .. | .mailboxByName _ | .validateCreate _ |
    .addCreated .. | .renameSource .. | .deleteTarget _ | .delete .. | .subscribe .. | .list |
    .statusCached .. | .statusMessages .. | .statusTotals .. | .statusSize .. |
    .statusModseq .. => .isTrue trivial

namespace Account

variable {account : Account}

theorem insertCreated_state (hasUpdated : Bool) (created : List (String × String))
    (mailboxName : String) (account : Account) :
    (account.insertCreated hasUpdated created mailboxName).mailboxState = account.mailboxState := by
  induction created generalizing mailboxName account with
  | nil => rfl
  | cons e created ih => exact ih _ _

theorem addCreated_state (account : Account) (params : CreateParams) (mailboxIds : List String)
    (newState : String) (hasUpdated : Bool) :
    (account.addCreated params mailboxIds newState hasUpdated).2.mailboxState = newState := by
  unfold addCreated
  dsimp only
  split
  · rfl
  · split
    · exact insertCreated_state _ _ _ _
    · exact insertCreated_state _ _ _ _

theorem rename_id_state (account : Account) (mailboxName mailboxId : String)
    (params : CreateParams) (newState : String) :
    (account.rename mailboxName mailboxId params newState).accountId = account.accountId ∧
    (account.rename mailboxName mailboxId params newState).mailboxState = newState := by
  simp only [rename, updateOldParent]
  split
  · split
    · exact ⟨rfl, rfl⟩
    · exact ⟨rfl, rfl⟩
  · exact ⟨rfl, rfl⟩

theorem change_id_state (account : Account) (newState : String) (resetStats : Bool) :
    (account.change newState resetStats).accountId = account.accountId ∧
    (account.change newState resetStats).mailboxState = newState := by
  unfold change
  split
  · exact ⟨rfl, rfl⟩
  · exact ⟨rfl, rfl⟩

end Account

section Cache

variable {history : History} {accounts : List Account}

theorem returned_updateAccount (h : ∀ account ∈ accounts, account.Returned history)
    {accountId : String} {f : Account → Account}
    (hf : ∀ account, account.Returned history → account.accountId = accountId →
      (f account).Returned history) :
    ∀ account ∈ updateAccount accountId f accounts, account.Returned history := by
  refine forall_mem_updateAccount h fun account haccount ↦ hf account ?_ ?_
  · exact h account (List.mem_of_find?_eq_some haccount)
  · simpa using List.find?_some haccount

theorem returned_addCreated (h : ∀ account ∈ accounts, account.Returned history)
    {params : CreateParams} {mailboxIds : List String} {newState : String} {hasUpdated : Bool}
    (htoken : StateToken history params.accountId newState) :
    ∀ account ∈ (Section.runAddCreated params mailboxIds newState hasUpdated accounts).2,
      account.Returned history := by
  rw [Section.runAddCreated, onAccount_snd]
  refine returned_updateAccount h fun account haccount hid ↦ ?_
  obtain ⟨hid', -⟩ := account.addCreated_spec params mailboxIds newState hasUpdated
  rw [Account.Returned, hid', account.addCreated_state]
  exact ⟨haccount.1, hid ▸ htoken⟩

theorem returned_rename (h : ∀ account ∈ accounts, account.Returned history)
    {mailboxName mailboxId : String} {params : CreateParams} {created : Option (List String)}
    {response : MailboxSet} (htoken : StateToken history params.accountId response.newState)
    (hkeep : KeepsState accounts (.rename mailboxName mailboxId params created response)) :
    ∀ account ∈ (Section.runRename mailboxName mailboxId params created response accounts).2,
      account.Returned history := by
  unfold Section.runRename
  cases created with
  | none =>
      dsimp only
      split
      · exact h
      · refine returned_updateAccount h fun account haccount hid ↦ ?_
        simp only [Option.isSome_none, Bool.false_eq_true, if_false]
        obtain ⟨hid', hstate⟩ :=
          account.rename_id_state mailboxName mailboxId params response.newState
        rw [Account.Returned, hid', hstate]
        exact ⟨haccount.1, hid ▸ htoken⟩
  | some mailboxIds =>
      have hadded : ∀ account ∈ (Section.runAddCreated params mailboxIds response.newState
          response.hasUpdated accounts).2, account.Returned history :=
        returned_addCreated h htoken
      have hresult := onAccount_fst params.accountId (.error "Account no longer available.")
        (fun account ↦
          account.addCreated params mailboxIds response.newState response.hasUpdated) accounts
      dsimp only
      rw [Section.runAddCreated] at hadded ⊢
      cases hupdated : response.updated with
      | error err =>
          split
          · exact hadded
          · exact hadded
      | ok _ =>
          -- the account is gone, and the creation has failed
          have hfind := (hkeep (by rw [hupdated]; rfl)).resolve_left (by simp)
          rw [hfind] at hresult
          dsimp only at hresult
          rw [hresult]
          exact hadded

/-- **A critical section** leaves each account with a state that has been returned for it, unless it
takes a state twice. -/
theorem returned_run (folders : Folders) {s : Section} (hok : ∀ reply ∈ history, ReplyOk reply)
    (hs : Grounded history (.locked s)) (hkeep : KeepsState accounts s)
    (h : ∀ account ∈ accounts, account.Returned history) :
    ∀ account ∈ (s.run folders accounts).2, account.Returned history := by
  have hs := hs hok
  cases s with
  | unlink session => exact fun account hmem ↦ h account (mem_of_mem_unlinkAccounts folders hmem)
  | change accountId newState resetStats =>
      refine returned_updateAccount h ?_
      rintro account ⟨hne, -⟩ rfl
      obtain ⟨hid, hstate⟩ := account.change_id_state newState resetStats
      rw [Account.Returned, hid, hstate]
      exact ⟨hne, hs hne⟩
  | update changes changed added =>
      refine forall_mem_updateMailboxes h changes ?_ ?_
      · exact fun account hmem ↦ hs account (List.mem_append_left _ hmem)
      · exact fun account hmem ↦ hs account (List.mem_append_right _ hmem)
  | addCreated params mailboxIds newState hasUpdated => exact returned_addCreated h hs
  | rename mailboxName mailboxId params created response => exact returned_rename h hs hkeep
  | delete accountId mailboxName mailboxId => exact returned_updateAccount h fun _ h _ ↦ h
  | subscribe accountId mailboxId isSubscribed => exact returned_updateAccount h fun _ h _ ↦ h
  | statusModseq accountId modseq => exact returned_updateAccount h fun _ h _ ↦ h
  | statusCached mailbox items =>
      show ∀ account ∈ (onAccount _ _ _ accounts).2, _
      rw [onAccount_snd]
      exact returned_updateAccount h fun _ h _ ↦ h
  | statusMessages mailbox status items =>
      show ∀ account ∈ (onAccount _ _ _ accounts).2, _
      rw [onAccount_snd]
      exact returned_updateAccount h fun _ h _ ↦ h
  | statusTotals mailbox items responses =>
      show ∀ account ∈ (onAccount _ _ _ accounts).2, _
      rw [onAccount_snd]
      refine returned_updateAccount h fun account h _ ↦ ?_
      exact Account.statusTotals_induct (P := Account.Returned history) (fun _ _ _ h ↦ h) h _ _ _
  | statusSize mailbox mailboxSize =>
      show ∀ account ∈ (onAccount _ _ _ accounts).2, _
      rw [onAccount_snd]
      exact returned_updateAccount h fun _ h _ ↦ h
  | mailboxStates | mailboxByName _ | validateCreate _ | renameSource _ _ | deleteTarget _ | list =>
      exact h

/-- A creation or a renaming that succeeds leaves its account, if it is there, with the state of the
response. -/
def EntersState (accounts : List Account) : Section → Prop
  | .addCreated params mailboxIds newState hasUpdated =>
      let (result, accounts) :=
        Section.runAddCreated params mailboxIds newState hasUpdated accounts
      result.isOk = true → ∀ account ∈ accounts.find? fun a ↦ a.accountId = params.accountId,
        account.mailboxState = newState
  | .rename mailboxName mailboxId params created response =>
      let (result, accounts) :=
        Section.runRename mailboxName mailboxId params created response accounts
      result.isOk = true → ∀ account ∈ accounts.find? fun a ↦ a.accountId = params.accountId,
        account.mailboxState = response.newState
  | _ => True

theorem entersState (s : Section) (hkeep : KeepsState accounts s) : EntersState accounts s := by
  cases s with
  | addCreated params mailboxIds newState hasUpdated =>
      intro _ account haccount
      change account ∈ (onAccount _ _ _ accounts).2.find? _ at haccount
      rw [onAccount_snd, find?_updateAccount fun account ↦
        (account.addCreated_spec params mailboxIds newState hasUpdated).1] at haccount
      obtain ⟨old, -, rfl⟩ := Option.map_eq_some_iff.mp (Option.mem_def.mp haccount)
      exact old.addCreated_state _ _ _ _
  | rename mailboxName mailboxId params created response =>
      show (Section.runRename _ _ _ _ _ accounts).1.isOk = true → _
      unfold Section.runRename
      intro hok account haccount
      cases created with
      | none =>
          dsimp only at hok haccount
          split at hok
          · cases hok
          · rename_i hupdated
            simp only [hupdated] at haccount
            rw [find?_updateAccount fun account ↦
              (account.rename_id_state mailboxName mailboxId params _).1] at haccount
            obtain ⟨old, -, rfl⟩ := Option.map_eq_some_iff.mp (Option.mem_def.mp haccount)
            exact (old.rename_id_state _ _ _ _).2
      | some mailboxIds =>
          dsimp only at hok
          split at hok
          · cases hok
          · rename_i hadded
            split at hok
            · cases hok
            · rename_i hupdated
              have hfind := (hkeep (by rw [hupdated]; rfl)).resolve_left (by simp)
              have hresult := onAccount_fst params.accountId (.error "Account no longer available.")
                (fun account ↦ account.addCreated params mailboxIds response.newState
                  response.hasUpdated) accounts
              rw [hfind] at hresult
              rw [Section.runAddCreated, hresult] at hadded
              cases hadded
  | _ => trivial

end Cache

/-! ## The runs of a session -/

/-- A new account is one of the session. -/
theorem mem_of_mem_unlinkAccounts_added {folders : Folders} {session : List (String × String)}
    {accounts : List Account} {accountId : String}
    (h : accountId ∈ (unlinkAccounts folders session accounts).2.2) :
    ∃ a ∈ session, a.1 = accountId :=
  List.mem_map.mp (List.mem_of_mem_filter h)

section Runs

variable {S : Type} {folders : Folders} {outside : Outside S}

/-- Every reply is as the server's are. -/
theorem replyOk_answer (hserver : ∀ request s, ReplyOk ⟨.jmap request, (outside.jmap request s).1⟩)
    (q : SessionCall) (w : World S) : ReplyOk ⟨q, (answer folders outside q w).1⟩ := by
  cases q with
  | jmap request => exact hserver request w.outside
  | database op => trivial
  | locked s =>
      cases s with
      | unlink session => exact fun accountId hmem ↦ mem_of_mem_unlinkAccounts_added hmem
      | _ => trivial

theorem replyOk_logging
    (hserver : ∀ request s, ReplyOk ⟨.jmap request, (outside.jmap request s).1⟩) (q : SessionCall)
    (w : World S × History) (hok : ∀ reply ∈ w.2, ReplyOk reply) :
    ∀ reply ∈ (Job.logging (answer folders outside) q w).2.2, ReplyOk reply := by
  intro reply hmem
  rcases List.mem_cons.mp hmem with rfl | hmem
  · exact replyOk_answer hserver q w.1
  · exact hok reply hmem

/-- What a session begins with. -/
theorem fetchMailboxes_ends (hdefault : folders.defaultAccountId ≠ "") {accounts : List Account}
    (hok : ∀ reply ∈ h', ReplyOk reply)
    (hends : Job.Ends h (some accounts) h' (fetchMailboxes folders)) :
    ∀ account ∈ accounts, account.Returned h' := by
  obtain ⟨first, h₁, hfirst, hends⟩ := Job.ends_bind_iff.mp hends
  cases first with
  | none =>
      obtain ⟨heq, -⟩ := hends
      cases heq
  | some first =>
      obtain ⟨(session : List (String × String)), h₂, hsession, hends⟩ :=
        Job.ends_bind_iff.mp hends
      obtain ⟨rest, h₃, hrest, hends⟩ := Job.ends_bind_iff.mp hends
      obtain ⟨heq, rfl⟩ := hends
      obtain rfl := Option.some.inj heq
      obtain rfl := Job.ends_perform.mp hsession
      have hnamed : Named session :=
        hok ⟨.jmap .session, session⟩ (hrest.subset List.mem_cons_self)
      intro account hmem
      rcases List.mem_cons.mp hmem with rfl | hmem
      · obtain ⟨hid, htoken⟩ := fetchAccountMailboxes_ends hfirst
        refine ⟨hid ▸ hdefault, htoken.mono fun reply hmem ↦ ?_⟩
        exact hrest.subset (List.mem_cons_of_mem _ hmem)
      · obtain ⟨hid, htoken⟩ := fetchAccounts_ends hrest account hmem
        obtain ⟨_, hmap, heq⟩ := List.mem_map.mp hid
        obtain ⟨a, ha, rfl⟩ := List.mem_map.mp hmap
        exact ⟨heq ▸ hnamed a (List.mem_of_mem_filter ha), htoken⟩

theorem fetchMailboxes_uses (folders : Folders) :
    (fetchMailboxes folders).Uses SessionCall.IsRequest := by
  refine Job.Uses.bind (fetchAccountMailboxes_uses (fun _ _ ↦ ⟨_, rfl⟩) _ _) ?_
  rintro (_ | account)
  · trivial
  · refine Job.Uses.bind ⟨⟨_, rfl⟩, fun _ ↦ trivial⟩ fun session ↦ ?_
    exact Job.Uses.bind (fetchAccounts_uses (fun _ _ ↦ ⟨_, rfl⟩) _) fun _ ↦ trivial

/-- `KeepsState` of a call. -/
def KeepsStateCall : SessionCall → World S × History → Prop
  | .locked s, w => KeepsState w.1.accounts s
  | _, _ => True

instance : ∀ (q : SessionCall) (w : World S × History),
    Decidable (KeepsStateCall q w)
  | .locked s, w => inferInstanceAs (Decidable (KeepsState w.1.accounts s))
  | .jmap _, _ | .database _, _ => .isTrue trivial

/-- `EntersState` of a call. -/
def EntersStateCall : SessionCall → World S × History → Prop
  | .locked s, w => EntersState w.1.accounts s
  | _, _ => True

/-- The state of each account is one that the server has returned for it. -/
def StatesReturned (w : World S × History) : Prop :=
  ∀ account ∈ w.1.accounts, StateToken w.2 account.accountId account.mailboxState

instance (w : World S × History) : Decidable (StatesReturned w) :=
  inferInstanceAs (Decidable (∀ account ∈ w.1.accounts, ∃ reply ∈ w.2,
    (account.accountId, account.mailboxState) ∈ tokens reply))

/-- The tasks of a session that has begun. -/
def sessionPool (folders : Folders) (tasks : List Task) (accounts : List Account)
    (w : World S × History) : Pool SessionCall SessionCall.Return Unit (World S × History) :=
  ⟨tasks.map (Task.job folders), ({ w.1 with accounts := accounts }, w.2)⟩

/-- What every state of the pool of a session satisfies. -/
structure StatesInv (c : Pool SessionCall SessionCall.Return Unit (World S × History)) : Prop where
  honest : c.Honest Grounded
  replies : ∀ reply ∈ c.world.2, ReplyOk reply
  returned : ∀ account ∈ c.world.1.accounts, account.Returned c.world.2

theorem StatesInv.step
    (hserver : ∀ request s, ReplyOk ⟨.jmap request, (outside.jmap request s).1⟩)
    {c : Pool SessionCall SessionCall.Return Unit (World S × History)} (hc : StatesInv c) (i : ℕ)
    (hkeep : ∀ q ∈ c.next? i, KeepsStateCall q c.world) :
    StatesInv (c.step (Job.logging (answer folders outside)) i) := by
  have hhonest := hc.honest.step (answer folders outside) Grounded.mono i
  obtain ⟨heq, -⟩ | ⟨q, hq, heq⟩ :=
    Pool.step_world (Job.logging (answer folders outside)) c i
  · constructor
    · exact hhonest
    · rw [heq]
      exact hc.replies
    · rw [heq]
      exact hc.returned
  · constructor
    · exact hhonest
    · rw [heq]
      exact replyOk_logging hserver q c.world hc.replies
    · rw [heq]
      have hmono : ∀ account : Account, account.Returned c.world.2 →
          account.Returned (Job.logging (answer folders outside) q c.world).2.2 :=
        fun account haccount ↦ ⟨haccount.1, haccount.2.mono (List.subset_cons_self _ _)⟩
      intro account hmem
      cases q with
      | jmap request => exact hmono account (hc.returned account hmem)
      | database op => exact hmono account (hc.returned account hmem)
      | locked s =>
          refine hmono account ?_
          exact returned_run folders hc.replies (hc.honest.next? hq) (hkeep _ hq) hc.returned
            account hmem

theorem statesInv_sessionPool (hdefault : folders.defaultAccountId ≠ "")
    (hserver : ∀ request s, ReplyOk ⟨.jmap request, (outside.jmap request s).1⟩) {s : S}
    {accounts : List Account} {w : World S × History}
    (hstart : (fetchMailboxes folders).run (Job.logging (answer folders outside)) (⟨[], s⟩, []) =
      (some accounts, w)) (tasks : List Task) :
        StatesInv (sessionPool folders tasks accounts w) := by
  have hreplies : ∀ reply ∈ ((fetchMailboxes folders).run
      (Job.logging (answer folders outside)) (⟨[], s⟩, [])).2.2, ReplyOk reply :=
    Job.run_induct (fun w : World S × History ↦ ∀ reply ∈ w.2, ReplyOk reply)
      (fun q w _ hok ↦ replyOk_logging hserver q w hok) (fetchMailboxes_uses folders) (by simp)
  have hends := Job.ends_run_logging (answer folders outside) (fetchMailboxes folders) (⟨[], s⟩, [])
  rw [hstart] at hreplies hends
  constructor
  · intro job hmem
    obtain ⟨task, -, rfl⟩ := List.mem_map.mp hmem
    exact task.job_honest folders
  · exact hreplies
  · exact fetchMailboxes_ends hdefault hreplies hends

/-- **States are returned by the server.**  In every interleaving of the tasks of a session, over
any server that names its accounts and over any database, the state of each account is at all times
one that the server has returned for it, and after a creation or a renaming that of its response, as
long as no renaming enters parents. -/
theorem states_returned (hdefault : folders.defaultAccountId ≠ "")
    (hserver : ∀ request s, ReplyOk ⟨.jmap request, (outside.jmap request s).1⟩) {s : S}
    {accounts : List Account} {w : World S × History}
    (hstart : (fetchMailboxes folders).run (Job.logging (answer folders outside)) (⟨[], s⟩, []) =
      (some accounts, w)) (tasks : List Task) (schedule : List ℕ)
    (hkeep : Run.Along (Pool.step (Job.logging (answer folders outside)))
      (fun c i ↦ ∀ q ∈ c.next? i, KeepsStateCall q c.world)
      (sessionPool folders tasks accounts w) schedule) :
    (∀ n, StatesReturned (Run.exec (Pool.step (Job.logging (answer folders outside)))
      (sessionPool folders tasks accounts w) (schedule.take n)).world) ∧
    Run.Along (Pool.step (Job.logging (answer folders outside)))
      (fun c i ↦ ∀ q ∈ c.next? i, EntersStateCall q c.world)
      (sessionPool folders tasks accounts w) schedule := by
  have hinv := statesInv_sessionPool hdefault hserver hstart tasks
  constructor
  · refine (Run.forall_take_iff
      (P := fun c : Pool SessionCall SessionCall.Return Unit (World S × History) ↦
        StatesReturned c.world)).mpr ⟨fun account hmem ↦ (hinv.returned account hmem).2, ?_⟩
    refine Run.along_of_inv StatesInv hinv (fun c i hc hi ↦ hc.step hserver i hi) ?_ hkeep
    intro c i hc hi account hmem
    exact ((hc.step hserver i hi).returned account hmem).2
  · refine Run.along_of_inv StatesInv hinv (fun c i hc hi ↦ hc.step hserver i hi) ?_ hkeep
    intro c i hc hi q hq
    cases q with
    | locked s => exact entersState s (hi _ hq)
    | jmap request => trivial
    | database op => trivial

end Runs

/-! ## A mailbox renamed into a new one -/

/-- The mailbox server of the user `a`. -/
def outsideA : Outside MailboxServer where
  jmap request s := MailboxServer.handle request { s with accountId := "a" }
  database := noDatabase

/-- What a session finds at the server of the mailbox `A`, with the history. -/
def beginA : Option (List Account) × (World MailboxServer × History) :=
  (fetchMailboxes folders).run (Job.logging (answer folders outsideA)) (⟨[], serverA⟩, [])

/-- RENAME moves `A` into a mailbox `B` that is not there, and leaves the account with an empty
state. -/
theorem state_lost :
    ¬ StatesReturned (Run.exec (Pool.step (Job.logging (answer folders outsideA)))
      (sessionPool folders [.rename "A" "B/C"] accountsA beginA.2) (List.replicate 8 0)).world := by
  decide +kernel

theorem accountId_of_changes {s : MailboxServer} {sinceState : String} {changes : Changes}
    (h : s.changes sinceState = some changes) : changes.accountId = s.accountId := by
  obtain ⟨since, -, hchanges⟩ := Option.bind_eq_some_iff.mp h
  exact Option.some.inj hchanges ▸ rfl

theorem replyOk_outsideA (request : Jmap.Request) (s : MailboxServer) :
    ReplyOk ⟨.jmap request, (outsideA.jmap request s).1⟩ := by
  cases request with
  | session =>
      intro a ha
      rw [List.mem_singleton.mp ha]
      show "a" ≠ ""
      decide
  | changesMailbox accounts =>
      intro changes hmem
      obtain ⟨e, -, he⟩ := List.mem_map.mp hmem
      split at he
      · rw [accountId_of_changes he]
        show "a" ≠ ""
        decide
      · cases he
  | _ => trivial

/-- A mailbox is made before another is moved into it. -/
theorem states_returned_created :
    (∀ n, StatesReturned (Run.exec (Pool.step (Job.logging (answer folders outsideA)))
      (sessionPool folders [.create "B" .none, .rename "A" "B/C", .synchronize false false]
        accountsA beginA.2)
      ((List.replicate 7 0 ++ List.replicate 8 1 ++ List.replicate 5 2).take n)).world) ∧
    Run.Along (Pool.step (Job.logging (answer folders outsideA)))
      (fun c i ↦ ∀ q ∈ c.next? i, EntersStateCall q c.world)
      (sessionPool folders [.create "B" .none, .rename "A" "B/C", .synchronize false false]
        accountsA beginA.2)
      (List.replicate 7 0 ++ List.replicate 8 1 ++ List.replicate 5 2) :=
  states_returned (by decide) replyOk_outsideA (s := serverA)
    (Prod.ext (by decide +kernel : beginA.1 = some accountsA) rfl)
    [.create "B" .none, .rename "A" "B/C", .synchronize false false] _ (by decide +kernel)

end ImapToJmap
