import ImapToJmap.Mailboxes.Consistent
import ImapToJmap.Mailboxes.Listing
import ImapToJmap.Mailboxes.Located

/-!
# The flags of the children

Each cached mailbox says whether it has children.  CREATE, RENAME, DELETE and the refetching of an
account each set this flag in a way of their own.  `Edit` is what such a command does to the cache
once the server has answered, `has_children_exact` says when a run of them leaves every flag right.

Three things go wrong.  DELETE never looks at the parent of what it deletes.  RENAME takes what is
below the renamed mailbox for something that stays below its old parent, and creates the top level
of a shared account anew below that account.  A refetch enters two mailboxes with one path under one
name, and does not go below the hundredth level.
-/

namespace ImapToJmap

open Jmap

/-- A command that has got through, or a refetched account, with what the server has answered. -/
inductive Edit where
  | create (mailboxName : String) (response : MailboxSet)
  | rename (mailboxName newMailboxName : String) (response : MailboxSet)
  | delete (mailboxName : String)
  | refetch (accountId : String) (sharedName : Option String) (mailboxState : String)
      (result : List MailboxObject)

theorem toOption_eq_some {ε α : Type} {x : Except ε α} {a : α} :
    x.toOption = some a ↔ x = .ok a := by
  cases x with
  | error err => simp [Except.toOption]
  | ok b => simp [Except.toOption]

namespace Edit

/-- The prefix of the names of an account that is shared under a name. -/
def namePrefix (folders : Folders) (sharedName : Option String) : Option String :=
  sharedName.map fun name ↦ folders.folderShared ++ "/" ++ name

/-- The critical section that the edit is made in, if it comes to that. -/
def «section» (folders : Folders) (accounts : List Account) : Edit → Option Section
  | create mailboxName response => do
      let params ← (validateMailboxCreate folders accounts mailboxName).toOption
      let mailboxIds ← (createdIds params response).toOption
      some (.addCreated params mailboxIds response.newState response.hasUpdated)
  | rename mailboxName newMailboxName response => do
      let params ← (validateMailboxCreate folders accounts newMailboxName).toOption
      let mailboxId ← (ImapToJmap.renameSource accounts mailboxName params.accountId).toOption
      let mailboxIds ← (createdIds params.parents response).toOption
      some (.rename mailboxName mailboxId params.parents
        (if params.parents.path.isEmpty then none else some mailboxIds) response)
  | delete mailboxName => do
      let (accountId, mailboxId, _) ← (ImapToJmap.deleteTarget accounts mailboxName).toOption
      some (.delete accountId mailboxName mailboxId)
  | refetch accountId sharedName mailboxState result =>
      (Account.ofListing accountId (namePrefix folders sharedName) mailboxState result).map
        fun account ↦ .update ⟨[], [], []⟩ [account] []

/-- Make the edit. -/
def step (folders : Folders) (accounts : List Account) (edit : Edit) : List Account :=
  match edit.section folders accounts with
  | some s => (s.run folders accounts).2
  | none => accounts

/-! ## What the server promises -/

/-- The account that an edit is about. -/
def target (accounts : List Account) (accountId : String) : Option Account :=
  accounts.find? fun a ↦ a.accountId = accountId

/-- What a server promises of a request that succeeds, with nothing else going on: the mailboxes it
creates are new, a mailbox is not moved below itself, and one with children is not destroyed. -/
def ServedSection (accounts : List Account) : Section → Prop
  | .addCreated params mailboxIds _ hasUpdated =>
      hasUpdated = false ∧
        ∀ account ∈ target accounts params.accountId, Located.FreshIds account params mailboxIds
  | .rename mailboxName _ params created response =>
      response.updated.isOk = true ∧ response.hasUpdated = true ∧
        ¬ Below mailboxName params.fullPath ∧
        ∀ mailboxIds ∈ created, ∀ account ∈ target accounts params.accountId,
          Located.FreshIds account params mailboxIds
  | .delete accountId mailboxName _ =>
      ∀ account ∈ target accounts accountId, ∀ n ∈ account.mailboxNames.keys, ¬ Below mailboxName n
  | _ => True

instance (account : Account) (params : CreateParams) (mailboxIds : List String) :
    Decidable (Located.FreshIds account params mailboxIds) :=
  inferInstanceAs (Decidable (_ ∧ _ ∧ _))

instance (accounts : List Account) : ∀ s, Decidable (ServedSection accounts s)
  | .addCreated params mailboxIds _ hasUpdated =>
      inferInstanceAs (Decidable (hasUpdated = false ∧
        ∀ account ∈ target accounts params.accountId, Located.FreshIds account params mailboxIds))
  | .rename mailboxName _ params created response =>
      inferInstanceAs (Decidable (response.updated.isOk = true ∧ response.hasUpdated = true ∧
        ¬ Below mailboxName params.fullPath ∧
        ∀ mailboxIds ∈ created, ∀ account ∈ target accounts params.accountId,
          Located.FreshIds account params mailboxIds))
  | .delete accountId mailboxName _ =>
      inferInstanceAs (Decidable (∀ account ∈ target accounts accountId,
        ∀ n ∈ account.mailboxNames.keys, ¬ Below mailboxName n))
  | .unlink _ | .mailboxStates | .change .. | .update .. | .mailboxByName _ | .validateCreate _ |
    .renameSource .. | .deleteTarget _ | .subscribe .. | .list | .statusCached .. |
    .statusMessages .. | .statusTotals .. | .statusSize .. | .statusModseq .. => .isTrue trivial

/-- What a server promises of an edit. -/
def Served (folders : Folders) (accounts : List Account) (edit : Edit) : Prop :=
  (match edit with
    | refetch _ _ _ result => Listing result
    | _ => True) ∧
  ∀ s ∈ edit.section folders accounts, ServedSection accounts s

/-! ## When the flags stay right -/

/-- What the critical sections need of the cache.  A deletion: that the parent of the mailbox, if it
is there, keeps another one.  A renaming: that the new parent is no mailbox to be created at the top
level of a shared account; and that the old parent, if it is there and the mailbox has something
below it, keeps another one, be it the mailbox itself. -/
def KeepsSection (accounts : List Account) : Section → Prop
  | .rename mailboxName _ params _ _ =>
      ∀ account ∈ target accounts params.accountId,
        (account.namePrefix.isSome = true → params.parentMailboxId.isSome = true) ∧
        ('/' ∈ mailboxName.toList → parentPath mailboxName ∈ account.mailboxNames →
          (∃ n ∈ account.mailboxNames.keys, Below mailboxName n) →
          Below (parentPath mailboxName) params.fullPath ∨
            ∃ n ∈ account.mailboxNames.keys, n ≠ mailboxName ∧ ¬ Below mailboxName n ∧
              Below (parentPath mailboxName) n)
  | .delete accountId mailboxName _ =>
      ∀ account ∈ target accounts accountId,
        '/' ∈ mailboxName.toList → parentPath mailboxName ∈ account.mailboxNames →
          ∃ n ∈ account.mailboxNames.keys, n ≠ mailboxName ∧ Below (parentPath mailboxName) n
  | _ => True

instance (accounts : List Account) : ∀ s, Decidable (KeepsSection accounts s)
  | .rename mailboxName _ params _ _ =>
      inferInstanceAs (Decidable (∀ account ∈ target accounts params.accountId,
        (account.namePrefix.isSome = true → params.parentMailboxId.isSome = true) ∧
        ('/' ∈ mailboxName.toList → parentPath mailboxName ∈ account.mailboxNames →
          (∃ n ∈ account.mailboxNames.keys, Below mailboxName n) →
          Below (parentPath mailboxName) params.fullPath ∨
            ∃ n ∈ account.mailboxNames.keys, n ≠ mailboxName ∧ ¬ Below mailboxName n ∧
              Below (parentPath mailboxName) n)))
  | .delete accountId mailboxName _ =>
      inferInstanceAs (Decidable (∀ account ∈ target accounts accountId,
        '/' ∈ mailboxName.toList → parentPath mailboxName ∈ account.mailboxNames →
          ∃ n ∈ account.mailboxNames.keys, n ≠ mailboxName ∧ Below (parentPath mailboxName) n))
  | .unlink _ | .mailboxStates | .change .. | .update .. | .mailboxByName _ | .validateCreate _ |
    .addCreated .. | .renameSource .. | .deleteTarget _ | .subscribe .. | .list |
    .statusCached .. | .statusMessages .. | .statusTotals .. | .statusSize .. |
    .statusModseq .. => .isTrue trivial

/-- What an edit needs: a refetch, that each mailbox has a path of its own, and none with children
is too deep. -/
def KeepsChildren (folders : Folders) (accounts : List Account) (edit : Edit) : Prop :=
  (match edit with
    | refetch _ sharedName _ result => PathsFit (namePrefix folders sharedName) result
    | _ => True) ∧
  ∀ s ∈ edit.section folders accounts, KeepsSection accounts s

instance (folders : Folders) (accounts : List Account) (edit : Edit) :
    Decidable (edit.Served folders accounts) :=
  have : Decidable (match edit with
      | refetch _ _ _ result => Listing result
      | _ => True) := match edit with
    | refetch _ _ _ result => inferInstanceAs (Decidable (Listing result))
    | create .. | rename .. | delete _ => .isTrue trivial
  inferInstanceAs (Decidable (_ ∧ _))

instance (folders : Folders) (accounts : List Account) (edit : Edit) :
    Decidable (edit.KeepsChildren folders accounts) :=
  have : Decidable (match edit with
      | refetch _ sharedName _ result => PathsFit (namePrefix folders sharedName) result
      | _ => True) := match edit with
    | refetch _ sharedName _ result =>
        inferInstanceAs (Decidable (PathsFit (namePrefix folders sharedName) result))
    | create .. | rename .. | delete _ => .isTrue trivial
  inferInstanceAs (Decidable (_ ∧ _))

end Edit

/-- The flag of every mailbox with a name is right. -/
def Account.HasChildrenExact (account : Account) : Prop :=
  ∀ (name id : String) (mailbox : Mailbox), account.mailboxNames[name]? = some id →
    account.mailboxData[id]? = some mailbox →
      (mailbox.hasChildren = true ↔ ∃ n ∈ account.mailboxNames, Below name n)

/-- What a run keeps: every account is there once, its names form a tree, and its flags are
right. -/
structure Forest (accounts : List Account) : Prop where
  nodup : (accounts.map Account.accountId).Nodup
  tree : ∀ account ∈ accounts, account.Tree
  flags : ∀ account ∈ accounts, account.Flags none
  namePrefix : ∀ account ∈ accounts, account.namePrefix ≠ some ""

namespace Forest

variable {accounts : List Account}

theorem target_of_mem (h : Forest accounts) {account : Account} (hmem : account ∈ accounts) :
    Edit.target accounts account.accountId = some account := by
  have hnodup := h.nodup
  clear h
  induction accounts with
  | nil => cases hmem
  | cons first accounts ih =>
      obtain ⟨hnotin, hnodup⟩ := List.nodup_cons.mp hnodup
      rcases List.mem_cons.mp hmem with rfl | hmem
      · exact List.find?_cons_of_pos (by simp)
      · rw [Edit.target, List.find?_cons_of_neg]
        · exact ih hmem hnodup
        · simp only [decide_eq_true_eq]
          intro heq
          exact hnotin (heq ▸ List.mem_map_of_mem hmem)

/-- An edit of one account. -/
theorem updateAccount (h : Forest accounts) {accountId : String} {f : Account → Account}
    (hid : ∀ account, (f account).accountId = account.accountId)
    (hf : ∀ account ∈ Edit.target accounts accountId,
      (f account).Tree ∧ (f account).Flags none ∧ (f account).namePrefix ≠ some "") :
    Forest (updateAccount accountId f accounts) := by
  have hcases {account : Account} (hmem : account ∈ ImapToJmap.updateAccount accountId f accounts) :
      account.Tree ∧ account.Flags none ∧ account.namePrefix ≠ some "" := by
    rcases mem_updateAccount hmem with hmem | ⟨old, hold, rfl⟩
    · exact ⟨h.tree account hmem, h.flags account hmem, h.namePrefix account hmem⟩
    · exact hf old hold
  refine ⟨?_, fun account hmem ↦ (hcases hmem).1, fun account hmem ↦ (hcases hmem).2.1,
    fun account hmem ↦ (hcases hmem).2.2⟩
  have hids : (ImapToJmap.updateAccount accountId f accounts).map Account.accountId =
      accounts.map Account.accountId := by
    clear h hf hcases
    induction accounts with
    | nil => rfl
    | cons account accounts ih =>
        unfold ImapToJmap.updateAccount
        split
        · simp [hid]
        · simp [ih]
  rw [hids]
  exact h.nodup

/-! ## What the commands find -/

theorem mem_of_scanNames {mailboxName id : String} {l : List (String × String)}
    (h : scanNames mailboxName l = some (.ok id)) : (mailboxName, id) ∈ l := by
  induction l with
  | nil => cases h
  | cons e l ih =>
      obtain ⟨name, id'⟩ := e
      unfold scanNames at h
      split_ifs at h with hname hchild
      · cases h
        rw [hname]
        exact List.mem_cons_self
      · cases h
      · exact List.mem_cons_of_mem _ (ih h)

theorem deleteTarget_spec {mailboxName accountId id : String} {deleteUidCache : Bool}
    (h : ImapToJmap.deleteTarget accounts mailboxName = .ok (accountId, id, deleteUidCache)) :
    ∃ account ∈ accounts, account.accountId = accountId ∧
      account.mailboxNames[mailboxName]? = some id := by
  unfold ImapToJmap.deleteTarget at h
  dsimp only at h
  cases hfound : accounts.findSome? fun account ↦
      if account.admits mailboxName then
        (scanNames mailboxName account.mailboxNames.toList).map fun r ↦
          r.map fun id ↦ (account.accountId, id, account.namePrefix.isNone)
      else none with
  | none => simp [hfound] at h
  | some r =>
      rw [hfound, Option.getD_some] at h
      subst h
      obtain ⟨account, hmem, haccount⟩ := List.exists_of_findSome?_eq_some hfound
      split_ifs at haccount
      obtain ⟨r, hscan, hr⟩ := Option.map_eq_some_iff.mp haccount
      cases r with
      | error err => cases hr
      | ok id' =>
          cases hr
          exact ⟨account, hmem, rfl,
            Std.ExtTreeMap.mem_toList_iff_getElem?_eq_some.mp (mem_of_scanNames hscan)⟩

theorem renameSource_spec {mailboxName accountId id : String}
    (h : ImapToJmap.renameSource accounts mailboxName accountId = .ok id) :
    ∃ account ∈ accounts, account.accountId = accountId ∧
      account.mailboxNames[mailboxName]? = some id := by
  unfold ImapToJmap.renameSource at h
  dsimp only at h
  cases hfound : accounts.findSome? fun account ↦
      account.mailboxNames[mailboxName]?.map fun id ↦
        if account.accountId = accountId then (.ok id : Except StatusResponse String)
        else
          .error ((StatusResponse.no "Cannot move mailboxes between accounts.").withCode .cannot)
    with
  | none => simp [hfound] at h
  | some r =>
      rw [hfound, Option.getD_some] at h
      subst h
      obtain ⟨account, hmem, haccount⟩ := List.exists_of_findSome?_eq_some hfound
      obtain ⟨id', hid', hr⟩ := Option.map_eq_some_iff.mp haccount
      split_ifs at hr with hid
      cases hr
      exact ⟨account, hmem, hid, hid'⟩

/-! ## The edits -/

/-- CREATE -/
theorem addCreated (h : Forest accounts) {folders : Folders} {mailboxName : String}
    {params : CreateParams}
    (hparams : validateMailboxCreate folders accounts mailboxName = .ok params)
    {mailboxIds : List String} (hlength : mailboxIds.length = params.path.length)
    {newState : String} {hasUpdated : Bool}
    (hserved : Edit.ServedSection accounts (.addCreated params mailboxIds newState hasUpdated)) :
    Forest (Section.runAddCreated params mailboxIds newState hasUpdated accounts).2 := by
  obtain ⟨rfl, hfresh⟩ := hserved
  obtain ⟨account, hmem, hid, above, hlocated⟩ := located_of_validate hparams
  have htarget := hid ▸ h.target_of_mem hmem
  rw [Section.runAddCreated, onAccount_snd]
  refine h.updateAccount (fun a ↦ (a.addCreated_spec _ _ _ _).1) ?_
  intro account' haccount'
  obtain rfl := Option.some.inj (htarget.symm.trans haccount')
  obtain ⟨hcreated, hflags⟩ := hlocated.addCreated (h.tree _ hmem) (h.flags _ hmem)
    (h.namePrefix _ hmem) List.prefix_rfl hlocated.ne_nil rfl rfl hlength
    (hfresh account htarget) newState false
  refine ⟨hcreated.tree, hflags, ?_⟩
  rw [hcreated.namePrefix]
  exact h.namePrefix _ hmem

/-- DELETE -/
theorem delete (h : Forest accounts) {mailboxName accountId id : String} {deleteUidCache : Bool}
    (hfound : ImapToJmap.deleteTarget accounts mailboxName = .ok (accountId, id, deleteUidCache))
    (hserved : Edit.ServedSection accounts (.delete accountId mailboxName id))
    (hkeeps : Edit.KeepsSection accounts (.delete accountId mailboxName id)) :
    Forest (ImapToJmap.updateAccount accountId (fun account ↦ account.remove mailboxName id)
      accounts) := by
  obtain ⟨account, hmem, hid, hname⟩ := deleteTarget_spec hfound
  have htarget := hid ▸ h.target_of_mem hmem
  refine h.updateAccount (fun a ↦ rfl) ?_
  intro account' haccount'
  obtain rfl := Option.some.inj (htarget.symm.trans haccount')
  refine ⟨(h.tree _ hmem).remove id ?_, (h.flags _ hmem).remove (h.tree _ hmem) hname ?_,
    h.namePrefix account hmem⟩
  · intro n hn
    exact hserved account htarget n (Std.ExtTreeMap.mem_keys.mpr hn)
  · rintro q x hx rfl hq
    have hparent := hkeeps account htarget
    rw [parentPath_append q hx] at hparent
    obtain ⟨n, hn, hrest⟩ := hparent (by simp) hq
    exact ⟨n, Std.ExtTreeMap.mem_keys.mp hn, hrest⟩

theorem updateAccount_updateAccount {accountId : String} {f g : Account → Account}
    (hf : ∀ account, (f account).accountId = account.accountId) (accounts : List Account) :
    ImapToJmap.updateAccount accountId g (ImapToJmap.updateAccount accountId f accounts) =
      ImapToJmap.updateAccount accountId (fun account ↦ g (f account)) accounts := by
  induction accounts with
  | nil => rfl
  | cons account accounts ih =>
      by_cases hid : account.accountId = accountId
      · simp [ImapToJmap.updateAccount, hid, hf]
      · simp [ImapToJmap.updateAccount, hid, ih]

theorem rename_accountId (account : Account) (mailboxName id : String) (params : CreateParams)
    (newState : String) :
    (account.rename mailboxName id params newState).accountId = account.accountId :=
  (Account.updateOldParent_spec { account with mailboxState := newState } mailboxName).1

/-- RENAME -/
theorem rename (h : Forest accounts) {folders : Folders} {mailboxName newMailboxName id : String}
    {params : CreateParams}
    (hparams : validateMailboxCreate folders accounts newMailboxName = .ok params)
    (hsource : ImapToJmap.renameSource accounts mailboxName params.accountId = .ok id)
    {mailboxIds : List String} (hlength : mailboxIds.length = params.parents.path.length)
    {response : MailboxSet}
    (hserved : Edit.ServedSection accounts (.rename mailboxName id params.parents
      (if params.parents.path.isEmpty then none else some mailboxIds) response))
    (hkeeps : Edit.KeepsSection accounts (.rename mailboxName id params.parents
      (if params.parents.path.isEmpty then none else some mailboxIds) response)) :
    Forest (Section.runRename mailboxName id params.parents
      (if params.parents.path.isEmpty then none else some mailboxIds) response accounts).2 := by
  obtain ⟨hok, hupdated, hapart, hfresh⟩ := hserved
  obtain ⟨account, hmem, hid, above, hlocated⟩ := located_of_validate hparams
  have htarget := hid ▸ h.target_of_mem hmem
  obtain ⟨account', hmem', hid', hold⟩ := renameSource_spec hsource
  have htarget' := hid' ▸ h.target_of_mem hmem'
  obtain rfl := Option.some.inj (htarget.symm.trans htarget')
  obtain ⟨htop, hkeep⟩ := hkeeps account htarget
  have hkeep' : account.KeepsParent mailboxName params.fullPath := by
    rintro q y hy rfl hq ⟨n, hn, hbelow⟩
    rw [parentPath_append q hy] at hkeep
    refine (hkeep (by simp) hq ⟨n, Std.ExtTreeMap.mem_keys.mpr hn, hbelow⟩).imp_right ?_
    rintro ⟨n', hn', hrest⟩
    exact ⟨n', Std.ExtTreeMap.mem_keys.mp hn', hrest⟩
  have hmain {account' : Account} (haccount' : params.parents.path = [] ∧ account' = account ∨
      params.parents.path ≠ [] ∧ ∃ mailboxIds newState,
        mailboxIds.length = params.parents.path.length ∧
        Located.FreshIds account params.parents mailboxIds ∧
        account' = (account.addCreated params.parents mailboxIds newState true).2)
      (hpre : account'.namePrefix = account.namePrefix) (newState : String) :
      (account'.rename mailboxName id params.parents newState).Tree ∧
      (account'.rename mailboxName id params.parents newState).Flags none ∧
      (account'.rename mailboxName id params.parents newState).namePrefix ≠ some "" := by
    obtain ⟨htree, hflags⟩ := hlocated.rename (h.tree account hmem) (h.flags account hmem)
      (h.namePrefix account hmem) hold htop hapart hkeep' haccount' newState
    refine ⟨htree, hflags, ?_⟩
    rw [Account.rename_namePrefix, hpre]
    exact h.namePrefix account hmem
  obtain ⟨u, hok⟩ : ∃ u, response.updated = .ok u := by
    cases hupdated : response.updated with
    | error err => simp [hupdated, Except.toBool] at hok
    | ok u => exact ⟨u, rfl⟩
  unfold Section.runRename
  by_cases hnil : params.parents.path = []
  · simp only [hnil, List.isEmpty_nil, if_true, hok]
    refine h.updateAccount (fun a ↦ rename_accountId a _ _ _ _) ?_
    intro account' haccount'
    obtain rfl := Option.some.inj (htarget.symm.trans haccount')
    exact hmain (.inl ⟨hnil, rfl⟩) rfl _
  · have hempty : params.parents.path.isEmpty = false := by simpa using hnil
    have hfresh := hfresh mailboxIds (by simp [hempty]) account htarget
    have hspec (a : Account) :=
      a.addCreated_spec params.parents mailboxIds response.newState response.hasUpdated
    have hadded := onAccount_fst params.parents.accountId (.error "Account no longer available.")
      (fun a ↦ a.addCreated params.parents mailboxIds response.newState response.hasUpdated)
        accounts
    have hfound : accounts.find? (fun a ↦ a.accountId = params.parents.accountId) = some account :=
      htarget
    simp only [hfound, (account.addCreated_of_length hlength response.newState
      response.hasUpdated).1] at hadded
    simp only [hempty, Bool.false_eq_true, if_false, Section.runAddCreated, hadded, hok,
      onAccount_snd]
    rw [updateAccount_updateAccount fun a ↦ (hspec a).1]
    refine h.updateAccount (fun a ↦ (rename_accountId _ _ _ _ _).trans (hspec a).1) ?_
    intro account' haccount'
    obtain rfl := Option.some.inj (htarget.symm.trans haccount')
    refine hmain (.inr ⟨hnil, mailboxIds, response.newState, hlength, hfresh, ?_⟩) ?_ _
    · rw [hupdated]
    · obtain ⟨hcreated, -⟩ := hlocated.addCreated (h.tree account hmem) (h.flags account hmem)
        (h.namePrefix account hmem) (List.dropLast_prefix _) hnil rfl rfl hlength hfresh
        response.newState response.hasUpdated
      exact hcreated.namePrefix

/-- A refetched account in its place. -/
theorem refetch (h : Forest accounts) {new : Account} (htree : new.Tree) (hflags : new.Flags none)
    (hpre : new.namePrefix ≠ some "") (changes : MailboxSync) :
    Forest (updateMailboxes changes accounts [new] []).2 := by
  have hresult : (updateMailboxes changes accounts [new] []).2 =
      (replaceAccount changes accounts new).2 := by
    simp [updateMailboxes]
  rw [hresult]
  unfold replaceAccount
  split
  · rename_i old hold
    -- the new account has the id of the one it replaces
    have hsame : ImapToJmap.updateAccount new.accountId (fun _ ↦ new) accounts =
        ImapToJmap.updateAccount new.accountId
          (fun account ↦ if account.accountId = new.accountId then new else account) accounts := by
      clear h hold hresult
      induction accounts with
      | nil => rfl
      | cons account accounts ih =>
          by_cases hid : account.accountId = new.accountId
          · simp [ImapToJmap.updateAccount, hid]
          · simp [ImapToJmap.updateAccount, hid, ih]
    rw [hsame]
    refine h.updateAccount (fun account ↦ ?_) fun account haccount ↦ ?_
    · split
      · rename_i hid
        exact hid.symm
      · rfl
    · have hid := List.find?_some haccount
      rw [if_pos (by simpa using hid)]
      exact ⟨htree, hflags, hpre⟩
  · rename_i hnone
    have hcases {account : Account} (hmem : account ∈ accounts ++ [new]) :
        account ∈ accounts ∨ account = new := by simpa using hmem
    refine ⟨?_, ?_, ?_, ?_⟩
    · rw [List.map_append]
      refine List.Nodup.append h.nodup (by simp) ?_
      simp only [List.map_cons, List.map_nil, List.disjoint_singleton, List.mem_map, not_exists,
        not_and]
      intro account hmem heq
      have := List.find?_eq_none.mp hnone account hmem
      simp [heq] at this
    · intro account hmem
      rcases hcases hmem with hmem | rfl
      · exact h.tree account hmem
      · exact htree
    · intro account hmem
      rcases hcases hmem with hmem | rfl
      · exact h.flags account hmem
      · exact hflags
    · intro account hmem
      rcases hcases hmem with hmem | rfl
      · exact h.namePrefix account hmem
      · exact hpre

/-- **One edit.** -/
theorem step (h : Forest accounts) {folders : Folders} {edit : Edit}
    (hserved : edit.Served folders accounts) (hkeeps : edit.KeepsChildren folders accounts) :
    Forest (edit.step folders accounts) := by
  obtain ⟨hlisting, hserved⟩ := hserved
  obtain ⟨hfit, hkeeps⟩ := hkeeps
  unfold Edit.step
  cases hsection : edit.section folders accounts with
  | none => exact h
  | some s =>
      have hserved := hserved s hsection
      have hkeeps := hkeeps s hsection
      cases edit with
      | create mailboxName response =>
          rw [Edit.section] at hsection
          obtain ⟨params, hparams, hrest⟩ := Option.bind_eq_some_iff.mp hsection
          obtain ⟨mailboxIds, hids, hs⟩ := Option.bind_eq_some_iff.mp hrest
          obtain rfl := Option.some.inj hs
          exact h.addCreated (toOption_eq_some.mp hparams)
            (length_of_createdIds (toOption_eq_some.mp hids)) hserved
      | rename mailboxName newMailboxName response =>
          rw [Edit.section] at hsection
          obtain ⟨params, hparams, hrest⟩ := Option.bind_eq_some_iff.mp hsection
          obtain ⟨mailboxId, hsource, hrest⟩ := Option.bind_eq_some_iff.mp hrest
          obtain ⟨mailboxIds, hids, hs⟩ := Option.bind_eq_some_iff.mp hrest
          obtain rfl := Option.some.inj hs
          exact h.rename (toOption_eq_some.mp hparams) (toOption_eq_some.mp hsource)
            (length_of_createdIds (toOption_eq_some.mp hids)) hserved hkeeps
      | delete mailboxName =>
          rw [Edit.section] at hsection
          obtain ⟨⟨accountId, mailboxId, deleteUidCache⟩, hfound, hs⟩ :=
            Option.bind_eq_some_iff.mp hsection
          obtain rfl := Option.some.inj hs
          exact h.delete (toOption_eq_some.mp hfound) hserved hkeeps
      | refetch accountId sharedName mailboxState result =>
          obtain ⟨account, haccount, rfl⟩ := Option.map_eq_some_iff.mp hsection
          refine h.refetch (Account.tree_ofListing hlisting hfit haccount)
            (Account.flags_ofListing hlisting hfit haccount) ?_ _
          rw [Account.namePrefix_ofListing hlisting haccount]
          cases sharedName <;> simp [Edit.namePrefix, String.append_eq_empty_iff]

end Forest

/-! ## The commands make these edits -/

section Alone

variable {S : Type} (folders : Folders) (outside : Outside S) (w : World S)

theorem run_locked (s : Section) : (SessionM.locked s).run (answer folders outside) w =
    ((s.run folders w.accounts).1, { w with accounts := (s.run folders w.accounts).2 }) := rfl

theorem run_jmap (request : Jmap.Request) : (SessionM.jmap request).run (answer folders outside) w =
    ((outside.jmap request w.outside).1,
      { w with outside := (outside.jmap request w.outside).2 }) :=
  rfl

/-- The session after the synchronization that a command begins with. -/
def synchronized : World S :=
  ((synchronizeMailboxes folders false false).run (answer folders outside) w).2

/-- CREATE, with nothing else running. -/
theorem createFolder_alone (mailboxName : String) (role : Role) :
    (((createFolder folders mailboxName role).run (answer folders outside) w).2.accounts =
      (synchronized folders outside w).accounts) ∨
    ∃ response, ((createFolder folders mailboxName role).run
      (answer folders outside) w).2.accounts =
      Edit.step folders (synchronized folders outside w).accounts
        (.create mailboxName response) := by
  unfold createFolder synchronized
  rw [Job.run_bind]
  generalize (synchronizeMailboxes folders false false).run (answer folders outside) w = sync
  obtain ⟨r, w⟩ := sync
  cases r with
  | error err => exact .inl rfl
  | ok _ =>
      dsimp only
      rw [Job.run_bind, run_locked]
      simp only [Section.run]
      cases hparams : validateMailboxCreate folders w.accounts mailboxName with
      | error message => exact .inl rfl
      | ok params =>
          dsimp only
          rw [Job.run_bind, run_jmap]
          generalize outside.jmap _ _ = reply
          obtain ⟨r, s⟩ := reply
          cases r with
          | error err => exact .inl rfl
          | ok response =>
              dsimp only
              cases hids : createdIds params response with
              | error message => exact .inl rfl
              | ok mailboxIds =>
                  refine .inr ⟨response, ?_⟩
                  have hsection : (Edit.create mailboxName response).section folders w.accounts =
                      some (.addCreated params mailboxIds response.newState
                        response.hasUpdated) := by
                    rw [Edit.section, toOption_eq_some.mpr hparams, Option.bind_eq_bind,
                      Option.bind_some, toOption_eq_some.mpr hids]
                    rfl
                  rw [Edit.step, hsection]
                  dsimp only
                  rw [Job.run_bind, run_locked]
                  generalize Section.run folders _ w.accounts = result
                  obtain ⟨r, accounts⟩ := result
                  cases r with
                  | error message => rfl
                  | ok mailboxId => rfl

/-- RENAME, with nothing else running. -/
theorem renameFolder_alone (mailboxName newMailboxName : String) :
    (((renameFolder folders mailboxName newMailboxName).run (answer folders outside) w).2.accounts =
      (synchronized folders outside w).accounts) ∨
    ∃ response,
      ((renameFolder folders mailboxName newMailboxName).run
        (answer folders outside) w).2.accounts =
        Edit.step folders (synchronized folders outside w).accounts
          (.rename mailboxName newMailboxName response) := by
  unfold renameFolder synchronized
  rw [Job.run_bind]
  generalize (synchronizeMailboxes folders false false).run (answer folders outside) w = sync
  obtain ⟨r, w⟩ := sync
  cases r with
  | error err => exact .inl rfl
  | ok _ =>
      dsimp only
      rw [Job.run_bind, run_locked]
      simp only [Section.run]
      cases hparams : validateMailboxCreate folders w.accounts newMailboxName with
      | error message => exact .inl rfl
      | ok params =>
          dsimp only
          rw [Job.run_bind, run_locked]
          simp only [Section.run]
          cases hsource : ImapToJmap.renameSource w.accounts mailboxName params.accountId with
          | error response => exact .inl rfl
          | ok mailboxId =>
              dsimp only
              rw [Job.run_bind, run_jmap]
              generalize outside.jmap _ _ = reply
              obtain ⟨r, s⟩ := reply
              cases r with
              | error err => exact .inl rfl
              | ok response =>
                  dsimp only
                  have hparents : createdIds { params with path := params.path.dropLast } response =
                      createdIds params.parents response := rfl
                  rw [hparents]
                  cases hids : createdIds params.parents response with
                  | error message => exact .inl rfl
                  | ok mailboxIds =>
                      refine .inr ⟨response, ?_⟩
                      have hsection : (Edit.rename mailboxName newMailboxName response).section
                          folders w.accounts = some (.rename mailboxName mailboxId params.parents
                            (if params.parents.path.isEmpty then none else some mailboxIds)
                            response) := by
                        rw [Edit.section, toOption_eq_some.mpr hparams, Option.bind_eq_bind,
                          Option.bind_some, toOption_eq_some.mpr hsource, Option.bind_eq_bind,
                          Option.bind_some, toOption_eq_some.mpr hids]
                        rfl
                      rw [Edit.step, hsection]
                      dsimp only
                      rw [Job.run_bind, run_locked]
                      show _ = (Section.run folders (.rename mailboxName mailboxId
                        { params with path := params.path.dropLast }
                        (if params.path.dropLast.isEmpty then none else some mailboxIds) response)
                        w.accounts).2
                      generalize Section.run folders _ w.accounts = result
                      obtain ⟨r, accounts⟩ := result
                      cases r with
                      | error response => rfl
                      | ok _ => rfl

/-- DELETE, with nothing else running. -/
theorem deleteFolder_alone (mailboxName : String) :
    (((deleteFolder folders mailboxName).run (answer folders outside) w).2.accounts =
      (synchronized folders outside w).accounts) ∨
    ((deleteFolder folders mailboxName).run (answer folders outside) w).2.accounts =
      Edit.step folders (synchronized folders outside w).accounts (.delete mailboxName) := by
  unfold deleteFolder synchronized
  rw [Job.run_bind]
  generalize (synchronizeMailboxes folders false false).run (answer folders outside) w = sync
  obtain ⟨r, w⟩ := sync
  cases r with
  | error err => exact .inl rfl
  | ok _ =>
      dsimp only
      rw [Job.run_bind, run_locked]
      simp only [Section.run]
      cases hfound : ImapToJmap.deleteTarget w.accounts mailboxName with
      | error response => exact .inl rfl
      | ok found =>
          obtain ⟨accountId, mailboxId, deleteUidCache⟩ := found
          have hsection : (Edit.delete mailboxName).section folders w.accounts =
              some (.delete accountId mailboxName mailboxId) := by
            rw [Edit.section, toOption_eq_some.mpr hfound]
            rfl
          dsimp only
          rw [Job.run_bind, run_jmap]
          generalize outside.jmap _ _ = reply
          obtain ⟨r, s⟩ := reply
          cases r with
          | error err => exact .inl rfl
          | ok _ =>
              refine .inr ?_
              rw [Edit.step, hsection]
              dsimp only
              split
              · rfl
              · rfl

end Alone

/-- **The flags of the children.**  In every run of successful commands and refetches in which each
finds the cache as it needs it, every flag is right all the time. -/
theorem has_children_exact (folders : Folders) (edits : List Edit)
    (hserved : Run.Along (Edit.step folders) (fun accounts e ↦ e.Served folders accounts) [] edits)
    (hkeeps : Run.Along (Edit.step folders) (fun accounts e ↦ e.KeepsChildren folders accounts) []
      edits) :
    ∀ n, ∀ account ∈ Run.exec (Edit.step folders) [] (edits.take n), account.HasChildrenExact := by
  have hforest : ∀ n, Forest (Run.exec (Edit.step folders) [] (edits.take n)) := by
    rw [Run.forall_take_iff (P := Forest)]
    have hempty : Forest [] := ⟨List.nodup_nil, by simp, by simp, by simp⟩
    refine ⟨hempty, Run.along_of_inv Forest hempty ?_ ?_ (Run.along_and.mpr ⟨hserved, hkeeps⟩)⟩
    · rintro accounts e h ⟨hserved, hkeeps⟩
      exact h.step hserved hkeeps
    · rintro accounts e h ⟨hserved, hkeeps⟩
      exact h.step hserved hkeeps
  intro n account hmem name id mailbox hname hmailbox
  rw [(hforest n).flags account hmem name id mailbox hname hmailbox]
  simp

/-- A session runs CREATE A/B and DELETE A/B, and `A` goes on having children. -/
theorem has_children_left :
    ¬ ∀ account ∈ ((deleteFolder folders "A/B").run (answer folders mailboxOutside)
        ((createFolder folders "A/B" .none).run (answer folders mailboxOutside)
          ⟨accountsA, serverA⟩).2).2.accounts, account.HasChildrenExact := by
  intro h
  have hlist : ∃ account ∈ ((deleteFolder folders "A/B").run (answer folders mailboxOutside)
        ((createFolder folders "A/B" .none).run (answer folders mailboxOutside)
          ⟨accountsA, serverA⟩).2).2.accounts,
      account.mailboxNames["A"]? = some "m" ∧
      (∃ mailbox ∈ account.mailboxData["m"]?, mailbox.hasChildren = true) ∧
      ∀ n ∈ account.mailboxNames.keys, ¬ Below "A" n := by decide +kernel
  obtain ⟨account, hmem, hname, ⟨mailbox, hmailbox, hflag⟩, hnone⟩ := hlist
  obtain ⟨n, hn, hbelow⟩ := (h account hmem "A" "m" mailbox hname hmailbox).mp hflag
  exact hnone n (Std.ExtTreeMap.mem_keys.mpr hn) hbelow

/-- What a server answers to a creation, and to a renaming. -/
def replyOf (newState stem : String) (hasUpdated : Bool) : MailboxSet where
  newState := newState
  created := fun position ↦ .ok (stem ++ toString position)
  hasUpdated := hasUpdated
  updated := .ok ()

/-- A tree is fetched, a mailbox is created in a new one, another is moved there, and the first is
deleted again. -/
def movedEdits : List Edit :=
  [.refetch "a" none "0" [
    ⟨some "m", some "A", none, .none, false, 0, 0⟩,
    ⟨some "x", some "X", some "m", .none, false, 0, 0⟩,
    ⟨some "y", some "Y", some "m", .none, false, 0, 0⟩],
  .create "B/C" (replyOf "1" "n" false), .rename "A/X" "B/D" (replyOf "2" "o" true),
  .delete "B/C"]

theorem has_children_exact_moved :
    Run.Along (Edit.step folders) (fun accounts e ↦ e.KeepsChildren folders accounts) []
      movedEdits ∧
    ∀ n, ∀ account ∈ Run.exec (Edit.step folders) [] (movedEdits.take n),
      account.HasChildrenExact := by
  have hkeeps : Run.Along (Edit.step folders) (fun accounts e ↦ e.KeepsChildren folders accounts) []
      movedEdits := by decide +kernel
  exact ⟨hkeeps, has_children_exact folders movedEdits (by decide +kernel) hkeeps⟩

end ImapToJmap
