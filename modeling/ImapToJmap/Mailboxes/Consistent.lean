import ImapToJmap.Mailboxes.Calls
import ImapToJmap.Mailboxes.Server

/-!
# Every name has its data

LIST goes through the names of an account and unwraps the data of each.  The two maps are edited
together, but two of the edits go by what a task remembers from before its request.  DELETE removes
the name it was given and the id it had found under it; if a RENAME of the same mailbox comes in
between, the new name stays, with no data behind it.  RENAME enters the new name for the id it had
found; if a DELETE comes in between, the data are gone already.

`Settled` is what these two edits need of the cache when they are made, and `cache_consistent` says
that nothing else can go wrong, in any interleaving.
-/

namespace ImapToJmap

open Jmap

/-- Every id that a name stands for has data. -/
def Account.Consistent (account : Account) : Prop :=
  ∀ (name id : String), account.mailboxNames[name]? = some id → id ∈ account.mailboxData

/-- Every account is consistent. -/
def CacheConsistent (accounts : List Account) : Prop := ∀ account ∈ accounts, account.Consistent

/-! ## The tree of names -/

namespace Account

variable {account : Account}

theorem Consistent.enter (h : account.Consistent) (mailbox : MailboxObject) (mailboxId : String)
    (mailboxPath : List String) (hasChildren : Bool) :
    (account.enter mailbox mailboxId mailboxPath hasChildren).Consistent := by
  intro name id hname
  simp only [Account.enter, Std.ExtTreeMap.getElem?_insert, Std.LawfulEqCmp.compare_eq_iff_eq,
    Std.ExtTreeMap.mem_insert] at hname ⊢
  split at hname
  · exact .inl (Option.some.inj hname)
  · exact .inr (h name id hname)

/-- What every entry keeps, the loop over a level keeps. -/
theorem visitLevel_induct {P : Account → Prop} {result : List MailboxObject}
    {below : Option (Option String → List String → Account → Option Account)}
    (henter : ∀ account mailbox mailboxId mailboxPath hasChildren, P account →
      P (account.enter mailbox mailboxId mailboxPath hasChildren))
    (hbelow : ∀ f ∈ below, ∀ parentId path account account', P account →
      f parentId path account = some account' → P account')
    {parentId : Option String} {path : List String} {account account' : Account}
    (h : P account) (hvisit : visitLevel result below parentId path account = some account') :
    P account' := by
  unfold visitLevel at hvisit
  -- the list of the loop shrinks, the listing it looks children up in does not
  generalize result.any = hasChild at hvisit
  induction result generalizing account with
  | nil => exact Option.some.inj hvisit ▸ h
  | cons mailbox result ih =>
      rw [List.foldlM_cons] at hvisit
      obtain ⟨next, hnext, hrest⟩ := Option.bind_eq_some_iff.mp hvisit
      refine ih ?_ hrest
      split at hnext
      · obtain ⟨mailboxId, -, hnext⟩ := Option.bind_eq_some_iff.mp hnext
        have henter' := henter account mailbox mailboxId
          (path ++ [pathItem account.namePrefix mailbox]) (hasChild fun child ↦
            child.parentId = mailbox.id) h
        cases below with
        | none => exact Option.some.inj hnext ▸ henter'
        | some f =>
            dsimp only at hnext
            split at hnext
            · exact hbelow f rfl _ _ _ _ henter' hnext
            · exact Option.some.inj hnext ▸ henter'
      · exact Option.some.inj hnext ▸ h

/-- What every entry keeps, the building of the tree keeps. -/
theorem buildTree_induct {P : Account → Prop} {result : List MailboxObject}
    (henter : ∀ account mailbox mailboxId mailboxPath hasChildren, P account →
      P (account.enter mailbox mailboxId mailboxPath hasChildren)) {levels : ℕ}
    {parentId : Option String} {path : List String} {account account' : Account}
    (h : P account) (hbuild : buildTree result levels parentId path account = some account') :
    P account' := by
  induction levels generalizing parentId path account account' with
  | zero => exact visitLevel_induct henter (by simp) h hbuild
  | succ levels ih =>
      refine visitLevel_induct henter ?_ h hbuild
      rintro f hf parentId path account account' h hf'
      obtain rfl := Option.mem_some_iff.mp hf
      exact ih h hf'

theorem consistent_ofListing {accountId : String} {namePrefix : Option String}
    {mailboxState : String} {result : List MailboxObject}
    (h : Account.ofListing accountId namePrefix mailboxState result = some account) :
    account.Consistent := by
  refine buildTree_induct (P := Account.Consistent) ?_ ?_ h
  · intro account mailbox mailboxId mailboxPath hasChildren h
    exact h.enter mailbox mailboxId mailboxPath hasChildren
  · intro name id hname
    simp at hname

/-! ## The edits of an account -/

/-- Edits that leave the names alone and lose no data. -/
theorem Consistent.mono {account' : Account} (h : account.Consistent)
    (hnames : account'.mailboxNames = account.mailboxNames)
    (hdata : ∀ id ∈ account.mailboxData, id ∈ account'.mailboxData) : account'.Consistent := by
  intro name id hname
  rw [hnames] at hname
  exact hdata id (h name id hname)

theorem mem_setHasChildren {data : MailboxMap} {mailboxId id : String} {b : Bool} :
    id ∈ setHasChildren data mailboxId b ↔ id ∈ data := Std.ExtTreeMap.mem_modify

theorem Consistent.setEntry (h : account.Consistent) (mailbox : MailboxId) (data : Mailbox) :
    (account.setEntry mailbox data).Consistent :=
  h.mono rfl fun _ hid ↦ Std.ExtTreeMap.mem_insert.mpr (.inr hid)

theorem Consistent.change (h : account.Consistent) (newState : String) (resetStats : Bool) :
    (account.change newState resetStats).Consistent := by
  unfold Account.change
  split
  · exact h.mono rfl fun _ hid ↦ Std.ExtTreeMap.mem_map.mpr hid
  · exact h.mono rfl fun _ hid ↦ hid

/-- What `insertCreated` does to the two maps: new names stand for new ids, which have data. -/
theorem insertCreated_spec (hasUpdated : Bool) (created : List (String × String))
    (mailboxName : String) (account : Account) :
    (account.insertCreated hasUpdated created mailboxName).accountId = account.accountId ∧
    (∀ id, id ∈ (account.insertCreated hasUpdated created mailboxName).mailboxData ↔
      id ∈ account.mailboxData ∨ id ∈ created.map Prod.fst) ∧
    (account.Consistent → (account.insertCreated hasUpdated created mailboxName).Consistent) := by
  induction created generalizing mailboxName account with
  | nil => exact ⟨rfl, fun _ ↦ by simp [insertCreated], id⟩
  | cons e created ih =>
      obtain ⟨mailboxId, item⟩ := e
      unfold insertCreated
      dsimp only
      generalize (if mailboxName ≠ "" then mailboxName ++ "/" ++ item else item) = newName
      obtain ⟨hid, hdata, hcons⟩ := ih newName
        { account with
          mailboxNames := account.mailboxNames.insert newName mailboxId
          mailboxData := account.mailboxData.insert mailboxId
            (.created (!created.isEmpty || hasUpdated)) }
      refine ⟨hid, fun i ↦ ?_, fun h ↦ hcons ?_⟩
      · rw [hdata, Std.ExtTreeMap.mem_insert, Std.LawfulEqCmp.compare_eq_iff_eq, List.map_cons,
          List.mem_cons]
        tauto
      · intro name i hname
        simp only [Std.ExtTreeMap.getElem?_insert, Std.LawfulEqCmp.compare_eq_iff_eq] at hname
        rw [Std.ExtTreeMap.mem_insert, Std.LawfulEqCmp.compare_eq_iff_eq]
        split at hname
        · exact .inl (Option.some.inj hname)
        · exact .inr (h name i hname)

/-- What `addCreated` does to the account. -/
theorem addCreated_spec (account : Account) (params : CreateParams) (mailboxIds : List String)
    (newState : String) (hasUpdated : Bool) :
    (account.addCreated params mailboxIds newState hasUpdated).2.accountId = account.accountId ∧
    (account.Consistent →
      (account.addCreated params mailboxIds newState hasUpdated).2.Consistent) := by
  unfold Account.addCreated
  dsimp only
  split
  · exact ⟨rfl, fun h ↦ h.mono rfl fun _ hid ↦ hid⟩
  · split
    · rename_i parent _
      obtain ⟨hid, -, hcons⟩ := insertCreated_spec hasUpdated (mailboxIds.zip params.path) parent
        { account with
          mailboxState := newState
          mailboxData :=
            setHasChildren account.mailboxData (params.parentMailboxId.getD "") true }
      refine ⟨hid, fun h ↦ hcons ?_⟩
      exact h.mono rfl fun i hi ↦ mem_setHasChildren.mpr hi
    · obtain ⟨hid, -, hcons⟩ := insertCreated_spec hasUpdated (mailboxIds.zip params.path)
        (account.namePrefix.getD "") { account with mailboxState := newState }
      exact ⟨hid, fun h ↦ hcons (h.mono rfl fun _ hi ↦ hi)⟩

/-- With an id for each part of the path, the creation succeeds, and each of the ids has data. -/
theorem addCreated_of_length {params : CreateParams} {mailboxIds : List String}
    (hlength : mailboxIds.length = params.path.length) (account : Account) (newState : String)
    (hasUpdated : Bool) :
    (account.addCreated params mailboxIds newState hasUpdated).1 =
      .ok (account.accountId ++ "-" ++ mailboxIds.getLastD "") ∧
    ∀ id, id ∈ (account.addCreated params mailboxIds newState hasUpdated).2.mailboxData ↔
      id ∈ account.mailboxData ∨ id ∈ mailboxIds := by
  have hzip : (mailboxIds.zip params.path).map Prod.fst = mailboxIds :=
    List.map_fst_zip hlength.le
  unfold Account.addCreated
  dsimp only
  rw [if_neg (not_not.mpr hlength)]
  split
  · rename_i parent _
    obtain ⟨-, hdata, -⟩ := insertCreated_spec hasUpdated (mailboxIds.zip params.path) parent
      { account with
        mailboxState := newState
        mailboxData := setHasChildren account.mailboxData (params.parentMailboxId.getD "") true }
    refine ⟨rfl, fun id ↦ ?_⟩
    rw [hdata, hzip]
    exact or_congr_left mem_setHasChildren
  · obtain ⟨-, hdata, -⟩ := insertCreated_spec hasUpdated (mailboxIds.zip params.path)
      (account.namePrefix.getD "") { account with mailboxState := newState }
    refine ⟨rfl, fun id ↦ ?_⟩
    rw [hdata, hzip]

/-- The loop adds no value that the listing does not have. -/
theorem foldl_renamedName_value {mailboxName fullPath name id : String} (l : List (String × String))
    (acc : Names)
    (h : (l.foldl (fun (newNames : Names) e ↦ match renamedName mailboxName fullPath e.1 with
        | some name => newNames.insert name e.2
        | none => newNames) acc)[name]? = some id) :
    acc[name]? = some id ∨ ∃ e ∈ l, e.2 = id := by
  induction l generalizing acc with
  | nil => exact .inl h
  | cons e l ih =>
      rw [List.foldl_cons] at h
      rcases ih _ h with hacc | ⟨e', he', hid⟩
      · split at hacc
        · rw [Std.ExtTreeMap.getElem?_insert] at hacc
          split at hacc
          · exact .inr ⟨e, List.mem_cons_self, Option.some.inj hacc⟩
          · exact .inl hacc
        · exact .inl hacc
      · exact .inr ⟨e', List.mem_cons_of_mem _ he', hid⟩

/-- The values of the renamed names are those of the old ones, and the renamed mailbox. -/
theorem renameNames_value {names : Names} {mailboxName fullPath mailboxId name id : String}
    (h : (renameNames names mailboxName fullPath mailboxId)[name]? = some id) :
    id = mailboxId ∨ ∃ old : String, names[old]? = some id := by
  rw [renameNames, Std.ExtTreeMap.getElem?_insert] at h
  split at h
  · exact .inl (Option.some.inj h).symm
  · rcases foldl_renamedName_value _ _ h with hempty | ⟨e, he, rfl⟩
    · simp at hempty
    · exact .inr ⟨e.1, Std.ExtTreeMap.mem_toList_iff_getElem?_eq_some.mp he⟩

theorem updateOldParent_spec (account : Account) (mailboxName : String) :
    (account.updateOldParent mailboxName).accountId = account.accountId ∧
    (account.updateOldParent mailboxName).mailboxNames = account.mailboxNames ∧
    ∀ id, id ∈ (account.updateOldParent mailboxName).mailboxData ↔ id ∈ account.mailboxData := by
  unfold updateOldParent
  split
  · dsimp only
    split
    · exact ⟨rfl, rfl, fun id ↦ mem_setHasChildren⟩
    · exact ⟨rfl, rfl, fun id ↦ Iff.rfl⟩
  · exact ⟨rfl, rfl, fun id ↦ Iff.rfl⟩

/-- A renaming changes no key of the data. -/
theorem mem_rename (account : Account) (mailboxName mailboxId : String) (params : CreateParams)
    (newState id : String) :
    id ∈ (account.rename mailboxName mailboxId params newState).mailboxData ↔
      id ∈ account.mailboxData := by
  obtain ⟨-, -, hdata⟩ := updateOldParent_spec { account with mailboxState := newState } mailboxName
  rw [← hdata id]
  simp only [Account.rename]
  split
  · exact mem_setHasChildren
  · exact Iff.rfl

/-- A renaming needs the data of the renamed mailbox. -/
theorem Consistent.rename_iff (h : account.Consistent) {mailboxName mailboxId : String}
    {params : CreateParams} {newState : String} :
    (account.rename mailboxName mailboxId params newState).Consistent ↔
      mailboxId ∈ account.mailboxData := by
  obtain ⟨-, hnames, -⟩ := updateOldParent_spec
    { account with mailboxState := newState } mailboxName
  constructor
  · intro h'
    refine (mem_rename account mailboxName mailboxId params newState mailboxId).mp
      (h' params.fullPath mailboxId ?_)
    exact Std.ExtTreeMap.getElem?_insert_self
  · intro hid name id hname
    rw [mem_rename]
    simp only [Account.rename, hnames] at hname
    rcases renameNames_value hname with rfl | ⟨old, hold⟩
    · exact hid
    · exact h old id hold

/-- A deletion needs that the mailbox has no other name. -/
theorem Consistent.erase_iff (h : account.Consistent) {mailboxName mailboxId : String} :
    ({ account with
        mailboxNames := account.mailboxNames.erase mailboxName
        mailboxData := account.mailboxData.erase mailboxId } : Account).Consistent ↔
      ∀ e ∈ account.mailboxNames.toList, e.2 = mailboxId → e.1 = mailboxName := by
  constructor
  · rintro h' ⟨name, id⟩ he rfl
    by_contra hne
    have hname : (account.mailboxNames.erase mailboxName)[name]? = some id := by
      rw [Std.ExtTreeMap.getElem?_erase, if_neg]
      · exact Std.ExtTreeMap.mem_toList_iff_getElem?_eq_some.mp he
      · intro heq
        exact hne (Std.LawfulEqCmp.eq_of_compare heq).symm
    exact (Std.ExtTreeMap.mem_erase.mp (h' name id hname)).1 Std.ReflCmp.compare_self
  · intro hall name id hname
    simp only [Std.ExtTreeMap.getElem?_erase] at hname
    split at hname
    · cases hname
    · rename_i hne
      refine Std.ExtTreeMap.mem_erase.mpr ⟨?_, h name id hname⟩
      intro heq
      obtain rfl : name = mailboxName :=
        hall (name, id) (Std.ExtTreeMap.mem_toList_iff_getElem?_eq_some.mpr hname)
          (Std.LawfulEqCmp.eq_of_compare heq).symm
      exact hne Std.ReflCmp.compare_self

end Account

/-! ## The critical sections -/

/-- The accounts after an edit: one of them is another. -/
theorem mem_updateAccount {accountId : String} {f : Account → Account} {accounts : List Account}
    {account : Account} (h : account ∈ updateAccount accountId f accounts) :
    account ∈ accounts ∨
      ∃ old, accounts.find? (fun a ↦ a.accountId = accountId) = some old ∧ account = f old := by
  induction accounts with
  | nil => cases h
  | cons first accounts ih =>
      unfold updateAccount at h
      split at h
      · rename_i hid
        rcases List.mem_cons.mp h with rfl | h
        · exact .inr ⟨first, List.find?_cons_of_pos (by simpa using hid), rfl⟩
        · exact .inl (List.mem_cons_of_mem _ h)
      · rename_i hid
        rcases List.mem_cons.mp h with rfl | h
        · exact .inl List.mem_cons_self
        · rcases ih h with h | ⟨old, hold, rfl⟩
          · exact .inl (List.mem_cons_of_mem _ h)
          · exact .inr ⟨old, by rw [List.find?_cons_of_neg (by simpa using hid), hold], rfl⟩

/-- What an edit keeps of the account it is about holds of all accounts after it. -/
theorem forall_mem_updateAccount {P : Account → Prop} {accountId : String} {f : Account → Account}
    {accounts : List Account} (h : ∀ account ∈ accounts, P account)
    (hf : ∀ account ∈ accounts.find? fun a ↦ a.accountId = accountId, P (f account)) :
    ∀ account ∈ updateAccount accountId f accounts, P account := by
  intro account hmem
  rcases mem_updateAccount hmem with hmem | ⟨old, hold, rfl⟩
  · exact h account hmem
  · exact hf old hold

theorem apply_mem_updateAccount {accountId : String} {f : Account → Account}
    {accounts : List Account} {account : Account}
    (h : accounts.find? (fun a ↦ a.accountId = accountId) = some account) :
    f account ∈ updateAccount accountId f accounts := by
  induction accounts with
  | nil => cases h
  | cons first accounts ih =>
      unfold updateAccount
      rw [List.find?_cons] at h
      split
      · rename_i hid
        simp only [hid, decide_true] at h
        cases h
        exact List.mem_cons_self
      · rename_i hid
        simp only [hid, decide_false] at h
        exact List.mem_cons_of_mem _ (ih h)

/-- An edit of one account keeps the accounts consistent if it keeps that account so. -/
theorem consistent_updateAccount_iff {accounts : List Account} (h : CacheConsistent accounts)
    {accountId : String} {f : Account → Account} :
    CacheConsistent (updateAccount accountId f accounts) ↔
      ∀ account ∈ accounts.find? fun a ↦ a.accountId = accountId, (f account).Consistent := by
  constructor
  · intro h' account haccount
    exact h' _ (apply_mem_updateAccount haccount)
  · exact forall_mem_updateAccount h

theorem CacheConsistent.updateAccount {accounts : List Account} (h : CacheConsistent accounts)
    {accountId : String} {f : Account → Account}
    (hf : ∀ account : Account, account.Consistent → (f account).Consistent) :
    CacheConsistent (updateAccount accountId f accounts) :=
  (consistent_updateAccount_iff h).mpr fun account haccount ↦
    hf account (h account (List.mem_of_find?_eq_some haccount))

/-- An edit with a result is an edit. -/
theorem onAccount_snd {α : Type} (accountId : String) (default : α) (f : Account → α × Account)
    (accounts : List Account) :
    (onAccount accountId default f accounts).2 =
      updateAccount accountId (fun account ↦ (f account).2) accounts := by
  induction accounts with
  | nil => rfl
  | cons account accounts ih =>
      unfold onAccount ImapToJmap.updateAccount
      split
      · rfl
      · exact congrArg (account :: ·) ih

theorem CacheConsistent.onAccount {α : Type} {accounts : List Account}
    (h : CacheConsistent accounts)
    {accountId : String} {default : α} {f : Account → α × Account}
    (hf : ∀ account : Account, account.Consistent → (f account).2.Consistent) :
    CacheConsistent (onAccount accountId default f accounts).2 := by
  rw [onAccount_snd]
  exact h.updateAccount hf

/-- What the two edits that go by a remembered id need of the cache: DELETE, that the mailbox has
no other name than the one it was given; RENAME, that the mailbox has its data, unless its id is
among those of the new parents. -/
def Settled (accounts : List Account) : Section → Prop
  | .delete accountId mailboxName mailboxId =>
      ∀ account ∈ accounts.find? fun a ↦ a.accountId = accountId,
        ∀ e ∈ account.mailboxNames.toList, e.2 = mailboxId → e.1 = mailboxName
  | .rename _ mailboxId params created response =>
      response.updated.isOk = true →
        ∀ account ∈ accounts.find? fun a ↦ a.accountId = params.accountId,
          mailboxId ∈ account.mailboxData ∨ mailboxId ∈ created.getD []
  | _ => True

instance (accounts : List Account) : ∀ s, Decidable (Settled accounts s)
  | .delete accountId mailboxName mailboxId =>
      inferInstanceAs (Decidable (∀ account ∈ accounts.find? fun a ↦ a.accountId = accountId,
        ∀ e ∈ account.mailboxNames.toList, e.2 = mailboxId → e.1 = mailboxName))
  | .rename _ mailboxId params created response =>
      inferInstanceAs (Decidable (response.updated.isOk = true →
        ∀ account ∈ accounts.find? fun a ↦ a.accountId = params.accountId,
          mailboxId ∈ account.mailboxData ∨ mailboxId ∈ created.getD []))
  | .unlink _ | .mailboxStates | .change .. | .update .. | .mailboxByName _ | .validateCreate _ |
    .addCreated .. | .renameSource .. | .deleteTarget _ | .subscribe .. | .list |
    .statusCached .. | .statusMessages .. | .statusTotals .. | .statusSize .. |
    .statusModseq .. => .isTrue trivial

/-- The account that an edit is about, after it. -/
theorem find?_updateAccount {f : Account → Account} (hf : ∀ a, (f a).accountId = a.accountId)
    (accountId : String) (accounts : List Account) :
    (updateAccount accountId f accounts).find? (fun a ↦ a.accountId = accountId) =
      (accounts.find? fun a ↦ a.accountId = accountId).map f := by
  induction accounts with
  | nil => rfl
  | cons account accounts ih =>
      unfold updateAccount
      split
      · rename_i hid
        rw [List.find?_cons_of_pos (by simpa [hf] using hid),
          List.find?_cons_of_pos (by simpa using hid)]
        rfl
      · rename_i hid
        rw [List.find?_cons_of_neg (by simpa using hid),
          List.find?_cons_of_neg (by simpa using hid), ih]

theorem onAccount_fst {α : Type} (accountId : String) (default : α) (f : Account → α × Account)
    (accounts : List Account) :
    (onAccount accountId default f accounts).1 =
      match accounts.find? fun a ↦ a.accountId = accountId with
      | some account => (f account).1
      | none => default := by
  induction accounts with
  | nil => rfl
  | cons account accounts ih =>
      unfold onAccount
      split
      · rename_i hid
        rw [List.find?_cons_of_pos (by simpa using hid)]
      · rename_i hid
        rw [List.find?_cons_of_neg (by simpa using hid)]
        exact ih

/-- The cache update of a renaming leaves the accounts consistent if it is settled. -/
theorem consistent_runRename_iff {accounts : List Account} (h : CacheConsistent accounts)
    {mailboxName mailboxId : String} {params : CreateParams} {created : Option (List String)}
    {response : MailboxSet} (hlength : ∀ ids ∈ created, ids.length = params.path.length) :
    CacheConsistent (Section.runRename mailboxName mailboxId params created response accounts).2 ↔
      Settled accounts (.rename mailboxName mailboxId params created response) := by
  unfold Section.runRename
  cases created with
  | none =>
      cases hupdated : response.updated with
      | error err => simp [Settled, hupdated, Except.toBool, h]
      | ok _ =>
          dsimp only
          rw [consistent_updateAccount_iff h]
          simp only [Settled, hupdated, Except.toBool, forall_const, Option.getD_none,
            List.not_mem_nil, or_false]
          refine forall₂_congr fun account haccount ↦ ?_
          exact (h account (List.mem_of_find?_eq_some haccount)).rename_iff
  | some mailboxIds =>
      have hlength := hlength mailboxIds rfl
      have hspec := fun account : Account ↦
        account.addCreated_spec params mailboxIds response.newState response.hasUpdated
      have hadded : CacheConsistent
          (Section.runAddCreated params mailboxIds response.newState response.hasUpdated
            accounts).2 :=
        h.onAccount fun account ↦ (hspec account).2
      have hfind : (Section.runAddCreated params mailboxIds response.newState response.hasUpdated
          accounts).2.find? (fun a ↦ a.accountId = params.accountId) =
          (accounts.find? fun a ↦ a.accountId = params.accountId).map fun account ↦
            (account.addCreated params mailboxIds response.newState response.hasUpdated).2 := by
        rw [Section.runAddCreated, onAccount_snd]
        exact find?_updateAccount (fun account ↦ (hspec account).1) _ _
      have hresult := onAccount_fst params.accountId (.error "Account no longer available.")
        (fun account ↦
          account.addCreated params mailboxIds response.newState response.hasUpdated) accounts
      dsimp only
      rw [Section.runAddCreated] at hadded hfind ⊢
      cases hfound : accounts.find? fun a ↦ a.accountId = params.accountId with
      | none =>
          simp only [hfound] at hresult
          simp [hresult, hadded, Settled, hfound]
      | some account =>
          obtain ⟨hok, hmem⟩ :=
            account.addCreated_of_length hlength response.newState response.hasUpdated
          simp only [hfound, hok] at hresult
          rw [hresult]
          cases hupdated : response.updated with
          | error err => simp [Settled, hupdated, Except.toBool, hadded]
          | ok _ =>
              dsimp only
              rw [consistent_updateAccount_iff hadded, hfind, hfound]
              simp only [Settled, hupdated, Except.toBool, forall_const, hfound, Option.map_some,
                Option.mem_some_iff, forall_eq', Option.getD_some]
              rw [← hmem]
              refine Account.Consistent.rename_iff ((hspec account).2 ?_)
              exact h account (List.mem_of_find?_eq_some hfound)

theorem mem_of_mem_unlinkAccounts (folders : Folders) {session : List (String × String)}
    {accounts : List Account} {account : Account}
    (h : account ∈ (unlinkAccounts folders session accounts).1) : account ∈ accounts := by
  simp only [unlinkAccounts, List.mem_map, List.mem_filter] at h
  obtain ⟨⟨account, pos⟩, ⟨hmem, -⟩, rfl⟩ := h
  exact (List.mem_zipIdx' hmem).2 ▸ List.getElem_mem _

/-- What holds of the cached accounts and of those that are entered holds of all. -/
theorem forall_mem_updateMailboxes {P : Account → Prop} {accounts changed added : List Account}
    (h : ∀ account ∈ accounts, P account) (changes : MailboxSync)
    (hchanged : ∀ account ∈ changed, P account) (hadded : ∀ account ∈ added, P account) :
    ∀ account ∈ (updateMailboxes changes accounts changed added).2, P account := by
  have hfold : ∀ account ∈ (changed.foldl
      (fun (s : MailboxSync × List Account) new ↦ replaceAccount s.1 s.2 new)
      (changes, accounts)).2, P account := by
    clear hadded
    induction changed generalizing changes accounts with
    | nil => exact h
    | cons new changed ih =>
        rw [List.foldl_cons]
        refine ih ?_ _ fun account hmem ↦ hchanged account (List.mem_cons_of_mem _ hmem)
        have hnew := hchanged new List.mem_cons_self
        -- the account is replaced where it is, or put at the end
        split
        · exact forall_mem_updateAccount h fun _ _ ↦ hnew
        · intro account hmem
          rcases List.mem_append.mp hmem with hmem | hmem
          · exact h account hmem
          · rw [List.mem_singleton.mp hmem]
            exact hnew
  intro account hmem
  rcases List.mem_append.mp hmem with hmem | hmem
  · exact hfold account hmem
  · exact hadded account hmem

theorem Account.Listed.consistent {account : Account} (h : account.Listed) :
    account.Consistent := by
  obtain ⟨_, _, _, _, h⟩ := h
  exact consistent_ofListing h

namespace Account

variable {account : Account}

/-- What the entering of a mailbox's data keeps, `statusTotals` keeps. -/
theorem statusTotals_induct {P : Account → Prop}
    (hset : ∀ account mailbox data, P account → P (account.setEntry mailbox data)) (h : P account)
    (mailbox : MailboxId) (update : List Status)
    (responses : List (Except StatusResponse (Option ℕ))) :
    P (account.statusTotals mailbox update responses).2 := by
  unfold Account.statusTotals
  cases hunseen : account.statusUnseen mailbox update responses with
  | error err => exact hset _ mailbox _ h
  | ok r =>
      obtain ⟨unseen, rest, account'⟩ := r
      have h' : P account' := by
        unfold Account.statusUnseen at hunseen
        split at hunseen
        · cases htotal : nextTotal responses with
          | error err => simp [htotal, Except.map] at hunseen
          | ok r =>
              simp only [htotal, Except.map, Except.ok.injEq, Prod.mk.injEq] at hunseen
              rw [← hunseen.2.2]
              exact hset _ mailbox _ h
        · simp only [Except.ok.injEq, Prod.mk.injEq] at hunseen
          rw [← hunseen.2.2]
          exact hset _ mailbox _ h
      dsimp only
      cases hdeleted : account'.statusDeleted mailbox update rest with
      | error err => exact h'
      | ok r =>
          obtain ⟨deleted, account''⟩ := r
          unfold Account.statusDeleted at hdeleted
          split at hdeleted
          · cases htotal : nextTotal rest with
            | error err => simp [htotal, Except.map] at hdeleted
            | ok r =>
                simp only [htotal, Except.map, Except.ok.injEq, Prod.mk.injEq] at hdeleted
                rw [← hdeleted.2]
                exact hset _ mailbox _ h'
          · simp only [Except.ok.injEq, Prod.mk.injEq] at hdeleted
            rw [← hdeleted.2]
            exact h'

end Account

/-- **A critical section** leaves the accounts consistent just when it is settled. -/
theorem consistent_run_iff (folders : Folders) {s : Section} (hs : (SessionCall.locked s).Proper)
    {accounts : List Account} (h : CacheConsistent accounts) :
    CacheConsistent (s.run folders accounts).2 ↔ Settled accounts s := by
  cases s with
  | delete accountId mailboxName mailboxId =>
      show CacheConsistent (updateAccount accountId _ accounts) ↔ _
      rw [consistent_updateAccount_iff h]
      refine forall₂_congr fun account haccount ↦ ?_
      exact (h account (List.mem_of_find?_eq_some haccount)).erase_iff
  | rename mailboxName mailboxId params created response => exact consistent_runRename_iff h hs
  | unlink session =>
      refine iff_of_true (fun account hmem ↦ ?_) trivial
      exact h account (mem_of_mem_unlinkAccounts folders hmem)
  | update changes changed added =>
      refine iff_of_true (forall_mem_updateMailboxes h changes ?_ ?_) trivial
      · intro account hmem
        exact (hs account (List.mem_append_left _ hmem)).consistent
      · intro account hmem
        exact (hs account (List.mem_append_right _ hmem)).consistent
  | change accountId newState resetStats =>
      exact iff_of_true (h.updateAccount fun _ h ↦ h.change newState resetStats) trivial
  | addCreated params mailboxIds newState hasUpdated =>
      exact iff_of_true (h.onAccount fun account ↦
        (account.addCreated_spec params mailboxIds newState hasUpdated).2) trivial
  | subscribe accountId mailboxId isSubscribed =>
      refine iff_of_true (h.updateAccount fun _ h ↦ ?_) trivial
      exact h.mono rfl fun _ hid ↦ Std.ExtTreeMap.mem_modify.mpr hid
  | statusCached mailbox items =>
      exact iff_of_true (h.onAccount fun _ h ↦ h.setEntry mailbox _) trivial
  | statusMessages mailbox status items =>
      exact iff_of_true (h.onAccount fun _ h ↦ h.setEntry mailbox _) trivial
  | statusTotals mailbox items responses =>
      refine iff_of_true (h.onAccount fun account h ↦ ?_) trivial
      exact Account.statusTotals_induct (fun _ mailbox data h ↦ h.setEntry mailbox data) h _ _ _
  | statusSize mailbox mailboxSize =>
      exact iff_of_true (h.onAccount fun _ h ↦ h.setEntry mailbox _) trivial
  | statusModseq accountId modseq =>
      exact iff_of_true (h.updateAccount fun _ h ↦ h.mono rfl fun _ hid ↦ hid) trivial
  | mailboxStates | mailboxByName _ | validateCreate _ | renameSource _ _ | deleteTarget _ | list =>
      exact iff_of_true h trivial

/-! ## The tasks of a session -/

/-- The names as LIST goes through them, each with the data it unwraps. -/
def World.rows {S : Type} (folders : Folders) (w : World S) :
    List (Option String × List (String × Option Mailbox)) :=
  (Section.list.run folders w.accounts).1

/-- Every name has its data, and LIST finds it. -/
def World.Safe {S : Type} (folders : Folders) (w : World S) : Prop :=
  CacheConsistent w.accounts ∧ ∀ row ∈ w.rows folders, ∀ e ∈ row.2, e.2.isSome = true

theorem World.safe_iff {S : Type} {folders : Folders} {w : World S} :
    w.Safe folders ↔ CacheConsistent w.accounts := by
  refine and_iff_left_of_imp fun h row hrow e he ↦ ?_
  obtain ⟨account, haccount, rfl⟩ := List.mem_map.mp hrow
  obtain ⟨⟨name, id⟩, hname, rfl⟩ := List.mem_map.mp he
  exact Std.ExtTreeMap.mem_iff_isSome_getElem?.mp
    (h account haccount name id (Std.ExtTreeMap.mem_toList_iff_getElem?_eq_some.mp hname))

/-- A call is settled unless it is one of the two edits, and those are if the cache is as they
need it. -/
def SettledCall {S : Type} : SessionCall → World S → Prop
  | .locked s, w => Settled w.accounts s
  | _, _ => True

instance {S : Type} : ∀ (q : SessionCall) (w : World S), Decidable (SettledCall q w)
  | .locked s, w => inferInstanceAs (Decidable (Settled w.accounts s))
  | .jmap _, _ | .database _, _ => .isTrue trivial

/-- **Every name has its data.**  In every interleaving of the tasks of a session, over any server
and any database, the cache is consistent in all the states reached just when every deletion and
every renaming finds the cache as it needs it. -/
theorem cache_consistent {S : Type} (folders : Folders) (outside : Outside S)
    {accounts : List Account} (haccounts : (fetchMailboxes folders).Returns (some accounts))
    (s : S) (tasks : List Task) (schedule : List ℕ) :
    (∀ n, (Run.exec (Pool.step (answer folders outside))
      ⟨tasks.map (Task.job folders), ⟨accounts, s⟩⟩ (schedule.take n)).world.Safe folders) ↔
    Run.Along (Pool.step (answer folders outside))
      (fun c i ↦ ∀ q ∈ c.next? i, SettledCall q c.world)
      ⟨tasks.map (Task.job folders), ⟨accounts, s⟩⟩ schedule := by
  have hstart : CacheConsistent accounts := fun account hmem ↦
    (fetchMailboxes_returns haccounts account hmem).consistent
  have htasks : Pool.Uses SessionCall.Proper
      (⟨tasks.map (Task.job folders), ⟨accounts, s⟩⟩ :
        Pool SessionCall SessionCall.Return Unit (World S)) := by
    intro job hmem
    obtain ⟨task, -, rfl⟩ := List.mem_map.mp hmem
    exact task.uses_proper folders
  simp only [World.safe_iff]
  rw [Run.forall_take_iff
    (P := fun c : Pool SessionCall SessionCall.Return Unit (World S) ↦
      CacheConsistent c.world.accounts),
    and_iff_right hstart]
  refine Run.along_iff_of_inv (fun c ↦ c.Uses SessionCall.Proper ∧ CacheConsistent c.world.accounts)
    ⟨htasks, hstart⟩ ?_ ?_
  · rintro c i ⟨hc, -⟩ hstep
    exact ⟨hc.step i, hstep⟩
  · rintro c i ⟨hc, h⟩
    obtain ⟨heq, hnone⟩ | ⟨q, hq, heq⟩ := Pool.step_world (answer folders outside) c i
    · rw [heq, hnone]
      exact iff_of_true h (by simp)
    · rw [heq, hq]
      simp only [Option.mem_some_iff, forall_eq']
      cases q with
      | locked s => exact consistent_run_iff folders (hc.next? hq) h
      | jmap request => exact iff_of_true h trivial
      | database op => exact iff_of_true h trivial

/-! ## A mailbox deleted and renamed at once -/

/-- The folders of a user `a`. -/
def folders : Folders := ⟨"All Mail", "Shared Folders", "a"⟩

/-- A server with a mailbox `A`. -/
def serverA : MailboxServer := .ofNames "a" [("m", "A")]

/-- What a session finds there when it begins. -/
def accountsA : List Account :=
  (((fetchMailboxes folders).run (answer folders mailboxOutside) ⟨[], serverA⟩).1).getD []

theorem fetchMailboxes_accountsA : (fetchMailboxes folders).Returns (some accountsA) := by
  have h := Job.returns_run (answer folders mailboxOutside) (fetchMailboxes folders)
    ⟨[], serverA⟩
  have hsome : ((fetchMailboxes folders).run (answer folders mailboxOutside) ⟨[], serverA⟩).1 =
      some accountsA := by decide +kernel
  rwa [hsome] at h

/-- DELETE finds the mailbox `A`, RENAME calls it `B`, and DELETE goes on: `B` has no data. -/
theorem cache_inconsistent :
    ¬ (Run.exec (Pool.step (answer folders mailboxOutside))
      ⟨[Task.delete "A", Task.rename "A" "B"].map (Task.job folders), ⟨accountsA, serverA⟩⟩
      (List.replicate 5 0 ++ List.replicate 8 1 ++ List.replicate 3 0)).world.Safe folders := by
  intro h
  have hrow : (none, [("B", none)]) ∈ (Run.exec (Pool.step (answer folders mailboxOutside))
      ⟨[Task.delete "A", Task.rename "A" "B"].map (Task.job folders), ⟨accountsA, serverA⟩⟩
      (List.replicate 5 0 ++ List.replicate 8 1 ++ List.replicate 3 0)).world.rows folders := by
    decide +kernel
  have := h.2 _ hrow _ List.mem_cons_self
  cases this

/-- Three tasks of a session, one after the other but for a deletion that begins early. -/
def apartTasks : List Task := [.create "B/C" .none, .rename "A" "D", .delete "B/C"]

def apartSchedule : List ℕ :=
  List.replicate 7 0 ++ List.replicate 5 2 ++ List.replicate 8 1 ++ List.replicate 3 2

/-- Two folders are made, one is renamed while the other is deleted, and all goes well. -/
theorem cache_consistent_apart :
    Run.Along (Pool.step (answer folders mailboxOutside))
      (fun c i ↦ ∀ q ∈ c.next? i, SettledCall q c.world)
      ⟨apartTasks.map (Task.job folders), ⟨accountsA, serverA⟩⟩ apartSchedule ∧
    ∀ n, (Run.exec (Pool.step (answer folders mailboxOutside))
      ⟨apartTasks.map (Task.job folders), ⟨accountsA, serverA⟩⟩
      (apartSchedule.take n)).world.Safe folders := by
  have hsettled : Run.Along (Pool.step (answer folders mailboxOutside))
      (fun c i ↦ ∀ q ∈ c.next? i, SettledCall q c.world)
      ⟨apartTasks.map (Task.job folders), ⟨accountsA, serverA⟩⟩ apartSchedule := by
    decide +kernel
  refine ⟨hsettled, ?_⟩
  exact (cache_consistent folders mailboxOutside fetchMailboxes_accountsA serverA apartTasks
    apartSchedule).mpr hsettled

end ImapToJmap
