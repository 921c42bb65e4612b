import ImapToJmap.Mailboxes.Move

/-!
# Where a new mailbox goes

What `validate_mailbox_create` finds out about a path (`Located`): the part of it that is there, and
the part that is to be created.  Creating that part, and renaming a mailbox to the path, are edits
of the tree as `Mailboxes.Tree` and `Mailboxes.Move` know them.
-/

namespace ImapToJmap

/-! ## Paths -/

theorem slashFree_trim {s : String} (h : SlashFree s) : SlashFree (trim s) := by
  intro hmem
  refine h ?_
  simp only [trim, String.toList_ofList, List.mem_reverse] at hmem
  have h1 := (List.dropWhile_sublist _).subset hmem
  exact (List.dropWhile_sublist _).subset (List.mem_reverse.mp h1)

/-- The parts of a path. -/
theorem buildPath_spec {mailboxName : String} {path : List String}
    (h : buildPath mailboxName = .ok path) : path ≠ [] ∧ ∀ x ∈ path, SlashFree x ∧ x ≠ "" := by
  unfold buildPath at h
  dsimp only at h
  split_ifs at h with hempty hslash hitem hdeep
  · rw [Except.ok.injEq] at h
    subst h
    constructor
    · simp
    · intro x hx
      constructor
      · obtain ⟨y, hy, rfl⟩ := List.mem_map.mp hx
        exact slashFree_trim (slashFree_of_mem_splitPath hy)
      · rintro rfl
        exact hitem hx
  · rw [Except.ok.injEq] at h
    subst h
    constructor
    · simp
    · intro x hx
      rw [List.mem_singleton.mp hx]
      exact ⟨hslash, hempty⟩

theorem joinPath_ne_empty {path : List String} (h : path ≠ []) (hitems : ∀ x ∈ path, x ≠ "") :
    joinPath path ≠ "" := by
  cases path using List.reverseRecOn with
  | nil => exact absurd rfl h
  | append_singleton path x =>
      cases path with
      | nil => simpa using hitems x (by simp)
      | cons y path =>
          rw [joinPath_append_singleton (List.cons_ne_nil _ _)]
          simp [String.append_eq_empty_iff]

theorem below_joinPath {above items : List String} (habove : above ≠ []) (hitems : items ≠ []) :
    Below (joinPath above) (joinPath (above ++ items)) := by
  induction items using List.reverseRecOn with
  | nil => exact absurd rfl hitems
  | append_singleton items x ih =>
      rw [← List.append_assoc, joinPath_append_singleton (by simp [habove])]
      cases items with
      | nil =>
          rw [List.append_nil]
          exact below_append _ x
      | cons y items => exact (ih (List.cons_ne_nil _ _)).trans (below_append _ x)

/-! ## Locating a path -/

/-- A path of which a part is there, and the rest is to be created below it. -/
structure Located (account : Account) (params : CreateParams) (above : List String) : Prop where
  ne_nil : params.path ≠ []
  items : ∀ x ∈ params.path, SlashFree x ∧ x ≠ ""
  fullPath : params.fullPath = joinPath (above ++ params.path)
  parent : (above = [] ∧ params.parentMailboxName = none ∧ params.parentMailboxId = none) ∨
    (above ≠ [] ∧ joinPath above ≠ "" ∧ params.parentMailboxName = some (joinPath above) ∧
      ∃ i, params.parentMailboxId = some i ∧ account.mailboxNames[joinPath above]? = some i)
  new : ∀ items, items <+: params.path → items ≠ [] →
    joinPath (above ++ items) ∉ account.mailboxNames

/-- The path of the new parent, as RENAME creates it. -/
def CreateParams.parents (params : CreateParams) : CreateParams :=
  { params with path := params.path.dropLast }

/-- The loop that looks for the parent. -/
theorem locateParent_spec (names : Names) (path createPath : List String)
    (hcreate : ∀ items, items <+: createPath → items ≠ [] →
      joinPath (path.reverse ++ items) ∉ names) :
    ∃ above, path.reverse ++ createPath = above ++ (locateParent names path createPath).2 ∧
      (above = [] ∧ (locateParent names path createPath).1 = none ∨
        above ≠ [] ∧ ∃ i, (locateParent names path createPath).1 = some (i, joinPath above) ∧
          names[joinPath above]? = some i) ∧
      ∀ items, items <+: (locateParent names path createPath).2 → items ≠ [] →
        joinPath (above ++ items) ∉ names := by
  induction path generalizing createPath with
  | nil => exact ⟨[], rfl, .inl ⟨rfl, rfl⟩, hcreate⟩
  | cons item path ih =>
      unfold locateParent
      dsimp only
      split
      · rename_i mailboxId hid
        refine ⟨(item :: path).reverse, rfl, .inr ⟨by simp, mailboxId, rfl, hid⟩, hcreate⟩
      · rename_i hnone
        have hcreate' : ∀ items, items <+: item :: createPath → items ≠ [] →
            joinPath (path.reverse ++ items) ∉ names := by
          intro items hitems hne hmem
          cases items with
          | nil => exact hne rfl
          | cons y items =>
              obtain ⟨rfl, hitems'⟩ := List.cons_prefix_cons.mp hitems
              have hassoc : path.reverse ++ y :: items = (y :: path).reverse ++ items := by simp
              rw [hassoc] at hmem
              cases items with
              | nil =>
                  rw [List.append_nil] at hmem
                  obtain ⟨i, hi⟩ := mem_iff_exists_getElem?.mp hmem
                  rw [hnone] at hi
                  cases hi
              | cons z items => exact hcreate _ hitems' (List.cons_ne_nil _ _) hmem
        obtain ⟨above, happend, hrest⟩ := ih (item :: createPath) hcreate'
        refine ⟨above, ?_, hrest⟩
        rw [← happend]
        simp

theorem mem_of_locateAccount {folders : Folders} {accounts : List Account} {path : List String}
    {account : Account} (h : locateAccount folders accounts path = .ok account) :
    account ∈ accounts := by
  unfold locateAccount at h
  dsimp only at h
  split_ifs at h
  · split at h
    · rename_i found hfound
      cases h
      exact List.mem_of_mem_drop (List.mem_of_find?_eq_some hfound)
    · cases h
  · split at h
    · cases h
      exact List.mem_cons_self
    · cases h

/-- What `validate_mailbox_create` finds out: the account, and where the path is split. -/
theorem validate_spec {folders : Folders} {accounts : List Account} {mailboxName : String}
    {params : CreateParams}
    (h : validateMailboxCreate folders accounts mailboxName = .ok params) :
    ∃ path account above, buildPath mailboxName = .ok path ∧
      locateAccount folders accounts path = .ok account ∧ account.accountId = params.accountId ∧
      path = above ++ params.path ∧ Located account params above := by
  unfold validateMailboxCreate at h
  cases hpath : buildPath mailboxName with
  | error message => simp [hpath, bind, Except.bind] at h
  | ok path =>
      cases hlocate : locateAccount folders accounts path with
      | error message => simp [hpath, hlocate, bind, Except.bind] at h
      | ok account =>
          obtain ⟨hne, hitems⟩ := buildPath_spec hpath
          simp only [hpath, hlocate, bind, Except.bind] at h
          split at h
          · cases h
          · rename_i hnew
            have hfresh : joinPath path ∉ account.mailboxNames := by simpa using hnew
            obtain ⟨above, happend, hparent, hcreate⟩ : ∃ above,
                path = above ++ (if 1 < path.length then
                  locateParent account.mailboxNames path.reverse [] else (none, path)).2 ∧
                (above = [] ∧ (if 1 < path.length then
                  locateParent account.mailboxNames path.reverse [] else (none, path)).1 = none ∨
                above ≠ [] ∧ ∃ i, (if 1 < path.length then
                  locateParent account.mailboxNames path.reverse [] else (none, path)).1 =
                    some (i, joinPath above) ∧ account.mailboxNames[joinPath above]? = some i) ∧
                ∀ items, items <+: (if 1 < path.length then
                  locateParent account.mailboxNames path.reverse [] else (none, path)).2 →
                  items ≠ [] → joinPath (above ++ items) ∉ account.mailboxNames := by
              split
              · have := locateParent_spec account.mailboxNames path.reverse [] (by simp)
                simpa using this
              · rename_i hlength
                refine ⟨[], rfl, .inl ⟨rfl, rfl⟩, fun items hpre hitems_ne ↦ ?_⟩
                -- a path of one part has no other part than itself
                have hpos := List.length_pos_of_ne_nil hitems_ne
                have hle := hpre.length_le
                rw [hpre.eq_of_length (by simp only at *; omega)]
                exact hfresh
            generalize (if 1 < path.length then
              locateParent account.mailboxNames path.reverse [] else (none, path)) = located at *
            rw [Except.ok.injEq] at h
            subst h
            refine ⟨path, account, above, rfl, hlocate, rfl, happend, ?_, ?_, ?_, ?_, hcreate⟩
            · intro hnil
              dsimp only at hnil
              rw [hnil, List.append_nil] at happend
              subst happend
              rcases hparent with ⟨rfl, -⟩ | ⟨-, i, -, hi⟩
              · exact hne rfl
              · exact hfresh (mem_iff_exists_getElem?.mpr ⟨i, hi⟩)
            · intro x hx
              exact hitems x (happend ▸ List.mem_append_right above hx)
            · exact congrArg joinPath happend
            · rcases hparent with ⟨rfl, hnone⟩ | ⟨habove, i, hsome, hi⟩
              · exact .inl ⟨rfl, by simp [hnone], by simp [hnone]⟩
              · refine .inr ⟨habove, ?_, by simp [hsome], i, by simp [hsome], hi⟩
                refine joinPath_ne_empty habove fun x hx ↦ ?_
                exact (hitems x (happend ▸ List.mem_append_left _ hx)).2

theorem located_of_validate {folders : Folders} {accounts : List Account} {mailboxName : String}
    {params : CreateParams}
    (h : validateMailboxCreate folders accounts mailboxName = .ok params) :
    ∃ account ∈ accounts, account.accountId = params.accountId ∧
      ∃ above, Located account params above := by
  obtain ⟨path, account, above, -, hlocate, hid, -, hlocated⟩ := validate_spec h
  exact ⟨account, mem_of_locateAccount hlocate, hid, above, hlocated⟩

/-! ## Creating the rest of the path -/

namespace Located

variable {account : Account} {params : CreateParams} {above : List String}

/-- The parent is there, and has a name. -/
theorem hasParent (h : Located account params above) :
    account.HasParent params.parentMailboxName ∧ params.parentMailboxName ≠ some "" := by
  rcases h.parent with ⟨-, hname, -⟩ | ⟨-, hne, hname, i, -, hi⟩
  · rw [hname]
    exact ⟨by simp [Account.HasParent], by simp⟩
  · rw [hname]
    constructor
    · rintro p hp
      obtain rfl := Option.mem_some_iff.mp hp
      exact mem_iff_exists_getElem?.mpr ⟨i, hi⟩
    · simpa using hne

/-- The names of what is created, if it is not at the top level of a shared account. -/
theorem createdPath_eq (h : Located account params above)
    (htop : account.namePrefix.isSome = true → params.parentMailboxId.isSome = true)
    {items : List String} (hitems : items ≠ []) :
    account.createdPath params.parentMailboxName items = some (joinPath (above ++ items)) := by
  induction items using List.reverseRecOn with
  | nil => exact absurd rfl hitems
  | append_singleton items x ih =>
      rw [Account.createdPath_append_singleton]
      cases items with
      | nil =>
          rcases h.parent with ⟨rfl, hname, hid⟩ | ⟨habove, -, hname, -⟩
          · have hpre : account.namePrefix = none := by
              rw [hid] at htop
              simpa using htop
            simp [Account.createdPath, hname, Account.childName_of_bare hpre]
          · simp [Account.createdPath, hname, joinPath_append_singleton habove]
      | cons y items =>
          rw [ih (List.cons_ne_nil _ _), ← List.append_assoc,
            joinPath_append_singleton (by simp), Account.childName_some]

/-- What a server promises of the mailboxes it creates: each has an id of its own, which no name
stands for, and none is the second child of a name. -/
def FreshIds (account : Account) (params : CreateParams) (mailboxIds : List String) : Prop :=
  mailboxIds.Nodup ∧ (∀ id ∈ mailboxIds, ∀ e ∈ account.mailboxNames.toList, e.2 ≠ id) ∧
    ∀ x ∈ params.path.head?,
      account.childName params.parentMailboxName x ∉ account.mailboxNames

/-- **Creating.**  A part of the path that begins it is created below the parent. -/
theorem addCreated (h : Located account params above) (htree : account.Tree)
    (hflags : account.Flags none) (hpre : account.namePrefix ≠ some "")
    {created : CreateParams} (hcreated : created.path <+: params.path) (hne : created.path ≠ [])
    (hname : created.parentMailboxName = params.parentMailboxName)
    (hid : created.parentMailboxId = params.parentMailboxId) {mailboxIds : List String}
    (hlength : mailboxIds.length = created.path.length)
    (hfresh : FreshIds account created mailboxIds) (newState : String) (hasUpdated : Bool) :
    Account.Created account (account.addCreated created mailboxIds newState hasUpdated).2
      (account.createdPath params.parentMailboxName created.path) ∧
    (account.addCreated created mailboxIds newState hasUpdated).2.Flags
      (if hasUpdated then account.createdPath params.parentMailboxName created.path else none) := by
  obtain ⟨hparent, hparent_ne⟩ := h.hasParent
  obtain ⟨hnodup, hids, hnew⟩ := hfresh
  have hfst : (mailboxIds.zip created.path).map Prod.fst = mailboxIds :=
    List.map_fst_zip hlength.le
  have hsnd : (mailboxIds.zip created.path).map Prod.snd = created.path :=
    List.map_snd_zip hlength.ge
  have hzip_ne : mailboxIds.zip created.path ≠ [] := by
    intro hnil
    rw [hnil] at hsnd
    exact hne hsnd.symm
  have hslash : ∀ e ∈ mailboxIds.zip created.path, SlashFree e.2 ∧ e.2 ≠ "" := by
    intro e he
    exact h.items e.2 (hcreated.subset (hsnd ▸ List.mem_map_of_mem he))
  have hunnamed : ∀ e ∈ mailboxIds.zip created.path, account.Unnamed e.1 := by
    intro e he n hn
    refine hids e.1 (hfst ▸ List.mem_map_of_mem he) (n, e.1) ?_ rfl
    exact Std.ExtTreeMap.mem_toList_iff_getElem?_eq_some.mpr hn
  have hhead : ∀ e ∈ (mailboxIds.zip created.path).head?,
      account.childName params.parentMailboxName e.2 ∉ account.mailboxNames := by
    intro e he
    rw [← hname]
    refine hnew e.2 ?_
    rw [← hsnd, List.head?_map, Option.mem_def.mp he]
    rfl
  -- the account the loop starts with: its parent is flagged
  obtain ⟨start, hstart_names, hstart_pre, hstart_flags, hresult⟩ : ∃ start : Account,
      start.mailboxNames = account.mailboxNames ∧ start.namePrefix = account.namePrefix ∧
      start.Flags params.parentMailboxName ∧
      (account.addCreated created mailboxIds newState hasUpdated).2 =
        start.insertCreated hasUpdated (mailboxIds.zip created.path)
          (start.base params.parentMailboxName) := by
    unfold Account.addCreated
    dsimp only
    rw [if_neg (not_not.mpr hlength), hname, hid]
    rcases h.parent with ⟨-, hnone, -⟩ | ⟨-, -, hsome, i, hi, hp⟩
    · refine ⟨{ account with mailboxState := newState }, rfl, rfl, ?_, ?_⟩
      · rw [hnone]
        exact hflags
      · rw [hnone]
        rfl
    · refine ⟨{ account with
        mailboxState := newState
        mailboxData := setHasChildren account.mailboxData i true }, rfl, rfl, ?_, ?_⟩
      · rw [hsome]
        exact hflags.setPending htree hp
      · rw [hsome, hi]
        rfl
  have hchild (x : String) : start.childName params.parentMailboxName x =
      account.childName params.parentMailboxName x := by
    unfold Account.childName
    rw [hstart_pre]
  have hpath : start.createdPath = account.createdPath := by
    funext parent items
    unfold Account.createdPath Account.childName
    rw [hstart_pre]
  obtain ⟨hcreated', hflags'⟩ := Account.created_insertCreated hasUpdated
    (htree.congr hstart_names hstart_pre) hstart_flags
    (by unfold Account.HasParent; rw [hstart_names]; exact hparent) hparent_ne
    (hstart_pre ▸ hpre) hslash (by rw [hfst]; exact hnodup)
    (by unfold Account.Unnamed; rw [hstart_names]; exact hunnamed)
    (by rw [hstart_names]; intro e he; rw [hchild]; exact hhead e he)
  rw [hresult]
  rw [if_neg hzip_ne, hsnd, hpath] at hflags'
  rw [hsnd, hpath] at hcreated'
  refine ⟨⟨hcreated'.tree, hcreated'.namePrefix.trans hstart_pre, hcreated'.hasParent, ?_, ?_⟩,
    hflags'⟩
  · rw [← hstart_names]
    exact hcreated'.old
  · rw [← hstart_names]
    exact hcreated'.new

/-! ## Renaming to the path -/

/-- The last part of the path is a child of the part before it. -/
theorem target_eq (h : Located account params above)
    (htop : account.namePrefix.isSome = true → params.parentMailboxId.isSome = true) :
    params.fullPath = account.childName
      (account.createdPath params.parentMailboxName params.parents.path)
      (params.path.getLast h.ne_nil) := by
  have hsplit := List.dropLast_append_getLast h.ne_nil
  have hpath := h.createdPath_eq htop h.ne_nil
  rw [← hsplit, Account.createdPath_append_singleton] at hpath
  rw [h.fullPath]
  conv_lhs => rw [← hsplit]
  exact (Option.some.inj hpath).symm

/-- **Renaming** to the path, after the new parents have been created if there are any. -/
theorem rename (h : Located account params above) (htree : account.Tree)
    (hflags : account.Flags none) (hpre : account.namePrefix ≠ some "") {old id : String}
    (hold : account.mailboxNames[old]? = some id)
    (htop : account.namePrefix.isSome = true → params.parentMailboxId.isSome = true)
    (hapart : ¬ Below old params.fullPath) (hkeep : account.KeepsParent old params.fullPath)
    {account' : Account}
    (haccount' : params.parents.path = [] ∧ account' = account ∨
      params.parents.path ≠ [] ∧ ∃ mailboxIds newState,
        mailboxIds.length = params.parents.path.length ∧
        FreshIds account params.parents mailboxIds ∧
        account' = (account.addCreated params.parents mailboxIds newState true).2)
    (newState : String) :
    (account'.rename old id params.parents newState).Tree ∧
      (account'.rename old id params.parents newState).Flags none := by
  have htarget := h.target_eq htop
  have hnew : params.fullPath ∉ account.mailboxNames := by
    rw [h.fullPath]
    exact h.new params.path List.prefix_rfl h.ne_nil
  have hset : ∀ i ∈ params.parentMailboxId, ∃ p : String,
      account.mailboxNames[p]? = some i ∧ Below p params.fullPath := by
    intro i hi
    rcases h.parent with ⟨-, -, hid⟩ | ⟨habove, -, -, i', hid, hp⟩
    · cases hid.symm.trans hi
    · refine ⟨joinPath above, ?_, h.fullPath ▸ below_joinPath habove h.ne_nil⟩
      rw [hp, ← hid, hi]
  have hlast : SlashFree (params.path.getLast h.ne_nil) :=
    (h.items _ (List.getLast_mem _)).1
  rcases haccount' with ⟨hnil, rfl⟩ | ⟨hne, mailboxIds, state, hlength, hfresh, rfl⟩
  · -- the new parent is there, and is flagged by the renaming
    have hpath : account'.createdPath params.parentMailboxName params.parents.path =
        params.parentMailboxName := by
      rw [hnil]
      rfl
    rw [hpath] at htarget
    have hmoves : account'.Moves old id params.parents.fullPath params.parentMailboxName
        (params.path.getLast h.ne_nil) :=
      ⟨hold, htarget, hlast, h.hasParent.1, hnew, hapart⟩
    refine ⟨hmoves.tree htree (Account.rename_names _ _ _ _ _)
      (Account.rename_namePrefix _ _ _ _ _), hflags.rename htree hmoves ⟨hset,
        .inr ⟨rfl, ?_⟩, ?_⟩ hkeep⟩
    · intro p hp
      rcases h.parent with ⟨-, hname, -⟩ | ⟨-, -, hname, i, hid, hi⟩
      · cases hname.symm.trans hp
      · obtain rfl := Option.some.inj (hname.symm.trans hp)
        exact hi.trans hid.symm
    · simp
  · -- the new parent has just been created, and is flagged ahead of its child
    have hdrop : params.parents.path <+: params.path := List.dropLast_prefix _
    obtain ⟨hcreated, hflags'⟩ := h.addCreated htree hflags hpre hdrop hne rfl rfl hlength hfresh
      state true
    have hpath := h.createdPath_eq htop hne
    have hc_new := h.new _ hdrop hne
    rw [if_pos rfl] at hflags'
    rw [hpath] at htarget hcreated hflags'
    generalize joinPath (above ++ params.parents.path) = c at *
    generalize (account.addCreated params.parents mailboxIds state true).2 = account' at *
    rw [Account.childName_some] at htarget
    have hc_below : Below c params.fullPath := htarget ▸ below_append c _
    have hc_prefix : ∀ p ∈ account.namePrefix, Below p c := by
      intro p hp
      refine hcreated.tree.below_root p (hcreated.namePrefix.trans hp) c ?_
      exact hcreated.hasParent c rfl
    have hmem {n : String} (hn : n ∈ account.mailboxNames) : n ∈ account'.mailboxNames := by
      obtain ⟨i, hi⟩ := mem_iff_exists_getElem?.mp hn
      exact mem_iff_exists_getElem?.mpr ⟨i, hcreated.old n i hi⟩
    have hnew_cases {n : String} (hn : n ∈ account'.mailboxNames) :
        n ∈ account.mailboxNames ∨ n = c ∨ Below n c := by
      refine (hcreated.new n hn).imp_right ?_
      rintro ⟨c', hc', hnc⟩
      obtain rfl := Option.mem_some_iff.mp hc'
      exact hnc
    have hmoves : account'.Moves old id params.parents.fullPath (some c)
        (params.path.getLast h.ne_nil) := by
      refine ⟨hcreated.old old id hold, htarget, hlast, hcreated.hasParent, ?_, hapart⟩
      intro hn
      rcases hnew_cases hn with hn | heq | hbelow
      · exact hnew hn
      · exact hc_below.ne heq.symm
      · exact below_irrefl c (hc_below.trans hbelow)
    have hparent : account'.FlagsParent (some c) (some c) params.parentMailboxId
        params.fullPath := by
      refine ⟨?_, .inl rfl, ?_⟩
      · intro i hi
        obtain ⟨p, hp, hbelow⟩ := hset i hi
        exact ⟨p, hcreated.old p i hp, hbelow⟩
      · rintro c' hc' n hn hbelow
        obtain rfl := Option.mem_some_iff.mp hc'
        rcases hnew_cases hn with hn | rfl | hbelow'
        · exact htree.not_below hc_new hc_prefix hn hbelow
        · exact below_irrefl n hbelow
        · exact below_irrefl c (hbelow.trans hbelow')
    have hkeep' : account'.KeepsParent old params.fullPath := by
      rintro q y hy heq hq ⟨n, hn, hbelow⟩
      have hold_mem : old ∈ account.mailboxNames := mem_iff_exists_getElem?.mpr ⟨id, hold⟩
      have hq_mem : q ∈ account.mailboxNames := by
        rcases htree.closed q y hy (heq ▸ hold_mem) with hq' | hp
        · exact hq'
        · exact absurd ⟨q, hcreated.namePrefix.trans hp, .inl rfl⟩
            (hcreated.tree.not_above_root hq)
      have hn_mem : n ∈ account.mailboxNames := by
        rcases hnew_cases hn with hn | rfl | hbelow'
        · exact hn
        · exact absurd (hbelow.trans hc_below) hapart
        · exact absurd (hbelow.trans (hbelow'.trans hc_below)) hapart
      refine (hkeep q y hy heq hq_mem ⟨n, hn_mem, hbelow⟩).imp_right ?_
      rintro ⟨n', hn', hrest⟩
      exact ⟨n', hmem hn', hrest⟩
    exact ⟨hmoves.tree hcreated.tree (Account.rename_names _ _ _ _ _)
      (Account.rename_namePrefix _ _ _ _ _), hflags'.rename hcreated.tree hmoves hparent hkeep'⟩

end Located

end ImapToJmap
