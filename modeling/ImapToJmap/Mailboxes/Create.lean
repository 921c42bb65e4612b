import ImapToJmap.Mailboxes.Consistent
import ImapToJmap.Mailboxes.Located

/-!
# The names of created mailboxes

`validate_mailbox_create` splits a path at its longest part that is there, and
`add_created_mailboxes` joins it again, beginning with the prefix of the account if there is no
parent.  The prefix of a shared account is in the path already, so the two agree unless nothing
above the new mailbox is there (`createdAt_iff`).
-/

namespace ImapToJmap

/-! ## Joining -/

theorem joinPath_cons (x : String) {path : List String} (h : path ≠ []) :
    joinPath (x :: path) = x ++ "/" ++ joinPath path := by
  obtain ⟨y, path, rfl⟩ := List.exists_cons_of_ne_nil h
  apply String.toList_injective
  simp [joinPath, List.intercalate_cons_cons]

theorem joinPath_append {above items : List String} (habove : above ≠ []) (hitems : items ≠ []) :
    joinPath (above ++ items) = joinPath above ++ "/" ++ joinPath items := by
  induction above with
  | nil => exact absurd rfl habove
  | cons x above ih =>
      rw [List.cons_append]
      rcases above with _ | ⟨y, above⟩
      · rw [List.nil_append, joinPath_cons x hitems, joinPath_singleton]
      · rw [joinPath_cons x (by simp), joinPath_cons x (by simp), ih (by simp)]
        simp only [String.append_assoc]

/-- A joined path is as good as the path. -/
theorem joinPath_joinPath_cons {above items : List String} (habove : above ≠ [])
    (hitems : items ≠ []) : joinPath (joinPath above :: items) = joinPath (above ++ items) := by
  rw [joinPath_cons _ hitems, joinPath_append habove hitems]

/-! ## Entering a path -/

section

variable {created : List (String × String)} {above : List String} (hasUpdated : Bool)

/-- One step of the loop. -/
theorem insertCreated_cons (account : Account) (habove : ∀ x ∈ above, x ≠ "")
    (mailboxId item : String) :
    ∃ account' : Account,
      account'.mailboxNames = account.mailboxNames.insert (joinPath (above ++ [item])) mailboxId ∧
      account.insertCreated hasUpdated ((mailboxId, item) :: created) (joinPath above) =
        account'.insertCreated hasUpdated created (joinPath (above ++ [item])) := by
  have hname : (if joinPath above ≠ "" then joinPath above ++ "/" ++ item else item) =
      joinPath (above ++ [item]) := by
    rcases eq_or_ne above [] with rfl | hne
    · rw [List.nil_append, joinPath_singleton, if_neg (by simp [joinPath])]
    · rw [if_pos (joinPath_ne_empty hne habove), joinPath_append_singleton hne]
  refine ⟨{ account with
    mailboxNames := account.mailboxNames.insert (joinPath (above ++ [item])) mailboxId
    mailboxData :=
      account.mailboxData.insert mailboxId (.created (!created.isEmpty || hasUpdated)) }, rfl, ?_⟩
  rw [Account.insertCreated, hname]

/-- A name that is not on the path is as before. -/
theorem getElem?_insertCreated_of_ne (account : Account) {n : String}
    (hitems : ∀ x ∈ above ++ created.map Prod.snd, x ≠ "")
    (hne : ∀ k < created.length, n ≠ joinPath (above ++ (created.map Prod.snd).take (k + 1))) :
    (account.insertCreated hasUpdated created (joinPath above)).mailboxNames[n]? =
      account.mailboxNames[n]? := by
  induction created generalizing account above with
  | nil => rfl
  | cons e created ih =>
      obtain ⟨mailboxId, item⟩ := e
      obtain ⟨account', hnames, hstep⟩ := insertCreated_cons hasUpdated account
        (fun x hx ↦ hitems x (List.mem_append_left _ hx)) mailboxId item
      have hrest : (account'.insertCreated hasUpdated created
          (joinPath (above ++ [item]))).mailboxNames[n]? = account'.mailboxNames[n]? := by
        refine ih account' (by simpa using hitems) fun k hk ↦ ?_
        rw [List.append_assoc]
        exact hne (k + 1) (Nat.succ_lt_succ hk)
      have hfirst : joinPath (above ++ [item]) ≠ n := (hne 0 (Nat.succ_pos _)).symm
      rw [hstep, hrest, hnames, Std.ExtTreeMap.getElem?_insert, if_neg (by simpa using hfirst)]

/-- What is on the path is entered, each part with its own id. -/
theorem getElem?_insertCreated (account : Account)
    (hitems : ∀ x ∈ above ++ created.map Prod.snd, x ≠ "") {k : ℕ} (hk : k < created.length) :
    (account.insertCreated hasUpdated created (joinPath above)).mailboxNames[
        joinPath (above ++ (created.map Prod.snd).take (k + 1))]? =
      (created.map Prod.fst)[k]? := by
  induction created generalizing account above k with
  | nil => exact absurd hk (Nat.not_lt_zero k)
  | cons e created ih =>
      obtain ⟨mailboxId, item⟩ := e
      obtain ⟨account', hnames, hstep⟩ := insertCreated_cons hasUpdated account
        (fun x hx ↦ hitems x (List.mem_append_left _ hx)) mailboxId item
      have hitems' : ∀ x ∈ above ++ [item] ++ created.map Prod.snd, x ≠ "" := by
        simpa using hitems
      rw [hstep]
      cases k with
      | zero =>
          -- what follows is below the name
          have hbelow : ∀ k < created.length, joinPath (above ++ [item]) ≠
              joinPath (above ++ [item] ++ (created.map Prod.snd).take (k + 1)) := by
            intro k hk
            refine (below_joinPath (by simp) ?_).ne
            simpa using List.ne_nil_of_length_pos (Nat.zero_lt_of_lt hk)
          show (account'.insertCreated _ _ _).mailboxNames[joinPath (above ++ [item])]? = _
          rw [getElem?_insertCreated_of_ne hasUpdated account' hitems' hbelow, hnames]
          simp
      | succ k =>
          have hrest := ih account' hitems' (Nat.lt_of_succ_lt_succ hk)
          rw [List.append_assoc] at hrest
          exact hrest

end

/-! ## The two functions together -/

/-- What is expected of the two functions: the parent and the parts join to the path, and every
part of the path that is not there gets its id. -/
structure Account.CreatedAt (account account' : Account) (params : CreateParams)
    (path mailboxIds : List String) : Prop where
  fullPath : joinPath ((params.parentMailboxName.or account.namePrefix).toList ++ params.path) =
    params.fullPath
  last : account'.mailboxNames[params.fullPath]? = mailboxIds.getLast?
  entered : ∀ k < params.path.length, account'.mailboxNames[
    joinPath (path.take (path.length - params.path.length + k + 1))]? = mailboxIds[k]?
  others : ∀ n : String, (∀ k < params.path.length,
      n ≠ joinPath (path.take (path.length - params.path.length + k + 1))) →
    account'.mailboxNames[n]? = account.mailboxNames[n]?

section

variable {account : Account} {params : CreateParams} {path above mailboxIds : List String}

/-- The names after a creation, if the loop starts with what is above. -/
theorem names_addCreated {name : String}
    (hname : params.parentMailboxName.getD (account.namePrefix.getD "") = name)
    (hlength : mailboxIds.length = params.path.length) (newState : String) (hasUpdated : Bool) :
    ∃ start : Account, start.mailboxNames = account.mailboxNames ∧
      (account.addCreated params mailboxIds newState hasUpdated).2 =
        start.insertCreated hasUpdated (mailboxIds.zip params.path) name := by
  unfold Account.addCreated
  dsimp only
  rw [if_neg (not_not.mpr hlength)]
  cases hparent : params.parentMailboxName with
  | some parent =>
      obtain rfl : parent = name := by rwa [hparent] at hname
      exact ⟨{ account with
        mailboxState := newState
        mailboxData := setHasChildren account.mailboxData (params.parentMailboxId.getD "") true },
        rfl, rfl⟩
  | none =>
      obtain rfl : account.namePrefix.getD "" = name := by rwa [hparent] at hname
      exact ⟨{ account with mailboxState := newState }, rfl, rfl⟩

theorem Located.createdAt (h : Located account params above) (hpath : path = above ++ params.path)
    (hitems : ∀ x ∈ path, x ≠ "") (hbegin : above ≠ [] ∨ account.namePrefix = none)
    (hlength : mailboxIds.length = params.path.length) (newState : String) (hasUpdated : Bool) :
    account.CreatedAt (account.addCreated params mailboxIds newState hasUpdated).2 params path
      mailboxIds := by
  have hbase : params.parentMailboxName.getD (account.namePrefix.getD "") = joinPath above := by
    rcases h.parent with ⟨rfl, hname, -⟩ | ⟨-, -, hname, -⟩
    · rw [hname, hbegin.resolve_left (fun hne ↦ hne rfl)]
      rfl
    · rw [hname]
      rfl
  obtain ⟨start, hstart, haccount'⟩ := names_addCreated hbase hlength newState hasUpdated
  have hfst : (mailboxIds.zip params.path).map Prod.fst = mailboxIds := List.map_fst_zip hlength.le
  have hsnd : (mailboxIds.zip params.path).map Prod.snd = params.path := List.map_snd_zip hlength.ge
  have hzip : (mailboxIds.zip params.path).length = params.path.length := by
    rw [← hsnd, List.length_map, hsnd]
  have hitems' : ∀ x ∈ above ++ (mailboxIds.zip params.path).map Prod.snd, x ≠ "" := by
    rwa [hsnd, ← hpath]
  have htake (k : ℕ) : path.take (path.length - params.path.length + k + 1) =
      above ++ params.path.take (k + 1) := by
    rw [hpath, List.length_append, Nat.add_sub_cancel, Nat.add_assoc, List.take_length_add_append]
  have hentered : ∀ k < params.path.length,
      (account.addCreated params mailboxIds newState hasUpdated).2.mailboxNames[
        joinPath (above ++ params.path.take (k + 1))]? = mailboxIds[k]? := by
    intro k hk
    have hget := getElem?_insertCreated hasUpdated start hitems' (hzip ▸ hk)
    rwa [hsnd, hfst, ← haccount'] at hget
  constructor
  · rw [h.fullPath]
    rcases h.parent with ⟨rfl, hname, -⟩ | ⟨habove, -, hname, -⟩
    · rw [hname, hbegin.resolve_left (fun hne ↦ hne rfl)]
      rfl
    · rw [hname]
      exact joinPath_joinPath_cons habove h.ne_nil
  · have hpos := List.length_pos_of_ne_nil h.ne_nil
    have hlast := hentered (params.path.length - 1) (Nat.sub_one_lt_of_lt hpos)
    rw [Nat.sub_add_cancel hpos, List.take_length, ← h.fullPath] at hlast
    rw [hlast, List.getLast?_eq_getElem?, hlength]
  · intro k hk
    rw [htake]
    exact hentered k hk
  · intro n hn
    rw [haccount', getElem?_insertCreated_of_ne hasUpdated start hitems', hstart]
    intro k hk
    rw [hsnd, ← htake]
    exact hn k (hzip ▸ hk)

/-- In a shared account a path that nothing is above is not joined again. -/
theorem Located.joinPath_ne (h : Located account params above) (habove : above = []) {p : String}
    (hpre : account.namePrefix = some p) :
    joinPath ((params.parentMailboxName.or account.namePrefix).toList ++ params.path) ≠
      params.fullPath := by
  rcases h.parent with ⟨-, hname, -⟩ | ⟨hne, -⟩
  · rw [hname, hpre, h.fullPath, habove, Option.none_or, Option.toList_some,
      List.singleton_append, joinPath_cons p h.ne_nil, List.nil_append]
    intro heq
    have hlength := congrArg (List.length ∘ String.toList) heq
    simp at hlength
    omega
  · exact absurd habove hne

/-- Nothing above a path is there, or the parent is. -/
theorem Located.above_ne_nil_iff (h : Located account params above)
    (hpath : path = above ++ params.path) :
    above ≠ [] ↔ ∃ items, items <+: path ∧ items ≠ [] ∧ joinPath items ∈ account.mailboxNames := by
  rcases h.parent with ⟨rfl, -, -⟩ | ⟨habove, -, -, i, -, hi⟩
  · refine iff_of_false (fun hne ↦ hne rfl) ?_
    rintro ⟨items, hpre, hne, hmem⟩
    rw [hpath] at hpre
    exact h.new items hpre hne hmem
  · refine iff_of_true habove ⟨above, hpath ▸ List.prefix_append _ _, habove, ?_⟩
    exact mem_iff_exists_getElem?.mpr ⟨i, hi⟩

end

/-- The account of a path has a prefix if and only if the path is in the shared folders. -/
theorem namePrefix_of_locateAccount {folders : Folders} {accounts : List Account}
    {path : List String} {account : Account} (hown : ∀ a ∈ accounts.head?, a.namePrefix = none)
    (h : locateAccount folders accounts path = .ok account) :
    account.namePrefix = none ↔ path.headD "" ≠ folders.folderShared := by
  unfold locateAccount at h
  dsimp only at h
  split_ifs at h with hall hshared hlength
  · split at h
    · rename_i found hfound
      cases h
      have hsome := List.find?_some hfound
      simp only [decide_eq_true_eq] at hsome
      rw [hsome]
      exact iff_of_false nofun (not_not.mpr hshared)
    · cases h
  · split at h
    · cases h
      exact iff_of_true (hown _ rfl) hshared
    · cases h

/-- **CREATE.**  The new mailboxes get the names they have been asked for, except in a shared
account that has nothing above them. -/
theorem createdAt_iff {folders : Folders} {accounts : List Account} {mailboxName : String}
    {params : CreateParams} {account : Account} {path mailboxIds : List String}
    (hown : ∀ a ∈ accounts.head?, a.namePrefix = none)
    (hids : (accounts.map Account.accountId).Nodup)
    (hpath : buildPath mailboxName = .ok path)
    (hparams : validateMailboxCreate folders accounts mailboxName = .ok params)
    (hmem : account ∈ accounts) (hid : account.accountId = params.accountId)
    (hlength : mailboxIds.length = params.path.length) (newState : String) (hasUpdated : Bool) :
    account.CreatedAt (account.addCreated params mailboxIds newState hasUpdated).2 params path
        mailboxIds ↔
      path.headD "" ≠ folders.folderShared ∨
        ∃ items, items <+: path ∧ items ≠ [] ∧ joinPath items ∈ account.mailboxNames := by
  obtain ⟨path', account', above, hpath', hlocate, hid', happend, hlocated⟩ :=
    validate_spec hparams
  obtain rfl : path' = path := Except.ok.inj (hpath'.symm.trans hpath)
  obtain rfl : account' = account :=
    List.inj_on_of_nodup_map hids (mem_of_locateAccount hlocate) hmem (hid'.trans hid.symm)
  rw [← namePrefix_of_locateAccount hown hlocate, ← hlocated.above_ne_nil_iff happend]
  constructor
  · intro h
    by_contra hnot
    obtain ⟨hpre, habove⟩ := not_or.mp hnot
    obtain ⟨p, hp⟩ := Option.ne_none_iff_exists'.mp hpre
    exact hlocated.joinPath_ne (not_not.mp habove) hp h.fullPath
  · intro h
    exact hlocated.createdAt happend (fun x hx ↦ ((buildPath_spec hpath).2 x hx).2) h.symm hlength
      newState hasUpdated

/-- An account of a user, who has a mailbox `A`. -/
def ownAccount : Account :=
  ⟨"a", none, "1", .ofList [("A", "m")], .ofList [("m", Mailbox.created false)], none⟩

/-- An account that is shared with them. -/
def bobsAccount : Account :=
  ⟨"b", some "Shared Folders/bob", "1", .ofList [("Shared Folders/bob/Inbox", "i")],
    .ofList [("i", Mailbox.created false)], none⟩

theorem createdAt_own :
    ownAccount.CreatedAt
      (ownAccount.addCreated ⟨"a", ["B"], "A/B", some "m", some "A"⟩ ["n"] "2" false).2
      ⟨"a", ["B"], "A/B", some "m", some "A"⟩ ["A", "B"] ["n"] := by
  have hpath : buildPath "/A/ B" = .ok ["A", "B"] := by decide +kernel
  have hparams : validateMailboxCreate folders [ownAccount, bobsAccount] "/A/ B" =
      .ok ⟨"a", ["B"], "A/B", some "m", some "A"⟩ := by decide +kernel
  have hlength : ["n"].length = ["B"].length := rfl
  refine (createdAt_iff (fun a ha ↦ ?_) ?_ hpath hparams List.mem_cons_self rfl hlength "2"
    false).mpr (.inl ?_)
  · rw [← Option.mem_some_iff.mp ha]
    rfl
  · simp [ownAccount, bobsAccount]
  · simp [folders]

/-- The mailbox is for the root of the shared account, and goes three levels below it. -/
theorem created_elsewhere :
    ∃ params, validateMailboxCreate folders [ownAccount, bobsAccount] "Shared Folders/bob/New" =
        .ok params ∧ params.accountId = bobsAccount.accountId ∧
      ¬ bobsAccount.CreatedAt (bobsAccount.addCreated params ["x", "y", "z"] "2" false).2 params
        ["Shared Folders", "bob", "New"] ["x", "y", "z"] ∧
      (bobsAccount.addCreated params ["x", "y", "z"] "2" false).2.mailboxNames.toList =
        [("Shared Folders/bob/Inbox", "i"),
          ("Shared Folders/bob/Shared Folders", "x"),
          ("Shared Folders/bob/Shared Folders/bob", "y"),
          ("Shared Folders/bob/Shared Folders/bob/New", "z")] := by
  refine ⟨⟨"b", ["Shared Folders", "bob", "New"], "Shared Folders/bob/New", none, none⟩,
    by decide +kernel, rfl, fun h ↦ ?_, by decide +kernel⟩
  have hlast := h.last
  revert hlast
  decide +kernel

end ImapToJmap
