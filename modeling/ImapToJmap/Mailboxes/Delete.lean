import ImapToJmap.Mailboxes.Create
import ImapToJmap.Mailboxes.State

/-!
# Deleting

`delete_folder` goes through the names in their order and takes the first that is the mailbox or a
child of it.  A mailbox comes before its children, so the check for children fails only for a name
that is no mailbox (`deleteTarget_eq`).  The request that follows has no account, and is for a
mailbox of the user whatever account the name was found in.
-/

namespace ImapToJmap

open Jmap SessionM

/-! ## The scan -/

/-- A mailbox comes before its children. -/
theorem compare_of_below {p n : String} (h : Below p n) : compare p n = .lt := by
  obtain ⟨t, rfl⟩ := below_iff.mp h
  rw [compare_lt_iff_lt, String.lt_iff_toList_lt, String.append_assoc, String.toList_append]
  conv_lhs => rw [← List.append_nil p.toList]
  refine List.append_left_lt ?_
  rw [String.toList_append]
  exact List.nil_lt_cons _ _

/-- The answer to a DELETE of a mailbox with children. -/
def hasChildrenResponse : StatusResponse :=
  (StatusResponse.no "Mailbox has children that need to be deleted first.").withCode .hasChildren

section

variable {mailboxName id : String} {l : List (String × String)}

theorem scanNames_cons (mailboxName : String) (e : String × String) (l : List (String × String)) :
    scanNames mailboxName (e :: l) =
      if e.1 = mailboxName then some (.ok e.2)
      else if Below mailboxName e.1 then some (.error hasChildrenResponse)
      else scanNames mailboxName l := rfl

theorem scanNames_of_mem (hordered : l.Pairwise fun a b ↦ compare a.1 b.1 = .lt)
    (h : (mailboxName, id) ∈ l) : scanNames mailboxName l = some (.ok id) := by
  induction l with
  | nil => cases h
  | cons e l ih =>
      rw [List.pairwise_cons] at hordered
      rw [scanNames_cons]
      rcases List.mem_cons.mp h with rfl | hmem
      · rw [if_pos rfl]
      · -- what comes before the mailbox is no child of it
        have hlt : e.1 < mailboxName := compare_lt_iff_lt.mp (hordered.1 _ hmem)
        have hne : e.1 ≠ mailboxName := hlt.ne
        have hbelow : ¬ Below mailboxName e.1 := by
          intro hb
          exact absurd (compare_lt_iff_lt.mp (compare_of_below hb)) hlt.asymm
        rw [if_neg hne, if_neg hbelow]
        exact ih hordered.2 hmem

theorem scanNames_of_below (hnone : ∀ e ∈ l, e.1 ≠ mailboxName)
    (h : ∃ e ∈ l, Below mailboxName e.1) :
    scanNames mailboxName l = some (.error hasChildrenResponse) := by
  induction l with
  | nil => simp at h
  | cons e l ih =>
      rw [scanNames_cons, if_neg (hnone e List.mem_cons_self)]
      split
      · rfl
      · rename_i hbelow
        refine ih (fun e he ↦ hnone e (List.mem_cons_of_mem _ he)) ?_
        obtain ⟨e', hmem, hb⟩ := h
        rcases List.mem_cons.mp hmem with rfl | hmem
        · exact absurd hb hbelow
        · exact ⟨e', hmem, hb⟩

theorem scanNames_of_none (h : ∀ e ∈ l, e.1 ≠ mailboxName ∧ ¬ Below mailboxName e.1) :
    scanNames mailboxName l = none := by
  induction l with
  | nil => rfl
  | cons e l ih =>
      obtain ⟨hne, hbelow⟩ := h e List.mem_cons_self
      rw [scanNames_cons, if_neg hne, if_neg hbelow]
      exact ih fun e he ↦ h e (List.mem_cons_of_mem _ he)

end

/-! ## The mailbox that is found -/

/-- There is a name below this one. -/
def Account.HasBelow (account : Account) (mailboxName : String) : Prop :=
  ∃ n ∈ account.mailboxNames.keys, Below mailboxName n

instance (account : Account) (mailboxName : String) : Decidable (account.HasBelow mailboxName) :=
  inferInstanceAs (Decidable (∃ n ∈ account.mailboxNames.keys, Below mailboxName n))

/-- The scan stops in the account. -/
def Account.Stops (account : Account) (mailboxName : String) : Prop :=
  account.admits mailboxName = true ∧
    (mailboxName ∈ account.mailboxNames ∨ account.HasBelow mailboxName)

instance (account : Account) (mailboxName : String) : Decidable (account.Stops mailboxName) :=
  inferInstanceAs (Decidable (_ ∧ (_ ∨ _)))

/-- What the scan of the names of an account finds. -/
theorem scanNames_toList (account : Account) (mailboxName : String) :
    scanNames mailboxName account.mailboxNames.toList =
      match account.mailboxNames[mailboxName]? with
      | some id => some (.ok id)
      | none =>
          if account.HasBelow mailboxName then some (.error hasChildrenResponse) else none := by
  cases hname : account.mailboxNames[mailboxName]? with
  | some id =>
      exact scanNames_of_mem Std.ExtTreeMap.ordered_keys_toList
        (Std.ExtTreeMap.mem_toList_iff_getElem?_eq_some.mpr hname)
  | none =>
      have hne : ∀ e ∈ account.mailboxNames.toList, e.1 ≠ mailboxName := by
        rintro ⟨n, i⟩ he rfl
        rw [Std.ExtTreeMap.mem_toList_iff_getElem?_eq_some.mp he] at hname
        cases hname
      have hkeys (n : String) :
          n ∈ account.mailboxNames.keys ↔ ∃ e ∈ account.mailboxNames.toList, e.1 = n := by
        rw [← Std.ExtTreeMap.map_fst_toList_eq_keys, List.mem_map]
      dsimp only
      split
      · rename_i hbelow
        obtain ⟨n, hn, hb⟩ := hbelow
        obtain ⟨e, he, rfl⟩ := (hkeys n).mp hn
        exact scanNames_of_below hne ⟨e, he, hb⟩
      · rename_i hbelow
        refine scanNames_of_none fun e he ↦ ⟨hne e he, fun hb ↦ hbelow ⟨e.1, ?_, hb⟩⟩
        exact (hkeys e.1).mpr ⟨e, he, rfl⟩

/-- The first account in which the scan stops decides, and there the mailbox itself. -/
theorem deleteTarget_eq (accounts : List Account) (mailboxName : String) :
    deleteTarget accounts mailboxName =
      match accounts.find? fun account ↦ account.Stops mailboxName with
      | none => .error (.no "Mailbox does not exist.")
      | some account =>
          match account.mailboxNames[mailboxName]? with
          | some id => .ok (account.accountId, id, account.namePrefix.isNone)
          | none => .error hasChildrenResponse := by
  unfold deleteTarget
  dsimp only
  induction accounts with
  | nil => rfl
  | cons account accounts ih =>
      rw [List.findSome?_cons, List.find?_cons, scanNames_toList]
      by_cases hadmits : account.admits mailboxName = true
      · rw [if_pos hadmits]
        cases hname : account.mailboxNames[mailboxName]? with
        | some id =>
            have hstops : account.Stops mailboxName :=
              ⟨hadmits, .inl (mem_iff_exists_getElem?.mpr ⟨id, hname⟩)⟩
            simp [hstops, hname, Except.map]
        | none =>
            by_cases hbelow : account.HasBelow mailboxName
            · have hstops : account.Stops mailboxName := ⟨hadmits, .inr hbelow⟩
              simp [hstops, hbelow, hname, Except.map]
            · have hstops : ¬ account.Stops mailboxName := by
                rintro ⟨-, hmem | hbelow'⟩
                · obtain ⟨i, hi⟩ := mem_iff_exists_getElem?.mp hmem
                  rw [hname] at hi
                  cases hi
                · exact hbelow hbelow'
              simpa [hstops, hbelow] using ih
      · have hstops : ¬ account.Stops mailboxName := fun h ↦ hadmits h.1
        simpa [hadmits, hstops] using ih

/-! ## The requests -/

/-- The mailboxes a call asks the server to destroy, with their accounts. -/
def SessionCall.destroys (folders : Folders) : SessionCall → List (String × String)
  | .jmap (.mailboxDestroy mailboxId deleteEmails) =>
      ((Request.mailboxDestroy mailboxId deleteEmails).accounts folders.defaultAccountId).map
        (·, mailboxId)
  | _ => []

/-- The mailboxes the server has been asked to destroy. -/
def destroyed (folders : Folders) (history : History) : List (String × String) :=
  history.flatMap fun reply ↦ reply.1.destroys folders

section

variable {S : Type} {folders : Folders} {outside : Outside S} {w : World S} {history : History}

/-- `synchronize_mailboxes` destroys nothing. -/
theorem synchronizeMailboxes_keeps (returnChanges forceSessionRefresh : Bool) :
    (synchronizeMailboxes folders returnChanges forceSessionRefresh).Uses
      fun q ↦ q.destroys folders = [] := by
  have hfetch (ids : List (String × Option String)) :
      (fetchAccounts ids).Uses fun q ↦ q.destroys folders = [] :=
    fetchAccounts_uses (fun _ _ ↦ rfl) ids
  have happly (responses : List (Option Changes)) :
      (applyChanges returnChanges responses).Uses fun q ↦ q.destroys folders = [] := by
    induction responses with
    | nil => trivial
    | cons response rest ih =>
        cases response with
        | none => exact ih
        | some changes =>
            unfold applyChanges
            split
            · exact ih
            · refine Job.Uses.bind ⟨rfl, fun _ ↦ trivial⟩ fun _ ↦ ?_
              exact Job.Uses.bind ih fun _ ↦ trivial
  refine Job.Uses.bind ?_ ?_
  · refine Job.Uses.bind ⟨rfl, fun _ ↦ trivial⟩ fun isSessionUpdated ↦ ?_
    split
    · refine Job.Uses.bind ⟨rfl, fun _ ↦ trivial⟩ ?_
      rintro (err | _)
      · trivial
      · refine Job.Uses.bind ⟨rfl, fun _ ↦ trivial⟩ fun session ↦ ?_
        refine Job.Uses.bind ⟨rfl, fun _ ↦ trivial⟩ fun unlinked ↦ ?_
        exact Job.Uses.bind (hfetch _) fun _ ↦ trivial
    · trivial
  · rintro (err | ⟨deleted, added⟩)
    · trivial
    · refine Job.Uses.bind ⟨rfl, fun _ ↦ trivial⟩ fun states ↦ ?_
      refine Job.Uses.bind ⟨rfl, fun _ ↦ trivial⟩ ?_
      rintro (err | responses)
      · trivial
      · refine Job.Uses.bind (happly _) fun changedIds ↦ ?_
        refine Job.Uses.bind ⟨rfl, fun _ ↦ trivial⟩ fun session ↦ ?_
        refine Job.Uses.bind (hfetch _) fun changed ↦ ?_
        dsimp only
        split
        · trivial
        · exact Job.Uses.bind ⟨rfl, fun _ ↦ trivial⟩ fun _ ↦ trivial

theorem destroyed_synchronizeMailboxes (returnChanges forceSessionRefresh : Bool)
    (w : World S × History) (h : destroyed folders w.2 = []) :
    destroyed folders ((synchronizeMailboxes folders returnChanges forceSessionRefresh).run
      (Job.logging (answer folders outside)) w).2.2 = [] := by
  refine Job.run_induct (fun w : World S × History ↦ destroyed folders w.2 = []) ?_
    (synchronizeMailboxes_keeps returnChanges forceSessionRefresh) h
  intro q w hq hw
  show q.destroys folders ++ destroyed folders w.2 = []
  rw [hq, hw, List.append_nil]

/-- After the refresh there is one request for the mailbox that has been found, and else none. -/
theorem deleteFolder_run (mailboxName : String) {changes : MailboxSync}
    (hsync : ((synchronizeMailboxes folders false false).run (answer folders outside) w).1 =
      .ok changes) :
    match deleteTarget ((synchronizeMailboxes folders false false).run (answer folders outside)
        w).2.accounts mailboxName with
    | .error response =>
        ((deleteFolder folders mailboxName).run (Job.logging (answer folders outside))
          (w, [])).1 = response ∧
        destroyed folders ((deleteFolder folders mailboxName).run
          (Job.logging (answer folders outside)) (w, [])).2.2 = []
    | .ok (_, mailboxId, _) =>
        destroyed folders ((deleteFolder folders mailboxName).run
          (Job.logging (answer folders outside)) (w, [])).2.2 =
            [(folders.defaultAccountId, mailboxId)] := by
  have hnone : destroyed folders ((synchronizeMailboxes folders false false).run
      (Job.logging (answer folders outside)) (w, [])).2.2 = [] :=
    destroyed_synchronizeMailboxes false false (w, []) rfl
  obtain ⟨hfst, hsnd⟩ := Job.run_logging (answer folders outside)
    (synchronizeMailboxes folders false false) (w, [])
  rw [hsync] at hfst
  rw [← hsnd]
  unfold deleteFolder
  rw [Job.run_bind]
  generalize (synchronizeMailboxes folders false false).run (Job.logging (answer folders outside))
    (w, []) = s at *
  obtain ⟨r, w', history⟩ := s
  obtain rfl := hfst
  have hfound : (locked (.deleteTarget mailboxName)).run (Job.logging (answer folders outside))
      (w', history) = (deleteTarget w'.accounts mailboxName, w',
        ⟨.locked (.deleteTarget mailboxName), deleteTarget w'.accounts mailboxName⟩ :: history) :=
    rfl
  dsimp only
  rw [Job.run_bind, hfound]
  cases deleteTarget w'.accounts mailboxName with
  | error response => exact ⟨rfl, hnone⟩
  | ok target =>
      obtain ⟨accountId, mailboxId, deleteUidCache⟩ := target
      dsimp only
      rw [Job.run_bind]
      have hsent : destroyed folders ((jmap (.mailboxDestroy mailboxId true)).run
          (Job.logging (answer folders outside)) (w', ⟨.locked (.deleteTarget mailboxName),
            .ok (accountId, mailboxId, deleteUidCache)⟩ :: history)).2.2 =
          [(folders.defaultAccountId, mailboxId)] := by
        show _ :: destroyed folders history = _
        rw [hnone]
      generalize (jmap (.mailboxDestroy mailboxId true)).run (Job.logging (answer folders outside))
        _ = s at *
      obtain ⟨_ | _, w⟩ := s
      · exact hsent
      · cases deleteUidCache with
        | false => exact hsent
        | true => exact hsent

end

/-! ## What DELETE does -/

/-- The mailbox of a name, with its account. -/
def mailboxNamed (accounts : List Account) (mailboxName : String) : Option (String × String) :=
  accounts.findSome? fun account ↦ account.mailboxNames[mailboxName]?.map (account.accountId, ·)

/-- What is expected of DELETE: the answer, and the mailboxes that are to be destroyed. -/
structure DeletesExactly (accounts : List Account) (mailboxName : String)
    (response : StatusResponse) (destroyed : List (String × String)) : Prop where
  children : (∃ account ∈ accounts, account.HasBelow mailboxName) →
    response.code = some .hasChildren ∧ destroyed = []
  mailbox : (¬ ∃ account ∈ accounts, account.HasBelow mailboxName) →
    destroyed = (mailboxNamed accounts mailboxName).toList

/-- A mailbox of the user that has a name is found by it. -/
theorem find?_of_mailboxNamed {accounts : List Account} {mailboxName accountId id : String}
    (hown : ∀ account ∈ accounts, account.accountId = accountId → account.namePrefix = none)
    (hnone : ¬ ∃ account ∈ accounts, account.HasBelow mailboxName)
    (h : mailboxNamed accounts mailboxName = some (accountId, id)) :
    ∃ account, accounts.find? (fun account ↦ account.Stops mailboxName) = some account ∧
      account.mailboxNames[mailboxName]? = some id := by
  induction accounts with
  | nil => cases h
  | cons account accounts ih =>
      unfold mailboxNamed at h
      rw [List.findSome?_cons] at h
      cases hname : account.mailboxNames[mailboxName]? with
      | some id' =>
          obtain ⟨rfl, rfl⟩ : account.accountId = accountId ∧ id' = id := by
            simpa [hname] using h
          have hadmits : account.admits mailboxName = true := by
            simp [Account.admits, hown account List.mem_cons_self rfl]
          have hstops : account.Stops mailboxName :=
            ⟨hadmits, .inl (mem_iff_exists_getElem?.mpr ⟨_, hname⟩)⟩
          exact ⟨account, List.find?_cons_of_pos (decide_eq_true hstops), hname⟩
      | none =>
          have hstops : ¬ account.Stops mailboxName := by
            rintro ⟨-, hmem | hbelow⟩
            · obtain ⟨i, hi⟩ := mem_iff_exists_getElem?.mp hmem
              rw [hname] at hi
              cases hi
            · exact hnone ⟨account, List.mem_cons_self, hbelow⟩
          rw [hname] at h
          obtain ⟨found, hfind, hfound⟩ := ih
            (fun a ha ↦ hown a (List.mem_cons_of_mem _ ha))
            (fun ⟨a, ha, hb⟩ ↦ hnone ⟨a, List.mem_cons_of_mem _ ha, hb⟩) h
          refine ⟨found, ?_, hfound⟩
          rwa [List.find?_cons_of_neg (by simpa using hstops)]

/-- **DELETE.**  Names with children are answered as such if they are no mailboxes themselves, and
what is destroyed is the mailbox of the name if it belongs to the user. -/
theorem deletesExactly_iff {S : Type} {folders : Folders} {outside : Outside S} {w : World S}
    {accounts : List Account} {changes : MailboxSync} (mailboxName : String)
    (hsync : ((synchronizeMailboxes folders false false).run (answer folders outside) w).1 =
      .ok changes)
    (haccounts : ((synchronizeMailboxes folders false false).run (answer folders outside)
      w).2.accounts = accounts)
    (hown : ∀ account ∈ accounts, account.accountId = folders.defaultAccountId →
      account.namePrefix = none) :
    DeletesExactly accounts mailboxName
        ((deleteFolder folders mailboxName).run (Job.logging (answer folders outside)) (w, [])).1
        (destroyed folders ((deleteFolder folders mailboxName).run
          (Job.logging (answer folders outside)) (w, [])).2.2) ↔
      ((∃ account ∈ accounts, account.HasBelow mailboxName) →
        ∃ account ∈ accounts.find? fun account ↦ account.Stops mailboxName,
          mailboxName ∉ account.mailboxNames) ∧
      ((¬ ∃ account ∈ accounts, account.HasBelow mailboxName) →
        ∀ e ∈ mailboxNamed accounts mailboxName, e.1 = folders.defaultAccountId) := by
  have hrun := deleteFolder_run mailboxName hsync
  rw [haccounts, deleteTarget_eq] at hrun
  generalize (deleteFolder folders mailboxName).run (Job.logging (answer folders outside))
    (w, []) = result at *
  by_cases hbelow : ∃ account ∈ accounts, account.HasBelow mailboxName
  · -- the children are seen unless the mailbox is
    have hcond : (DeletesExactly accounts mailboxName result.1 (destroyed folders result.2.2)) ↔
        result.1.code = some .hasChildren ∧ destroyed folders result.2.2 = [] :=
      ⟨fun h ↦ h.children hbelow, fun h ↦ ⟨fun _ ↦ h, fun hnot ↦ absurd hbelow hnot⟩⟩
    rw [hcond, forall_prop_of_true hbelow, forall_prop_of_false (not_not.mpr hbelow), and_true]
    cases hfind : accounts.find? fun account ↦ account.Stops mailboxName with
    | none =>
        rw [hfind] at hrun
        rw [hrun.1]
        exact iff_of_false (fun h ↦ nomatch h.1) (by simp)
    | some account =>
        cases hname : account.mailboxNames[mailboxName]? with
        | some id =>
            have hmem : mailboxName ∈ account.mailboxNames :=
              mem_iff_exists_getElem?.mpr ⟨id, hname⟩
            simp only [hfind, hname] at hrun
            rw [hrun]
            exact iff_of_false (fun h ↦ nomatch h.2) (by simpa using hmem)
        | none =>
            have hmem : mailboxName ∉ account.mailboxNames := by
              rw [Std.ExtTreeMap.mem_iff_isSome_getElem?, hname]
              exact Bool.false_ne_true
            simp only [hfind, hname] at hrun
            rw [hrun.1, hrun.2]
            exact iff_of_true ⟨rfl, rfl⟩ ⟨account, rfl, hmem⟩
  · -- the mailbox of the name is found if it belongs to the user
    have hcond : (DeletesExactly accounts mailboxName result.1 (destroyed folders result.2.2)) ↔
        destroyed folders result.2.2 = (mailboxNamed accounts mailboxName).toList :=
      ⟨fun h ↦ h.mailbox hbelow, fun h ↦ ⟨fun hyes ↦ absurd hyes hbelow, fun _ ↦ h⟩⟩
    rw [hcond, forall_prop_of_false hbelow, forall_prop_of_true hbelow, true_and]
    -- whatever is destroyed has been found
    have hsome : destroyed folders result.2.2 = [] ∨ ∃ account ∈ accounts, ∃ id,
        account.mailboxNames[mailboxName]? = some id ∧
        destroyed folders result.2.2 = [(folders.defaultAccountId, id)] := by
      cases hfind : accounts.find? fun account ↦ account.Stops mailboxName with
      | none =>
          rw [hfind] at hrun
          exact .inl hrun.2
      | some account =>
          cases hname : account.mailboxNames[mailboxName]? with
          | none =>
              simp only [hfind, hname] at hrun
              exact .inl hrun.2
          | some id =>
              simp only [hfind, hname] at hrun
              exact .inr ⟨account, List.mem_of_find?_eq_some hfind, id, hname, hrun⟩
    cases hnamed : mailboxNamed accounts mailboxName with
    | none =>
        refine iff_of_true ?_ (by simp)
        rcases hsome with hnil | ⟨account, hmem, id, hname, -⟩
        · exact hnil
        · have hmap := List.findSome?_eq_none_iff.mp hnamed account hmem
          rw [hname] at hmap
          cases hmap
    | some e =>
        obtain ⟨accountId, id⟩ := e
        rw [Option.toList_some]
        constructor
        · intro h e he
          obtain rfl := Option.mem_some_iff.mp he
          rcases hsome with hnil | ⟨account, -, id', -, hone⟩
          · rw [hnil] at h
            cases h
          · rw [hone, List.singleton_inj] at h
            exact (Prod.mk.inj h).1.symm
        · intro h
          obtain rfl : accountId = folders.defaultAccountId := h _ rfl
          obtain ⟨account, hfind, hname⟩ := find?_of_mailboxNamed hown hbelow hnamed
          simp only [hfind, hname] at hrun
          exact hrun

/-- A mailbox with a child. -/
def nestedAccount : Account :=
  ⟨"a", none, "1", .ofList [("A", "m"), ("A/B", "n")],
    .ofList [("m", Mailbox.created true), ("n", Mailbox.created false)], none⟩

theorem synchronizeMailboxes_nested :
    (synchronizeMailboxes folders false false).run (answer folders mailboxOutside)
      ⟨[nestedAccount], serverA⟩ = (.ok ⟨[], [], []⟩, ⟨[nestedAccount], serverA⟩) := rfl

theorem deletesExactly_child :
    DeletesExactly [nestedAccount] "A/B"
      ((deleteFolder folders "A/B").run (Job.logging (answer folders mailboxOutside))
        (⟨[nestedAccount], serverA⟩, [])).1
      (destroyed folders ((deleteFolder folders "A/B").run
        (Job.logging (answer folders mailboxOutside)) (⟨[nestedAccount], serverA⟩, [])).2.2) := by
  refine (deletesExactly_iff "A/B" (congrArg Prod.fst synchronizeMailboxes_nested)
    (congrArg (World.accounts ∘ Prod.snd) synchronizeMailboxes_nested) ?_).mpr ⟨?_, fun _ ↦ ?_⟩
  · rintro account hmem -
    obtain rfl := List.mem_singleton.mp hmem
    rfl
  · decide +kernel
  · decide +kernel

/-- A mailbox is destroyed with its child still there. -/
theorem parent_destroyed :
    (∃ account ∈ [nestedAccount], account.HasBelow "A") ∧
    destroyed folders ((deleteFolder folders "A").run
      (Job.logging (answer folders mailboxOutside)) (⟨[nestedAccount], serverA⟩, [])).2.2 =
        [("a", "m")] ∧
    ¬ DeletesExactly [nestedAccount] "A"
      ((deleteFolder folders "A").run (Job.logging (answer folders mailboxOutside))
        (⟨[nestedAccount], serverA⟩, [])).1
      (destroyed folders ((deleteFolder folders "A").run
        (Job.logging (answer folders mailboxOutside)) (⟨[nestedAccount], serverA⟩, [])).2.2) := by
  have hbelow : ∃ account ∈ [nestedAccount], account.HasBelow "A" := by decide +kernel
  have hdestroyed : destroyed folders ((deleteFolder folders "A").run
      (Job.logging (answer folders mailboxOutside)) (⟨[nestedAccount], serverA⟩, [])).2.2 =
        [("a", "m")] := by decide +kernel
  refine ⟨hbelow, hdestroyed, fun h ↦ ?_⟩
  have hnil := (h.children hbelow).2
  rw [hdestroyed] at hnil
  cases hnil

end ImapToJmap
