import ImapToJmap.Mailboxes.Create
import ImapToJmap.Mailboxes.State
import ImapToJmap.Protocol.Listing

/-!
# What a synchronization reports

`synchronize_mailboxes` compares the old and the new mailboxes of an account by their ids and
reports them by their names.  A mailbox that is created or destroyed is reported, and so are all
those of an account that comes or goes.  One that is renamed or moved is in both listings, and
nothing is said of it: the names a client keeps are those of the cache if and only if the mailboxes
that stay keep their names (`syncExact_iff`).
-/

namespace ImapToJmap

open Jmap SessionM

/-! ## Accounts by their ids -/

/-- The names and the data of an account. -/
abbrev Cache := Names × MailboxMap

def Account.cache (account : Account) : Cache := (account.mailboxNames, account.mailboxData)

/-- The names and the data that are cached for an account. -/
def cacheOf (accounts : List Account) (accountId : String) : Option Cache :=
  (accounts.find? fun account ↦ account.accountId = accountId).map Account.cache

section

variable {accounts : List Account} {account new : Account} {accountId n : String}

theorem cacheOf_cons (account : Account) (accounts : List Account) (accountId : String) :
    cacheOf (account :: accounts) accountId =
      if account.accountId = accountId then some account.cache
      else cacheOf accounts accountId := by
  unfold cacheOf
  rw [List.find?_cons]
  by_cases h : account.accountId = accountId
  · simp [h]
  · simp [h]

theorem cacheOf_append (accounts accounts' : List Account) (accountId : String) :
    cacheOf (accounts ++ accounts') accountId =
      (cacheOf accounts accountId).or (cacheOf accounts' accountId) := by
  unfold cacheOf
  rw [List.find?_append]
  cases accounts.find? fun account ↦ account.accountId = accountId with
  | none => rfl
  | some account => rfl

/-- Of accounts with different ids each has its own. -/
theorem exists_account_iff (hnodup : (accounts.map Account.accountId).Nodup)
    (P : String → Cache → Prop) :
    (∃ account ∈ accounts, P account.accountId account.cache) ↔
      ∃ accountId, ∃ c ∈ cacheOf accounts accountId, P accountId c := by
  constructor
  · rintro ⟨account, hmem, h⟩
    refine ⟨account.accountId, account.cache, ?_, h⟩
    have hfind : (accounts.find? fun a ↦ a.accountId = account.accountId) = some account := by
      cases hfind : accounts.find? fun a ↦ a.accountId = account.accountId with
      | none =>
          rw [List.find?_eq_none] at hfind
          exact absurd (decide_eq_true rfl) (hfind account hmem)
      | some found =>
          have hid : found.accountId = account.accountId := by simpa using List.find?_some hfind
          rw [List.inj_on_of_nodup_map hnodup (List.mem_of_find?_eq_some hfind) hmem hid]
    rw [cacheOf, hfind]
    rfl
  · rintro ⟨accountId, c, hc, h⟩
    obtain ⟨account, hfind, rfl⟩ := Option.map_eq_some_iff.mp hc
    obtain rfl : account.accountId = accountId := by simpa using List.find?_some hfind
    exact ⟨account, List.mem_of_find?_eq_some hfind, h⟩

/-- An account takes the place of the one with its id, or comes at the end. -/
theorem cacheOf_replaceAccount (changes : MailboxSync) (accounts : List Account) (new : Account)
    (accountId : String) :
    cacheOf (replaceAccount changes accounts new).2 accountId =
      if new.accountId = accountId then some new.cache
      else cacheOf accounts accountId := by
  unfold replaceAccount
  split
  · rename_i old hold
    dsimp only
    induction accounts with
    | nil => cases hold
    | cons account accounts ih =>
        unfold updateAccount
        by_cases hid : account.accountId = new.accountId
        · rw [if_pos hid, cacheOf_cons, cacheOf_cons, hid]
          split
          · rfl
          · rfl
        · rw [List.find?_cons_of_neg (by simpa using hid)] at hold
          rw [if_neg hid, cacheOf_cons, cacheOf_cons, ih hold]
          by_cases hid' : account.accountId = accountId
          · rw [if_pos hid', if_pos hid', if_neg (fun h ↦ hid (hid'.trans h.symm))]
          · rw [if_neg hid', if_neg hid']
  · rename_i hnone
    have hcache : cacheOf accounts new.accountId = none := by
      rw [cacheOf, Option.map_eq_none_iff]
      exact hnone
    rw [cacheOf_append, cacheOf_cons]
    by_cases hid : new.accountId = accountId
    · rw [← hid, hcache, if_pos rfl, if_pos rfl]
      rfl
    · rw [if_neg hid, if_neg hid]
      exact Option.or_none

/-! ## One account -/

/-- The mailbox of the name is not among the old ones. -/
def AddedTo (old : Option Cache) (new : Cache) (n : String) : Prop :=
  ∃ i : String, new.1[n]? = some i ∧ ∀ c ∈ old, i ∉ c.2

/-- The mailbox of the name is not among the new ones. -/
def DeletedFrom (old : Option Cache) (new : Cache) (n : String) : Prop :=
  ∃ c ∈ old, ∃ i : String, c.1[n]? = some i ∧ i ∉ new.2

/-- The counts of a mailbox are not the same. -/
def CountsDiffer (old new : Option Mailbox) : Prop :=
  ∃ m ∈ old, ∃ m' ∈ new, m'.totalMessages.getD 0 ≠ m.totalMessages.getD 0 ∨
    m'.totalUnseen.getD 0 ≠ m.totalUnseen.getD 0

/-- The mailbox of the name is among the old ones, with other counts. -/
def ChangedIn (old : Option Cache) (new : Cache) (n : String) : Prop :=
  ∃ c ∈ old, ∃ i : String, new.1[n]? = some i ∧ CountsDiffer c.2[i]? new.2[i]?

/-- What is reported of a new account. -/
theorem mem_replaceAccount (changes : MailboxSync) (accounts : List Account) (new : Account)
    (n : String) :
    (n ∈ (replaceAccount changes accounts new).1.added ↔
      n ∈ changes.added ∨ AddedTo (cacheOf accounts new.accountId) new.cache n) ∧
    (n ∈ (replaceAccount changes accounts new).1.deleted ↔
      n ∈ changes.deleted ∨ DeletedFrom (cacheOf accounts new.accountId) new.cache n) ∧
    (n ∈ (replaceAccount changes accounts new).1.changed ↔
      n ∈ changes.changed ∨ ChangedIn (cacheOf accounts new.accountId) new.cache n) := by
  unfold replaceAccount
  split
  · rename_i old hold
    have hcache : cacheOf accounts new.accountId = some old.cache := by
      rw [cacheOf, hold]
      rfl
    rw [hcache]
    have hentry (names : Names) (p : String × String → Bool) :
        n ∈ (names.toList.filter p).map Prod.fst ↔
          ∃ i : String, names[n]? = some i ∧ p (n, i) = true := by
      simp [List.mem_map, List.mem_filter, Std.ExtTreeMap.mem_toList_iff_getElem?_eq_some]
    have hlacks (data : MailboxMap) (i : String) : (!data.contains i) = true ↔ i ∉ data := by
      rw [Bool.not_eq_true', ← Bool.not_eq_true, Std.ExtTreeMap.contains_iff_mem]
    refine ⟨?_, ?_, ?_⟩
    · show n ∈ changes.added ++ _ ↔ _
      rw [List.mem_append, hentry]
      simp only [AddedTo, Account.cache, hlacks, Option.mem_some_iff, forall_eq']
    · show n ∈ changes.deleted ++ _ ↔ _
      rw [List.mem_append, hentry]
      simp only [DeletedFrom, Account.cache, hlacks, Option.mem_some_iff, exists_eq_left']
    · show n ∈ changes.changed ++ _ ↔ _
      rw [List.mem_append, hentry]
      simp only [ChangedIn, CountsDiffer, Account.cache, Option.mem_some_iff, exists_eq_left']
      refine or_congr_right (exists_congr fun i ↦ and_congr_right fun _ ↦ ?_)
      cases old.mailboxData[i]? with
      | none => simp
      | some m =>
          cases new.mailboxData[i]? with
          | none => simp
          | some m' => simp
  · rename_i hnone
    have hcache : cacheOf accounts new.accountId = none := by
      rw [cacheOf, Option.map_eq_none_iff]
      exact hnone
    rw [hcache]
    simp [AddedTo, DeletedFrom, ChangedIn, Account.cache, mem_iff_exists_getElem?]

end

/-! ## All accounts -/

section

variable {accounts l changed added : List Account} (changes : MailboxSync)

/-- The accounts of a list take their places. -/
def replaceAll (changes : MailboxSync) (accounts l : List Account) : MailboxSync × List Account :=
  l.foldl (fun s new ↦ replaceAccount s.1 s.2 new) (changes, accounts)

theorem replaceAll_cons (changes : MailboxSync) (accounts : List Account) (new : Account)
    (l : List Account) :
    replaceAll changes accounts (new :: l) =
      replaceAll (replaceAccount changes accounts new).1 (replaceAccount changes accounts new).2
        l :=
  rfl

theorem cacheOf_eq_none_iff {accountId : String} :
    cacheOf accounts accountId = none ↔ accountId ∉ accounts.map Account.accountId := by
  rw [cacheOf, Option.map_eq_none_iff, List.find?_eq_none, List.mem_map]
  simp

theorem cacheOf_replaceAll (accounts : List Account) (h : (l.map Account.accountId).Nodup)
    (accountId : String) :
    cacheOf (replaceAll changes accounts l).2 accountId =
      (cacheOf l accountId).or (cacheOf accounts accountId) := by
  induction l generalizing changes accounts with
  | nil => rfl
  | cons new l ih =>
      rw [List.map_cons, List.nodup_cons] at h
      rw [replaceAll_cons, ih _ _ h.2, cacheOf_replaceAccount, cacheOf_cons]
      by_cases hid : new.accountId = accountId
      · rw [if_pos hid, if_pos hid, cacheOf_eq_none_iff.mpr (hid ▸ h.1)]
        rfl
      · rw [if_neg hid, if_neg hid]

/-- What is reported of all of them is what is reported of each. -/
theorem mem_replaceAll (accounts : List Account) (h : (l.map Account.accountId).Nodup)
    (n : String) :
    (n ∈ (replaceAll changes accounts l).1.added ↔
      n ∈ changes.added ∨ ∃ new ∈ l, AddedTo (cacheOf accounts new.accountId) new.cache n) ∧
    (n ∈ (replaceAll changes accounts l).1.deleted ↔
      n ∈ changes.deleted ∨ ∃ new ∈ l, DeletedFrom (cacheOf accounts new.accountId) new.cache n) ∧
    (n ∈ (replaceAll changes accounts l).1.changed ↔
      n ∈ changes.changed ∨ ∃ new ∈ l, ChangedIn (cacheOf accounts new.accountId) new.cache n) := by
  induction l generalizing changes accounts with
  | nil => simp [replaceAll]
  | cons new l ih =>
      rw [List.map_cons, List.nodup_cons] at h
      -- the others are compared with what was there before
      have hother {P : Option Cache → Cache → String → Prop} :
          (∃ new' ∈ l, P (cacheOf (replaceAccount changes accounts new).2 new'.accountId)
            new'.cache n) ↔
            ∃ new' ∈ l, P (cacheOf accounts new'.accountId) new'.cache n := by
        refine exists_congr fun new' ↦ and_congr_right fun hmem ↦ ?_
        have hne : new.accountId ≠ new'.accountId := by
          intro heq
          exact h.1 (List.mem_map.mpr ⟨new', hmem, heq.symm⟩)
        rw [cacheOf_replaceAccount, if_neg hne]
      obtain ⟨hadded, hdeleted, hchanged⟩ := mem_replaceAccount changes accounts new n
      rw [replaceAll_cons, (ih _ _ h.2).1, (ih _ _ h.2).2.1, (ih _ _ h.2).2.2, hadded, hdeleted,
        hchanged, hother, hother,
        hother, List.exists_mem_cons_iff, List.exists_mem_cons_iff, List.exists_mem_cons_iff]
      exact ⟨or_assoc, or_assoc, or_assoc⟩

/-- Accounts with new ids come at the end, and all their names are reported. -/
theorem replaceAll_new (hids : ∀ new ∈ l, new.accountId ∉ accounts.map Account.accountId)
    (hnodup : (l.map Account.accountId).Nodup) :
    replaceAll changes accounts l =
      ({ changes with added := changes.added ++ l.flatMap fun a ↦ a.mailboxNames.keys },
        accounts ++ l) := by
  induction l generalizing changes accounts with
  | nil => simp [replaceAll]
  | cons new l ih =>
      rw [List.map_cons, List.nodup_cons] at hnodup
      have hnone : (accounts.find? fun account ↦ account.accountId = new.accountId) = none := by
        have hcache := cacheOf_eq_none_iff.mpr (hids new List.mem_cons_self)
        rwa [cacheOf, Option.map_eq_none_iff] at hcache
      have hreplace : replaceAccount changes accounts new =
          ({ changes with added := changes.added ++ new.mailboxNames.keys },
            accounts ++ [new]) := by
        rw [replaceAccount, hnone]
      rw [replaceAll_cons, hreplace, ih _ ?_ hnodup.2]
      · simp
      · intro new' hmem
        rw [List.map_append, List.mem_append]
        rintro (hold | hnew)
        · exact hids new' (List.mem_cons_of_mem _ hmem) hold
        · rw [List.map_singleton, List.mem_singleton] at hnew
          exact hnodup.1 (List.mem_map.mpr ⟨new', hmem, hnew⟩)

theorem map_accountId_replaceAccount (changes : MailboxSync) (accounts : List Account)
    (new : Account) :
    (replaceAccount changes accounts new).2.map Account.accountId =
      if new.accountId ∈ accounts.map Account.accountId then accounts.map Account.accountId
      else accounts.map Account.accountId ++ [new.accountId] := by
  unfold replaceAccount
  split
  · rename_i old hold
    have hmem : new.accountId ∈ accounts.map Account.accountId := by
      refine List.mem_map.mpr ⟨old, List.mem_of_find?_eq_some hold, ?_⟩
      simpa using List.find?_some hold
    rw [if_pos hmem]
    clear hmem hold
    dsimp only
    induction accounts with
    | nil => rfl
    | cons account accounts ih =>
        unfold updateAccount
        split
        · rename_i hid
          rw [List.map_cons, List.map_cons, hid]
        · rw [List.map_cons, List.map_cons, ih]
  · rename_i hnone
    rw [List.find?_eq_none] at hnone
    have hnotin : new.accountId ∉ accounts.map Account.accountId := by
      intro hmem
      obtain ⟨account, hmem, hid⟩ := List.mem_map.mp hmem
      exact hnone account hmem (decide_eq_true hid)
    rw [if_neg hnotin]
    exact List.map_append

theorem map_accountId_replaceAll_subset :
    (replaceAll changes accounts l).2.map Account.accountId ⊆
      (accounts ++ l).map Account.accountId := by
  induction l generalizing changes accounts with
  | nil => simp [replaceAll]
  | cons new l ih =>
      intro id hid
      rw [replaceAll_cons] at hid
      have hid' := ih _ hid
      rw [List.map_append, List.mem_append, map_accountId_replaceAccount] at hid'
      rw [List.map_append, List.map_cons, List.mem_append, List.mem_cons]
      rcases hid' with hid' | hid'
      · split at hid'
        · exact .inl hid'
        · rw [List.mem_append, List.mem_singleton] at hid'
          exact hid'.imp_right Or.inl
      · exact .inr (.inr hid')

theorem nodup_replaceAll (h : (accounts.map Account.accountId).Nodup) :
    ((replaceAll changes accounts l).2.map Account.accountId).Nodup := by
  induction l generalizing changes accounts with
  | nil => exact h
  | cons new l ih =>
      rw [replaceAll_cons]
      refine ih _ ?_
      rw [map_accountId_replaceAccount]
      split
      · exact h
      · rename_i hnotin
        exact List.nodup_append_comm.mp (List.nodup_cons.mpr ⟨hnotin, h⟩)

/-- New accounts take their places too, if their ids are new. -/
theorem updateMailboxes_eq (hids : ∀ account ∈ added,
      account.accountId ∉ (accounts ++ changed).map Account.accountId)
    (hnodup : (added.map Account.accountId).Nodup) :
    updateMailboxes changes accounts changed added =
      replaceAll changes accounts (changed ++ added) := by
  have hsplit : replaceAll changes accounts (changed ++ added) =
      replaceAll (replaceAll changes accounts changed).1 (replaceAll changes accounts changed).2
        added := List.foldl_append
  rw [hsplit, replaceAll_new _ ?_ hnodup]
  · rfl
  · intro new hmem hin
    exact hids new hmem (map_accountId_replaceAll_subset _ hin)

end

/-! ## Old and new mailboxes -/

/-- The name is that of some mailbox. -/
def InNames (accounts : List Account) (n : String) : Prop :=
  ∃ account ∈ accounts, n ∈ account.mailboxNames

/-- The name is that of the mailbox. -/
def IsNamed (accounts : List Account) (accountId id n : String) : Prop :=
  ∃ account ∈ accounts, account.accountId = accountId ∧ account.mailboxNames[n]? = some id

/-- The mailbox is there. -/
def HasMailbox (accounts : List Account) (accountId id : String) : Prop :=
  ∃ account ∈ accounts, account.accountId = accountId ∧ id ∈ account.mailboxData

/-- The name is that of a mailbox which is not among the others. -/
def NamesOnly (accounts others : List Account) (n : String) : Prop :=
  ∃ accountId id, IsNamed accounts accountId id n ∧ ¬ HasMailbox others accountId id

/-- The name is that of a mailbox which is among the others too. -/
def NamesBoth (accounts others : List Account) (n : String) : Prop :=
  ∃ accountId id, IsNamed accounts accountId id n ∧ HasMailbox others accountId id

/-- The name is that of a mailbox whose counts were others. -/
def Recounted (old new : List Account) (n : String) : Prop :=
  ∃ accountId id, IsNamed new accountId id n ∧ ∃ account ∈ old, account.accountId = accountId ∧
    ∃ account' ∈ new, account'.accountId = accountId ∧
      CountsDiffer account.mailboxData[id]? account'.mailboxData[id]?

/-- The LIST responses of `write_changes`: the mailboxes that are gone, and then the new ones. -/
def MailboxSync.listItems (changes : MailboxSync) : List Listing.ListItem :=
  (changes.deleted.map fun mailboxName ↦ ⟨mailboxName, [.nonExistent], []⟩) ++
    changes.added.map fun mailboxName ↦ ⟨mailboxName, [], []⟩

/-- The names that a client has after a LIST response. -/
def Listing.ListItem.follow (names : Set String) (item : ListItem) : Set String :=
  if .nonExistent ∈ item.attributes then names \ {item.mailboxName}
  else insert item.mailboxName names

/-- What is expected of the changes: they lead from the old names to the new ones, also one LIST
response at a time. -/
structure SyncExact (old new : List Account) (changes : MailboxSync) : Prop where
  names : ∀ n, InNames new n ↔ (InNames old n ∧ n ∉ changes.deleted) ∨ n ∈ changes.added
  changed : ∀ n ∈ changes.changed, InNames old n ∧ InNames new n
  listed : changes.listItems.foldl Listing.ListItem.follow {n | InNames old n} = {n | InNames new n}

/-- The mailboxes that stay keep their names, but for those that new mailboxes have taken over; and
none of them had its name from a mailbox that is gone, or gets new counts under a new name. -/
structure KeepsNames (old new : List Account) : Prop where
  names : ∀ n, ¬ NamesOnly new old n →
    (NamesBoth new old n ↔ NamesBoth old new n ∧ ¬ NamesOnly old new n)
  recounted : ∀ n, Recounted old new n → InNames old n

theorem inNames_iff {accounts : List Account} (others : List Account) {n : String} :
    InNames accounts n ↔ NamesBoth accounts others n ∨ NamesOnly accounts others n := by
  constructor
  · rintro ⟨account, hmem, hn⟩
    obtain ⟨id, hid⟩ := mem_iff_exists_getElem?.mp hn
    by_cases hhas : HasMailbox others account.accountId id
    · exact .inl ⟨_, id, ⟨account, hmem, rfl, hid⟩, hhas⟩
    · exact .inr ⟨_, id, ⟨account, hmem, rfl, hid⟩, hhas⟩
  · rintro (⟨-, id, ⟨account, hmem, -, hid⟩, -⟩ | ⟨-, id, ⟨account, hmem, -, hid⟩, -⟩)
    · exact ⟨account, hmem, mem_iff_exists_getElem?.mpr ⟨id, hid⟩⟩
    · exact ⟨account, hmem, mem_iff_exists_getElem?.mpr ⟨id, hid⟩⟩

/-- A client takes out the names that are gone. -/
theorem foldl_follow_deleted (deleted : List String) (names : Set String) :
    (deleted.map fun mailboxName ↦ (⟨mailboxName, [.nonExistent], []⟩ : Listing.ListItem)).foldl
      Listing.ListItem.follow names = names \ {n | n ∈ deleted} := by
  induction deleted generalizing names with
  | nil => simp
  | cons n deleted ih =>
      rw [List.map_cons, List.foldl_cons, ih, Listing.ListItem.follow, if_pos (by simp)]
      ext n'
      simp [and_assoc]

/-- It puts in the new ones. -/
theorem foldl_follow_added (added : List String) (names : Set String) :
    (added.map fun mailboxName ↦ (⟨mailboxName, [], []⟩ : Listing.ListItem)).foldl
      Listing.ListItem.follow names = names ∪ {n | n ∈ added} := by
  induction added generalizing names with
  | nil => simp
  | cons n added ih =>
      rw [List.map_cons, List.foldl_cons, ih, Listing.ListItem.follow, if_neg (by simp)]
      ext n'
      simp [or_left_comm, or_assoc]

/-- A client that follows the responses takes out what is deleted and puts in what is added. -/
theorem foldl_follow_listItems (changes : MailboxSync) (names : Set String) :
    changes.listItems.foldl Listing.ListItem.follow names =
      (names \ {n | n ∈ changes.deleted}) ∪ {n | n ∈ changes.added} := by
  rw [MailboxSync.listItems, List.foldl_append, foldl_follow_deleted, foldl_follow_added]

/-- What is reported, if it is what it is meant to be, by the ids. -/
structure ReportsById (old new : List Account) (changes : MailboxSync) : Prop where
  added : ∀ n, n ∈ changes.added ↔ NamesOnly new old n
  deleted : ∀ n, n ∈ changes.deleted ↔ NamesOnly old new n
  changed : ∀ n, n ∈ changes.changed ↔ Recounted old new n

/-- By the ids it is right for the names if the names go with the ids. -/
theorem ReportsById.exact_iff {old new : List Account} {changes : MailboxSync}
    (h : ReportsById old new changes) : SyncExact old new changes ↔ KeepsNames old new := by
  have hold {n : String} : InNames old n ∧ ¬ NamesOnly old new n ↔
      NamesBoth old new n ∧ ¬ NamesOnly old new n := by
    rw [inNames_iff new]
    tauto
  constructor
  · intro hexact
    refine ⟨fun n hnot ↦ ?_, fun n hn ↦ (hexact.changed n ((h.changed n).mpr hn)).1⟩
    have hn := hexact.names n
    rw [h.added, h.deleted, hold, inNames_iff old] at hn
    tauto
  · intro hkeeps
    have hnames : ∀ n, InNames new n ↔
        (InNames old n ∧ n ∉ changes.deleted) ∨ n ∈ changes.added := by
      intro n
      have hn := hkeeps.names n
      rw [h.added, h.deleted, hold, inNames_iff old]
      tauto
    refine ⟨hnames, fun n hn ↦ ?_, ?_⟩
    · rw [h.changed] at hn
      refine ⟨hkeeps.recounted n hn, ?_⟩
      obtain ⟨-, id, ⟨account, hmem, -, hid⟩, -⟩ := hn
      exact ⟨account, hmem, mem_iff_exists_getElem?.mpr ⟨id, hid⟩⟩
    · rw [foldl_follow_listItems]
      ext n
      exact (hnames n).symm

section

variable {old accounts l : List Account} {deleted : List String} {accountId id n : String}

theorem account_iff (hnodup : (accounts.map Account.accountId).Nodup) (P : Cache → Prop) :
    (∃ account ∈ accounts, account.accountId = accountId ∧ P account.cache) ↔
      ∃ c ∈ cacheOf accounts accountId, P c := by
  rw [exists_account_iff hnodup fun id c ↦ id = accountId ∧ P c]
  constructor
  · rintro ⟨_, c, hc, rfl, h⟩
    exact ⟨c, hc, h⟩
  · rintro ⟨c, hc, h⟩
    exact ⟨accountId, c, hc, rfl, h⟩

theorem isNamed_iff (hnodup : (accounts.map Account.accountId).Nodup) :
    IsNamed accounts accountId id n ↔ ∃ c ∈ cacheOf accounts accountId, c.1[n]? = some id :=
  account_iff hnodup fun c ↦ c.1[n]? = some id

theorem hasMailbox_iff (hnodup : (accounts.map Account.accountId).Nodup) :
    HasMailbox accounts accountId id ↔ ∃ c ∈ cacheOf accounts accountId, id ∈ c.2 :=
  account_iff hnodup fun c ↦ id ∈ c.2

theorem recounted_iff {new : List Account} (hold : (old.map Account.accountId).Nodup)
    (hnew : (new.map Account.accountId).Nodup) :
    Recounted old new n ↔ ∃ accountId, ∃ c ∈ cacheOf old accountId, ∃ c' ∈ cacheOf new accountId,
      ∃ id : String, c'.1[n]? = some id ∧ CountsDiffer c.2[id]? c'.2[id]? := by
  have hcounts (accountId id : String) :
      (∃ account ∈ old, account.accountId = accountId ∧ ∃ account' ∈ new,
        account'.accountId = accountId ∧
          CountsDiffer account.mailboxData[id]? account'.mailboxData[id]?) ↔
        ∃ c ∈ cacheOf old accountId, ∃ c' ∈ cacheOf new accountId,
          CountsDiffer c.2[id]? c'.2[id]? := by
    refine (account_iff hold fun c ↦ ∃ account' ∈ new, account'.accountId = accountId ∧
      CountsDiffer c.2[id]? account'.mailboxData[id]?).trans ?_
    refine exists_congr fun c ↦ and_congr_right fun _ ↦ ?_
    exact account_iff hnew fun c' ↦ CountsDiffer c.2[id]? c'.2[id]?
  unfold Recounted
  constructor
  · rintro ⟨accountId, id, hnamed, hdiffer⟩
    obtain ⟨c', hc', hn⟩ := (isNamed_iff hnew).mp hnamed
    obtain ⟨c, hc, c'', hc'', hdiffer⟩ := (hcounts accountId id).mp hdiffer
    obtain rfl : c' = c'' := Option.some.inj (hc'.symm.trans hc'')
    exact ⟨accountId, c, hc, c', hc', id, hn, hdiffer⟩
  · rintro ⟨accountId, c, hc, c', hc', id, hn, hdiffer⟩
    exact ⟨accountId, id, (isNamed_iff hnew).mpr ⟨c', hc', hn⟩,
      (hcounts accountId id).mpr ⟨c, hc, c', hc', hdiffer⟩⟩

theorem not_countsDiffer_self (mailbox : Option Mailbox) : ¬ CountsDiffer mailbox mailbox := by
  rintro ⟨m, hm, m', hm', hne⟩
  obtain rfl : m = m' := Option.some.inj (hm.symm.trans hm')
  exact hne.elim (fun h ↦ h rfl) fun h ↦ h rfl

/-- The accounts of a list take their places among those that are left of the old ones. -/
theorem reports_replaceAll (hold : (old.map Account.accountId).Nodup)
    (haccounts : (accounts.map Account.accountId).Nodup) (hl : (l.map Account.accountId).Nodup)
    (hleft : ∀ accountId, cacheOf accounts accountId = cacheOf old accountId ∨
      cacheOf accounts accountId = none ∧ cacheOf l accountId = none)
    (hdeleted : ∀ n, n ∈ deleted ↔ ∃ accountId, cacheOf accounts accountId = none ∧
      ∃ c ∈ cacheOf old accountId, n ∈ c.1)
    (hdata : ∀ accountId, ∀ c ∈ cacheOf old accountId, ∀ n i : String, c.1[n]? = some i → i ∈ c.2) :
    ReportsById old (replaceAll ⟨[], [], deleted⟩ accounts l).2
      (replaceAll ⟨[], [], deleted⟩ accounts l).1 := by
  have hnew := nodup_replaceAll (l := l) ⟨[], [], deleted⟩ haccounts
  have hcache := cacheOf_replaceAll ⟨[], [], deleted⟩ accounts hl
  have hmem := mem_replaceAll ⟨[], [], deleted⟩ accounts hl
  generalize replaceAll ⟨[], [], deleted⟩ accounts l = result at *
  -- an account is one of the list, or is as before, or has gone
  have hcases (accountId : String) :
      (∃ c, cacheOf l accountId = some c ∧ cacheOf result.2 accountId = some c ∧
        cacheOf accounts accountId = cacheOf old accountId) ∨
      (cacheOf l accountId = none ∧ cacheOf result.2 accountId = cacheOf old accountId ∧
        cacheOf accounts accountId = cacheOf old accountId) ∨
      (cacheOf l accountId = none ∧ cacheOf result.2 accountId = none ∧
        cacheOf accounts accountId = none) := by
    have hc := hcache accountId
    rcases hleft accountId with hsame | ⟨hgone, hnone⟩
    · cases hcl : cacheOf l accountId with
      | some c => exact .inl ⟨c, rfl, by rw [hc, hcl, Option.some_or], hsame⟩
      | none => exact .inr (.inl ⟨rfl, by rw [hc, hcl, Option.none_or, hsame], hsame⟩)
    · exact .inr (.inr ⟨hnone, by rw [hc, hnone, Option.none_or, hgone], hgone⟩)
  have hlist (P : String → Cache → Prop) := exists_account_iff hl P
  refine ⟨fun n ↦ ?_, fun n ↦ ?_, fun n ↦ ?_⟩
  · rw [(hmem n).1, hlist fun id c ↦ AddedTo (cacheOf accounts id) c n]
    simp only [List.not_mem_nil, false_or, NamesOnly, isNamed_iff hnew, hasMailbox_iff hold]
    constructor
    · rintro ⟨accountId, c, hc, i, hi, hnone⟩
      rcases hcases accountId with ⟨c', hl', hr, ha⟩ | ⟨hl', -, -⟩ | ⟨hl', -, -⟩
      · obtain rfl : c' = c := Option.some.inj (hl'.symm.trans hc)
        rw [ha] at hnone
        exact ⟨accountId, i, ⟨c', hr, hi⟩, fun ⟨o, ho, hio⟩ ↦ hnone o ho hio⟩
      · cases hl'.symm.trans hc
      · cases hl'.symm.trans hc
    · rintro ⟨accountId, i, ⟨c, hc, hi⟩, hnone⟩
      rcases hcases accountId with ⟨c', hl', hr, ha⟩ | ⟨-, hr, -⟩ | ⟨-, hr, -⟩
      · obtain rfl : c' = c := Option.some.inj (hr.symm.trans hc)
        exact ⟨accountId, c', hl', i, hi, fun o ho hio ↦ hnone ⟨o, ha ▸ ho, hio⟩⟩
      · exact absurd ⟨c, hr.symm.trans hc, hdata accountId c (hr.symm.trans hc) n i hi⟩ hnone
      · cases hr.symm.trans hc
  · rw [(hmem n).2.1, hdeleted, hlist fun id c ↦ DeletedFrom (cacheOf accounts id) c n]
    simp only [NamesOnly, isNamed_iff hold, hasMailbox_iff hnew]
    constructor
    · rintro (⟨accountId, hgone, c, hc, hn⟩ | ⟨accountId, c, hc, o, ho, i, hi, hnone⟩)
      · obtain ⟨i, hi⟩ := mem_iff_exists_getElem?.mp hn
        refine ⟨accountId, i, ⟨c, hc, hi⟩, ?_⟩
        rintro ⟨c', hc', -⟩
        rcases hcases accountId with ⟨-, -, -, ha⟩ | ⟨-, -, ha⟩ | ⟨-, hr, -⟩
        · cases hgone.symm.trans (ha.trans hc)
        · cases hgone.symm.trans (ha.trans hc)
        · cases hr.symm.trans hc'
      · rcases hcases accountId with ⟨c', hl', hr, ha⟩ | ⟨hl', -, -⟩ | ⟨hl', -, -⟩
        · obtain rfl : c' = c := Option.some.inj (hl'.symm.trans hc)
          refine ⟨accountId, i, ⟨o, ha ▸ ho, hi⟩, ?_⟩
          rintro ⟨c'', hc'', hmem'⟩
          obtain rfl : c' = c'' := Option.some.inj (hr.symm.trans hc'')
          exact hnone hmem'
        · cases hl'.symm.trans hc
        · cases hl'.symm.trans hc
    · rintro ⟨accountId, i, ⟨c, hc, hi⟩, hnone⟩
      rcases hcases accountId with ⟨c', hl', hr, ha⟩ | ⟨-, hr, -⟩ | ⟨-, -, ha⟩
      · exact .inr ⟨accountId, c', hl', c, ha.trans hc, i, hi, fun h ↦ hnone ⟨c', hr, h⟩⟩
      · exact absurd ⟨c, hr.trans hc, hdata accountId c hc n i hi⟩ hnone
      · exact .inl ⟨accountId, ha, c, hc, mem_iff_exists_getElem?.mpr ⟨i, hi⟩⟩
  · rw [(hmem n).2.2, hlist fun id c ↦ ChangedIn (cacheOf accounts id) c n, recounted_iff hold hnew]
    simp only [List.not_mem_nil, false_or]
    constructor
    · rintro ⟨accountId, c, hc, o, ho, i, hi, hdiffer⟩
      rcases hcases accountId with ⟨c', hl', hr, ha⟩ | ⟨hl', -, -⟩ | ⟨hl', -, -⟩
      · obtain rfl : c' = c := Option.some.inj (hl'.symm.trans hc)
        exact ⟨accountId, o, ha ▸ ho, c', hr, i, hi, hdiffer⟩
      · cases hl'.symm.trans hc
      · cases hl'.symm.trans hc
    · rintro ⟨accountId, o, ho, c, hc, i, hi, hdiffer⟩
      rcases hcases accountId with ⟨c', hl', hr, ha⟩ | ⟨-, hr, -⟩ | ⟨-, hr, -⟩
      · obtain rfl : c' = c := Option.some.inj (hr.symm.trans hc)
        exact ⟨accountId, c', hl', o, ha.trans ho, i, hi, hdiffer⟩
      · -- an account that has not been fetched again has the same counts
        obtain rfl : o = c := Option.some.inj (ho.symm.trans (hr.symm.trans hc))
        exact absurd hdiffer (not_countsDiffer_self _)
      · cases hr.symm.trans hc

end

/-! ## The accounts of the session -/

/-- What is left of the old accounts, the names of the others, and the ids of those to come. -/
structure Relinked (old kept : List Account) (deleted added : List String) : Prop where
  nodup : (kept.map Account.accountId).Nodup
  left : ∀ accountId, cacheOf kept accountId = cacheOf old accountId ∨
    cacheOf kept accountId = none ∧ accountId ∉ added
  deleted : ∀ n, n ∈ deleted ↔
    ∃ accountId, cacheOf kept accountId = none ∧ ∃ c ∈ cacheOf old accountId, n ∈ c.1
  added_nodup : added.Nodup
  added_new : ∀ accountId ∈ added, accountId ∉ kept.map Account.accountId

section

variable {old : List Account}

theorem Relinked.refl (hold : (old.map Account.accountId).Nodup) : Relinked old old [] [] where
  nodup := hold
  left _ := .inl rfl
  deleted n := by
    refine iff_of_false List.not_mem_nil ?_
    rintro ⟨accountId, hnone, c, hc, -⟩
    cases hnone.symm.trans hc
  added_nodup := List.nodup_nil
  added_new _ h := absurd h List.not_mem_nil

theorem cacheOf_filter (p : String → Bool) (accounts : List Account) (accountId : String) :
    cacheOf (accounts.filter fun account ↦ p account.accountId) accountId =
      if p accountId = true then cacheOf accounts accountId else none := by
  induction accounts with
  | nil => simp [cacheOf]
  | cons account accounts ih =>
      rw [cacheOf_cons]
      by_cases hp : p account.accountId = true
      · rw [List.filter_cons, if_pos hp, cacheOf_cons, ih]
        by_cases hid : account.accountId = accountId
        · rw [if_pos hid, if_pos (hid ▸ hp), if_pos hid]
        · rw [if_neg hid, if_neg hid]
      · rw [List.filter_cons, if_neg hp, ih]
        by_cases hid : account.accountId = accountId
        · rw [if_neg (hid ▸ hp), if_neg (hid ▸ hp)]
        · rw [if_neg hid]

theorem map_fst_filter_zipIdx {q : Account × ℕ → Bool} {p : Account → Bool}
    (h : ∀ a k, q (a, k + 1) = p a) (l : List Account) (k : ℕ) :
    ((l.zipIdx (k + 1)).filter q).map Prod.fst = l.filter p := by
  induction l generalizing k with
  | nil => rfl
  | cons a l ih =>
      rw [List.zipIdx_cons, List.filter_cons, List.filter_cons, h]
      split
      · rw [List.map_cons, ih]
      · exact ih (k + 1)

/-- The first account stays. -/
theorem unlinkAccounts_cons (folders : Folders) (session : List (String × String))
    (account : Account) (accounts : List Account) :
    unlinkAccounts folders session (account :: accounts) =
      (account :: accounts.filter (fun a ↦ session.any fun e ↦ e.1 == a.accountId),
        (accounts.filter fun a ↦ !session.any fun e ↦ e.1 == a.accountId).flatMap fun a ↦
          a.mailboxNames.keys,
        (session.map Prod.fst).filter fun id ↦ id ≠ folders.defaultAccountId &&
          !(accounts.filter fun a ↦ session.any fun e ↦ e.1 == a.accountId).any fun a ↦
            a.accountId == id) := by
  unfold unlinkAccounts
  dsimp only
  rw [List.zipIdx_cons, List.filter_cons_of_pos (by simp), List.filter_cons_of_neg (by simp),
    List.map_cons, map_fst_filter_zipIdx (p := fun a ↦ session.any fun e ↦ e.1 == a.accountId)
      (by simp), ← List.flatMap_map (f := Prod.fst) (g := fun a : Account ↦ a.mailboxNames.keys),
    map_fst_filter_zipIdx (p := fun a ↦ !session.any fun e ↦ e.1 == a.accountId) (by simp)]
  rfl

/-- The accounts that are not in the session any more go with their names, and the new ones of the
session come. -/
theorem relinked_unlinkAccounts {folders : Folders} {session : List (String × String)}
    (hold : (old.map Account.accountId).Nodup)
    (hhead : ∀ account ∈ old.head?, account.accountId = folders.defaultAccountId)
    (hsession : (session.map Prod.fst).Nodup) :
    Relinked old (unlinkAccounts folders session old).1 (unlinkAccounts folders session old).2.1
      (unlinkAccounts folders session old).2.2 := by
  cases old with
  | nil =>
      refine ⟨List.nodup_nil, fun _ ↦ .inl rfl, fun n ↦ ?_, hsession.filter _,
        by simp [unlinkAccounts]⟩
      refine iff_of_false (by simp [unlinkAccounts]) ?_
      rintro ⟨accountId, -, c, hc, -⟩
      cases hc
  | cons account accounts =>
      have hdefault : account.accountId = folders.defaultAccountId := hhead account rfl
      rw [List.map_cons, List.nodup_cons] at hold
      rw [unlinkAccounts_cons]
      have hfilter := cacheOf_filter (fun id ↦ session.any fun e ↦ e.1 == id) accounts
      dsimp only at hfilter ⊢
      have hkept (accountId : String) : cacheOf (account :: accounts.filter
          fun a ↦ session.any fun e ↦ e.1 == a.accountId) accountId = none ↔
          account.accountId ≠ accountId ∧ ((session.any fun e ↦ e.1 == accountId) = true →
            cacheOf accounts accountId = none) := by
        rw [cacheOf_cons, hfilter]
        by_cases hid : account.accountId = accountId
        · simp [hid]
        · simp [hid]
      refine ⟨?_, fun accountId ↦ ?_, fun n ↦ ?_, hsession.filter _, fun accountId hadded ↦ ?_⟩
      · exact ((List.filter_sublist.cons_cons account).map Account.accountId).nodup
          (List.nodup_cons.mpr hold)
      · rw [cacheOf_cons, cacheOf_cons, hfilter]
        by_cases hid : account.accountId = accountId
        · exact .inl (by rw [if_pos hid, if_pos hid])
        · rw [if_neg hid, if_neg hid]
          split
          · exact .inl rfl
          · rename_i hgone
            refine .inr ⟨rfl, fun hadded ↦ hgone ?_⟩
            obtain ⟨e, he, rfl⟩ := List.mem_map.mp (List.mem_of_mem_filter hadded)
            exact List.any_eq_true.mpr ⟨e, he, beq_self_eq_true e.1⟩
      · have hgone : n ∈ ((accounts.filter fun a ↦ !session.any fun e ↦ e.1 == a.accountId).flatMap
            fun a ↦ a.mailboxNames.keys) ↔ ∃ a ∈ accounts,
            (session.any fun e ↦ e.1 == a.accountId) ≠ true ∧ n ∈ a.cache.1 := by
          simp only [List.mem_flatMap, List.mem_filter, Std.ExtTreeMap.mem_keys, and_assoc,
            Bool.not_eq_true', ne_eq, Bool.not_eq_true]
          exact Iff.rfl
        rw [hgone, exists_account_iff hold.2 fun id c ↦
          (session.any fun e ↦ e.1 == id) ≠ true ∧ n ∈ c.1]
        refine exists_congr fun accountId ↦ ?_
        rw [hkept, cacheOf_cons]
        constructor
        · rintro ⟨c, hc, hnot, hn⟩
          have hne : account.accountId ≠ accountId := by
            rintro rfl
            exact absurd hc (cacheOf_eq_none_iff.mpr hold.1 ▸ Option.not_mem_none c)
          exact ⟨⟨hne, fun h ↦ absurd h hnot⟩, c, by rwa [if_neg hne], hn⟩
        · rintro ⟨⟨hne, hnone⟩, c, hc, hn⟩
          rw [if_neg hne] at hc
          refine ⟨c, hc, fun h ↦ ?_, hn⟩
          cases (hnone h).symm.trans hc
      · obtain ⟨-, hnew⟩ := List.mem_filter.mp hadded
        rw [Bool.and_eq_true, decide_eq_true_eq] at hnew
        rw [List.map_cons, List.mem_cons]
        rintro (rfl | hmem)
        · exact hnew.1 hdefault
        · obtain ⟨a, ha, rfl⟩ := List.mem_map.mp hmem
          rw [List.any_eq_true.mpr ⟨a, ha, beq_self_eq_true a.accountId⟩] at hnew
          cases hnew.2

end

/-! ## The run -/

theorem fetchAccounts_ids {ids : List (String × Option String)} {accounts : List Account}
    (h : (fetchAccounts ids).Returns accounts) :
    (accounts.map Account.accountId).Sublist (ids.map Prod.fst) := by
  induction ids generalizing accounts with
  | nil =>
      rw [← Job.returns_pure.mp h]
      exact List.Sublist.refl _
  | cons e ids ih =>
      obtain ⟨first, hfirst, h⟩ := Job.returns_bind_iff.mp h
      obtain ⟨rest, hrest, h⟩ := Job.returns_bind_iff.mp h
      rw [← Job.returns_pure.mp h, List.map_append, List.map_cons]
      cases first with
      | none => exact (ih hrest).cons _
      | some account =>
          obtain ⟨_ | ⟨mailboxState, result⟩, -, h⟩ := Job.returns_bind_iff.mp hfirst
          · cases Job.returns_pure.mp h
          · rw [Option.toList_some, List.map_singleton,
              (ofListing_state (Job.returns_pure.mp h)).1]
            exact (ih hrest).cons_cons _

section

variable {S : Type} {folders : Folders} {outside : Outside S} {w : World S}

theorem fetchAccounts_run (folders : Folders) (outside : Outside S)
    (ids : List (String × Option String)) (w : World S) :
    ((fetchAccounts ids).run (answer folders outside) w).2.accounts = w.accounts := by
  refine Job.run_induct (C := SessionCall.IsRequest) (fun w' : World S ↦ w'.accounts = w.accounts)
    ?_ (fetchAccounts_uses (fun _ _ ↦ ⟨_, rfl⟩) ids) rfl
  rintro _ w' ⟨request, rfl⟩ h
  exact h

/-- A new state leaves the names and the data as they are. -/
theorem cacheOf_updateAccount {f : Account → Account}
    (hid : ∀ account, (f account).accountId = account.accountId)
    (hcache : ∀ account, (f account).cache = account.cache) (id : String)
    (accounts : List Account) :
    cacheOf (updateAccount id f accounts) = cacheOf accounts ∧
      (updateAccount id f accounts).map Account.accountId = accounts.map Account.accountId := by
  induction accounts with
  | nil => exact ⟨rfl, rfl⟩
  | cons account accounts ih =>
      unfold updateAccount
      split
      · refine ⟨?_, by rw [List.map_cons, List.map_cons, hid]⟩
        funext accountId
        rw [cacheOf_cons, cacheOf_cons, hid, hcache]
      · refine ⟨?_, by rw [List.map_cons, List.map_cons, ih.2]⟩
        funext accountId
        rw [cacheOf_cons, cacheOf_cons, ih.1]

/-- The accounts with changes are to be fetched again, and are as they were until then. -/
theorem applyChanges_run (folders : Folders) (outside : Outside S)
    (responses : List (Option Changes)) (w : World S) :
    ((applyChanges true responses).run (answer folders outside) w).1.Sublist
        ((responses.filterMap id).map Changes.accountId) ∧
      cacheOf ((applyChanges true responses).run (answer folders outside) w).2.accounts =
        cacheOf w.accounts ∧
      ((applyChanges true responses).run (answer folders outside) w).2.accounts.map
        Account.accountId = w.accounts.map Account.accountId := by
  induction responses generalizing w with
  | nil => exact ⟨List.Sublist.refl _, rfl, rfl⟩
  | cons response rest ih =>
      cases response with
      | none => exact ih w
      | some changes =>
          unfold applyChanges
          split
          · obtain ⟨hsub, hrest⟩ := ih w
            exact ⟨hsub.cons _, hrest⟩
          · have hreset : changes.resetStats true = false := by simp [Changes.resetStats]
            rw [hreset]
            let w' : World S := { w with
              accounts := updateAccount "" (fun a ↦ a.change changes.newState false) w.accounts }
            obtain ⟨hsub, hcache, hids⟩ := ih w'
            obtain ⟨hcache', hids'⟩ := cacheOf_updateAccount
              (f := fun a ↦ a.change changes.newState false) (fun _ ↦ rfl) (fun _ ↦ rfl) ""
              w.accounts
            let job : SessionM (List String) := do
              let changed ← applyChanges true rest
              pure (changes.accountId :: changed)
            have hrun : job.run (answer folders outside) w' =
                (changes.accountId :: ((applyChanges true rest).run (answer folders outside) w').1,
                  ((applyChanges true rest).run (answer folders outside) w').2) :=
              Job.run_bind _ _ _
            show List.Sublist (job.run (answer folders outside) w').1 _ ∧
              cacheOf (job.run (answer folders outside) w').2.accounts = _ ∧
              (job.run (answer folders outside) w').2.accounts.map Account.accountId = _
            rw [hrun]
            exact ⟨hsub.cons_cons _, hcache.trans hcache', hids.trans hids'⟩

/-- What a server promises of its session and of the changes: accounts have ids of their own, and
there are changes at most once for each account asked for, in the order of the request. -/
structure ServesChanges (outside : Outside S) : Prop where
  session : ∀ s, ((outside.jmap .session s).1.map Prod.fst).Nodup
  changes : ∀ accounts s responses, (outside.jmap (.changesMailbox accounts) s).1 = .ok responses →
    ((responses.filterMap id).map Changes.accountId).Sublist (accounts.map Prod.fst)

/-- The accounts of the session are linked, and nothing else has been done to them. -/
theorem linkAccounts_run (hserves : ServesChanges outside)
    (hnodup : (w.accounts.map Account.accountId).Nodup)
    (hhead : ∀ account ∈ w.accounts.head?, account.accountId = folders.defaultAccountId)
    (forceSessionRefresh : Bool) {deleted : List String} {added : List Account}
    (h : ((linkAccounts folders forceSessionRefresh).run (answer folders outside) w).1 =
      .ok (deleted, added)) :
    ∃ addedIds, (added.map Account.accountId).Sublist addedIds ∧
      Relinked w.accounts ((linkAccounts folders forceSessionRefresh).run (answer folders outside)
        w).2.accounts deleted addedIds := by
  unfold linkAccounts at h ⊢
  rw [Job.run_bind] at h ⊢
  have hkeep (request : Jmap.Request) (w : World S) :
      ((jmap request).run (answer folders outside) w).2.accounts = w.accounts := rfl
  have hw := hkeep .isSessionUpdated w
  generalize (jmap .isSessionUpdated).run (answer folders outside) w = s₁ at *
  obtain ⟨isSessionUpdated, w₁⟩ := s₁
  dsimp only at h hw ⊢
  split at h
  · rename_i hrefresh
    rw [if_pos hrefresh]
    rw [Job.run_bind] at h ⊢
    have hw' := (hkeep .refreshSession w₁).trans hw
    generalize (jmap .refreshSession).run (answer folders outside) w₁ = s₂ at *
    obtain ⟨_ | _, w₂⟩ := s₂
    · cases h
    · dsimp only at h hw' ⊢
      rw [Job.run_bind] at h ⊢
      have hsession : (((jmap .session).run (answer folders outside) w₂).1.map Prod.fst).Nodup :=
        hserves.session w₂.outside
      have hw'' := (hkeep .session w₂).trans hw'
      generalize (jmap .session).run (answer folders outside) w₂ = s₃ at *
      obtain ⟨session, w₃⟩ := s₃
      dsimp only at h hsession hw'' ⊢
      rw [Job.run_bind] at h ⊢
      have hunlink : (locked (.unlink session)).run (answer folders outside) w₃ =
          (((unlinkAccounts folders session w₃.accounts).2.1,
            (unlinkAccounts folders session w₃.accounts).2.2),
            { w₃ with accounts := (unlinkAccounts folders session w₃.accounts).1 }) := rfl
      rw [hunlink, hw''] at h ⊢
      dsimp only at h ⊢
      rw [Job.run_bind] at h ⊢
      obtain ⟨rfl, rfl⟩ := Prod.mk.inj (Except.ok.inj h)
      refine ⟨(unlinkAccounts folders session w.accounts).2.2, ?_, ?_⟩
      · have hids := fetchAccounts_ids (Job.returns_run (answer folders outside)
          (fetchAccounts ((unlinkAccounts folders session w.accounts).2.2.map fun id ↦
            (id, some (sharedPrefix folders session id))))
          { w₃ with accounts := (unlinkAccounts folders session w.accounts).1 })
        rw [List.map_map] at hids
        simpa [Function.comp_def] using hids
      · rw [Job.run_pure, fetchAccounts_run folders outside]
        exact relinked_unlinkAccounts hnodup hhead hsession
  · rename_i hrefresh
    rw [if_neg hrefresh]
    obtain ⟨rfl, rfl⟩ := Prod.mk.inj (Except.ok.inj h)
    refine ⟨[], List.Sublist.refl _, ?_⟩
    show Relinked w.accounts w₁.accounts [] []
    rw [hw]
    exact Relinked.refl hnodup

/-- What the last part of `synchronize_mailboxes` makes of linked accounts. -/
theorem Relinked.reports {old kept accounts changed added : List Account}
    {deleted ids : List String}
    (h : Relinked old kept deleted ids) (hold : (old.map Account.accountId).Nodup)
    (hdata : ∀ account ∈ old, ∀ n i : String, account.mailboxNames[n]? = some i →
      i ∈ account.mailboxData)
    (hcache : cacheOf accounts = cacheOf kept)
    (hids : accounts.map Account.accountId = kept.map Account.accountId)
    (hchanged : (changed.map Account.accountId).Sublist (kept.map Account.accountId))
    (hadded : (added.map Account.accountId).Sublist ids) :
    ReportsById old (updateMailboxes ⟨[], [], deleted⟩ accounts changed added).2
      (updateMailboxes ⟨[], [], deleted⟩ accounts changed added).1 := by
  have hnew : ∀ account ∈ added,
      account.accountId ∉ (accounts ++ changed).map Account.accountId := by
    intro account hmem
    rw [List.map_append, List.mem_append, hids]
    have hnotin := h.added_new _ (hadded.subset (List.mem_map_of_mem hmem))
    rintro (hin | hin)
    · exact hnotin hin
    · exact hnotin (hchanged.subset hin)
  have hadded_nodup := hadded.nodup h.added_nodup
  rw [updateMailboxes_eq _ hnew hadded_nodup]
  refine reports_replaceAll hold (hids ▸ h.nodup) ?_ (fun accountId ↦ ?_) (fun n ↦ ?_) ?_
  · rw [List.map_append]
    refine (hchanged.nodup h.nodup).append hadded_nodup ?_
    intro id hin hin'
    exact h.added_new _ (hadded.subset hin') (hchanged.subset hin)
  · rw [hcache]
    refine (h.left accountId).imp_right ?_
    rintro ⟨hnone, hnotin⟩
    refine ⟨hnone, cacheOf_eq_none_iff.mpr ?_⟩
    rw [List.map_append, List.mem_append]
    rintro (hin | hin)
    · exact cacheOf_eq_none_iff.mp hnone (hchanged.subset hin)
    · exact hnotin (hadded.subset hin)
  · rw [hcache]
    exact h.deleted n
  · intro accountId c hc n i hi
    obtain ⟨account, hmem, -, hin⟩ := (exists_account_iff hold fun id c' ↦ id = accountId ∧
      c' = c).mpr ⟨accountId, c, hc, rfl, rfl⟩
    subst hin
    exact hdata account hmem n i hi

/-- **The report**, by the ids. -/
theorem synchronizeMailboxes_reports (hserves : ServesChanges outside)
    (hnodup : (w.accounts.map Account.accountId).Nodup)
    (hhead : ∀ account ∈ w.accounts.head?, account.accountId = folders.defaultAccountId)
    (hdata : ∀ account ∈ w.accounts, ∀ n i : String, account.mailboxNames[n]? = some i →
      i ∈ account.mailboxData)
    (forceSessionRefresh : Bool) {changes : MailboxSync}
    (h : ((synchronizeMailboxes folders true forceSessionRefresh).run (answer folders outside)
      w).1 = .ok changes) :
    ReportsById w.accounts ((synchronizeMailboxes folders true forceSessionRefresh).run
      (answer folders outside) w).2.accounts changes := by
  unfold synchronizeMailboxes at h ⊢
  rw [Job.run_bind] at h ⊢
  have hlink := fun deleted added ↦ @linkAccounts_run _ folders _ _ hserves hnodup hhead
    forceSessionRefresh deleted added
  generalize (linkAccounts folders forceSessionRefresh).run (answer folders outside) w = s₁ at *
  obtain ⟨err | ⟨deleted, added⟩, w₁⟩ := s₁
  · cases h
  · obtain ⟨addedIds, hadded, hlinked⟩ := hlink deleted added rfl
    dsimp only at h hlinked ⊢
    rw [Job.run_bind] at h ⊢
    have hlocked : (locked .mailboxStates).run (answer folders outside) w₁ =
        (w₁.accounts.map fun a ↦ (a.accountId, a.mailboxState), w₁) := rfl
    rw [hlocked] at h ⊢
    clear hlocked
    dsimp only at h ⊢
    rw [Job.run_bind] at h ⊢
    have hstates : (w₁.accounts.map fun a ↦ (a.accountId, a.mailboxState)).map Prod.fst =
        w₁.accounts.map Account.accountId := List.map_map
    generalize (w₁.accounts.map fun a ↦ (a.accountId, a.mailboxState)) = states at *
    have hresponses : ∀ responses, ((jmap (.changesMailbox states)).run (answer folders outside)
        w₁).1 = .ok responses → ((responses.filterMap id).map Changes.accountId).Sublist
          (w₁.accounts.map Account.accountId) := by
      intro responses hr
      rw [← hstates]
      exact hserves.changes states w₁.outside responses hr
    have hw₂ : ((jmap (.changesMailbox states)).run (answer folders outside) w₁).2.accounts =
        w₁.accounts := rfl
    generalize (jmap (.changesMailbox states)).run (answer folders outside) w₁ = s₂ at *
    obtain ⟨err | responses, w₂⟩ := s₂
    · cases h
    · have hsub := hresponses responses rfl
      dsimp only at h hw₂ ⊢
      rw [Job.run_bind] at h ⊢
      obtain ⟨hchangedIds, hcache, hids⟩ := applyChanges_run folders outside responses w₂
      generalize (applyChanges true responses).run (answer folders outside) w₂ = s₃ at *
      obtain ⟨changedIds, w₃⟩ := s₃
      dsimp only at h hchangedIds hcache hids ⊢
      rw [Job.run_bind] at h ⊢
      have hw₄ : ((jmap .session).run (answer folders outside) w₃).2.accounts = w₃.accounts := rfl
      generalize (jmap .session).run (answer folders outside) w₃ = s₄ at *
      obtain ⟨session, w₄⟩ := s₄
      dsimp only at h hw₄ ⊢
      rw [Job.run_bind] at h ⊢
      have hprefixed : (changedIds.map fun id ↦ (id, if id = folders.defaultAccountId then none
          else some (sharedPrefix folders session id))).map Prod.fst = changedIds := by
        simp [Function.comp_def]
      generalize (changedIds.map fun id ↦ (id, if id = folders.defaultAccountId then none
        else some (sharedPrefix folders session id))) = prefixed at *
      have hw₅ := fetchAccounts_run folders outside prefixed w₄
      have hfetched := fetchAccounts_ids (Job.returns_run (answer folders outside)
        (fetchAccounts prefixed) w₄)
      generalize (fetchAccounts prefixed).run (answer folders outside) w₄ = s₅ at *
      obtain ⟨changed, w₅⟩ := s₅
      dsimp only at h hw₅ hfetched ⊢
      have haccounts : w₅.accounts = w₃.accounts := hw₅.trans hw₄
      have hcache' : cacheOf w₅.accounts = cacheOf w₁.accounts := by rw [haccounts, hcache, hw₂]
      have hids' : w₅.accounts.map Account.accountId = w₁.accounts.map Account.accountId := by
        rw [haccounts, hids, hw₂]
      rw [hprefixed] at hfetched
      have hreports := hlinked.reports hnodup hdata hcache' hids'
        ((hfetched.trans hchangedIds).trans hsub) hadded
      split at h
      · rename_i hempty
        rw [if_pos hempty]
        rw [Bool.and_eq_true, List.isEmpty_iff, List.isEmpty_iff] at hempty
        obtain ⟨rfl, rfl⟩ := hempty
        obtain rfl : ⟨[], [], deleted⟩ = changes := Except.ok.inj h
        simpa [updateMailboxes] using hreports
      · rename_i hempty
        rw [if_neg hempty]
        obtain rfl : (updateMailboxes ⟨[], [], deleted⟩ w₅.accounts changed added).1 = changes :=
          Except.ok.inj h
        exact hreports

/-- **NOOP and IDLE.**  A client that goes by what is reported has the names of the cache if and
only if the mailboxes that stay keep their names. -/
theorem syncExact_iff (hserves : ServesChanges outside)
    (hnodup : (w.accounts.map Account.accountId).Nodup)
    (hhead : ∀ account ∈ w.accounts.head?, account.accountId = folders.defaultAccountId)
    (hdata : ∀ account ∈ w.accounts, ∀ n i : String, account.mailboxNames[n]? = some i →
      i ∈ account.mailboxData)
    (forceSessionRefresh : Bool) {changes : MailboxSync}
    (h : ((synchronizeMailboxes folders true forceSessionRefresh).run (answer folders outside)
      w).1 = .ok changes) :
    SyncExact w.accounts ((synchronizeMailboxes folders true forceSessionRefresh).run
        (answer folders outside) w).2.accounts changes ↔
      KeepsNames w.accounts ((synchronizeMailboxes folders true forceSessionRefresh).run
        (answer folders outside) w).2.accounts :=
  (synchronizeMailboxes_reports hserves hnodup hhead hdata forceSessionRefresh h).exact_iff

end

/-! ## Three mailboxes -/

/-- A listed account with these mailboxes: names, ids and how many messages there are. -/
def accountWith (mailboxes : List (String × String × ℕ)) (state : String) : Account :=
  ⟨"a", none, state, .ofList (mailboxes.map fun e ↦ (e.1, e.2.1)),
    .ofList (mailboxes.map fun e ↦
      (e.2.1, { totalMessages := some e.2.2, totalUnseen := some 0 : Mailbox })), none⟩

/-- A server on which `A` has been destroyed, `B` created, and a message added to `C`. -/
def serverB : MailboxServer where
  accountId := "a"
  mailboxes := [⟨⟨some "n", some "B", none, .none, false, 0, 0⟩, 1, 1⟩,
    ⟨⟨some "k", some "C", none, .none, false, 1, 0⟩, 0, 3⟩]
  destroyed := [("m", 2)]
  state := 3

/-- A server on which `A` has been renamed to `B`. -/
def serverRenamed : MailboxServer where
  accountId := "a"
  mailboxes := [⟨⟨some "m", some "B", none, .none, false, 0, 0⟩, 0, 1⟩]
  destroyed := []
  state := 1

theorem servesChanges_mailboxOutside : ServesChanges mailboxOutside where
  session s := List.nodup_singleton _
  changes accounts s responses h := by
    obtain rfl := Except.ok.inj h
    clear h
    induction accounts with
    | nil => exact List.Sublist.refl _
    | cons e accounts ih =>
        rw [List.map_cons, List.map_cons, List.filterMap_cons]
        by_cases hid : e.1 = s.accountId
        · cases hchanges : s.changes e.2 with
          | none =>
              rw [if_pos hid]
              exact ih.cons _
          | some changes =>
              rw [if_pos hid]
              have haccount : changes.accountId = e.1 :=
                (accountId_of_changes hchanges).trans hid.symm
              show List.Sublist (changes.accountId :: _) _
              rw [haccount]
              exact ih.cons_cons _
        · rw [if_neg hid]
          exact ih.cons _

section

variable {mailboxes mailboxes' : List (String × String × ℕ)} {state state' n i : String}

theorem mem_accountWith : i ∈ (accountWith mailboxes state).mailboxData ↔
    ∃ e ∈ mailboxes, e.2.1 = i := by
  unfold accountWith
  rw [Std.ExtTreeMap.mem_ofList]
  simp

theorem getElem?_accountWith (hnames : (mailboxes.map Prod.fst).Nodup) :
    (accountWith mailboxes state).mailboxNames[n]? = some i ↔
      ∃ e ∈ mailboxes, e.1 = n ∧ e.2.1 = i := by
  have hdistinct : (mailboxes.map fun e ↦ (e.1, e.2.1)).Pairwise
      fun a b ↦ ¬ compare a.1 b.1 = .eq := by
    refine List.pairwise_map.mpr ((List.pairwise_map.mp hnames).imp fun hne h ↦ hne ?_)
    exact Std.LawfulEqCmp.compare_eq_iff_eq.mp h
  have hsome {n i : String} (h : ∃ e ∈ mailboxes, e.1 = n ∧ e.2.1 = i) :
      (accountWith mailboxes state).mailboxNames[n]? = some i := by
    obtain ⟨e, he, rfl, rfl⟩ := h
    exact Std.ExtTreeMap.getElem?_ofList_of_mem Std.ReflCmp.compare_self hdistinct
      (List.mem_map_of_mem he)
  refine ⟨fun h ↦ ?_, hsome⟩
  have hmem : n ∈ (accountWith mailboxes state).mailboxNames := mem_iff_exists_getElem?.mpr ⟨i, h⟩
  unfold accountWith at hmem
  rw [Std.ExtTreeMap.mem_ofList, List.contains_iff_mem, List.map_map] at hmem
  obtain ⟨e, he, rfl⟩ := List.mem_map.mp hmem
  exact ⟨e, he, rfl, Option.some.inj ((hsome ⟨e, he, rfl, rfl⟩).symm.trans h)⟩

theorem inNames_accountWith (hnames : (mailboxes.map Prod.fst).Nodup) :
    InNames [accountWith mailboxes state] n ↔ n ∈ mailboxes.map Prod.fst := by
  simp only [InNames, List.mem_singleton, exists_eq_left, mem_iff_exists_getElem?,
    getElem?_accountWith hnames, List.mem_map]
  constructor
  · rintro ⟨i, e, he, hn, -⟩
    exact ⟨e, he, hn⟩
  · rintro ⟨e, he, hn⟩
    exact ⟨e.2.1, e, he, hn, rfl⟩

/-- The names of the mailboxes for which it holds whether they are in the other listing. -/
theorem named_accountWith (hnames : (mailboxes.map Prod.fst).Nodup) (P : Prop → Prop) :
    (∃ accountId id, IsNamed [accountWith mailboxes state] accountId id n ∧
      P (HasMailbox [accountWith mailboxes' state'] accountId id)) ↔
        ∃ e ∈ mailboxes, P (∃ e' ∈ mailboxes', e'.2.1 = e.2.1) ∧ e.1 = n := by
  have hthere {i : String} : HasMailbox [accountWith mailboxes' state'] "a" i ↔
      ∃ e' ∈ mailboxes', e'.2.1 = i := by
    simp only [HasMailbox, List.mem_singleton, exists_eq_left, mem_accountWith]
    exact and_iff_right rfl
  constructor
  · rintro ⟨_, i, ⟨account, hmem, rfl, hi⟩, h⟩
    rw [List.mem_singleton.mp hmem] at hi h
    obtain ⟨e, he, rfl, rfl⟩ := (getElem?_accountWith hnames).mp hi
    exact ⟨e, he, propext hthere ▸ h, rfl⟩
  · rintro ⟨e, he, h, rfl⟩
    refine ⟨"a", e.2.1, ⟨_, List.mem_singleton_self _, rfl, ?_⟩, (propext hthere).symm ▸ h⟩
    exact (getElem?_accountWith hnames).mpr ⟨e, he, rfl, rfl⟩

end

/-- `A` and `C`, and later `B` and `C`. -/
def accountAC : Account := accountWith [("A", "m", 0), ("C", "k", 0)] "0"

def accountBC : Account := accountWith [("B", "n", 0), ("C", "k", 1)] "3"

/-- A mailbox is created and another destroyed, while a third stays: the right names are
reported. -/
theorem syncExact_created : SyncExact [accountAC]
    ((synchronizeMailboxes folders true false).run (answer folders mailboxOutside)
      ⟨[accountAC], serverB⟩).2.accounts ⟨["B"], ["C"], ["A"]⟩ := by
  have hnew : ((synchronizeMailboxes folders true false).run (answer folders mailboxOutside)
      ⟨[accountAC], serverB⟩).2.accounts = [accountBC] := by
    decide +kernel
  refine (@syncExact_iff _ folders mailboxOutside ⟨[accountAC], serverB⟩
    servesChanges_mailboxOutside (List.nodup_singleton _) ?_ ?_ false _
    (by decide +kernel)).mpr ?_
  · rintro account ⟨⟩
    rfl
  · intro account hmem n i hi
    rw [List.mem_singleton.mp hmem] at hi ⊢
    obtain ⟨e, he, -, rfl⟩ := (getElem?_accountWith (by decide)).mp hi
    exact mem_accountWith.mpr ⟨e, he, rfl⟩
  · rw [hnew]
    -- only `C` is in both listings
    have hboth {n : String} : NamesBoth [accountBC] [accountAC] n ↔ n = "C" := by
      refine (named_accountWith (by decide) id).trans ?_
      simp [eq_comm]
    have hboth' {n : String} : NamesBoth [accountAC] [accountBC] n ↔ n = "C" := by
      refine (named_accountWith (by decide) id).trans ?_
      simp [eq_comm]
    have honly {n : String} : NamesOnly [accountAC] [accountBC] n ↔ n = "A" := by
      refine (named_accountWith (by decide) Not).trans ?_
      simp [eq_comm]
    refine ⟨fun n _ ↦ ?_, ?_⟩
    · rw [hboth, hboth', honly]
      refine (and_iff_left_of_imp ?_).symm
      rintro rfl
      simp
    · rintro n ⟨accountId, i, hn, account, hmem, hid, -, -, -, m, hm, -⟩
      have hthere : HasMailbox [accountAC] accountId i :=
        ⟨account, hmem, hid, Std.ExtTreeMap.mem_iff_isSome_getElem?.mpr (Option.isSome_of_mem hm)⟩
      obtain rfl := hboth.mp ⟨accountId, i, hn, hthere⟩
      exact (inNames_accountWith (by decide)).mpr (by simp)

/-- A mailbox is renamed: nothing is reported, and the client keeps the name that is gone. -/
theorem rename_unreported :
    ((synchronizeMailboxes folders true false).run (answer folders mailboxOutside)
      ⟨[accountWith [("A", "m", 0)] "0"], serverRenamed⟩).1 = .ok ⟨[], [], []⟩ ∧
    ¬ SyncExact [accountWith [("A", "m", 0)] "0"]
      ((synchronizeMailboxes folders true false).run (answer folders mailboxOutside)
        ⟨[accountWith [("A", "m", 0)] "0"], serverRenamed⟩).2.accounts ⟨[], [], []⟩ := by
  refine ⟨by decide +kernel, fun hexact ↦ ?_⟩
  have hnew : ((synchronizeMailboxes folders true false).run (answer folders mailboxOutside)
      ⟨[accountWith [("A", "m", 0)] "0"], serverRenamed⟩).2.accounts =
        [accountWith [("B", "m", 0)] "1"] := by
    decide +kernel
  rw [hnew] at hexact
  have hB := hexact.names "B"
  rw [inNames_accountWith (by decide), inNames_accountWith (by decide)] at hB
  simp at hB

end ImapToJmap
