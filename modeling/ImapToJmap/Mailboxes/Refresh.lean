import ImapToJmap.Mailboxes.Consistent
import ImapToJmap.Mailboxes.Task

/-!
# STATUS, cached and fetched

An item that is cached is answered at once.  The others are fetched by up to four updates, each of
which answers its items and enters their values into the cache, so that a second STATUS is answered
from the cache alone.

DELETED is answered under the name of UNSEEN when it is fetched.  And the update of UIDNEXT,
UIDVALIDITY and MESSAGES enters all three of them, also those that have just been answered from the
cache.  `statusExact_iff` says that nothing else goes wrong.
-/

namespace ImapToJmap

open Jmap SessionM

/-! ## The values of a mailbox -/

/-- The values that are known of a mailbox. -/
abbrev Values := Status → Option StatusItemType

/-- The values that `f` has, and those of `c` for the others. -/
def Values.or (f c : Values) : Values := fun item ↦ (f item).or (c item)

/-- The items with their values. -/
def Values.items (c : Values) (items : List Status) : StatusItems :=
  items.filterMap fun item ↦ (c item).map fun value ↦ (item, value)

/-- The value of one item. -/
def Values.single (item : Status) (value : StatusItemType) : Values := fun item' ↦
  if item' = item then some value else none

/-- What `synchronize_messages` finds out. -/
def MailboxData.values (data : MailboxData) : Values
  | .uidNext => some (.number data.uidNext)
  | .uidValidity => some (.number data.uidValidity)
  | .messages => some (.count data.totalMessages)
  | _ => none

/-- What an item is called when it has been fetched. -/
def Status.fetchedAs : Status → Status
  | .deleted => .unseen
  | item => item

/-- What an update answers: those of its items that are to be updated. -/
def Values.fetched (f : Values) (block update : List Status) : StatusItems :=
  (block.filter (· ∈ update)).filterMap fun item ↦ (f item).map fun value ↦ (item.fetchedAs, value)

section

variable {c f : Values} {items block update : List Status} {item : Status} {value : StatusItemType}

theorem Values.mem_items : (item, value) ∈ c.items items ↔ item ∈ items ∧ c item = some value := by
  unfold Values.items
  rw [List.mem_filterMap]
  constructor
  · rintro ⟨item', hmem, h⟩
    obtain ⟨value', hvalue, heq⟩ := Option.map_eq_some_iff.mp h
    cases heq
    exact ⟨hmem, hvalue⟩
  · rintro ⟨hmem, hvalue⟩
    exact ⟨item, hmem, by rw [hvalue]; rfl⟩

theorem Values.map_fst_items :
    (c.items items).map Prod.fst = items.filter fun item ↦ (c item).isSome := by
  unfold Values.items
  induction items with
  | nil => rfl
  | cons item items ih =>
      rw [List.filterMap_cons, List.filter_cons]
      cases hc : c item with
      | none => simpa using ih
      | some value => simpa using ih

/-- Nothing is answered under the name of DELETED. -/
theorem Status.fetchedAs_ne (item : Status) : item.fetchedAs ≠ .deleted := by
  cases item <;> simp [fetchedAs]

theorem Status.fetchedAs_of_ne (h : item ≠ .deleted) : item.fetchedAs = item := by
  cases item with
  | deleted => exact (h rfl).elim
  | _ => rfl

/-- An item that is not DELETED is answered under its own name. -/
theorem Values.map_fst_fetched (h : ∀ item ∈ block, item ∈ update → (f item).isSome)
    (hdeleted : .deleted ∉ update) :
    (f.fetched block update).map Prod.fst = block.filter (· ∈ update) := by
  have hmem : ∀ item ∈ block.filter (· ∈ update), (f item).isSome ∧ item ≠ .deleted := by
    intro item hitem
    obtain ⟨hblock, hupdate⟩ := List.mem_filter.mp hitem
    have hupdate := of_decide_eq_true hupdate
    exact ⟨h item hblock hupdate, fun heq ↦ hdeleted (heq ▸ hupdate)⟩
  unfold Values.fetched
  generalize block.filter (· ∈ update) = l at hmem
  induction l with
  | nil => rfl
  | cons item l ih =>
      rw [List.forall_mem_cons] at hmem
      obtain ⟨value, hvalue⟩ := Option.isSome_iff_exists.mp hmem.1.1
      rw [List.filterMap_cons, hvalue]
      show item.fetchedAs :: _ = item :: l
      rw [Status.fetchedAs_of_ne hmem.1.2, ih hmem.2]

theorem Values.mem_fetched {entry : Status × StatusItemType} :
    entry ∈ f.fetched block update ↔
      ∃ item ∈ block, item ∈ update ∧ ∃ value ∈ f item, entry = (item.fetchedAs, value) := by
  unfold Values.fetched
  rw [List.mem_filterMap]
  constructor
  · rintro ⟨item, hmem, h⟩
    obtain ⟨hblock, hupdate⟩ := List.mem_filter.mp hmem
    obtain ⟨value, hvalue, rfl⟩ := Option.map_eq_some_iff.mp h
    exact ⟨item, hblock, of_decide_eq_true hupdate, value, hvalue, rfl⟩
  · rintro ⟨item, hblock, hupdate, value, hvalue, rfl⟩
    refine ⟨item, List.mem_filter.mpr ⟨hblock, decide_eq_true hupdate⟩, ?_⟩
    rw [Option.mem_def.mp hvalue]
    rfl

end

/-! ## Updates -/

/-- What an update does to the account of the mailbox: it finds the values `f`, which are those of
the items in `P`, answers the items of its block that are to be updated, and enters what it has
found into the cache. -/
structure Fetches (block update : List Status) (mailbox : MailboxId) (account : Account)
    (P : Status → Prop) (f : Values) (r : StatusItems) (account' : Account) : Prop where
  within : ∀ item, (f item).isSome → item ∈ block
  covers : ∀ item, (f item).isSome ↔ P item
  answered : r = f.fetched block update
  cached : account'.cached mailbox = f.or (account.cached mailbox)

section

variable {block block' update : List Status} {mailbox : MailboxId}
  {account account' account'' : Account} {P P' : Status → Prop} {f f' : Values} {r r' : StatusItems}

/-- Nothing is found, and nothing changes. -/
theorem Fetches.none (hP : ∀ item, ¬ P item)
    (hcached : account'.cached mailbox = account.cached mailbox) :
    Fetches block update mailbox account P (fun _ ↦ .none) [] account' where
  within item h := by simp at h
  covers item := iff_of_false (by simp) (hP item)
  answered := by simp [Values.fetched]
  cached := hcached

/-- One item is found. -/
theorem Fetches.single {item : Status} {value : StatusItemType} (hupdate : item ∈ update)
    (hcached : account'.cached mailbox =
      (Values.single item value).or (account.cached mailbox)) :
    Fetches [item] update mailbox account (fun item' ↦ item' = item ∧ item' ∈ update)
      (.single item value) [(item.fetchedAs, value)] account' where
  within item' h := by
    unfold Values.single at h
    split at h
    · rename_i heq
      exact List.mem_singleton.mpr heq
    · cases h
  covers item' := by
    unfold Values.single
    split
    · rename_i heq
      exact iff_of_true rfl ⟨heq, heq ▸ hupdate⟩
    · rename_i hne
      exact iff_of_false (by simp) fun h ↦ hne h.1
  answered := by simp [Values.fetched, hupdate, Values.single]
  cached := hcached

theorem Fetches.eq_none (h : Fetches block update mailbox account P f r account') {item : Status}
    (hitem : item ∉ block) : f item = .none :=
  Option.not_isSome_iff_eq_none.mp fun hsome ↦ hitem (h.within item hsome)

/-- Two updates of different items. -/
theorem Fetches.append (h : Fetches block update mailbox account P f r account')
    (h' : Fetches block' update mailbox account' P' f' r' account'')
    (hblocks : block.Disjoint block') :
    Fetches (block ++ block') update mailbox account (fun item ↦ P item ∨ P' item) (f'.or f)
      (r ++ r') account'' where
  within item hsome := by
    rcases (Bool.or_eq_true _ _).mp (Option.isSome_or ▸ hsome) with hsome | hsome
    · exact List.mem_append_right _ (h'.within item hsome)
    · exact List.mem_append_left _ (h.within item hsome)
  covers item := by
    show ((f' item).or (f item)).isSome ↔ _
    rw [Option.isSome_or, Bool.or_eq_true, h.covers, h'.covers, or_comm]
  answered := by
    rw [h.answered, h'.answered]
    unfold Values.fetched
    rw [List.filter_append, List.filterMap_append]
    congr 1
    · refine List.filterMap_congr fun item hmem ↦ ?_
      rw [Values.or, h'.eq_none (hblocks (List.mem_filter.mp hmem).1), Option.none_or]
    · refine List.filterMap_congr fun item hmem ↦ ?_
      rw [Values.or, h.eq_none (hblocks.symm (List.mem_filter.mp hmem).1), Option.or_none]
  cached := by
    rw [h'.cached, h.cached]
    funext item
    exact Option.or_assoc.symm

end

/-! ## The account of the mailbox -/

theorem exists_of_map_eq_ok {ε α β : Type} {x : Except ε α} {g : α → β} {b : β}
    (h : x.map g = .ok b) : ∃ a, x = .ok a ∧ g a = b := by
  cases x with
  | error err => cases h
  | ok a => exact ⟨a, rfl, Except.ok.inj h⟩

/-- The account has its names, and no other ones. -/
abbrev SameNames (account account' : Account) : Prop :=
  account'.accountId = account.accountId ∧ account'.namePrefix = account.namePrefix ∧
    account'.mailboxNames = account.mailboxNames

/-- The items of `synchronize_messages`. -/
def messageItems : List Status := [.uidNext, .uidValidity, .messages]

namespace Account

variable {account : Account} {mailbox : MailboxId} {update : List Status}

@[simp] theorem entry_setEntry (account : Account) (mailbox : MailboxId) (data : Mailbox) :
    (account.setEntry mailbox data).entry mailbox = data := by
  simp [entry, setEntry]

@[simp] theorem modseq_setEntry (account : Account) (mailbox : MailboxId) (data : Mailbox) :
    (account.setEntry mailbox data).modseq = account.modseq := rfl

theorem cached_setEntry_entry (account : Account) (mailbox : MailboxId) :
    (account.setEntry mailbox (account.entry mailbox)).cached mailbox = account.cached mailbox := by
  funext item
  cases item <;> simp [cached]

theorem fetches_statusMessages (account : Account) (mailbox : MailboxId) (data : MailboxData)
    (update : List Status) :
    Fetches messageItems update mailbox account (· ∈ messageItems) data.values
      (account.statusMessages mailbox data update).1
      (account.statusMessages mailbox data update).2 where
  within item h := by cases item <;> simp_all [MailboxData.values, messageItems]
  covers item := by cases item <;> simp [MailboxData.values, messageItems]
  answered := by
    simp only [statusMessages, Values.fetched, messageItems, List.filter_cons, decide_eq_true_eq]
    split <;> split <;> split <;> rfl
  cached := by
    funext item
    cases item <;> simp [cached, statusMessages, Values.or, MailboxData.values]

theorem fetches_statusUnseen {responses rest : List (Except StatusResponse (Option ℕ))}
    {r : StatusItems} {account' : Account}
    (h : account.statusUnseen mailbox update responses = .ok (r, rest, account')) :
    ∃ f, Fetches [.unseen] update mailbox account (fun item ↦ item = .unseen ∧ item ∈ update) f r
      account' := by
  unfold statusUnseen at h
  split at h
  · rename_i hunseen
    obtain ⟨⟨total, rest'⟩, -, h⟩ := exists_of_map_eq_ok h
    cases h
    refine ⟨_, Fetches.single hunseen ?_⟩
    funext item
    cases item <;> simp [cached, Values.or, Values.single]
  · rename_i hunseen
    cases h
    refine ⟨_, Fetches.none ?_ (cached_setEntry_entry account mailbox)⟩
    rintro item ⟨rfl, hupdate⟩
    exact hunseen hupdate

theorem fetches_statusDeleted {responses : List (Except StatusResponse (Option ℕ))}
    {r : StatusItems} {account' : Account}
    (h : account.statusDeleted mailbox update responses = .ok (r, account')) :
    ∃ f, Fetches [.deleted] update mailbox account (fun item ↦ item = .deleted ∧ item ∈ update) f r
      account' := by
  unfold statusDeleted at h
  split at h
  · rename_i hdeleted
    obtain ⟨⟨total, rest'⟩, -, h⟩ := exists_of_map_eq_ok h
    cases h
    refine ⟨_, Fetches.single hdeleted ?_⟩
    funext item
    cases item <;> simp [cached, Values.or, Values.single]
  · rename_i hdeleted
    cases h
    refine ⟨_, Fetches.none ?_ rfl⟩
    rintro item ⟨rfl, hupdate⟩
    exact hdeleted hupdate

/-- The two totals. -/
theorem fetches_statusTotals {responses : List (Except StatusResponse (Option ℕ))}
    {r : StatusItems} (h : (account.statusTotals mailbox update responses).1 = .ok r) :
    ∃ f, Fetches [.unseen, .deleted] update mailbox account
      (fun item ↦ (item = .unseen ∨ item = .deleted) ∧ item ∈ update) f r
      (account.statusTotals mailbox update responses).2 := by
  unfold statusTotals at h ⊢
  cases hunseen : account.statusUnseen mailbox update responses with
  | error err =>
      rw [hunseen] at h
      cases h
  | ok first =>
      obtain ⟨unseen, rest, account'⟩ := first
      rw [hunseen] at h
      dsimp only at h ⊢
      cases hdeleted : account'.statusDeleted mailbox update rest with
      | error err =>
          rw [hdeleted] at h
          cases h
      | ok second =>
          obtain ⟨deleted, account''⟩ := second
          rw [hdeleted] at h
          obtain rfl : unseen ++ deleted = r := Except.ok.inj h
          obtain ⟨f, hf⟩ := fetches_statusUnseen hunseen
          obtain ⟨f', hf'⟩ := fetches_statusDeleted hdeleted
          have happend := hf.append hf' (by simp)
          simp only [← or_and_right] at happend
          exact ⟨_, happend⟩

/-- The names are not touched, whatever the responses are. -/
theorem sameNames_statusTotals (account : Account) (mailbox : MailboxId) (update : List Status)
    (responses : List (Except StatusResponse (Option ℕ))) :
    SameNames account (account.statusTotals mailbox update responses).2 := by
  unfold statusTotals
  cases hunseen : account.statusUnseen mailbox update responses with
  | error err => exact ⟨rfl, rfl, rfl⟩
  | ok first =>
      obtain ⟨unseen, rest, account'⟩ := first
      have hnames : SameNames account account' := by
        unfold statusUnseen at hunseen
        split at hunseen
        · obtain ⟨next, -, h⟩ := exists_of_map_eq_ok hunseen
          cases h
          exact ⟨rfl, rfl, rfl⟩
        · cases hunseen
          exact ⟨rfl, rfl, rfl⟩
      dsimp only
      cases hdeleted : account'.statusDeleted mailbox update rest with
      | error err => exact hnames
      | ok second =>
          obtain ⟨deleted, account''⟩ := second
          unfold statusDeleted at hdeleted
          split at hdeleted
          · obtain ⟨next, -, h⟩ := exists_of_map_eq_ok hdeleted
            cases h
            exact hnames
          · cases hdeleted
            exact hnames

theorem fetches_statusSize (hsize : .size ∈ update) (account : Account) (mailbox : MailboxId)
    (mailboxSize : ℕ) :
    Fetches [.size] update mailbox account (fun item ↦ item = .size ∧ item ∈ update)
      (.single .size (.count mailboxSize)) (account.statusSize mailbox mailboxSize).1
      (account.statusSize mailbox mailboxSize).2 := by
  refine Fetches.single hsize ?_
  funext item
  cases item <;> simp [cached, statusSize, Values.or, Values.single]

theorem fetches_modseq (hmodseq : .highestModSeq ∈ update) (account : Account)
    (mailbox : MailboxId) (modseq : ℕ) :
    Fetches [.highestModSeq] update mailbox account
      (fun item ↦ item = .highestModSeq ∧ item ∈ update)
      (.single .highestModSeq (.number modseq)) [(.highestModSeq, .number modseq)]
      { account with modseq := some modseq } := by
  refine Fetches.single hmodseq ?_
  funext item
  cases item <;> simp [cached, Values.or, Values.single, entry]

end Account

/-! ## The mailbox in the cache -/

/-- The name is that of the mailbox, and the account is the one that holds its data. -/
structure Shows (folders : Folders) (mailboxName : String) (mailbox : MailboxId)
    (account : Account) (accounts : List Account) : Prop where
  found : getMailboxByName folders accounts mailboxName = some mailbox
  holds : accounts.find? (fun a ↦ a.accountId = mailbox.accountId) = some account

section

variable {folders : Folders} {mailboxName : String} {mailbox : MailboxId} {account : Account}
  {accounts : List Account}

/-- Only the names decide what a name stands for. -/
theorem getMailboxByName_updateAccount {f : Account → Account}
    (hf : ∀ a, SameNames a (f a)) (accountId : String) (accounts : List Account) :
    getMailboxByName folders (updateAccount accountId f accounts) mailboxName =
      getMailboxByName folders accounts mailboxName := by
  unfold getMailboxByName
  split
  · rfl
  · induction accounts with
    | nil => rfl
    | cons account accounts ih =>
        unfold updateAccount
        obtain ⟨hid, hpre, hnames⟩ := hf account
        split
        · rw [List.findSome?_cons, List.findSome?_cons, hid, hnames]
          unfold Account.admits
          rw [hpre]
        · rw [List.findSome?_cons, List.findSome?_cons, ih]

theorem Shows.updateAccount {f : Account → Account}
    (h : Shows folders mailboxName mailbox account accounts)
    (hf : ∀ a, SameNames a (f a)) :
    Shows folders mailboxName mailbox (f account)
      (updateAccount mailbox.accountId f accounts) where
  found := (getMailboxByName_updateAccount hf _ _).trans h.found
  holds := by
    rw [find?_updateAccount (fun a ↦ (hf a).1), h.holds]
    rfl

/-- A critical section on the account of the mailbox. -/
theorem Shows.onAccount {α : Type} {f : Account → α × Account}
    (h : Shows folders mailboxName mailbox account accounts)
    (hf : ∀ a, SameNames a (f a).2) (default : α) :
    (onAccount mailbox.accountId default f accounts).1 = (f account).1 ∧
      Shows folders mailboxName mailbox (f account).2
        (onAccount mailbox.accountId default f accounts).2 := by
  rw [onAccount_fst, onAccount_snd, h.holds]
  exact ⟨rfl, h.updateAccount hf⟩

end

/-! ## The calls -/

section

variable {S : Type} {folders : Folders} {outside : Outside S} {w : World S} {mailboxName : String}
  {mailbox : MailboxId} {account : Account} {update : List Status} {r : StatusItems}

/-- What asks the server and the database alone does not depend on the cache, and leaves it. -/
theorem run_outside {R : Type} {job : SessionM R} (h : job.Uses SessionCall.IsOutside)
    (accounts : List Account) (s : S) :
    job.run (answer folders outside) ⟨accounts, s⟩ =
      ((job.run (answer folders outside) ⟨[], s⟩).1,
        ⟨accounts, (job.run (answer folders outside) ⟨[], s⟩).2.outside⟩) := by
  induction job generalizing s with
  | done r => rfl
  | call q next ih =>
      cases q with
      | locked section' => exact h.1.elim
      | jmap request => exact ih _ (h.2 _) _
      | database op => exact ih _ (h.2 _) _

/-- The messages of a mailbox, as the server and the database have them. -/
def storedMessages (folders : Folders) (outside : Outside S) (mailbox : MailboxId) (s : S) :
    Except StatusResponse MailboxData :=
  ((synchronizeMessages mailbox).run (answer folders outside) ⟨[], s⟩).1

theorem updateMessages_run (hshows : Shows folders mailboxName mailbox account w.accounts)
    (h : ((updateMessages mailbox update).run (answer folders outside) w).1 = .ok r) :
    ∃ f account', Fetches messageItems update mailbox account
        (fun item ↦ item ∈ messageItems ∧ ∃ item' ∈ messageItems, item' ∈ update) f r account' ∧
      Shows folders mailboxName mailbox account'
        ((updateMessages mailbox update).run (answer folders outside) w).2.accounts ∧
      ((∃ item' ∈ messageItems, item' ∈ update) →
        ∃ data, storedMessages folders outside mailbox w.outside = .ok data ∧ f = data.values) := by
  have hany : (∃ item' ∈ messageItems, item' ∈ update) ↔
      .uidNext ∈ update ∨ .uidValidity ∈ update ∨ .messages ∈ update := by
    simp [messageItems]
  unfold updateMessages at h ⊢
  rw [hany]
  split at h
  · rename_i hupdate
    rw [if_pos hupdate]
    rw [Job.run_bind, run_outside (synchronizeMessages_uses mailbox)] at h ⊢
    unfold storedMessages
    generalize (synchronizeMessages mailbox).run (answer folders outside) ⟨[], w.outside⟩ = s at *
    obtain ⟨err | data, w'⟩ := s
    · cases h
    · obtain ⟨hr, hshows'⟩ := hshows.onAccount
        (f := fun a ↦ a.statusMessages mailbox data update) (fun _ ↦ ⟨rfl, rfl, rfl⟩) []
      obtain rfl : _ = r := Except.ok.inj h
      have hfetches := account.fetches_statusMessages mailbox data update
      rw [← hr] at hfetches
      refine ⟨_, _, ⟨hfetches.within, fun item ↦ ?_, hfetches.answered, hfetches.cached⟩,
        hshows',
        fun _ ↦ ⟨data, rfl, rfl⟩⟩
      rw [hfetches.covers, and_iff_left hupdate]
  · rename_i hupdate
    rw [if_neg hupdate]
    obtain rfl : [] = r := Except.ok.inj h
    exact ⟨_, _, Fetches.none (fun item hitem ↦ hupdate hitem.2) rfl, hshows,
      fun hitem ↦ (hupdate hitem).elim⟩

theorem updateTotals_run (hshows : Shows folders mailboxName mailbox account w.accounts)
    (h : ((updateTotals mailbox update).run (answer folders outside) w).1 = .ok r) :
    ∃ f account', Fetches [.unseen, .deleted] update mailbox account
        (fun item ↦ (item = .unseen ∨ item = .deleted) ∧ item ∈ update) f r account' ∧
      Shows folders mailboxName mailbox account'
        ((updateTotals mailbox update).run (answer folders outside) w).2.accounts := by
  unfold updateTotals at h ⊢
  split at h
  · rename_i hupdate
    rw [if_pos hupdate]
    dsimp only at h ⊢
    rw [Job.run_bind] at h ⊢
    generalize (if .unseen ∈ update then [totalFilter mailbox (.notKeyword Flag.seen.toJmap)]
      else []) ++ (if .deleted ∈ update then
        [totalFilter mailbox (.hasKeyword Flag.deleted.toJmap)] else []) = filters at *
    have hw : ((jmap (.queryTotals (some mailbox.accountId) filters)).run (answer folders outside)
        w).2.accounts = w.accounts := rfl
    generalize (jmap (.queryTotals (some mailbox.accountId) filters)).run (answer folders outside)
      w = s at *
    obtain ⟨err | responses, w'⟩ := s
    · cases h
    · dsimp only at hw
      rw [← hw] at hshows
      obtain ⟨hr, hshows'⟩ := hshows.onAccount
        (f := fun a ↦ a.statusTotals mailbox update responses)
        (fun a ↦ a.sameNames_statusTotals mailbox update responses) (.ok [])
      obtain ⟨f, hfetches⟩ := Account.fetches_statusTotals (hr.symm.trans h)
      exact ⟨f, _, hfetches, hshows'⟩
  · rename_i hupdate
    rw [if_neg hupdate]
    obtain rfl : [] = r := Except.ok.inj h
    refine ⟨_, _, Fetches.none ?_ rfl, hshows⟩
    rintro item ⟨rfl | rfl, hitem⟩
    · exact hupdate (.inl hitem)
    · exact hupdate (.inr hitem)

theorem updateSize_run {maxObjectsInGet : ℕ}
    (hshows : Shows folders mailboxName mailbox account w.accounts)
    (h : ((updateSize mailbox maxObjectsInGet update).run (answer folders outside) w).1 = .ok r) :
    ∃ f account', Fetches [.size] update mailbox account
        (fun item ↦ item = .size ∧ item ∈ update) f r account' ∧
      Shows folders mailboxName mailbox account'
        ((updateSize mailbox maxObjectsInGet update).run (answer folders outside)
          w).2.accounts := by
  unfold updateSize at h ⊢
  split at h
  · rename_i hupdate
    rw [if_pos hupdate]
    rw [Job.run_bind, run_outside (addSizes_uses mailbox maxObjectsInGet 100 0 0)] at h ⊢
    generalize (addSizes mailbox maxObjectsInGet 100 0 0).run (answer folders outside)
      ⟨[], w.outside⟩ = s at *
    obtain ⟨err | mailboxSize, w'⟩ := s
    · cases h
    · obtain ⟨hr, hshows'⟩ := hshows.onAccount
        (f := fun a ↦ a.statusSize mailbox mailboxSize) (fun _ ↦ ⟨rfl, rfl, rfl⟩) []
      obtain rfl : _ = r := Except.ok.inj h
      have hfetches := account.fetches_statusSize hupdate mailbox mailboxSize
      rw [← hr] at hfetches
      exact ⟨_, _, hfetches, hshows'⟩
  · rename_i hupdate
    rw [if_neg hupdate]
    obtain rfl : [] = r := Except.ok.inj h
    refine ⟨_, _, Fetches.none ?_ rfl, hshows⟩
    rintro item ⟨rfl, hitem⟩
    exact hupdate hitem

theorem updateModseq_run (hshows : Shows folders mailboxName mailbox account w.accounts)
    (h : ((updateModseq mailbox update).run (answer folders outside) w).1 = .ok r) :
    ∃ f account', Fetches [.highestModSeq] update mailbox account
        (fun item ↦ item = .highestModSeq ∧ item ∈ update) f r account' ∧
      Shows folders mailboxName mailbox account'
        ((updateModseq mailbox update).run (answer folders outside) w).2.accounts := by
  unfold updateModseq at h ⊢
  split at h
  · rename_i hupdate
    rw [if_pos hupdate]
    rw [Job.run_bind, run_outside (synchronizeState_uses mailbox.accountId)] at h ⊢
    generalize (synchronizeState mailbox.accountId).run (answer folders outside) ⟨[], w.outside⟩ = s
      at *
    obtain ⟨err | modseq, w'⟩ := s
    · cases h
    · obtain rfl : _ = r := Except.ok.inj h
      exact ⟨_, _, account.fetches_modseq hupdate mailbox modseq,
        hshows.updateAccount (f := fun a ↦ { a with modseq := some modseq })
          fun _ ↦ ⟨rfl, rfl, rfl⟩⟩
  · rename_i hupdate
    rw [if_neg hupdate]
    obtain rfl : [] = r := Except.ok.inj h
    refine ⟨_, _, Fetches.none ?_ rfl, hshows⟩
    rintro item ⟨rfl, hitem⟩
    exact hupdate hitem

/-- The items that an update can fetch. -/
def updateItems : List Status := messageItems ++ [.unseen, .deleted] ++ [.size] ++ [.highestModSeq]

/-- The items an account has no value for. -/
def missing (account : Account) (mailbox : MailboxId) (items : List Status) : List Status :=
  items.filter fun item ↦ (account.cached mailbox item).isNone

/-- The items that are fetched: those of `synchronize_messages` come together. -/
def Renewed (update : List Status) (item : Status) : Prop :=
  (item ∈ updateItems ∧ item ∈ update) ∨
    (item ∈ messageItems ∧ ∃ item' ∈ messageItems, item' ∈ update)

theorem renewed_iff {item : Status} :
    Renewed update item ↔ (((item ∈ messageItems ∧ ∃ item' ∈ messageItems, item' ∈ update) ∨
      (item = .unseen ∨ item = .deleted) ∧ item ∈ update) ∨ item = .size ∧ item ∈ update) ∨
      item = .highestModSeq ∧ item ∈ update := by
  have hany (h : item ∈ messageItems) (hupdate : item ∈ update) :
      ∃ item' ∈ messageItems, item' ∈ update := ⟨item, h, hupdate⟩
  unfold Renewed updateItems
  simp only [List.mem_append, List.mem_cons, List.not_mem_nil, or_false]
  generalize (∃ item' ∈ messageItems, item' ∈ update) = any at hany ⊢
  tauto

/-- `status` from the updates on. -/
def statusUpdates (mailbox : MailboxId) (maxObjectsInGet : ℕ) (cached : StatusItems)
    (update : List Status) : SessionM (Except StatusResponse StatusItems) := do
  match ← updateMessages mailbox update with
  | .error err => pure (.error err)
  | .ok messages =>
      match ← updateTotals mailbox update with
      | .error err => pure (.error err)
      | .ok totals =>
          match ← updateSize mailbox maxObjectsInGet update with
          | .error err => pure (.error err)
          | .ok size =>
              match ← updateModseq mailbox update with
              | .error err => pure (.error err)
              | .ok modseq => pure (.ok (cached ++ messages ++ totals ++ size ++ modseq))

/-- What is cached is answered, and the rest is left to the updates. -/
theorem status_run_eq {items : List Status} (maxObjectsInGet : ℕ)
    (hshows : Shows folders mailboxName mailbox account w.accounts) :
    ∃ account' accounts, account'.cached mailbox = account.cached mailbox ∧
      Shows folders mailboxName mailbox account' accounts ∧
      (status mailboxName items maxObjectsInGet).run (answer folders outside) w =
        (statusUpdates mailbox maxObjectsInGet (Values.items (account.cached mailbox) items)
          (missing account mailbox items)).run (answer folders outside)
            ⟨accounts, w.outside⟩ := by
  obtain ⟨hcached, hshows'⟩ := hshows.onAccount (f := fun a ↦ a.statusCached mailbox items)
    (fun _ ↦ ⟨rfl, rfl, rfl⟩) ([], [])
  refine ⟨_, _, account.cached_setEntry_entry mailbox, hshows', ?_⟩
  unfold status
  rw [Job.run_bind]
  have hname : (locked (.mailboxByName mailboxName)).run (answer folders outside) w =
      (some mailbox, w) := by
    show (getMailboxByName folders w.accounts mailboxName, w) = _
    rw [hshows.found]
  rw [hname]
  dsimp only
  rw [Job.run_bind]
  have hlocked : (locked (.statusCached mailbox items)).run (answer folders outside) w =
      ((Values.items (account.cached mailbox) items, missing account mailbox items),
        ⟨(onAccount mailbox.accountId ([], []) (fun a ↦ a.statusCached mailbox items)
          w.accounts).2, w.outside⟩) :=
    Prod.ext hcached rfl
  rw [hlocked]
  rfl

/-- **STATUS**: the items that are cached, and what the updates answer. -/
theorem status_run {items : List Status} {maxObjectsInGet : ℕ} {answered : StatusItems}
    (hshows : Shows folders mailboxName mailbox account w.accounts)
    (h : ((status mailboxName items maxObjectsInGet).run (answer folders outside) w).1 =
      .ok answered) :
    ∃ f r account', answered = Values.items (account.cached mailbox) items ++ r ∧
      Fetches updateItems (missing account mailbox items) mailbox account
        (Renewed (missing account mailbox items)) f r account' ∧
      Shows folders mailboxName mailbox account'
        ((status mailboxName items maxObjectsInGet).run (answer folders outside) w).2.accounts ∧
      ((∃ item ∈ messageItems, item ∈ missing account mailbox items) →
        ∃ data, storedMessages folders outside mailbox w.outside = .ok data ∧
          ∀ item ∈ messageItems, f item = data.values item) := by
  obtain ⟨account₁, accounts₁, hentry, hshows₁, hrun⟩ :=
    @status_run_eq _ folders outside w mailboxName mailbox account items maxObjectsInGet hshows
  rw [hrun] at h ⊢
  clear hrun
  generalize missing account mailbox items = update at *
  unfold statusUpdates at h ⊢
  rw [Job.run_bind] at h ⊢
  have hmessages := fun r ↦ @updateMessages_run _ folders outside ⟨accounts₁, w.outside⟩
    mailboxName mailbox account₁ update r hshows₁
  generalize (updateMessages mailbox update).run (answer folders outside)
    ⟨accounts₁, w.outside⟩ = s₂ at *
  obtain ⟨err | messages, w₂⟩ := s₂
  · cases h
  obtain ⟨f₂, account₂, hf₂, hshows₂, hdata⟩ := hmessages messages rfl
  dsimp only at h hshows₂ ⊢
  rw [Job.run_bind] at h ⊢
  have htotals := fun r ↦ @updateTotals_run _ folders outside w₂ mailboxName mailbox account₂
    update r hshows₂
  generalize (updateTotals mailbox update).run (answer folders outside) w₂ = s₃ at *
  obtain ⟨err | totals, w₃⟩ := s₃
  · cases h
  obtain ⟨f₃, account₃, hf₃, hshows₃⟩ := htotals totals rfl
  dsimp only at h hshows₃ ⊢
  rw [Job.run_bind] at h ⊢
  have hsize := fun r ↦ @updateSize_run _ folders outside w₃ mailboxName mailbox account₃
    update r maxObjectsInGet hshows₃
  generalize (updateSize mailbox maxObjectsInGet update).run (answer folders outside) w₃ = s₄ at *
  obtain ⟨err | size, w₄⟩ := s₄
  · cases h
  obtain ⟨f₄, account₄, hf₄, hshows₄⟩ := hsize size rfl
  dsimp only at h hshows₄ ⊢
  rw [Job.run_bind] at h ⊢
  have hmodseq := fun r ↦ @updateModseq_run _ folders outside w₄ mailboxName mailbox account₄
    update r hshows₄
  generalize (updateModseq mailbox update).run (answer folders outside) w₄ = s₅ at *
  obtain ⟨err | modseq, w₅⟩ := s₅
  · cases h
  obtain ⟨f₅, account₅, hf₅, hshows₅⟩ := hmodseq modseq rfl
  dsimp only at h hshows₅ ⊢
  have hall := ((hf₂.append hf₃ (by simp [messageItems])).append hf₄
    (by simp [messageItems])).append hf₅ (by simp [messageItems])
  refine ⟨_, messages ++ totals ++ size ++ modseq, account₅, ?_, ⟨hall.within, fun item ↦ ?_,
    hall.answered, ?_⟩, hshows₅, ?_⟩
  · rw [← Except.ok.inj h]
    simp only [List.append_assoc]
  · exact (hall.covers item).trans renewed_iff.symm
  · rw [hall.cached, hentry]
  · intro hany
    obtain ⟨data, hstored, rfl⟩ := hdata hany
    refine ⟨data, hstored, fun item hitem ↦ ?_⟩
    have h₃ : f₃ item = none := hf₃.eq_none fun hmem ↦ by
      rcases hmem with _ | ⟨_, _ | ⟨_, ⟨⟩⟩⟩ <;> simp [messageItems] at hitem
    have h₄ : f₄ item = none := hf₄.eq_none fun hmem ↦ by
      rw [List.mem_singleton.mp hmem] at hitem
      simp [messageItems] at hitem
    have h₅ : f₅ item = none := hf₅.eq_none fun hmem ↦ by
      rw [List.mem_singleton.mp hmem] at hitem
      simp [messageItems] at hitem
    simp [Values.or, h₃, h₄, h₅]

theorem mem_missing {items : List Status} {item : Status} :
    item ∈ missing account mailbox items ↔
      item ∈ items ∧ account.cached mailbox item = none := by
  unfold missing
  rw [List.mem_filter, Option.isNone_iff_eq_none]

/-- MAILBOXID and RECENT need no update. -/
theorem missing_subset {items : List Status} : missing account mailbox items ⊆ updateItems := by
  intro item hmem
  have hnone := (mem_missing.mp hmem).2
  cases item <;> simp_all [updateItems, messageItems, Account.cached]

/-- Everything that was asked for is cached afterwards. -/
theorem Fetches.isSome {items : List Status} {f : Values} {account' : Account}
    (h : Fetches updateItems (missing account mailbox items) mailbox account
      (Renewed (missing account mailbox items)) f r account') {item : Status}
    (hmem : item ∈ items) :
    (account'.cached mailbox item).isSome := by
  rw [h.cached]
  show ((f item).or (account.cached mailbox item)).isSome
  rw [Option.isSome_or, Bool.or_eq_true]
  cases hcached : account.cached mailbox item with
  | some value => exact .inr rfl
  | none =>
      have hmissing := mem_missing.mpr ⟨hmem, hcached⟩
      exact .inl ((h.covers item).mpr (.inl ⟨missing_subset hmissing, hmissing⟩))

/-- If everything is cached, it is answered from the cache. -/
theorem status_run_cached {items : List Status} (maxObjectsInGet : ℕ)
    (hshows : Shows folders mailboxName mailbox account w.accounts)
    (hall : ∀ item ∈ items, (account.cached mailbox item).isSome) :
    ((status mailboxName items maxObjectsInGet).run (answer folders outside) w).1 =
      .ok (Values.items (account.cached mailbox) items) := by
  have hmissing : missing account mailbox items = [] := by
    refine List.filter_eq_nil_iff.mpr fun item hmem ↦ ?_
    rw [Option.isNone_iff_eq_none]
    exact Option.isSome_iff_ne_none.mp (hall item hmem)
  obtain ⟨account', accounts, -, -, hrun⟩ :=
    @status_run_eq _ folders outside w mailboxName mailbox account items maxObjectsInGet hshows
  rw [hrun, hmissing]
  -- With nothing to be updated, none of the updates makes a call.
  show Except.ok (Values.items (account.cached mailbox) items ++ [] ++ [] ++ [] ++ []) = _
  simp only [List.append_nil]

/-- What is expected of STATUS: one entry for each item, and the same again as long as the cache is
what it was, whatever the server and the database would say. -/
structure StatusExact (folders : Folders) (outside : Outside S) (mailboxName : String)
    (items : List Status) (maxObjectsInGet : ℕ) (w : World S) (answered : StatusItems) :
    Prop where
  labels : (answered.map Prod.fst).Perm items
  repeats : ∀ w' : World S, w'.accounts = ((status mailboxName items maxObjectsInGet).run
    (answer folders outside) w).2.accounts → ∃ again,
      ((status mailboxName items maxObjectsInGet).run (answer folders outside) w').1 = .ok again ∧
        ∀ entry, entry ∈ again ↔ entry ∈ answered

/-- DELETED, if asked for, is cached; and if one of UIDNEXT, UIDVALIDITY and MESSAGES has to be
fetched, the others are cached as they are stored. -/
structure ServedAlike (folders : Folders) (outside : Outside S) (s : S) (mailbox : MailboxId)
    (account : Account) (items : List Status) : Prop where
  deleted : .deleted ∈ items → (account.cached mailbox .deleted).isSome
  messages : (∃ item ∈ messageItems, item ∈ items ∧ account.cached mailbox item = none) →
    ∀ data, storedMessages folders outside mailbox s = .ok data →
      ∀ item ∈ messageItems, item ∈ items → ∀ value ∈ account.cached mailbox item,
        data.values item = some value

theorem Fetches.labels {items : List Status} {f : Values} {r : StatusItems} {account' : Account}
    (h : Fetches updateItems (missing account mailbox items) mailbox account
      (Renewed (missing account mailbox items)) f r account') (hitems : items.Nodup)
    (hdeleted : .deleted ∉ missing account mailbox items) :
    (r.map Prod.fst).Perm (missing account mailbox items) := by
  have hmap : r.map Prod.fst = updateItems.filter (· ∈ missing account mailbox items) := by
    rw [h.answered]
    refine Values.map_fst_fetched (fun item hblock hupdate ↦ ?_) hdeleted
    exact (h.covers item).mpr (.inl ⟨hblock, hupdate⟩)
  rw [hmap, List.perm_ext_iff_of_nodup]
  · intro item
    rw [List.mem_filter, decide_eq_true_iff]
    exact ⟨And.right, fun hmem ↦ ⟨missing_subset hmem, hmem⟩⟩
  · exact List.Nodup.filter _ (by simp [updateItems, messageItems])
  · exact hitems.filter _

/-- **STATUS** answers each item once, and the same again from the cache, if and only if DELETED
need not be fetched, and what is fetched with an item is not cached otherwise. -/
theorem statusExact_iff {items : List Status} {maxObjectsInGet : ℕ} {answered : StatusItems}
    (hfound : getMailboxByName folders w.accounts mailboxName = some mailbox)
    (haccount : w.accounts.find? (fun a ↦ a.accountId = mailbox.accountId) = some account)
    (hitems : items.Nodup)
    (h : ((status mailboxName items maxObjectsInGet).run (answer folders outside) w).1 =
      .ok answered) :
    StatusExact folders outside mailboxName items maxObjectsInGet w answered ↔
      ServedAlike folders outside w.outside mailbox account items := by
  obtain ⟨f, r, account', rfl, hfetches, hshows', hdata⟩ := status_run ⟨hfound, haccount⟩ h
  have hrepeat (w' : World S) (hw' : w'.accounts = ((status mailboxName items
      maxObjectsInGet).run (answer folders outside) w).2.accounts) :
      ((status mailboxName items maxObjectsInGet).run (answer folders outside) w').1 =
        .ok (Values.items (account'.cached mailbox) items) :=
    status_run_cached maxObjectsInGet (hw' ▸ hshows') fun item hmem ↦ hfetches.isSome hmem
  constructor
  · intro hexact
    refine ⟨fun hmem ↦ ?_, ?_⟩
    · -- What is fetched does not bear the name of DELETED.
      obtain ⟨⟨label, value⟩, hentry, rfl⟩ := List.mem_map.mp (hexact.labels.mem_iff.mpr hmem)
      rcases List.mem_append.mp hentry with hentry | hentry
      · exact Option.isSome_iff_exists.mpr ⟨value, (Values.mem_items.mp hentry).2⟩
      · rw [hfetches.answered] at hentry
        obtain ⟨item, -, -, value', -, heq⟩ := Values.mem_fetched.mp hentry
        exact (item.fetchedAs_ne (congrArg Prod.fst heq).symm).elim
    · rintro ⟨item, hitem, hmem, hnone⟩ data hstored item' hitem' hmem' value hvalue
      obtain ⟨data', hstored', hf⟩ := hdata ⟨item, hitem, mem_missing.mpr ⟨hmem, hnone⟩⟩
      obtain rfl : data' = data := Except.ok.inj (hstored'.symm.trans hstored)
      obtain ⟨again, hagain, hsame⟩ := hexact.repeats _ rfl
      obtain rfl := Except.ok.inj ((hrepeat _ rfl).symm.trans hagain)
      have hentry := (hsame (item', value)).mpr
        (List.mem_append_left _ (Values.mem_items.mpr ⟨hmem', hvalue⟩))
      have hcached := (Values.mem_items.mp hentry).2
      rw [hfetches.cached] at hcached
      have hsome : (data'.values item').isSome := by
        rw [← hf item' hitem', hfetches.covers]
        exact .inr ⟨hitem', item, hitem, mem_missing.mpr ⟨hmem, hnone⟩⟩
      obtain ⟨value', hvalue'⟩ := Option.isSome_iff_exists.mp hsome
      rw [Values.or, hf item' hitem', hvalue', Option.some_or] at hcached
      rw [hvalue', hcached]
  · intro hserved
    have hdeleted : .deleted ∉ missing account mailbox items := fun hmem ↦ by
      obtain ⟨hmem, hnone⟩ := mem_missing.mp hmem
      have hsome := hserved.deleted hmem
      rw [hnone] at hsome
      cases hsome
    -- A value that is cached stays, also where it is fetched along with another one.
    have hkeep (item : Status) (hmem : item ∈ items) (value : StatusItemType)
        (hvalue : account.cached mailbox item = some value) :
        (f item).or (account.cached mailbox item) = some value := by
      cases hf : f item with
      | none => rw [Option.none_or, hvalue]
      | some value' =>
          rw [Option.some_or, ← hf]
          rcases (hfetches.covers item).mp (Option.isSome_iff_exists.mpr ⟨value', hf⟩) with
            ⟨-, hmissing⟩ | ⟨hitem, hany⟩
          · rw [(mem_missing.mp hmissing).2] at hvalue
            cases hvalue
          · obtain ⟨data, hstored, hdata⟩ := hdata hany
            rw [hdata item hitem]
            obtain ⟨item', hitem', hmissing⟩ := hany
            exact hserved.messages ⟨item', hitem', mem_missing.mp hmissing⟩ data hstored item hitem
              hmem value hvalue
    refine ⟨?_, fun w' hw' ↦ ⟨_, hrepeat w' hw', ?_⟩⟩
    · rw [List.map_append, Values.map_fst_items]
      refine ((hfetches.labels hitems hdeleted).append_left _).trans ?_
      have hneg : missing account mailbox items =
          items.filter fun item ↦ !(account.cached mailbox item).isSome := by
        refine List.filter_congr fun item _ ↦ ?_
        rw [Option.not_isSome]
      rw [hneg]
      exact List.filter_append_perm _ _
    · rintro ⟨item, value⟩
      rw [List.mem_append, Values.mem_items, Values.mem_items, hfetches.answered,
        Values.mem_fetched, hfetches.cached, Values.or]
      constructor
      · rintro ⟨hmem, hvalue⟩
        cases hcached : account.cached mailbox item with
        | none =>
            rw [hcached, Option.or_none] at hvalue
            have hmissing := mem_missing.mpr ⟨hmem, hcached⟩
            refine .inr ⟨item, missing_subset hmissing, hmissing, value, hvalue, ?_⟩
            rw [Status.fetchedAs_of_ne fun heq ↦ hdeleted (heq ▸ hmissing)]
        | some value' =>
            rw [hkeep item hmem value' hcached] at hvalue
            exact .inl ⟨hmem, hvalue⟩
      · rintro (⟨hmem, hvalue⟩ | ⟨item', -, hmissing, value', hvalue, heq⟩)
        · exact ⟨hmem, hkeep item hmem value hvalue⟩
        · rw [Status.fetchedAs_of_ne fun heq ↦ hdeleted (heq ▸ hmissing)] at heq
          cases heq
          rw [Option.mem_def.mp hvalue]
          exact ⟨(mem_missing.mp hmissing).1, rfl⟩

end

/-! ## An empty mailbox -/

/-- A server with an empty mailbox, which the database knows. -/
def emptyOutside : Outside MailboxServer where
  jmap := mailboxOutside.jmap
  database
    | .updateUids .., s => (some ⟨1, 7, [], [], 0, "0"⟩, s)
    | op, s => noDatabase op s

/-- The account with the numbers of messages that the listing has had. -/
def emptyAccount : Account :=
  ⟨"a", none, "0", .ofList [("A", "m")],
    .ofList [("m", { totalMessages := some 0, totalUnseen := some 0 : Mailbox })], none⟩

/-- MESSAGES is cached, and agrees with what is stored; UIDNEXT and SIZE are fetched. -/
theorem statusExact_empty : StatusExact folders emptyOutside "A"
    [.messages, .uidNext, .unseen, .size, .mailboxId] 500 ⟨[emptyAccount], serverA⟩
    [(.messages, .number 0), (.unseen, .number 0), (.mailboxId, .string "a/m"),
      (.uidNext, .number 1), (.size, .number 0)] := by
  refine (@statusExact_iff _ folders emptyOutside ⟨[emptyAccount], serverA⟩ "A" ⟨"a", some "m"⟩
    emptyAccount _ 500 _ (by decide +kernel) rfl (by simp) (by decide +kernel)).mpr ⟨?_, ?_⟩
  · intro hmem
    simp at hmem
  · intro _ data hstored
    obtain rfl : ⟨1, 7, [], [], 0, "0"⟩ = data := Except.ok.inj hstored
    decide +kernel

/-- DELETED is answered as UNSEEN, and as DELETED the next time. -/
theorem deleted_as_unseen :
    ((status "A" [.deleted] 500).run (answer folders emptyOutside) ⟨[emptyAccount], serverA⟩).1 =
      .ok [(.unseen, .number 0)] ∧
    ((status "A" [.deleted] 500).run (answer folders emptyOutside)
      ((status "A" [.deleted] 500).run (answer folders emptyOutside)
        ⟨[emptyAccount], serverA⟩).2).1 = .ok [(.deleted, .number 0)] ∧
    ¬ StatusExact folders emptyOutside "A" [.deleted] 500 ⟨[emptyAccount], serverA⟩
      [(.unseen, .number 0)] := by
  refine ⟨by decide +kernel, by decide +kernel, fun hexact ↦ ?_⟩
  have hmem := hexact.labels.mem_iff.mpr (List.mem_singleton_self Status.deleted)
  simp at hmem

end ImapToJmap
