import ImapToJmap.Commands.Pattern
import ImapToJmap.Data.Walk
import ImapToJmap.Mailboxes.Children
import ImapToJmap.Parser.Naming

/-!
# LIST

`SessionData::list` of `commands/list.rs`, from the cached mailboxes, and two clients of it that go
through the hierarchy level by level, each with `%` behind the name it has come to.

`walk_children`: a client that goes on below every item that is marked `\HasChildren` finds all that
LIST `*` would have listed.  `walk_subscribed_iff`: one that asks for subscribed mailboxes with
RECURSIVEMATCH, and goes on below every item with CHILDINFO, finds all subscribed mailboxes if and
only if there are none in a shared account, since the folder that those are in is not listed.
-/

namespace ImapToJmap

/-! ## The arguments -/

namespace Naming.ListArguments

/-- The patterns, each behind the reference name. -/
def patterns : ListArguments → List String
  | basic referenceName mailboxName => [referenceName ++ mailboxName]
  | extended referenceName mailboxName _ _ => mailboxName.map (referenceName ++ ·)

def selectionOptions : ListArguments → List SelectionOption
  | basic _ _ => []
  | extended _ _ selectionOptions _ => selectionOptions

def returnOptions : ListArguments → List ReturnOption
  | basic _ _ => []
  | extended _ _ _ returnOptions => returnOptions

/-- `is_separator_query` -/
def isSeparatorQuery : ListArguments → Bool
  | basic referenceName mailboxName => mailboxName == "" && referenceName == ""
  | extended referenceName mailboxName _ _ => mailboxName.isEmpty && referenceName == ""

end Naming.ListArguments

namespace Listing

open Ascii Jmap
open Naming (ListArguments SelectionOption ReturnOption)

/-- What the options ask for. -/
structure Options where
  filterSubscribed : Bool := false
  filterSpecialUse : Bool := false
  recursiveMatch : Bool := false
  includeSpecialUse : Bool := false
  includeSubscribed : Bool := false
  includeChildren : Bool := false
  includeStatus : Option (List Status) := none

namespace Options

def select (o : Options) : SelectionOption → Options
  | .subscribed => { o with filterSubscribed := true, includeSubscribed := true }
  | .remote => o
  | .specialUse => { o with filterSpecialUse := true, includeSpecialUse := true }
  | .recursiveMatch => { o with recursiveMatch := true }

def give (o : Options) : ReturnOption → Options
  | .subscribed => { o with includeSubscribed := true }
  | .children => { o with includeChildren := true }
  | .status items => { o with includeStatus := some items }
  | .specialUse => { o with includeSpecialUse := true }

/-- The two loops over the options. -/
def ofArguments (arguments : ListArguments) (isRev2 : Bool) : Options :=
  arguments.returnOptions.foldl give
    (arguments.selectionOptions.foldl select { includeSpecialUse := isRev2 })

end Options

/-! ## The items -/

/-- The attribute of a role. -/
def roleAttribute : Role → Option Attribute
  | .archive => some .archive
  | .drafts => some .drafts
  | .junk => some .junk
  | .sent => some .sent
  | .trash => some .trash
  | .important => some .important
  | _ => none

/-- A folder that is no mailbox but has some below it. -/
def folderItem (o : Options) (name : String) : ListItem where
  mailboxName := name
  attributes := if o.includeChildren then [.hasChildren, .noSelect] else [.noSelect]
  tags := []

/-- The loop for `has_recursive_match`; the failure is a name without data. -/
def recursiveMatch (data : MailboxMap) (above : String) : List (String × String) → Option Bool
  | [] => some false
  | (mailboxName, mailboxId) :: names =>
      if startsWith mailboxName above then do
        let mailbox ← data[mailboxId]?
        if mailbox.isSubscribed then some true else recursiveMatch data above names
      else recursiveMatch data above names

/-- `has_recursive_match` -/
def hasRecursiveMatch (o : Options) (account : Account) (mailboxName : String) : Option Bool :=
  if o.recursiveMatch then
    recursiveMatch account.mailboxData (mailboxName ++ "/") account.mailboxNames.toList
  else some false

/-- The item of a mailbox. -/
def mailboxItem (o : Options) (mailboxName : String) (mailbox : Mailbox)
    (hasRecursiveMatch : Bool) : ListItem where
  mailboxName := mailboxName
  attributes :=
    (if o.includeChildren then
      [if mailbox.hasChildren then .hasChildren else .hasNoChildren] else []) ++
    (if o.includeSubscribed && mailbox.isSubscribed then [.subscribed] else []) ++
    if o.includeSpecialUse then (roleAttribute mailbox.role).toList else []
  tags := if !hasRecursiveMatch then [] else [.childInfo [.subscribed]]

/-- One round of the loop over the names of an account. -/
def listMailbox (o : Options) (patterns : List String) (account : Account)
    (e : String × String) : Option (List ListItem) :=
  if matchesPattern patterns e.1 then do
    let mailbox ← account.mailboxData[e.2]?
    let recursive ← hasRecursiveMatch o account e.1
    if !o.filterSubscribed || mailbox.isSubscribed || recursive then
      -- a mailbox without a special use, where only those are asked for
      if o.includeSpecialUse && o.filterSpecialUse && (roleAttribute mailbox.role).isNone then
        some []
      else some [mailboxItem o e.1 mailbox recursive]
    else some []
  else some []

/-- The folder of an account, and the one that all of these are in if it has not been listed. -/
def listFolders (folders : Folders) (o : Options) (patterns : List String)
    (addedSharedFolder : Bool) (namePrefix : String) : List ListItem :=
  (if !addedSharedFolder && !o.filterSubscribed && matchesPattern patterns folders.folderShared then
    [folderItem o folders.folderShared] else []) ++
  if !o.filterSubscribed && matchesPattern patterns namePrefix then [folderItem o namePrefix]
  else []

/-- The loop over the accounts. -/
def listAccounts (folders : Folders) (o : Options) (patterns : List String) :
    Bool → List Account → Option (List ListItem)
  | _, [] => some []
  | addedSharedFolder, account :: accounts => do
      let mailboxes ← account.mailboxNames.toList.mapM (listMailbox o patterns account)
      let rest ← listAccounts folders o patterns
        (addedSharedFolder || account.namePrefix.isSome) accounts
      return account.namePrefix.toList.flatMap
          (listFolders folders o patterns addedSharedFolder) ++ mailboxes.flatten ++ rest

/-- The items of `list`, behind the virtual folder. -/
def listItems (folders : Folders) (o : Options) (patterns : List String)
    (accounts : List Account) : Option (List ListItem) := do
  let items ← listAccounts folders o patterns false accounts
  return (if !o.filterSubscribed && matchesPattern patterns folders.folderAll then
    [⟨folders.folderAll, [.all, .noInferiors], []⟩] else []) ++ items

/-- `list`: the items, and what is asked of their status.  The failure is a panic. -/
def list (folders : Folders) (accounts : List Account) (arguments : ListArguments) (isRev2 : Bool) :
    Option (Except StatusResponse (List ListItem × Option (List Status))) :=
  let o := Options.ofArguments arguments isRev2
  if o.recursiveMatch && !o.filterSubscribed then
    some (.error (.bad "RECURSIVEMATCH cannot be the only selection option."))
  else (listItems folders o arguments.patterns accounts).map fun items ↦
    .ok (items, o.includeStatus)

/-- `handle_list`: a query for the separator is not about the mailboxes. -/
def handleList (folders : Folders) (accounts : List Account) (arguments : ListArguments)
    (isRev2 : Bool) : Option (Except StatusResponse (List ListItem × Option (List Status))) :=
  if !arguments.isSeparatorQuery then list folders accounts arguments isRev2
  else some (.ok ([⟨"", [.noSelect], []⟩], none))

/-! ## The pattern of a level -/

/-- Characters can be told apart by the beginning of their bytes. -/
theorem utf8EncodeChar_inj {c d : Char} {s t : Bytes}
    (h : String.utf8EncodeChar c ++ s = String.utf8EncodeChar d ++ t) : c = d ∧ s = t := by
  have hdecode : ∀ (c : Char) (s : Bytes),
      ByteArray.utf8DecodeChar? (String.utf8EncodeChar c ++ s).toByteArray 0 = some c := by
    intro c s
    rw [List.toByteArray_append]
    exact ByteArray.utf8DecodeChar?_utf8EncodeChar_append
  have hc : some c = some d := by rw [← hdecode c s, h, hdecode d t]
  obtain rfl := Option.some.inj hc
  exact ⟨rfl, List.append_cancel_left h⟩

theorem asBytes_append (a b : String) : asBytes (a ++ b) = asBytes a ++ asBytes b := by
  simp [asBytes_eq_flatMap]

/-- Bytes that a string begins with are a string that it begins with. -/
theorem exists_of_asBytes_append {n a : String} {t : Bytes} (h : asBytes n = asBytes a ++ t) :
    ∃ x, n = a ++ x ∧ t = asBytes x := by
  have hchars : ∀ (l m : List Char), m.flatMap String.utf8EncodeChar =
      l.flatMap String.utf8EncodeChar ++ t → ∃ x, m = l ++ x ∧
        t = x.flatMap String.utf8EncodeChar := by
    intro l
    induction l with
    | nil => exact fun m hm ↦ ⟨m, rfl, hm.symm⟩
    | cons c l ih =>
        intro m hm
        cases m with
        | nil =>
            have hlen := congrArg List.length hm
            have hpos : 0 < (String.utf8EncodeChar c).length := by
              simp [String.length_utf8EncodeChar, Char.utf8Size_pos]
            simp only [List.flatMap_nil, List.flatMap_cons, List.length_nil,
              List.length_append] at hlen
            omega
        | cons d m =>
            rw [List.flatMap_cons, List.flatMap_cons, List.append_assoc] at hm
            obtain ⟨rfl, htail⟩ := utf8EncodeChar_inj hm
            obtain ⟨x, rfl, hx⟩ := ih m htail
            exact ⟨x, rfl, hx⟩
  rw [asBytes_eq_flatMap, asBytes_eq_flatMap] at h
  obtain ⟨x, hx, ht⟩ := hchars _ _ h
  refine ⟨String.ofList x, String.toList_injective (by simp [hx]), ?_⟩
  rw [ht, asBytes_eq_flatMap, String.toList_ofList]

theorem matchesFrom_level {l : Bytes} (h : ∀ ch ∈ l, isWildcard ch = false) (name : Bytes) :
    matchesFrom (l ++ [percent]) name = true ↔ ∃ t, name = l ++ t ∧ slash ∉ t := by
  induction l generalizing name with
  | nil =>
      rw [List.nil_append, matchesFrom.eq_def]
      have hstar : (percent == Ascii.star) = false := by decide
      have hpercent : isWildcard percent = true := by decide
      simp only [hpercent, if_true, List.takeWhile_nil, ne_eq, not_true_eq_false, if_false, hstar,
        Bool.false_or, List.nil_append, exists_eq_left', Bool.not_eq_true', List.any_eq_false,
        beq_iff_eq]
      exact ⟨fun h hmem ↦ h _ hmem rfl, fun h x hx heq ↦ h (heq ▸ hx)⟩
  | cons ch l ih =>
      obtain ⟨hch, hl⟩ := List.forall_mem_cons.mp h
      rw [List.cons_append, matchesFrom.eq_def]
      dsimp only
      rw [if_neg (by simp [hch])]
      cases name with
      | nil => simp
      | cons mch name =>
          simp only [Bool.and_eq_true, beq_iff_eq, ih hl name, List.cons_append, List.cons.injEq]
          constructor
          · rintro ⟨rfl, t, ht⟩
            exact ⟨t, ⟨rfl, ht.1⟩, ht.2⟩
          · rintro ⟨t, ⟨rfl, ht⟩, hslash⟩
            exact ⟨rfl, t, ht, hslash⟩

/-- No wildcard. -/
def Wildless (s : String) : Prop := '%' ∉ s.toList ∧ '*' ∉ s.toList

instance (s : String) : Decidable (Wildless s) := inferInstanceAs (Decidable (_ ∧ _))

/-- The pattern for a level below a name is for the names that have one part more. -/
theorem matchesPattern_level {above : String} (h : Wildless above) (n : String) :
    matchesPattern [above ++ "%"] n = true ↔ ∃ x, SlashFree x ∧ n = above ++ x := by
  have hpercent : asBytes "%" = [percent] := by decide
  have hwild : ∀ ch ∈ asBytes above, isWildcard ch = false := by
    intro ch hch
    have hne : ch ≠ percent ∧ ch ≠ Ascii.star := by
      constructor
      · rintro rfl
        exact h.1 ((mem_asBytes (by decide) rfl).mp hch)
      · rintro rfl
        exact h.2 ((mem_asBytes (by decide) rfl).mp hch)
    simp [isWildcard, hne.1, hne.2]
  have hslash : ∀ x, slash ∉ asBytes x ↔ SlashFree x := fun x ↦
    not_congr (mem_asBytes (by decide) rfl)
  rw [matchesPattern, List.isEmpty_cons, Bool.false_or, List.any_cons, List.any_nil, Bool.or_false,
    asBytes_append, hpercent, matchesFrom_level hwild]
  constructor
  · rintro ⟨t, ht, hfree⟩
    obtain ⟨x, rfl, rfl⟩ := exists_of_asBytes_append ht
    exact ⟨x, (hslash x).mp hfree, rfl⟩
  · rintro ⟨x, hfree, rfl⟩
    exact ⟨asBytes x, asBytes_append above x, (hslash x).mpr hfree⟩

/-! ## The pattern is a filter -/

section

variable {folders : Folders} {o : Options} {patterns : List String} {account : Account}

/-- What has a matching name. -/
def matching (patterns : List String) (items : List ListItem) : List ListItem :=
  items.filter fun item ↦ matchesPattern patterns item.mailboxName

/-- The names of an account are those of mailboxes below it. -/
theorem recursiveMatch_spec {data : MailboxMap} {above : String} {names : List (String × String)}
    (h : ∀ e ∈ names, ∃ mailbox : Mailbox, data[e.2]? = some mailbox) :
    ∃ b, recursiveMatch data above names = some b ∧
      (b = true ↔ ∃ e ∈ names, startsWith e.1 above = true ∧
        ∃ mailbox ∈ data[e.2]?, mailbox.isSubscribed = true) := by
  induction names with
  | nil => exact ⟨false, rfl, by simp⟩
  | cons e names ih =>
      obtain ⟨⟨mailbox, hmailbox⟩, hnames⟩ := List.forall_mem_cons.mp h
      obtain ⟨b, hb, hiff⟩ := ih hnames
      simp only [recursiveMatch, hmailbox, List.mem_cons, exists_eq_or_imp]
      by_cases hstarts : startsWith e.1 above = true
      · by_cases hsubscribed : mailbox.isSubscribed = true
        · refine ⟨true, ?_, ?_⟩
          · rw [if_pos hstarts, Option.bind_eq_bind, Option.bind_some, if_pos hsubscribed]
          · simp [hstarts, hsubscribed]
        · refine ⟨b, ?_, ?_⟩
          · rw [if_pos hstarts, Option.bind_eq_bind, Option.bind_some, if_neg hsubscribed, hb]
          · simp [hsubscribed, hiff]
      · refine ⟨b, ?_, ?_⟩
        · rw [if_neg hstarts, hb]
        · simp [hstarts, hiff]

theorem hasRecursiveMatch_spec (hdata : ∀ e ∈ account.mailboxNames.toList,
      ∃ mailbox : Mailbox, account.mailboxData[e.2]? = some mailbox) (mailboxName : String) :
    ∃ recursive, hasRecursiveMatch o account mailboxName = some recursive ∧
      (recursive = true ↔ o.recursiveMatch = true ∧
        ∃ e ∈ account.mailboxNames.toList, Below mailboxName e.1 ∧
          ∃ mailbox ∈ account.mailboxData[e.2]?, mailbox.isSubscribed = true) := by
  obtain ⟨b, hb, hiff⟩ := @recursiveMatch_spec _ (mailboxName ++ "/") _ hdata
  rw [hasRecursiveMatch]
  by_cases hrecursive : o.recursiveMatch = true
  · exact ⟨b, by rw [if_pos hrecursive, hb], by rw [hiff]; simp [hrecursive, Below]⟩
  · exact ⟨false, by rw [if_neg hrecursive], by simp [hrecursive]⟩

/-- What is listed for a mailbox, if its name matches. -/
def shown (o : Options) (mailboxName : String) (mailbox : Mailbox) (recursive : Bool) :
    List ListItem :=
  if !o.filterSubscribed || mailbox.isSubscribed || recursive then
    if o.includeSpecialUse && o.filterSpecialUse && (roleAttribute mailbox.role).isNone then []
    else [mailboxItem o mailboxName mailbox recursive]
  else []

theorem name_of_mem_shown {mailboxName : String} {mailbox : Mailbox} {recursive : Bool}
    {item : ListItem} (h : item ∈ shown o mailboxName mailbox recursive) :
    item.mailboxName = mailboxName := by
  unfold shown at h
  split at h
  · split at h
    · cases h
    · rw [List.mem_singleton.mp h]
      rfl
  · cases h

theorem listMailbox_eq {e : String × String} {mailbox : Mailbox} {recursive : Bool}
    (hmailbox : account.mailboxData[e.2]? = some mailbox)
    (hrecursive : hasRecursiveMatch o account e.1 = some recursive) (patterns : List String) :
    listMailbox o patterns account e =
      some (matching patterns (shown o e.1 mailbox recursive)) := by
  have hname : ∀ item ∈ shown o e.1 mailbox recursive,
      matchesPattern patterns item.mailboxName = matchesPattern patterns e.1 :=
    fun item hitem ↦ by rw [name_of_mem_shown hitem]
  rw [listMailbox, hmailbox, hrecursive, matching, List.filter_congr hname]
  simp only [Option.bind_eq_bind, Option.bind_some]
  cases matchesPattern patterns e.1 with
  | false =>
      rw [if_neg (by decide)]
      simp
  | true =>
      rw [if_pos rfl, List.filter_true]
      unfold shown
      split
      · split <;> rfl
      · rfl

@[simp] theorem matching_append (patterns : List String) (items items' : List ListItem) :
    matching patterns (items ++ items') = matching patterns items ++ matching patterns items' :=
  List.filter_append ..

/-- The item is that of a mailbox of the account. -/
def OfMailbox (o : Options) (account : Account) (item : ListItem) : Prop :=
  ∃ (mailboxName mailboxId : String) (mailbox : Mailbox) (recursive : Bool),
    account.mailboxNames[mailboxName]? = some mailboxId ∧
    account.mailboxData[mailboxId]? = some mailbox ∧
    hasRecursiveMatch o account mailboxName = some recursive ∧
    item ∈ shown o mailboxName mailbox recursive

theorem data_of_consistent (h : account.Consistent) : ∀ e ∈ account.mailboxNames.toList,
    ∃ mailbox : Mailbox, account.mailboxData[e.2]? = some mailbox := by
  intro e he
  have hmem := h e.1 e.2 (Std.ExtTreeMap.mem_toList_iff_getElem?_eq_some.mp he)
  exact Option.isSome_iff_exists.mp (Std.ExtTreeMap.mem_iff_isSome_getElem?.mp hmem)

/-- The loop over the names of an account. -/
theorem mapM_listMailbox (h : account.Consistent) :
    ∃ items, (∀ patterns, (account.mailboxNames.toList.mapM
          (listMailbox o patterns account)).map List.flatten = some (matching patterns items)) ∧
      ∀ item, item ∈ items ↔ OfMailbox o account item := by
  have hnames : ∀ (names : List (String × String)), (∀ e ∈ names, e ∈ account.mailboxNames.toList) →
      ∃ items, (∀ patterns, (names.mapM (listMailbox o patterns account)).map List.flatten =
          some (matching patterns items)) ∧
        ∀ item, item ∈ items ↔ ∃ e ∈ names, ∃ (mailbox : Mailbox) (recursive : Bool),
          account.mailboxData[e.2]? = some mailbox ∧
          hasRecursiveMatch o account e.1 = some recursive ∧
          item ∈ shown o e.1 mailbox recursive := by
    intro names hnames
    induction names with
    | nil => exact ⟨[], fun _ ↦ rfl, by simp⟩
    | cons e names ih =>
        obtain ⟨he, hnames⟩ := List.forall_mem_cons.mp hnames
        obtain ⟨items, hitems, hmem⟩ := ih hnames
        obtain ⟨mailbox, hmailbox⟩ := data_of_consistent h e he
        obtain ⟨recursive, hrecursive, -⟩ :=
          @hasRecursiveMatch_spec o account (data_of_consistent h) e.1
        refine ⟨shown o e.1 mailbox recursive ++ items, fun patterns ↦ ?_, fun item ↦ ?_⟩
        · obtain ⟨rest, hrest, hflatten⟩ := Option.map_eq_some_iff.mp (hitems patterns)
          rw [List.mapM_cons, listMailbox_eq hmailbox hrecursive, hrest, matching_append,
            ← hflatten]
          rfl
        · rw [List.mem_append, hmem]
          constructor
          · rintro (hitem | ⟨e', he', hfound⟩)
            · exact ⟨e, List.mem_cons_self, mailbox, recursive, hmailbox, hrecursive, hitem⟩
            · exact ⟨e', List.mem_cons_of_mem _ he', hfound⟩
          · rintro ⟨e', he', mailbox', recursive', hmailbox', hrecursive', hitem⟩
            rcases List.mem_cons.mp he' with rfl | he'
            · obtain rfl := Option.some.inj (hmailbox.symm.trans hmailbox')
              obtain rfl := Option.some.inj (hrecursive.symm.trans hrecursive')
              exact .inl hitem
            · exact .inr ⟨e', he', mailbox', recursive', hmailbox', hrecursive', hitem⟩
  obtain ⟨items, hitems, hmem⟩ := hnames _ fun _ he ↦ he
  refine ⟨items, hitems, fun item ↦ (hmem item).trans ?_⟩
  constructor
  · rintro ⟨e, he, mailbox, recursive, hfound⟩
    exact ⟨e.1, e.2, mailbox, recursive,
      Std.ExtTreeMap.mem_toList_iff_getElem?_eq_some.mp he, hfound⟩
  · rintro ⟨mailboxName, mailboxId, mailbox, recursive, hname, hfound⟩
    exact ⟨(mailboxName, mailboxId), Std.ExtTreeMap.mem_toList_iff_getElem?_eq_some.mpr hname,
      mailbox, recursive, hfound⟩

theorem listFolders_eq (added : Bool) (namePrefix : String) (patterns : List String) :
    listFolders folders o patterns added namePrefix = matching patterns
      ((if !added && !o.filterSubscribed then [folderItem o folders.folderShared] else []) ++
        if !o.filterSubscribed then [folderItem o namePrefix] else []) := by
  rw [listFolders, matching_append]
  cases added <;> cases o.filterSubscribed <;> simp [matching, folderItem, List.filter_cons]

/-- The loop over the accounts. -/
theorem listAccounts_spec {accounts : List Account} (h : CacheConsistent accounts) (added : Bool) :
    ∃ items, (∀ patterns, listAccounts folders o patterns added accounts =
          some (matching patterns items)) ∧
      ∀ item, item ∈ items ↔
        o.filterSubscribed = false ∧
            (added = false ∧ (∃ account ∈ accounts, account.namePrefix.isSome) ∧
              item = folderItem o folders.folderShared ∨
            ∃ account ∈ accounts, ∃ p ∈ account.namePrefix, item = folderItem o p) ∨
          ∃ account ∈ accounts, OfMailbox o account item := by
  induction accounts generalizing added with
  | nil => exact ⟨[], fun _ ↦ rfl, by simp⟩
  | cons account accounts ih =>
      obtain ⟨haccount, haccounts⟩ := List.forall_mem_cons.mp h
      obtain ⟨mailboxes, hmailboxes, hmem⟩ := @mapM_listMailbox o account haccount
      obtain ⟨rest, hrest, hmem'⟩ := ih haccounts (added || account.namePrefix.isSome)
      refine ⟨account.namePrefix.toList.flatMap (fun p ↦
          (if !added && !o.filterSubscribed then [folderItem o folders.folderShared] else []) ++
            if !o.filterSubscribed then [folderItem o p] else []) ++ mailboxes ++ rest,
        fun patterns ↦ ?_, fun item ↦ ?_⟩
      · obtain ⟨lists, hlists, hflatten⟩ := Option.map_eq_some_iff.mp (hmailboxes patterns)
        have hfolders : account.namePrefix.toList.flatMap (listFolders folders o patterns added) =
            matching patterns (account.namePrefix.toList.flatMap fun p ↦
              (if !added && !o.filterSubscribed then [folderItem o folders.folderShared] else []) ++
                if !o.filterSubscribed then [folderItem o p] else []) := by
          cases account.namePrefix with
          | none => rfl
          | some p => simpa using listFolders_eq added p patterns
        rw [listAccounts, hlists, hrest, hfolders, matching_append, matching_append, ← hflatten]
        rfl
      · rw [List.mem_append, List.mem_append, hmem, hmem']
        simp only [List.mem_cons, exists_eq_or_imp]
        generalize (∃ account ∈ accounts, OfMailbox o account item) = inRest
        generalize (∃ account ∈ accounts, account.namePrefix.isSome) = sharedInRest
        generalize (∃ account ∈ accounts, ∃ p ∈ account.namePrefix, item = folderItem o p) =
          folderInRest
        cases account.namePrefix with
        | none =>
            simp
            tauto
        | some p =>
            cases added <;> cases o.filterSubscribed <;> simp <;> tauto

/-- An item of a list. -/
def Listed (folders : Folders) (o : Options) (accounts : List Account) (item : ListItem) : Prop :=
  o.filterSubscribed = false ∧
      (item = ⟨folders.folderAll, [.all, .noInferiors], []⟩ ∨
        (∃ account ∈ accounts, account.namePrefix.isSome) ∧
          item = folderItem o folders.folderShared ∨
        ∃ account ∈ accounts, ∃ p ∈ account.namePrefix, item = folderItem o p) ∨
    ∃ account ∈ accounts, OfMailbox o account item

/-- There is one list of items, and patterns are a filter on it. -/
theorem listItems_spec {accounts : List Account} (h : CacheConsistent accounts) :
    ∃ items, (∀ patterns, listItems folders o patterns accounts =
        some (matching patterns items)) ∧
      ∀ item, item ∈ items ↔ Listed folders o accounts item := by
  obtain ⟨items, hitems, hmem⟩ := @listAccounts_spec folders o accounts h false
  refine ⟨(if !o.filterSubscribed then [⟨folders.folderAll, [.all, .noInferiors], []⟩] else []) ++
    items, fun patterns ↦ ?_, fun item ↦ ?_⟩
  · rw [listItems, hitems, matching_append]
    refine congrArg some (congrArg (· ++ _) ?_)
    cases o.filterSubscribed <;> simp [matching, List.filter_cons]
  · rw [List.mem_append, hmem, Listed]
    cases o.filterSubscribed <;> simp [or_assoc]

end

/-! ## Clients -/

/-- The place below an item. -/
def belowItem (item : ListItem) : String := item.mailboxName ++ "/"

section

variable (folders : Folders) (accounts : List Account) (isRev2 : Bool)

/-- What is listed for one pattern. -/
def answered (selectionOptions : List SelectionOption) (returnOptions : List ReturnOption)
    (pattern : String) : List ListItem :=
  match handleList folders accounts (.extended "" [pattern] selectionOptions returnOptions)
      isRev2 with
  | some (.ok (items, _)) => items
  | _ => []

/-- A client that lists each level and goes on below what has children. -/
def childrenWalk (levels : ℕ) : List ListItem :=
  walk (fun above ↦ answered folders accounts isRev2 [] [.children] (above ++ "%"))
    (fun item ↦ if .hasChildren ∈ item.attributes then some (belowItem item) else none) levels ""

/-- `CHILDINFO` -/
def Tag.isChildInfo : Tag → Bool
  | .childInfo _ => true
  | .oldName _ => false

/-- A client that lists what is subscribed, and goes on below what has something subscribed below
it. -/
def subscribedWalk (levels : ℕ) : List ListItem :=
  walk (fun above ↦ answered folders accounts isRev2 [.subscribed, .recursiveMatch] []
      (above ++ "%"))
    (fun item ↦ if item.tags.any Tag.isChildInfo then some (belowItem item) else none) levels ""

end

/-- The names can be gone through by their levels: none is a pattern, and the folders that are no
mailboxes are one level each. -/
structure Walkable (folders : Folders) (accounts : List Account) : Prop where
  folderAll : SlashFree folders.folderAll
  folderShared : SlashFree folders.folderShared ∧ Wildless folders.folderShared
  namePrefix : ∀ account ∈ accounts, ∀ p ∈ account.namePrefix,
    Wildless p ∧ ∃ x, SlashFree x ∧ p = folders.folderShared ++ "/" ++ x
  names : ∀ account ∈ accounts, ∀ n ∈ account.mailboxNames, Wildless n

/-! ### Two accounts -/

/-- An account with `A` and, subscribed, `A/B`, and another that is shared as `x` and has `C`
subscribed. -/
def sharedEdits : List Edit :=
  [.refetch "a" none "0" [
    ⟨some "m", some "A", none, .none, false, 0, 0⟩,
    ⟨some "n", some "B", some "m", .none, true, 0, 0⟩],
  .refetch "b" (some "x") "0" [⟨some "o", some "C", none, .none, true, 0, 0⟩]]

def sharedAccounts : List Account := Run.exec (Edit.step folders) [] sharedEdits

theorem forest_sharedAccounts : Forest sharedAccounts := by
  have hempty : Forest [] := ⟨List.nodup_nil, by simp, by simp, by simp⟩
  refine Run.exec_induct Forest hempty
    (C := fun accounts e ↦ e.Served folders accounts ∧ e.KeepsChildren folders accounts)
    (fun accounts e h hedit ↦ h.step hedit.1 hedit.2) ?_
  decide

theorem consistent_sharedAccounts : CacheConsistent sharedAccounts := by
  have hdata : ∀ account ∈ sharedAccounts, ∀ e ∈ account.mailboxNames.toList,
      e.2 ∈ account.mailboxData := by decide
  exact fun account haccount n id hname ↦ hdata account haccount (n, id)
    (Std.ExtTreeMap.mem_toList_iff_getElem?_eq_some.mpr hname)

theorem walkable_sharedAccounts : Walkable folders sharedAccounts where
  folderAll := by decide
  folderShared := by decide
  namePrefix := by
    have hprefix : ∀ account ∈ sharedAccounts, ∀ p ∈ account.namePrefix,
        p = "Shared Folders" ++ "/" ++ "x" := by decide
    intro account haccount p hp
    obtain rfl := hprefix account haccount p hp
    exact ⟨by decide, "x", by decide, rfl⟩
  names := by
    have hkeys : ∀ account ∈ sharedAccounts, ∀ n ∈ account.mailboxNames.keys, Wildless n := by
      decide
    exact fun account haccount n hn ↦ hkeys account haccount n (Std.ExtTreeMap.mem_keys.mpr hn)

/-! ### Level by level -/

section

variable {folders : Folders} {accounts : List Account} {isRev2 : Bool}

theorem matchesPattern_star (n : String) : matchesPattern ["*"] n = true := by
  have hstar : asBytes "*" = [Ascii.star] := by decide
  have hwild : isWildcard Ascii.star = true := by decide
  rw [matchesPattern, List.isEmpty_cons, Bool.false_or, List.any_cons, List.any_nil, Bool.or_false,
    hstar, matchesFrom.eq_def]
  simp [hwild]

theorem wildless_below {n : String} (h : Wildless n) : Wildless (n ++ "/") := by
  have hslash : Wildless "/" := by decide
  simp only [Wildless, String.toList_append, List.mem_append, not_or] at h hslash ⊢
  exact ⟨⟨h.1, hslash.1⟩, h.2, hslash.2⟩

/-- What is below a place is one part longer. -/
theorem mem_matching_below {items : List ListItem} {item : ListItem} {q x : String}
    (hitem : item ∈ items) (hq : Wildless q) (hx : SlashFree x)
    (hname : item.mailboxName = q ++ "/" ++ x) : item ∈ matching [q ++ "/" ++ "%"] items :=
  List.mem_filter.mpr ⟨hitem, (matchesPattern_level (wildless_below hq) _).mpr ⟨x, hx, hname⟩⟩

theorem mem_matching_first {items : List ListItem} {item : ListItem} (hitem : item ∈ items)
    (hname : SlashFree item.mailboxName) : item ∈ matching ["" ++ "%"] items :=
  List.mem_filter.mpr ⟨hitem, (matchesPattern_level (by decide) _).mpr
    ⟨item.mailboxName, hname, (String.empty_append).symm⟩⟩

/-- **Going down.**  A client that sees one level at a time finds every item, if the item of the
name above each is there and says to go on. -/
theorem mem_walk_of_linked {list : String → List ListItem} {items : List ListItem}
    {descend : ListItem → Prop} [DecidablePred descend]
    (hlist : ∀ above, list above = matching [above ++ "%"] items)
    (hwild : ∀ item ∈ items, descend item → Wildless item.mailboxName)
    (hlinked : ∀ item ∈ items, ∀ q x, SlashFree x → item.mailboxName = q ++ "/" ++ x →
      ∃ parent ∈ items, parent.mailboxName = q ∧ descend parent)
    {item : ListItem} (hitem : item ∈ items) {levels : ℕ}
    (hlevels : (splitPath item.mailboxName).length ≤ levels) :
    item ∈ walk list (fun item ↦ if descend item then some (belowItem item) else none) levels
      "" := by
  refine mem_walk_of_depth (P := (· ∈ items)) (fun item ↦ (splitPath item.mailboxName).length)
    (fun item ↦ List.length_pos_iff.mpr (splitPath_ne_nil _)) (fun item hitem ↦ ?_) hitem hlevels
  by_cases hslash : '/' ∈ item.mailboxName.toList
  · obtain ⟨q, x, hx, hname⟩ := exists_child_of_slash hslash
    obtain ⟨parent, hparent, rfl, hdescend⟩ := hlinked item hitem q x hx hname
    refine .inr ⟨parent, hparent, ?_, belowItem parent, if_pos hdescend, ?_⟩
    · rw [hname, splitPath_append _ hx, List.length_append]
      exact Nat.lt_succ_self _
    · rw [hlist]
      exact mem_matching_below hitem (hwild parent hparent hdescend) hx hname
  · refine .inl ?_
    rw [hlist]
    exact mem_matching_first hitem hslash

/-! ### Going on below what has children -/

/-- There is one list of items, and what is answered is a filter on it. -/
theorem exists_answered (hconsistent : CacheConsistent accounts)
    {selectionOptions : List SelectionOption} {returnOptions : List ReturnOption} {o : Options}
    (ho : ∀ pattern, Options.ofArguments
      (.extended "" [pattern] selectionOptions returnOptions) isRev2 = o)
    (hvalid : (o.recursiveMatch && !o.filterSubscribed) = false) :
    ∃ items, (∀ pattern, answered folders accounts isRev2 selectionOptions returnOptions pattern =
        matching [pattern] items) ∧ ∀ item, item ∈ items ↔ Listed folders o accounts item := by
  obtain ⟨items, hitems, hmem⟩ := @listItems_spec folders o accounts hconsistent
  refine ⟨items, fun pattern ↦ ?_, hmem⟩
  have hpatterns : ListArguments.patterns (.extended "" [pattern] selectionOptions returnOptions) =
      [pattern] := by simp [ListArguments.patterns]
  have hseparator : ListArguments.isSeparatorQuery
      (.extended "" [pattern] selectionOptions returnOptions) = false := rfl
  have hlist : handleList folders accounts (.extended "" [pattern] selectionOptions returnOptions)
      isRev2 = some (.ok (matching [pattern] items, o.includeStatus)) := by
    simp only [handleList, hseparator, Bool.not_false, if_true, list, ho, hvalid, hpatterns, hitems,
      Bool.false_eq_true, if_false, Option.map_some]
  rw [answered, hlist]

theorem matching_star (items : List ListItem) : matching ["*"] items = items :=
  List.filter_eq_self.mpr fun item _ ↦ matchesPattern_star item.mailboxName

/-- What a client asks for that goes on below what has children. -/
def childrenOptions (isRev2 : Bool) : Options :=
  { includeChildren := true, includeSpecialUse := isRev2 }

theorem mem_shown_children {mailboxName : String} {mailbox : Mailbox} {recursive : Bool}
    {item : ListItem} :
    item ∈ shown (childrenOptions isRev2) mailboxName mailbox recursive ↔
      item = mailboxItem (childrenOptions isRev2) mailboxName mailbox recursive := by
  simp [shown, childrenOptions]

/-- Only what is marked to have children is gone into, and then it is the folder of an account, the
folder that these are in, or a mailbox. -/
theorem wildless_of_hasChildren (h : Walkable folders accounts) {item : ListItem}
    (hitem : Listed folders (childrenOptions isRev2) accounts item)
    (hchildren : Attribute.hasChildren ∈ item.attributes) : Wildless item.mailboxName := by
  rcases hitem with ⟨-, rfl | ⟨-, rfl⟩ | ⟨account, haccount, p, hp, rfl⟩⟩ |
    ⟨account, haccount, mailboxName, mailboxId, mailbox, recursive, hname, -, -, hshown⟩
  · simp at hchildren
  · exact h.folderShared.2
  · exact (h.namePrefix account haccount p hp).1
  · rw [name_of_mem_shown hshown]
    exact h.names account haccount mailboxName (mem_iff_exists_getElem?.mpr ⟨_, hname⟩)

/-- What is above a listed name is listed too, and marked to have children. -/
theorem linked_children (hforest : Forest accounts) (hconsistent : CacheConsistent accounts)
    (h : Walkable folders accounts) {item : ListItem}
    (hitem : Listed folders (childrenOptions isRev2) accounts item) {q x : String}
    (hx : SlashFree x) (hq : item.mailboxName = q ++ "/" ++ x) :
    ∃ parent, Listed folders (childrenOptions isRev2) accounts parent ∧
      parent.mailboxName = q ∧ Attribute.hasChildren ∈ parent.attributes := by
  have hslash : ∀ {n : String}, SlashFree n → n = q ++ "/" ++ x → False :=
    fun hn hnq ↦ not_below_slashFree hn (below_iff.mpr ⟨x, hnq⟩)
  rcases hitem with ⟨-, rfl | ⟨-, rfl⟩ | ⟨account, haccount, p, hp, rfl⟩⟩ |
    ⟨account, haccount, mailboxName, mailboxId, mailbox, recursive, hname, -, -, hshown⟩
  · exact (hslash h.folderAll hq).elim
  · exact (hslash h.folderShared.1 hq).elim
  · obtain ⟨-, y, hy, rfl⟩ := h.namePrefix account haccount p hp
    obtain ⟨rfl, -⟩ := child_inj hy hx hq
    exact ⟨folderItem _ folders.folderShared,
      .inl ⟨rfl, .inr (.inl ⟨⟨account, haccount, Option.isSome_iff_exists.mpr ⟨_, hp⟩⟩, rfl⟩)⟩,
      rfl, by simp [folderItem, childrenOptions]⟩
  · obtain rfl := (name_of_mem_shown hshown).symm.trans hq
    have hmem : q ++ "/" ++ x ∈ account.mailboxNames :=
      mem_iff_exists_getElem?.mpr ⟨_, hname⟩
    rcases (hforest.tree account haccount).closed q x hx hmem with hparent | hprefix
    · obtain ⟨parentId, hparentId⟩ := mem_iff_exists_getElem?.mp hparent
      have hentry : (q, parentId) ∈ account.mailboxNames.toList :=
        Std.ExtTreeMap.mem_toList_iff_getElem?_eq_some.mpr hparentId
      have hdata := data_of_consistent (hconsistent account haccount)
      obtain ⟨parent, hdataParent⟩ := hdata _ hentry
      obtain ⟨b, hb, -⟩ := @hasRecursiveMatch_spec (childrenOptions isRev2) account hdata q
      have hflag : parent.hasChildren = true :=
        (hforest.flags account haccount q parentId parent hparentId hdataParent).mpr
          (.inl ⟨_, hmem, below_append q x⟩)
      exact ⟨mailboxItem _ q parent b, .inr ⟨account, haccount, q, parentId, parent, b, hparentId,
        hdataParent, hb, mem_shown_children.mpr rfl⟩, rfl,
        by simp [mailboxItem, childrenOptions, hflag]⟩
    · exact ⟨folderItem _ q, .inl ⟨rfl, .inr (.inr ⟨account, haccount, q, hprefix, rfl⟩)⟩, rfl,
        by simp [folderItem, childrenOptions]⟩

end

section

variable {folders : Folders} {accounts : List Account} {isRev2 : Bool}

/-- What a client asks for that wants what is subscribed, and to be told where there is more. -/
def subscribedOptions (isRev2 : Bool) : Options :=
  { filterSubscribed := true, includeSubscribed := true, recursiveMatch := true,
    includeSpecialUse := isRev2 }

/-- A subscribed mailbox of an account. -/
def SubscribedIn (account : Account) (mailboxName : String) : Prop :=
  ∃ (mailboxId : String) (mailbox : Mailbox), account.mailboxNames[mailboxName]? = some mailboxId ∧
    account.mailboxData[mailboxId]? = some mailbox ∧ mailbox.isSubscribed = true

theorem SubscribedIn.mem {account : Account} {mailboxName : String}
    (h : SubscribedIn account mailboxName) : mailboxName ∈ account.mailboxNames := by
  obtain ⟨mailboxId, mailbox, hname, -⟩ := h
  exact mem_iff_exists_getElem?.mpr ⟨mailboxId, hname⟩

theorem hasRecursiveMatch_subscribed {account : Account} (h : account.Consistent)
    (mailboxName : String) :
    ∃ recursive, hasRecursiveMatch (subscribedOptions isRev2) account mailboxName =
        some recursive ∧
      (recursive = true ↔ ∃ n, SubscribedIn account n ∧ Below mailboxName n) := by
  obtain ⟨recursive, hrecursive, hiff⟩ :=
    @hasRecursiveMatch_spec (subscribedOptions isRev2) account (data_of_consistent h) mailboxName
  refine ⟨recursive, hrecursive, hiff.trans ?_⟩
  constructor
  · rintro ⟨-, e, he, hbelow, mailbox, hmailbox, hsubscribed⟩
    exact ⟨e.1, ⟨e.2, mailbox, Std.ExtTreeMap.mem_toList_iff_getElem?_eq_some.mp he, hmailbox,
      hsubscribed⟩, hbelow⟩
  · rintro ⟨n, ⟨mailboxId, mailbox, hname, hmailbox, hsubscribed⟩, hbelow⟩
    exact ⟨rfl, (n, mailboxId), Std.ExtTreeMap.mem_toList_iff_getElem?_eq_some.mpr hname, hbelow,
      mailbox, hmailbox, hsubscribed⟩

theorem mem_shown_subscribed {mailboxName : String} {mailbox : Mailbox} {recursive : Bool}
    {item : ListItem} :
    item ∈ shown (subscribedOptions isRev2) mailboxName mailbox recursive ↔
      (mailbox.isSubscribed = true ∨ recursive = true) ∧
        item = mailboxItem (subscribedOptions isRev2) mailboxName mailbox recursive := by
  cases hsubscribed : mailbox.isSubscribed <;> cases recursive <;>
    simp [shown, subscribedOptions, hsubscribed]

theorem subscribed_mem_mailboxItem {mailboxName : String} {mailbox : Mailbox} {recursive : Bool} :
    Attribute.subscribed ∈
        (mailboxItem (subscribedOptions isRev2) mailboxName mailbox recursive).attributes ↔
      mailbox.isSubscribed = true := by
  cases hrole : mailbox.role <;> cases isRev2 <;>
    simp [mailboxItem, subscribedOptions, roleAttribute, hrole]

theorem childInfo_mailboxItem {mailboxName : String} {mailbox : Mailbox} {recursive : Bool} :
    (mailboxItem (subscribedOptions isRev2) mailboxName mailbox recursive).tags.any
        Tag.isChildInfo = recursive := by
  cases recursive <;> simp [mailboxItem, Tag.isChildInfo]

/-- The mailboxes that are listed are those that are subscribed or above one that is. -/
theorem listed_subscribed (hconsistent : CacheConsistent accounts) {item : ListItem} :
    Listed folders (subscribedOptions isRev2) accounts item ↔
      ∃ account ∈ accounts, ∃ (mailboxName mailboxId : String) (mailbox : Mailbox)
          (recursive : Bool), account.mailboxNames[mailboxName]? = some mailboxId ∧
        account.mailboxData[mailboxId]? = some mailbox ∧
        (recursive = true ↔ ∃ n, SubscribedIn account n ∧ Below mailboxName n) ∧
        (mailbox.isSubscribed = true ∨ recursive = true) ∧
        item = mailboxItem (subscribedOptions isRev2) mailboxName mailbox recursive := by
  constructor
  · rintro (⟨hnot, -⟩ | ⟨account, haccount, mailboxName, mailboxId, mailbox, recursive, hname,
      hmailbox, hrecursive, hshown⟩)
    · cases hnot
    · obtain ⟨hshown, hitem⟩ := mem_shown_subscribed.mp hshown
      obtain ⟨recursive', hrecursive', hiff⟩ :=
        @hasRecursiveMatch_subscribed isRev2 account (hconsistent account haccount) mailboxName
      obtain rfl := Option.some.inj (hrecursive.symm.trans hrecursive')
      exact ⟨account, haccount, mailboxName, mailboxId, mailbox, recursive, hname, hmailbox, hiff,
        hshown, hitem⟩
  · rintro ⟨account, haccount, mailboxName, mailboxId, mailbox, recursive, hname, hmailbox, hiff,
      hshown, hitem⟩
    obtain ⟨recursive', hrecursive, hiff'⟩ :=
      @hasRecursiveMatch_subscribed isRev2 account (hconsistent account haccount) mailboxName
    obtain rfl : recursive' = recursive := Bool.eq_iff_iff.mpr (hiff'.trans hiff.symm)
    exact .inr ⟨account, haccount, mailboxName, mailboxId, mailbox, recursive', hname, hmailbox,
      hrecursive, mem_shown_subscribed.mpr ⟨hshown, hitem⟩⟩

/-- Where nothing is subscribed in a shared account, what is above a listed mailbox is listed with
`CHILDINFO`. -/
theorem linked_subscribed (htree : ∀ account ∈ accounts, account.Tree)
    (hconsistent : CacheConsistent accounts)
    (hown : ∀ account ∈ accounts, ∀ n, SubscribedIn account n → account.namePrefix = none)
    {item : ListItem} (hitem : Listed folders (subscribedOptions isRev2) accounts item)
    {q x : String} (hx : SlashFree x) (hq : item.mailboxName = q ++ "/" ++ x) :
    ∃ parent, Listed folders (subscribedOptions isRev2) accounts parent ∧
      parent.mailboxName = q ∧ parent.tags.any Tag.isChildInfo = true := by
  obtain ⟨account, haccount, mailboxName, mailboxId, mailbox, recursive, hname, hmailbox, hiff,
    hshown, rfl⟩ := (listed_subscribed hconsistent).mp hitem
  obtain rfl : mailboxName = q ++ "/" ++ x := hq
  have hbelow : ∃ n, SubscribedIn account n ∧ Below q n := by
    rcases hshown with hsubscribed | hrecursive
    · exact ⟨_, ⟨mailboxId, mailbox, hname, hmailbox, hsubscribed⟩, below_append q x⟩
    · obtain ⟨n, hn, hbelow⟩ := hiff.mp hrecursive
      exact ⟨n, hn, (below_append q x).trans hbelow⟩
  obtain ⟨n, hn, -⟩ := id hbelow
  have hmem : q ++ "/" ++ x ∈ account.mailboxNames := mem_iff_exists_getElem?.mpr ⟨_, hname⟩
  have hparent : q ∈ account.mailboxNames := by
    rcases (htree account haccount).closed q x hx hmem with hparent | hprefix
    · exact hparent
    · cases (hown account haccount n hn).symm.trans hprefix
  obtain ⟨parentId, hparentId⟩ := mem_iff_exists_getElem?.mp hparent
  obtain ⟨parent, hdata⟩ := data_of_consistent (hconsistent account haccount) _
    (Std.ExtTreeMap.mem_toList_iff_getElem?_eq_some.mpr hparentId)
  exact ⟨mailboxItem _ q parent true, (listed_subscribed hconsistent).mpr ⟨account, haccount, q,
    parentId, parent, true, hparentId, hdata, iff_of_true rfl hbelow, .inr rfl, rfl⟩, rfl,
    childInfo_mailboxItem⟩

/-- Nothing that is found is below the folder that the shared accounts are in: it is not listed
itself, so that no client goes on below it. -/
theorem not_below_folderShared (hconsistent : CacheConsistent accounts)
    (hwalkable : Walkable folders accounts)
    (hshared : ∀ account ∈ accounts, folders.folderShared ∉ account.mailboxNames)
    {items : List ListItem}
    (hanswered : ∀ pattern, answered folders accounts isRev2 [.subscribed, .recursiveMatch] []
      pattern = matching [pattern] items)
    (hmem : ∀ item, item ∈ items ↔ Listed folders (subscribedOptions isRev2) accounts item)
    {levels : ℕ} {item : ListItem} (hitem : item ∈ subscribedWalk folders accounts isRev2 levels) :
    item ∈ items ∧ ¬ Below folders.folderShared item.mailboxName := by
  have hnamed : ∀ item ∈ items, ∃ account ∈ accounts, item.mailboxName ∈ account.mailboxNames := by
    intro item hitem
    obtain ⟨account, haccount, mailboxName, mailboxId, mailbox, recursive, hname, -, -, -, rfl⟩ :=
      (listed_subscribed hconsistent).mp ((hmem item).mp hitem)
    exact ⟨account, haccount, mem_iff_exists_getElem?.mpr ⟨_, hname⟩⟩
  refine walk_induct (P := fun item ↦ item ∈ items ∧ ¬ Below folders.folderShared item.mailboxName)
    ?_ ?_ hitem
  · intro item hitem
    rw [hanswered] at hitem
    obtain ⟨hitem, hmatches⟩ := List.mem_filter.mp hitem
    obtain ⟨x, hx, hname⟩ := (matchesPattern_level (by decide) _).mp hmatches
    rw [String.empty_append] at hname
    exact ⟨hitem, hname ▸ not_below_slashFree hx⟩
  · rintro above k ⟨habove, hnot⟩ hk item hitem
    split_ifs at hk
    obtain rfl := Option.some.inj hk
    rw [hanswered] at hitem
    obtain ⟨hitem, hmatches⟩ := List.mem_filter.mp hitem
    obtain ⟨account, haccount, hn⟩ := hnamed above habove
    have hwild := wildless_below (hwalkable.names account haccount _ hn)
    obtain ⟨x, hx, hname⟩ := (matchesPattern_level hwild _).mp hmatches
    refine ⟨hitem, ?_⟩
    rw [hname, below_child_iff hx]
    rintro (heq | hbelow)
    · exact hshared account haccount (heq ▸ hn)
    · exact hnot hbelow

end

end Listing

end ImapToJmap
