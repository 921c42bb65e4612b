import ImapToJmap.Mailboxes.Tree

/-!
# The tree of a listing

`fetch_account_mailboxes` walks a listing from the top level down, with a stack for at most a
hundred levels, and enters each mailbox it comes to under its path.  `entries` is the list of what
it comes to, in its order.

The names it enters form a tree, and the flags it takes from the parent ids are right for it, if
every mailbox has a path of its own and the walk does not run out of levels.
-/

namespace ImapToJmap

open Jmap

/-- Some mailbox of the listing has the other one for its parent. -/
def hasChild (result : List MailboxObject) (mailbox : MailboxObject) : Bool :=
  result.any fun child ↦ child.parentId = mailbox.id

/-- The mailboxes that the walk comes to, with their paths. -/
def entries (namePrefix : Option String) (result : List MailboxObject) :
    ℕ → Option String → List String → List (MailboxObject × List String)
  | 0, parentId, path => result.flatMap fun m ↦
      if m.parentId = parentId then [(m, path ++ [pathItem namePrefix m])] else []
  | levels + 1, parentId, path => result.flatMap fun m ↦
      if m.parentId = parentId then
        (m, path ++ [pathItem namePrefix m]) ::
          if hasChild result m then
            entries namePrefix result levels m.id (path ++ [pathItem namePrefix m])
          else []
      else []

/-- Enter the mailboxes one after the other. -/
def Account.enterAll (result : List MailboxObject) (account : Account)
    (l : List (MailboxObject × List String)) : Account :=
  l.foldl (fun account e ↦ account.enter e.1 (e.1.id.getD "") e.2 (hasChild result e.1)) account

/-- What a server promises of a listing: an id of its own for each mailbox, and names without
separators. -/
structure Listing (result : List MailboxObject) : Prop where
  ids : ∀ m ∈ result, m.id.isSome = true
  nodup : (result.map MailboxObject.id).Nodup
  names : ∀ m ∈ result, SlashFree (m.name.getD "")

instance (result : List MailboxObject) : Decidable (Listing result) :=
  decidable_of_iff ((∀ m ∈ result, m.id.isSome = true) ∧ (result.map MailboxObject.id).Nodup ∧
      ∀ m ∈ result, SlashFree (m.name.getD ""))
    ⟨fun h ↦ ⟨h.1, h.2.1, h.2.2⟩, fun h ↦ ⟨h.ids, h.nodup, h.names⟩⟩

namespace Account

variable {result : List MailboxObject}

theorem enterAll_namePrefix (account : Account) (l : List (MailboxObject × List String)) :
    (account.enterAll result l).namePrefix = account.namePrefix := by
  induction l generalizing account with
  | nil => rfl
  | cons e l ih => exact ih _

/-- One level of the walk, if what is below a mailbox is entered as it should be. -/
theorem visitLevel_eq (hids : ∀ m ∈ result, m.id.isSome = true)
    {below : Option (Option String → List String → Account → Option Account)}
    (deeper : MailboxObject → List String → List (MailboxObject × List String))
    (parentId : Option String) (path : List String) (account : Account)
    (hbelow : ∀ m path (account' : Account), account'.namePrefix = account.namePrefix →
      (match below with
        | some below => if hasChild result m then below m.id path account' else some account'
        | none => some account') = some (account'.enterAll result (deeper m path))) :
    visitLevel result below parentId path account =
      some (account.enterAll result (result.flatMap fun m ↦
        if m.parentId = parentId then
          (m, path ++ [pathItem account.namePrefix m]) ::
            deeper m (path ++ [pathItem account.namePrefix m])
        else [])) := by
  unfold visitLevel
  -- the listing that children are looked up in stays, the one the loop is in shrinks
  suffices h : ∀ (l : List MailboxObject) (account' : Account),
      (∀ m ∈ l, m.id.isSome = true) → account'.namePrefix = account.namePrefix →
      (l.foldlM (fun account mailbox ↦
        if mailbox.parentId = parentId then do
          let mailboxId ← mailbox.id
          let mailboxPath := path ++ [pathItem account.namePrefix mailbox]
          let hasChildren := result.any fun child ↦ child.parentId = mailbox.id
          let account := account.enter mailbox mailboxId mailboxPath hasChildren
          match below with
          | some below => if hasChildren then below mailbox.id mailboxPath account else account
          | none => account
        else account) account' : Option Account) =
      some (account'.enterAll result (l.flatMap fun m ↦
        if m.parentId = parentId then
          (m, path ++ [pathItem account.namePrefix m]) ::
            deeper m (path ++ [pathItem account.namePrefix m])
        else [])) from h result account hids rfl
  intro l
  induction l with
  | nil => exact fun _ _ _ ↦ rfl
  | cons m l ih =>
      intro account' hl hpre
      have hl' : ∀ m ∈ l, m.id.isSome = true := fun m hm ↦ hl m (List.mem_cons_of_mem _ hm)
      rw [List.foldlM_cons, List.flatMap_cons, enterAll, List.foldl_append, ← enterAll]
      split
      · obtain ⟨id, hid⟩ := Option.isSome_iff_exists.mp (hl m List.mem_cons_self)
        have hnext := hbelow m (path ++ [pathItem account.namePrefix m])
          (account'.enter m id (path ++ [pathItem account.namePrefix m]) (hasChild result m)) hpre
        rw [← ih _ hl']
        · simp only [hid, Option.bind_eq_bind, Option.bind_some, hpre, List.foldl_cons,
            Option.getD_some]
          simp only [hid, hasChild] at hnext
          rw [hnext, Option.bind_some]
          simp only [enterAll, hid, hasChild]
        · exact (enterAll_namePrefix _ _).trans hpre
      · exact ih account' hl' hpre

/-- The walk enters its entries. -/
theorem buildTree_eq (hids : ∀ m ∈ result, m.id.isSome = true) (levels : ℕ)
    (parentId : Option String) (path : List String) (account : Account) :
    buildTree result levels parentId path account =
      some (account.enterAll result
        (entries account.namePrefix result levels parentId path)) := by
  induction levels generalizing parentId path account with
  | zero =>
      refine visitLevel_eq hids (fun _ _ ↦ []) parentId path account ?_
      exact fun _ _ _ _ ↦ rfl
  | succ levels ih =>
      refine visitLevel_eq hids (fun m path ↦
        if hasChild result m then entries account.namePrefix result levels m.id path else [])
        parentId path account ?_
      intro m path account' hpre
      dsimp only
      split
      · rw [ih, hpre]
      · rfl

end Account

/-! ## The entries -/

section Entries

variable {namePrefix : Option String} {result : List MailboxObject}

theorem mem_entries_zero {parentId : Option String} {path : List String}
    {e : MailboxObject × List String} :
    e ∈ entries namePrefix result 0 parentId path ↔
      e.1 ∈ result ∧ e.1.parentId = parentId ∧ e.2 = path ++ [pathItem namePrefix e.1] := by
  simp only [entries, List.mem_flatMap]
  constructor
  · rintro ⟨m, hm, he⟩
    split at he
    · rename_i hparent
      obtain rfl := List.mem_singleton.mp he
      exact ⟨hm, hparent, rfl⟩
    · cases he
  · rintro ⟨hm, hparent, hpath⟩
    refine ⟨e.1, hm, ?_⟩
    rw [if_pos hparent, ← hpath]
    exact List.mem_singleton.mpr rfl

theorem mem_entries_succ {levels : ℕ} {parentId : Option String} {path : List String}
    {e : MailboxObject × List String} :
    e ∈ entries namePrefix result (levels + 1) parentId path ↔
      (e.1 ∈ result ∧ e.1.parentId = parentId ∧ e.2 = path ++ [pathItem namePrefix e.1]) ∨
      ∃ m ∈ result, m.parentId = parentId ∧ hasChild result m = true ∧
        e ∈ entries namePrefix result levels m.id (path ++ [pathItem namePrefix m]) := by
  simp only [entries, List.mem_flatMap]
  constructor
  · rintro ⟨m, hm, he⟩
    split at he
    · rename_i hparent
      rcases List.mem_cons.mp he with rfl | he
      · exact .inl ⟨hm, hparent, rfl⟩
      · split at he
        · rename_i hchild
          exact .inr ⟨m, hm, hparent, hchild, he⟩
        · cases he
    · cases he
  · rintro (⟨hm, hparent, hpath⟩ | ⟨m, hm, hparent, hchild, he⟩)
    · refine ⟨e.1, hm, ?_⟩
      rw [if_pos hparent, ← hpath]
      exact List.mem_cons_self
    · refine ⟨m, hm, ?_⟩
      rw [if_pos hparent, if_pos hchild]
      exact List.mem_cons_of_mem _ he

/-- The top of a walk. -/
theorem mem_entries_top {levels : ℕ} {parentId : Option String} {path : List String}
    {m : MailboxObject} (hm : m ∈ result) (hparent : m.parentId = parentId) :
    (m, path ++ [pathItem namePrefix m]) ∈ entries namePrefix result levels parentId path := by
  cases levels with
  | zero => exact mem_entries_zero.mpr ⟨hm, hparent, rfl⟩
  | succ levels => exact mem_entries_succ.mpr (.inl ⟨hm, hparent, rfl⟩)

theorem length_of_mem_entries {levels : ℕ} {parentId : Option String} {path : List String}
    {e : MailboxObject × List String} (h : e ∈ entries namePrefix result levels parentId path) :
    path.length < e.2.length := by
  induction levels generalizing parentId path with
  | zero =>
      rw [(mem_entries_zero.mp h).2.2]
      simp
  | succ levels ih =>
      rcases mem_entries_succ.mp h with ⟨-, -, hpath⟩ | ⟨m, -, -, -, he⟩
      · rw [hpath]
        simp
      · have := ih he
        simp only [List.length_append, List.length_singleton] at this
        omega

/-- An entry is at the top of the walk, or follows that of its parent. -/
theorem parent_of_mem_entries {levels : ℕ} {parentId : Option String} {path : List String}
    {e : MailboxObject × List String} (h : e ∈ entries namePrefix result levels parentId path) :
    e.1 ∈ result ∧
      (e.1.parentId = parentId ∧ e.2 = path ++ [pathItem namePrefix e.1] ∨
        ∃ e' ∈ entries namePrefix result levels parentId path,
          e.1.parentId = e'.1.id ∧ e.2 = e'.2 ++ [pathItem namePrefix e.1]) := by
  induction levels generalizing parentId path with
  | zero =>
      obtain ⟨hm, hparent, hpath⟩ := mem_entries_zero.mp h
      exact ⟨hm, .inl ⟨hparent, hpath⟩⟩
  | succ levels ih =>
      rcases mem_entries_succ.mp h with ⟨hm, hparent, hpath⟩ | ⟨m, hm, hparent, hchild, he⟩
      · exact ⟨hm, .inl ⟨hparent, hpath⟩⟩
      · obtain ⟨hmem, hcase⟩ := ih he
        refine ⟨hmem, .inr ?_⟩
        rcases hcase with ⟨hid, hpath⟩ | ⟨e', he', hid, hpath⟩
        · exact ⟨(m, path ++ [pathItem namePrefix m]), mem_entries_top hm hparent, hid, hpath⟩
        · exact ⟨e', mem_entries_succ.mpr (.inr ⟨m, hm, hparent, hchild, he'⟩), hid, hpath⟩

/-- The children of an entry follow it, while there are levels left. -/
theorem child_mem_entries {levels : ℕ} {parentId : Option String} {path : List String}
    {e : MailboxObject × List String} (h : e ∈ entries namePrefix result levels parentId path)
    (hlevel : e.2.length ≤ path.length + levels) {child : MailboxObject} (hchild : child ∈ result)
    (hid : child.parentId = e.1.id) :
    (child, e.2 ++ [pathItem namePrefix child]) ∈
      entries namePrefix result levels parentId path := by
  induction levels generalizing parentId path with
  | zero =>
      have := length_of_mem_entries h
      omega
  | succ levels ih =>
      rcases mem_entries_succ.mp h with ⟨hm, hparent, hpath⟩ | ⟨m, hm, hparent, hm_child, he⟩
      · refine mem_entries_succ.mpr (.inr ⟨e.1, hm, hparent, ?_, ?_⟩)
        · exact List.any_eq_true.mpr ⟨child, hchild, by simpa using hid⟩
        · rw [← hpath]
          exact mem_entries_top hchild hid
      · refine mem_entries_succ.mpr (.inr ⟨m, hm, hparent, hm_child, ih he ?_⟩)
        simp only [List.length_append, List.length_singleton]
        omega

end Entries

/-! ## The account of a listing -/

/-- The entries of a listing. -/
def listed (namePrefix : Option String) (result : List MailboxObject) :
    List (MailboxObject × List String) :=
  entries namePrefix result 100 none namePrefix.toList

/-- Every mailbox has a path of its own, and none that has children is so deep that the walk does
not go on to them. -/
def PathsFit (namePrefix : Option String) (result : List MailboxObject) : Prop :=
  ((listed namePrefix result).map fun e ↦ joinPath e.2).Nodup ∧
    ∀ e ∈ listed namePrefix result,
      namePrefix.toList.length + 100 < e.2.length → hasChild result e.1 = false

instance (namePrefix : Option String) (result : List MailboxObject) :
    Decidable (PathsFit namePrefix result) := inferInstanceAs (Decidable (_ ∧ _))

section Listed

variable {namePrefix : Option String} {result : List MailboxObject}

theorem slashFree_pathItem {m : MailboxObject} (h : SlashFree (m.name.getD "")) :
    SlashFree (pathItem namePrefix m) := by
  unfold pathItem
  split
  · exact h
  · decide

/-- The name of an entry, as that of a child. -/
theorem listed_cases (hresult : Listing result) {e : MailboxObject × List String}
    (h : e ∈ listed namePrefix result) :
    ∃ x, SlashFree x ∧
      (namePrefix = none ∧ joinPath e.2 = x ∨
        (∃ p ∈ namePrefix, joinPath e.2 = p ++ "/" ++ x) ∨
        ∃ e' ∈ listed namePrefix result, e.1.parentId = e'.1.id ∧
          e'.2.length < e.2.length ∧ joinPath e.2 = joinPath e'.2 ++ "/" ++ x) := by
  obtain ⟨hm, hcase⟩ := parent_of_mem_entries h
  refine ⟨pathItem namePrefix e.1, slashFree_pathItem (hresult.names _ hm), ?_⟩
  rcases hcase with ⟨-, hpath⟩ | ⟨e', he', hid, hpath⟩
  · rw [hpath]
    cases namePrefix with
    | none => exact .inl ⟨rfl, joinPath_singleton _⟩
    | some p =>
        refine .inr (.inl ⟨p, rfl, ?_⟩)
        rw [Option.toList_some, joinPath_append_singleton (List.cons_ne_nil _ _),
          joinPath_singleton]
  · refine .inr (.inr ⟨e', he', hid, ?_, ?_⟩)
    · rw [hpath]
      simp
    · have := length_of_mem_entries he'
      rw [hpath, joinPath_append_singleton (List.ne_nil_of_length_pos (by omega))]

/-- An id has one path. -/
theorem listed_path_inj (hids : ∀ m ∈ result, m.id.isSome = true)
    (hnodup : (result.map MailboxObject.id).Nodup) {e e' : MailboxObject × List String}
    (h : e ∈ listed namePrefix result) (h' : e' ∈ listed namePrefix result)
    (hid : e.1.id = e'.1.id) : e = e' := by
  induction hlen : e.2.length using Nat.strong_induction_on generalizing e e' with
  | _ len ih =>
      obtain ⟨hm, hcase⟩ := parent_of_mem_entries h
      obtain ⟨hm', hcase'⟩ := parent_of_mem_entries h'
      have hmailbox : e.1 = e'.1 := List.inj_on_of_nodup_map hnodup hm hm' hid
      refine Prod.ext hmailbox ?_
      have hsome {m : MailboxObject} {e : MailboxObject × List String}
          (he : e ∈ listed namePrefix result) (hparent : m.parentId = e.1.id) :
          m.parentId ≠ none := by
        rw [hparent]
        exact Option.isSome_iff_ne_none.mp (hids _ (parent_of_mem_entries he).1)
      rcases hcase with ⟨htop, hpath⟩ | ⟨f, hf, hparent, hpath⟩
      · rcases hcase' with ⟨-, hpath'⟩ | ⟨f', hf', hparent', hpath'⟩
        · rw [hpath, hpath', hmailbox]
        · exact absurd (hmailbox ▸ htop) (hsome hf' hparent')
      · rcases hcase' with ⟨htop', -⟩ | ⟨f', hf', hparent', hpath'⟩
        · exact absurd (hmailbox ▸ htop') (hsome hf hparent)
        · have hff' : f = f' := by
            refine ih f.2.length ?_ hf hf' ?_ rfl
            · rw [← hlen, hpath]
              simp
            · rw [← hparent, ← hparent', hmailbox]
          rw [hpath, hpath', hff', hmailbox]

end Listed

namespace Account

variable {result : List MailboxObject} {account : Account}

theorem enterAll_names (account : Account) (l : List (MailboxObject × List String)) :
    (account.enterAll result l).mailboxNames =
      (l.map fun e ↦ (joinPath e.2, e.1.id.getD "")).foldl
        (fun (names : Names) e ↦ names.insert e.1 e.2) account.mailboxNames := by
  induction l generalizing account with
  | nil => rfl
  | cons e l ih => exact ih _

theorem enterAll_data {l : List (MailboxObject × List String)} {i : String} {mailbox : Mailbox}
    (h : (account.enterAll result l).mailboxData[i]? = some mailbox) :
    (∃ e ∈ l, e.1.id.getD "" = i ∧ mailbox.hasChildren = hasChild result e.1) ∨
      account.mailboxData[i]? = some mailbox := by
  induction l generalizing account with
  | nil => exact .inr h
  | cons e l ih =>
      rcases ih h with ⟨e', he', hi, hflag⟩ | hdata
      · exact .inl ⟨e', List.mem_cons_of_mem _ he', hi, hflag⟩
      · simp only [enter, Std.ExtTreeMap.getElem?_insert,
          Std.LawfulEqCmp.compare_eq_iff_eq] at hdata
        split at hdata
        · rename_i hi
          exact .inl ⟨e, List.mem_cons_self, hi, (Option.some.inj hdata) ▸ rfl⟩
        · exact .inr hdata

variable {accountId mailboxState : String} {namePrefix : Option String}

theorem ofListing_eq (hids : ∀ m ∈ result, m.id.isSome = true) :
    ofListing accountId namePrefix mailboxState result =
      some (enterAll result
        { accountId, namePrefix, mailboxState, mailboxNames := ∅, mailboxData := ∅, modseq := none }
        (listed namePrefix result)) :=
  buildTree_eq hids 100 none namePrefix.toList _

theorem namePrefix_ofListing (hresult : Listing result)
    (h : ofListing accountId namePrefix mailboxState result = some account) :
    account.namePrefix = namePrefix := by
  rw [ofListing_eq hresult.ids] at h
  rw [← Option.some.inj h, enterAll_namePrefix]

/-- The names of a listed account are the paths of the entries. -/
theorem getElem?_listed_names (hresult : Listing result) (hfit : PathsFit namePrefix result)
    (h : ofListing accountId namePrefix mailboxState result = some account) {n i : String} :
    account.mailboxNames[n]? = some i ↔
      ∃ e ∈ listed namePrefix result, joinPath e.2 = n ∧ e.1.id = some i := by
  rw [ofListing_eq hresult.ids] at h
  obtain rfl := Option.some.inj h
  rw [enterAll_names, getElem?_foldl_insert]
  · simp only [List.mem_map, Prod.mk.injEq, Std.ExtTreeMap.getElem?_empty, reduceCtorEq, and_false,
      or_false]
    refine exists_congr fun e ↦ and_congr_right fun he ↦ and_congr_right fun _ ↦ ?_
    obtain ⟨id, hid⟩ := Option.isSome_iff_exists.mp (hresult.ids _ (parent_of_mem_entries he).1)
    simp [hid]
  · simp only [List.mem_map]
    rintro _ ⟨e, he, rfl⟩ _ ⟨e', he', rfl⟩ heq
    rw [List.inj_on_of_nodup_map hfit.1 he he' heq]

/-- The flag of a mailbox of a listed account. -/
theorem hasChildren_listed (hresult : Listing result)
    (h : ofListing accountId namePrefix mailboxState result = some account) {i : String}
    {mailbox : Mailbox} (hmailbox : account.mailboxData[i]? = some mailbox)
    {e : MailboxObject × List String} (he : e ∈ listed namePrefix result)
    (hid : e.1.id = some i) : mailbox.hasChildren = hasChild result e.1 := by
  rw [ofListing_eq hresult.ids] at h
  obtain rfl := Option.some.inj h
  rcases enterAll_data hmailbox with ⟨e', he', hi, hflag⟩ | hdata
  · obtain ⟨id, hid'⟩ := Option.isSome_iff_exists.mp (hresult.ids _ (parent_of_mem_entries he').1)
    rw [hid', Option.getD_some] at hi
    rw [hflag, listed_path_inj hresult.ids hresult.nodup he he' (hid.trans (hi ▸ hid').symm)]
  · simp at hdata

/-- **A listing** makes a tree. -/
theorem tree_ofListing (hresult : Listing result) (hfit : PathsFit namePrefix result)
    (h : ofListing accountId namePrefix mailboxState result = some account) :
    account.Tree := by
  have hpre := namePrefix_ofListing hresult h
  have hnames {n i : String} := getElem?_listed_names hresult hfit h (n := n) (i := i)
  have hmem {e : MailboxObject × List String} (he : e ∈ listed namePrefix result) :
      joinPath e.2 ∈ account.mailboxNames := by
    obtain ⟨id, hid⟩ := Option.isSome_iff_exists.mp (hresult.ids _ (parent_of_mem_entries he).1)
    exact mem_iff_exists_getElem?.mpr ⟨id, hnames.mpr ⟨e, he, rfl, hid⟩⟩
  refine ⟨?_, ?_, ?_⟩
  · intro n n' i hn hn'
    obtain ⟨e, he, rfl, hid⟩ := hnames.mp hn
    obtain ⟨e', he', rfl, hid'⟩ := hnames.mp hn'
    rw [listed_path_inj hresult.ids hresult.nodup he he' (hid.trans hid'.symm)]
  · intro q x hx hq
    obtain ⟨i, hq⟩ := mem_iff_exists_getElem?.mp hq
    obtain ⟨e, he, heq, -⟩ := hnames.mp hq
    obtain ⟨y, hy, ⟨-, hjoin⟩ | ⟨p, hp, hjoin⟩ | ⟨e', he', -, -, hjoin⟩⟩ := listed_cases hresult he
    · rw [hjoin] at heq
      exact absurd (heq ▸ below_append q x) (not_below_slashFree hy)
    · obtain ⟨rfl, -⟩ := child_inj hx hy (heq.symm.trans hjoin)
      exact .inr (hpre.trans hp)
    · obtain ⟨rfl, -⟩ := child_inj hx hy (heq.symm.trans hjoin)
      exact .inl (hmem he')
  · intro p hp n hn
    rw [hpre] at hp
    obtain ⟨i, hi⟩ := mem_iff_exists_getElem?.mp hn
    obtain ⟨e, he, rfl, -⟩ := hnames.mp hi
    clear hn hi
    induction hlen : e.2.length using Nat.strong_induction_on generalizing e with
    | _ len ih =>
        obtain ⟨y, hy, ⟨hnone, -⟩ | ⟨p', hp', hjoin⟩ | ⟨e', he', -, hlt, hjoin⟩⟩ :=
          listed_cases hresult he
        · cases hnone.symm.trans hp
        · obtain rfl := Option.some.inj (hp.symm.trans hp')
          rw [hjoin]
          exact below_append p y
        · rw [hjoin]
          exact (ih e'.2.length (hlen ▸ hlt) e' he' rfl).trans (below_append _ y)

/-- **A listing** makes flags that are right for its names. -/
theorem flags_ofListing (hresult : Listing result) (hfit : PathsFit namePrefix result)
    (h : ofListing accountId namePrefix mailboxState result = some account) :
    account.Flags none := by
  have htree := tree_ofListing hresult hfit h
  have hnames {n i : String} := getElem?_listed_names hresult hfit h (n := n) (i := i)
  intro n i mailbox hn hmailbox
  obtain ⟨e, he, rfl, hid⟩ := hnames.mp hn
  rw [hasChildren_listed hresult h hmailbox he hid]
  simp only [reduceCtorEq, or_false]
  constructor
  · intro hchild
    obtain ⟨child, hmem, hparent⟩ := List.any_eq_true.mp hchild
    have hlevel : e.2.length ≤ namePrefix.toList.length + 100 := by
      by_contra hlt
      rw [hfit.2 e he (by omega)] at hchild
      cases hchild
    have hentry := child_mem_entries he hlevel hmem (by simpa using hparent)
    obtain ⟨id, hid⟩ := Option.isSome_iff_exists.mp (hresult.ids child hmem)
    have hlength := length_of_mem_entries he
    refine ⟨_, mem_iff_exists_getElem?.mpr ⟨id, hnames.mpr ⟨_, hentry, rfl, hid⟩⟩, ?_⟩
    rw [joinPath_append_singleton (List.ne_nil_of_length_pos (by omega))]
    exact below_append _ _
  · rintro ⟨n', hn', hbelow⟩
    obtain ⟨i', hi'⟩ := mem_iff_exists_getElem?.mp hn'
    obtain ⟨e', he', rfl, -⟩ := hnames.mp hi'
    clear hn' hi'
    -- by induction on the path below, up to the child it goes through
    induction hlen : e'.2.length using Nat.strong_induction_on generalizing e' with
    | _ len ih =>
        obtain ⟨y, hy, ⟨-, hjoin⟩ | ⟨p, hp, hjoin⟩ | ⟨f, hf, hparent, hlt, hjoin⟩⟩ :=
          listed_cases hresult he'
        · rw [hjoin] at hbelow
          exact absurd hbelow (not_below_slashFree hy)
        · rw [hjoin, below_child_iff hy] at hbelow
          exact absurd ⟨p, (namePrefix_ofListing hresult h).trans hp, hbelow⟩
            (htree.not_above_root (mem_iff_exists_getElem?.mpr ⟨i, hn⟩))
        · rw [hjoin, below_child_iff hy] at hbelow
          rcases hbelow with heq | hbelow
          · have hef : e = f := List.inj_on_of_nodup_map hfit.1 he hf heq
            exact List.any_eq_true.mpr
              ⟨e'.1, (parent_of_mem_entries he').1, by simpa [hef] using hparent⟩
          · exact ih f.2.length (hlen ▸ hlt) f hf hbelow rfl

end Account

end ImapToJmap
