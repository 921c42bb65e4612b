import ImapToJmap.Mailboxes.Create
import ImapToJmap.Mailboxes.Listing

/-!
# The names of a listing

A mailbox has one path through the parents to the top level, and `fetch_account_mailboxes` names it
by the path with its parts joined.  Names may contain the separator and a mailbox beside the inbox
may be called `INBOX`, so that two paths can join to one name.  Then one of the mailboxes is
overwritten, and there is no other way to lose one (`namesExactly_iff`).
-/

namespace ImapToJmap

open Jmap

/-- The path of a mailbox through its parents. -/
inductive PathOf (namePrefix : Option String) (result : List MailboxObject) :
    MailboxObject → List String → Prop where
  | top {m : MailboxObject} (hm : m ∈ result) (hparent : m.parentId = none) :
      PathOf namePrefix result m (namePrefix.toList ++ [pathItem namePrefix m])
  | child {m parent : MailboxObject} {path : List String}
      (habove : PathOf namePrefix result parent path) (hm : m ∈ result)
      (hparent : m.parentId = parent.id) :
      PathOf namePrefix result m (path ++ [pathItem namePrefix m])

/-- What a server promises of a listing: each mailbox has an id of its own and is in a tree, no tree
is too deep, and siblings have different names. -/
structure IsForest (namePrefix : Option String) (result : List MailboxObject) : Prop where
  ids : ∀ m ∈ result, m.id.isSome = true
  nodup : (result.map MailboxObject.id).Nodup
  rooted : ∀ m ∈ result, ∃ path, PathOf namePrefix result m path
  depth : ∀ m path, PathOf namePrefix result m path → path.length ≤ namePrefix.toList.length + 100
  siblings : ∀ m ∈ result, ∀ m' ∈ result, m.parentId = m'.parentId →
    m.name.getD "" = m'.name.getD "" → m = m'

/-- Different mailboxes have paths that join to different names. -/
def PathsDiffer (namePrefix : Option String) (result : List MailboxObject) : Prop :=
  ∀ m path m' path', PathOf namePrefix result m path → PathOf namePrefix result m' path' →
    joinPath path = joinPath path' → m = m'

/-- What is expected of the names: each mailbox has one, and it is the path. -/
structure NamesExactly (account : Account) (namePrefix : Option String)
    (result : List MailboxObject) : Prop where
  one : ∀ m ∈ result, ∃! n : String, account.mailboxNames[n]? = m.id
  path : ∀ n i : String, account.mailboxNames[n]? = some i ↔
    ∃ m path, PathOf namePrefix result m path ∧ joinPath path = n ∧ m.id = some i

section

variable {namePrefix : Option String} {result : List MailboxObject} {m m' : MailboxObject}
  {path path' : List String}

theorem PathOf.mem (h : PathOf namePrefix result m path) : m ∈ result := by
  cases h with
  | top hm hparent => exact hm
  | child habove hm hparent => exact hm

theorem PathOf.length_lt (h : PathOf namePrefix result m path) :
    namePrefix.toList.length < path.length := by
  induction h with
  | top hm hparent => simp
  | child habove hm hparent ih =>
      rw [List.length_append]
      exact Nat.lt_add_right _ ih

/-- The walk comes to the mailboxes by their paths. -/
theorem mem_listed_iff (hdepth : ∀ m path, PathOf namePrefix result m path →
    path.length ≤ namePrefix.toList.length + 100) :
    (m, path) ∈ listed namePrefix result ↔ PathOf namePrefix result m path := by
  constructor
  · intro h
    -- by induction on the path, from the parent
    induction hlen : path.length using Nat.strong_induction_on generalizing m path with
    | _ len ih =>
        obtain ⟨hm, ⟨hparent, hpath⟩ | ⟨e', he', hparent, hpath⟩⟩ := parent_of_mem_entries h
        · dsimp only at hparent hpath
          rw [hpath]
          exact .top hm hparent
        · dsimp only at hparent hpath
          rw [hpath]
          refine .child (ih e'.2.length ?_ he' rfl) hm hparent
          rw [← hlen, hpath]
          simp
  · intro h
    induction h with
    | top hm hparent => exact mem_entries_top hm hparent
    | child habove hm hparent ih => exact child_mem_entries ih (hdepth _ _ habove) hm hparent

theorem IsForest.path_unique (hforest : IsForest namePrefix result)
    (h : PathOf namePrefix result m path) (h' : PathOf namePrefix result m path') :
    path = path' := by
  have heq := listed_path_inj hforest.ids hforest.nodup ((mem_listed_iff hforest.depth).mpr h)
    ((mem_listed_iff hforest.depth).mpr h') rfl
  exact congrArg Prod.snd heq

theorem IsForest.eq_of_id (hforest : IsForest namePrefix result)
    (h : PathOf namePrefix result m path) (h' : PathOf namePrefix result m' path')
    (hid : m.id = m'.id) : m = m' :=
  List.inj_on_of_nodup_map hforest.nodup h.mem h'.mem hid

/-- The names of a listed account, if no two mailboxes have the same. -/
theorem getElem?_names_of_pathsDiffer (hforest : IsForest namePrefix result)
    (hdiffer : PathsDiffer namePrefix result) (account : Account)
    (hempty : account.mailboxNames = ∅) {n i : String} :
    (account.enterAll result (listed namePrefix result)).mailboxNames[n]? = some i ↔
      ∃ m path, PathOf namePrefix result m path ∧ joinPath path = n ∧ m.id = some i := by
  have hid {m : MailboxObject} {path : List String} (h : PathOf namePrefix result m path) :
      m.id = some (m.id.getD "") := by
    obtain ⟨id, hid⟩ := Option.isSome_iff_exists.mp (hforest.ids m h.mem)
    rw [hid, Option.getD_some]
  rw [Account.enterAll_names, hempty, getElem?_foldl_insert]
  · simp only [List.mem_map, Prod.mk.injEq, Std.ExtTreeMap.getElem?_empty, reduceCtorEq, and_false,
      or_false]
    constructor
    · rintro ⟨⟨m, path⟩, hmem, hjoin, rfl⟩
      have hpath := (mem_listed_iff hforest.depth).mp hmem
      exact ⟨m, path, hpath, hjoin, hid hpath⟩
    · rintro ⟨m, path, hpath, hjoin, hsome⟩
      refine ⟨(m, path), (mem_listed_iff hforest.depth).mpr hpath, hjoin, ?_⟩
      rw [hsome, Option.getD_some]
  · simp only [List.mem_map]
    rintro _ ⟨⟨m, path⟩, hmem, rfl⟩ _ ⟨⟨m', path'⟩, hmem', rfl⟩ heq
    rw [mem_listed_iff hforest.depth] at hmem hmem'
    obtain rfl : m = m' := hdiffer m path m' path' hmem hmem' heq
    obtain rfl : path = path' := hforest.path_unique hmem hmem'
    rfl

/-- **The names of a listing** are the paths if and only if these join to different names. -/
theorem namesExactly_iff (hforest : IsForest namePrefix result)
    (accountId mailboxState : String) :
    ∃ account, Account.ofListing accountId namePrefix mailboxState result = some account ∧
      (NamesExactly account namePrefix result ↔ PathsDiffer namePrefix result) := by
  refine ⟨_, Account.ofListing_eq hforest.ids, ?_⟩
  constructor
  · intro h m path m' path' hpath hpath' heq
    obtain ⟨id, hid⟩ := Option.isSome_iff_exists.mp (hforest.ids m hpath.mem)
    obtain ⟨id', hid'⟩ := Option.isSome_iff_exists.mp (hforest.ids m' hpath'.mem)
    have hname := (h.path (joinPath path) id).mpr ⟨m, path, hpath, rfl, hid⟩
    have hname' := (h.path (joinPath path) id').mpr ⟨m', path', hpath', heq.symm, hid'⟩
    refine hforest.eq_of_id hpath hpath' ?_
    rw [hid, hid', ← hname, ← hname']
  · intro hdiffer
    have hnames {n i : String} := getElem?_names_of_pathsDiffer hforest hdiffer
      { accountId, namePrefix, mailboxState, mailboxNames := ∅, mailboxData := ∅, modseq := none }
      rfl (n := n) (i := i)
    refine ⟨fun m hm ↦ ?_, fun n i ↦ hnames⟩
    obtain ⟨path, hpath⟩ := hforest.rooted m hm
    obtain ⟨id, hid⟩ := Option.isSome_iff_exists.mp (hforest.ids m hm)
    refine ⟨joinPath path, ?_, fun n hn ↦ ?_⟩
    · rw [hid]
      exact hnames.mpr ⟨m, path, hpath, rfl, hid⟩
    · dsimp only at hn
      rw [hid] at hn
      obtain ⟨m', path', hpath', rfl, hid'⟩ := hnames.mp hn
      obtain rfl : m = m' := hforest.eq_of_id hpath hpath' (hid.trans hid'.symm)
      rw [hforest.path_unique hpath hpath']

/-! ## Names without separators -/

theorem PathOf.joinPath_child (habove : PathOf namePrefix result m path) (x : String) :
    joinPath (path ++ [x]) = joinPath path ++ "/" ++ x :=
  joinPath_append_singleton (List.ne_nil_of_length_pos (Nat.zero_lt_of_lt habove.length_lt)) x

theorem joinPath_top (namePrefix : Option String) (x : String) :
    joinPath (namePrefix.toList ++ [x]) = match namePrefix with
      | none => x
      | some p => p ++ "/" ++ x := by
  cases namePrefix with
  | none => exact joinPath_singleton x
  | some p =>
      rw [Option.toList_some, joinPath_append_singleton (List.cons_ne_nil p []),
        joinPath_singleton]

theorem PathOf.below_prefix {p : String} (h : PathOf (some p) result m path) :
    Below p (joinPath path) := by
  induction h with
  | top hm hparent =>
      rw [joinPath_top]
      exact below_append p _
  | child habove hm hparent ih =>
      rw [habove.joinPath_child]
      exact ih.trans (below_append _ _)

/-- The name of a child is no name at the top level. -/
theorem PathOf.top_ne_child {x : String} (hx : SlashFree x) {y : String} (hy : SlashFree y)
    (habove : PathOf namePrefix result m path) :
    joinPath (namePrefix.toList ++ [x]) ≠ joinPath (path ++ [y]) := by
  rw [habove.joinPath_child, joinPath_top]
  intro heq
  cases namePrefix with
  | none => exact not_below_slashFree hx (heq ▸ below_append (joinPath path) y)
  | some p =>
      obtain ⟨rfl, -⟩ := child_inj hx hy heq
      exact below_irrefl _ habove.below_prefix

/-- Paths of names without separators join to different names, if no mailbox has the name that the
inbox is given beside it. -/
theorem pathsDiffer_of_slashFree (hslash : ∀ m ∈ result, SlashFree (m.name.getD ""))
    (hitems : ∀ m ∈ result, ∀ m' ∈ result, m.parentId = m'.parentId →
      pathItem namePrefix m = pathItem namePrefix m' → m = m') :
    PathsDiffer namePrefix result := by
  intro m path m' path' h h' heq
  have hitem {m : MailboxObject} (hm : m ∈ result) : SlashFree (pathItem namePrefix m) :=
    slashFree_pathItem (hslash m hm)
  induction h generalizing m' path' with
  | top hm hparent =>
      cases h' with
      | top hm' hparent' =>
          refine hitems _ hm _ hm' (hparent.trans hparent'.symm) ?_
          rw [joinPath_top, joinPath_top] at heq
          cases namePrefix with
          | none => exact heq
          | some p => exact (child_inj (hitem hm) (hitem hm') heq).2
      | child habove' hm' hparent' =>
          exact absurd heq (PathOf.top_ne_child (hitem hm) (hitem hm') habove')
  | child habove hm hparent ih =>
      cases h' with
      | top hm' hparent' =>
          exact absurd heq.symm (PathOf.top_ne_child (hitem hm') (hitem hm) habove)
      | child habove' hm' hparent' =>
          rw [habove.joinPath_child, habove'.joinPath_child] at heq
          obtain ⟨habove_eq, hitem_eq⟩ := child_inj (hitem hm) (hitem hm') heq
          have hsame := ih _ _ habove' habove_eq
          exact hitems _ hm _ hm' (hparent.trans (hsame ▸ hparent'.symm)) hitem_eq

end

/-! ## Two listings -/

/-- `A` with a child, and the inbox. -/
def nestedListing : List MailboxObject :=
  [⟨some "n", some "B", some "m", .none, false, 0, 0⟩,
    ⟨some "m", some "A", none, .none, false, 0, 0⟩,
    ⟨some "i", some "Inbox", none, .inbox, false, 0, 0⟩]

/-- `a` with a child `b`, and `a/b` beside it. -/
def clashingListing : List MailboxObject :=
  [⟨some "1", some "a/b", none, .none, false, 0, 0⟩,
    ⟨some "2", some "a", none, .none, false, 0, 0⟩,
    ⟨some "3", some "b", some "2", .none, false, 0, 0⟩]

/-- A listing of two levels is a forest. -/
theorem isForest_of_two_levels {namePrefix : Option String} {result : List MailboxObject}
    (hids : ∀ m ∈ result, m.id.isSome = true) (hnodup : (result.map MailboxObject.id).Nodup)
    (hlevels : ∀ m ∈ result, m.parentId = none ∨
      ∃ parent ∈ result, parent.parentId = none ∧ m.parentId = parent.id)
    (hsiblings : ∀ m ∈ result, ∀ m' ∈ result, m.parentId = m'.parentId →
      m.name.getD "" = m'.name.getD "" → m = m') : IsForest namePrefix result := by
  have hsome {m : MailboxObject} (hm : m ∈ result) : m.id ≠ none :=
    Option.isSome_iff_ne_none.mp (hids m hm)
  refine ⟨hids, hnodup, fun m hm ↦ ?_, fun m path h ↦ ?_, hsiblings⟩
  · rcases hlevels m hm with htop | ⟨parent, hparent, htop, hid⟩
    · exact ⟨_, .top hm htop⟩
    · exact ⟨_, .child (.top hparent htop) hm hid⟩
  · cases h with
    | top hm htop => simp
    | child habove hm hid =>
        rcases hlevels m hm with htop | ⟨parent, hparent, htop, hid'⟩
        · exact absurd (hid.symm.trans htop) (hsome habove.mem)
        · have hsame := List.inj_on_of_nodup_map hnodup habove.mem hparent (hid.symm.trans hid')
          cases habove with
          | top hm' htop' => simp
          | child habove' hm' hid'' =>
              rw [hsame, htop] at hid''
              exact absurd hid''.symm (hsome habove'.mem)

theorem namesExactly_nested :
    IsForest none nestedListing ∧
    ∃ account, Account.ofListing "a" none "1" nestedListing = some account ∧
      NamesExactly account none nestedListing := by
  have hforest : IsForest none nestedListing :=
    isForest_of_two_levels (by decide) (by decide) (by decide) (by decide)
  obtain ⟨account, haccount, hiff⟩ := namesExactly_iff hforest "a" "1"
  exact ⟨hforest, account, haccount, hiff.mpr (pathsDiffer_of_slashFree (by decide) (by decide))⟩

/-- The siblings `a` and `a/b` have different names, and one of them is lost. -/
theorem mailbox_overwritten :
    IsForest none clashingListing ∧
    ∃ account, Account.ofListing "a" none "1" clashingListing = some account ∧
      account.mailboxNames.toList = [("a", "2"), ("a/b", "3")] ∧
      ¬ NamesExactly account none clashingListing := by
  have hforest : IsForest none clashingListing :=
    isForest_of_two_levels (by decide) (by decide) (by decide) (by decide)
  obtain ⟨account, haccount, -⟩ := namesExactly_iff hforest "a" "1"
  have hnames : (Account.ofListing "a" none "1" clashingListing).map
      (fun account ↦ account.mailboxNames.toList) = some [("a", "2"), ("a/b", "3")] := by
    decide +kernel
  rw [haccount, Option.map_some, Option.some.injEq] at hnames
  refine ⟨hforest, account, haccount, hnames, fun h ↦ ?_⟩
  obtain ⟨n, hn, -⟩ := h.one ⟨some "1", some "a/b", none, .none, false, 0, 0⟩ (by decide)
  have hmem := Std.ExtTreeMap.mem_toList_iff_getElem?_eq_some.mpr hn
  rw [hnames] at hmem
  simp at hmem

end ImapToJmap
