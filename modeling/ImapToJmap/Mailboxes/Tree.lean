import ImapToJmap.Mailboxes.Account

/-!
# The tree of names

The names of an account are paths: every name but those at the top level goes on from another name,
and no two names stand for the same mailbox (`Account.Tree`).  Each mailbox carries a flag for
whether there is a name below its own, and the edits of the cache set the flags by hand.

`Account.Flags pending` says that the flags are right but for one mailbox, `pending`, which is
flagged ahead of the child it is about to be given.  Entering the child settles it.
-/

namespace ImapToJmap

/-! ## The map of the names -/

theorem mem_iff_exists_getElem? {names : Names} {n : String} :
    n ∈ names ↔ ∃ i : String, names[n]? = some i := by
  rw [Std.ExtTreeMap.mem_iff_isSome_getElem?, Option.isSome_iff_exists]

/-- Entries with one value for each key, inserted one after the other. -/
theorem getElem?_foldl_insert {l : List (String × String)}
    (h : ∀ e ∈ l, ∀ e' ∈ l, e.1 = e'.1 → e = e') (names : Names) {k v : String} :
    (l.foldl (fun names e ↦ names.insert e.1 e.2) names)[k]? = some v ↔
      (k, v) ∈ l ∨ k ∉ l.map Prod.fst ∧ names[k]? = some v := by
  induction l using List.reverseRecOn with
  | nil => simp
  | append_singleton l e ih =>
      have hl : ∀ e ∈ l, ∀ e' ∈ l, e.1 = e'.1 → e = e' := fun e he e' he' ↦
        h e (List.mem_append_left _ he) e' (List.mem_append_left _ he')
      rw [List.foldl_append, List.foldl_cons, List.foldl_nil, Std.ExtTreeMap.getElem?_insert]
      by_cases hk : e.1 = k
      · subst hk
        -- the last entry is that of its key
        have hmem : (e.1, v) ∈ l ++ [e] ↔ e.2 = v := by
          constructor
          · intro hv
            rw [← h (e.1, v) hv e (by simp) rfl]
          · rintro rfl
            simp
        simp [hmem]
      · have hne : (k, v) ≠ e := by
          rintro rfl
          exact hk rfl
        simp [hk, hne, Ne.symm hk, ih hl]

/-! ## Closed under parents -/

section

variable {names : Names} {root : Option String}

/-- With a name its parent is there, up to the root. -/
def ParentsIn (names : Names) (root : Option String) : Prop :=
  ∀ q x, SlashFree x → q ++ "/" ++ x ∈ names → q ∈ names ∨ root = some q

/-- What is above a name is a name, unless it is the root or above it. -/
theorem ParentsIn.above (h : ParentsIn names root) {m n : String} (hn : n ∈ names)
    (hmn : Below m n) : m ∈ names ∨ ∃ p ∈ root, m = p ∨ Below m p := by
  obtain ⟨t, rfl⟩ := below_iff.mp hmn
  -- by induction on the rest of the path
  induction hlen : t.length using Nat.strong_induction_on generalizing t with
  | _ len ih =>
      by_cases hslash : '/' ∈ t.toList
      · obtain ⟨t', x, hx, rfl⟩ := exists_child_of_slash hslash
        have hassoc : m ++ "/" ++ (t' ++ "/" ++ x) = m ++ "/" ++ t' ++ "/" ++ x := by
          simp [String.append_assoc]
        rw [hassoc] at hn
        have hmt' : Below m (m ++ "/" ++ t') := below_append m t'
        rcases h _ x hx hn with hq | hq
        · refine ih t'.length ?_ t' hq hmt' rfl
          rw [← hlen]
          simp only [String.length_append]
          have : "/".length = 1 := rfl
          omega
        · exact .inr ⟨_, hq, .inr hmt'⟩
      · rcases h m t hslash hn with hm | hp
        · exact .inl hm
        · exact .inr ⟨m, hp, .inl rfl⟩

/-- Below a name that is not there, and could be, there is nothing. -/
theorem ParentsIn.not_below (h : ParentsIn names root) {n : String} (hn : n ∉ names)
    (hroot : ∀ p ∈ root, Below p n) {n' : String} (hn' : n' ∈ names) : ¬ Below n n' := by
  intro hbelow
  rcases h.above hn' hbelow with hmem | ⟨p, hp, hnp⟩
  · exact hn hmem
  · rcases hnp with rfl | hnp
    · exact below_irrefl n (hroot n hp)
    · exact below_irrefl n (hnp.trans (hroot p hp))

end

namespace Account

variable {account : Account}

/-- The names form a tree, each for a mailbox of its own. -/
structure Tree (account : Account) : Prop where
  injective : ∀ (n n' id : String), account.mailboxNames[n]? = some id →
    account.mailboxNames[n']? = some id → n = n'
  closed : ∀ q x, SlashFree x → q ++ "/" ++ x ∈ account.mailboxNames →
    q ∈ account.mailboxNames ∨ account.namePrefix = some q
  below_root : ∀ p ∈ account.namePrefix, ∀ n ∈ account.mailboxNames, Below p n

/-- The flags are right, but for one mailbox that may be flagged too early. -/
def Flags (account : Account) (pending : Option String) : Prop :=
  ∀ (n id : String) (mailbox : Mailbox), account.mailboxNames[n]? = some id →
    account.mailboxData[id]? = some mailbox →
      (mailbox.hasChildren = true ↔
        (∃ n' ∈ account.mailboxNames, Below n n') ∨ pending = some n)

/-- A name for a child of a mailbox, or for one at the top level. -/
def childName (account : Account) (parent : Option String) (x : String) : String :=
  match parent, account.namePrefix with
  | some p, _ => p ++ "/" ++ x
  | none, some p => p ++ "/" ++ x
  | none, none => x

@[simp] theorem childName_some (p x : String) : account.childName (some p) x = p ++ "/" ++ x := rfl

theorem childName_of_prefixed {p : String} (h : account.namePrefix = some p) (x : String) :
    account.childName none x = p ++ "/" ++ x := by
  simp [childName, h]

theorem childName_of_bare (h : account.namePrefix = none) (x : String) :
    account.childName none x = x := by
  simp [childName, h]

/-- The parent is there. -/
def HasParent (account : Account) (parent : Option String) : Prop :=
  ∀ p ∈ parent, p ∈ account.mailboxNames

/-! ## Above and below -/

/-- No name is the prefix, or above it. -/
theorem Tree.not_above_root (h : account.Tree) {n : String} (hn : n ∈ account.mailboxNames) :
    ¬ ∃ p ∈ account.namePrefix, n = p ∨ Below n p := by
  rintro ⟨p, hp, hnp⟩
  have hpn := h.below_root p hp n hn
  rcases hnp with rfl | hnp
  · exact below_irrefl n hpn
  · exact below_irrefl n (hnp.trans hpn)

/-- The name of a child is a name below its parent. -/
theorem Tree.childName_below_root (h : account.Tree) {parent : Option String}
    (hparent : account.HasParent parent) (x : String) :
    ∀ p ∈ account.namePrefix, Below p (account.childName parent x) := by
  intro p hp
  cases parent with
  | none =>
      rw [childName_of_prefixed hp]
      exact below_append p x
  | some q =>
      exact (h.below_root p hp q (hparent q rfl)).trans (below_append q x)

/-- The cached names above a child are its parent and what is above it. -/
theorem Tree.below_childName (h : account.Tree) {parent : Option String}
    (hparent : account.HasParent parent) {x : String} (hx : SlashFree x) {m : String}
    (hm : m ∈ account.mailboxNames) :
    Below m (account.childName parent x) ↔ ∃ p ∈ parent, m = p ∨ Below m p := by
  cases parent with
  | none =>
      refine iff_of_false ?_ (by simp)
      cases hpre : account.namePrefix with
      | none =>
          rw [childName_of_bare hpre]
          exact not_below_slashFree hx
      | some p =>
          rw [childName_of_prefixed hpre]
          intro hbelow
          exact h.not_above_root hm ⟨p, hpre, (below_child_iff hx).mp hbelow⟩
  | some q => simp [below_child_iff hx]

theorem Tree.not_below (h : account.Tree) {n : String} (hn : n ∉ account.mailboxNames)
    (hpre : ∀ p ∈ account.namePrefix, Below p n) {n' : String}
    (hn' : n' ∈ account.mailboxNames) : ¬ Below n n' :=
  ParentsIn.not_below h.closed hn hpre hn'

/-! ## Entering a mailbox -/

/-- Enter a mailbox under a name. -/
def addLeaf (account : Account) (name id : String) (mailbox : Mailbox) : Account :=
  { account with
    mailboxNames := account.mailboxNames.insert name id
    mailboxData := account.mailboxData.insert id mailbox }

theorem getElem?_addLeaf_names {name id : String} {mailbox : Mailbox} {n : String} :
    (account.addLeaf name id mailbox).mailboxNames[n]? =
      if name = n then some id else account.mailboxNames[n]? := by
  simp [addLeaf, Std.ExtTreeMap.getElem?_insert]

theorem getElem?_addLeaf_data {name id : String} {mailbox : Mailbox} {i : String} :
    (account.addLeaf name id mailbox).mailboxData[i]? =
      if id = i then some mailbox else account.mailboxData[i]? := by
  simp [addLeaf, Std.ExtTreeMap.getElem?_insert]

theorem mem_addLeaf_names {name id : String} {mailbox : Mailbox} {n : String} :
    n ∈ (account.addLeaf name id mailbox).mailboxNames ↔ name = n ∨ n ∈ account.mailboxNames := by
  simp [addLeaf, Std.ExtTreeMap.mem_insert]

/-- No name stands for an id. -/
def Unnamed (account : Account) (id : String) : Prop :=
  ∀ n : String, account.mailboxNames[n]? ≠ some id

theorem Tree.addLeaf (h : account.Tree) {parent : Option String}
    (hparent : account.HasParent parent) {x id : String} (mailbox : Mailbox) (hx : SlashFree x)
    (hid : account.Unnamed id) :
    (account.addLeaf (account.childName parent x) id mailbox).Tree where
  injective := by
    intro n n' i hn hn'
    rw [getElem?_addLeaf_names] at hn hn'
    split at hn
    · split at hn'
      · rename_i h1 h2
        rw [← h1, ← h2]
      · cases hn
        exact absurd hn' (hid n')
    · split at hn'
      · cases hn'
        exact absurd hn (hid n)
      · exact h.injective n n' i hn hn'
  closed := by
    intro q y hy hq
    rw [mem_addLeaf_names] at hq ⊢
    show _ ∨ account.namePrefix = some q
    rcases hq with hq | hq
    · cases parent with
      | none =>
          cases hpre : account.namePrefix with
          | none =>
              rw [childName_of_bare hpre] at hq
              exact absurd (hq ▸ below_append q y) (not_below_slashFree hx)
          | some p =>
              rw [childName_of_prefixed hpre] at hq
              exact .inr (congrArg some (child_inj hx hy hq).1)
      | some p =>
          obtain ⟨rfl, -⟩ := child_inj hx hy hq
          exact .inl (.inr (hparent p rfl))
    · exact (h.closed q y hy hq).imp_left .inr
  below_root := by
    intro p hp n hn
    rcases mem_addLeaf_names.mp hn with rfl | hn
    · exact h.childName_below_root hparent x p hp
    · exact h.below_root p hp n hn

/-- A new child settles the flag of its parent.  Its own flag is right if it is not set, and else
it is the next one to wait for a child. -/
theorem Flags.addLeaf {parent : Option String} (h : account.Flags parent) (htree : account.Tree)
    (hparent : account.HasParent parent) {x id : String} (mailbox : Mailbox) (hx : SlashFree x)
    (hname : account.childName parent x ∉ account.mailboxNames) (hid : account.Unnamed id) :
    (account.addLeaf (account.childName parent x) id mailbox).Flags
      (if mailbox.hasChildren then some (account.childName parent x) else none) := by
  have hpre := htree.childName_below_root hparent x
  have habove {m : String} := htree.below_childName hparent hx (m := m)
  generalize account.childName parent x = name at *
  intro n i data hn hdata
  rw [getElem?_addLeaf_names] at hn
  rw [getElem?_addLeaf_data] at hdata
  simp only [mem_addLeaf_names]
  split at hn
  · -- the new mailbox
    rename_i heq
    subst heq
    cases hn
    rw [if_pos rfl] at hdata
    cases hdata
    have hnone : ¬ ∃ n', (name = n' ∨ n' ∈ account.mailboxNames) ∧ Below name n' := by
      rintro ⟨n', rfl | hn', hbelow⟩
      · exact below_irrefl name hbelow
      · exact htree.not_below hname hpre hn' hbelow
    cases hflag : mailbox.hasChildren with
    | false => simp [hnone]
    | true => simp
  · -- one that was there
    rename_i hne
    have hi : id ≠ i := by
      rintro rfl
      exact hid n hn
    rw [if_neg hi] at hdata
    have hn' : n ∈ account.mailboxNames := Std.ExtTreeMap.mem_iff_isSome_getElem?.mpr (by simp [hn])
    rw [h n i data hn hdata]
    have hpending : ¬ (if mailbox.hasChildren then some name else none) = some n := by
      split
      · simpa using hne
      · simp
    rw [or_iff_left hpending]
    constructor
    · rintro (⟨n', hmem, hbelow⟩ | rfl)
      · exact ⟨n', .inr hmem, hbelow⟩
      · exact ⟨name, .inl rfl, (habove hn').mpr ⟨n, rfl, .inl rfl⟩⟩
    · rintro ⟨n', rfl | hmem, hbelow⟩
      · obtain ⟨p, hp, rfl | hnp⟩ := (habove hn').mp hbelow
        · exact .inr hp
        · exact .inl ⟨p, hparent p hp, hnp⟩
      · exact .inl ⟨n', hmem, hbelow⟩

/-! ## Creating a path -/

/-- The name `add_created_mailboxes` begins with. -/
def base (account : Account) (parent : Option String) : String :=
  match parent with
  | some p => p
  | none => account.namePrefix.getD ""

/-- The last mailbox of a path that is created below a mailbox. -/
def createdPath (account : Account) (parent : Option String) (items : List String) :
    Option String :=
  items.foldl (fun parent x ↦ some (account.childName parent x)) parent

theorem createdPath_append_singleton (account : Account) (parent : Option String)
    (items : List String) (x : String) :
    account.createdPath parent (items ++ [x]) =
      some (account.childName (account.createdPath parent items) x) := by
  simp [createdPath]

theorem exists_createdPath (account : Account) (p : String) (items : List String) :
    ∃ c ∈ account.createdPath (some p) items, p = c ∨ Below p c := by
  induction items generalizing p with
  | nil => exact ⟨p, rfl, .inl rfl⟩
  | cons x items ih =>
      obtain ⟨c, hc, hpc⟩ := ih (p ++ "/" ++ x)
      refine ⟨c, hc, .inr ?_⟩
      rcases hpc with rfl | hpc
      · exact below_append p x
      · exact (below_append p x).trans hpc

/-- The names of a path that is created are those of the loop. -/
theorem base_append {parent : Option String} (hparent : parent ≠ some "")
    (hpre : account.namePrefix ≠ some "") (x : String) :
    (if account.base parent ≠ "" then account.base parent ++ "/" ++ x else x) =
      account.childName parent x := by
  cases parent with
  | some p =>
      have hp : p ≠ "" := fun h ↦ hparent (congrArg some h)
      simp [base, hp]
  | none =>
      cases h : account.namePrefix with
      | none => simp [base, h, childName_of_bare h]
      | some p =>
          have hp : p ≠ "" := fun h' ↦ hpre (h.trans (congrArg some h'))
          simp [base, h, hp, childName_of_prefixed h]

theorem childName_ne_empty (parent : Option String) {x : String} (hx : x ≠ "") :
    account.childName parent x ≠ "" := by
  unfold childName
  split
  · simp [String.append_eq_empty_iff]
  · simp [String.append_eq_empty_iff]
  · exact hx

/-- What the creation of a path makes of an account. -/
structure Created (account account' : Account) (last : Option String) : Prop where
  tree : account'.Tree
  namePrefix : account'.namePrefix = account.namePrefix
  hasParent : account'.HasParent last
  old : ∀ (n id : String), account.mailboxNames[n]? = some id → account'.mailboxNames[n]? = some id
  new : ∀ n ∈ account'.mailboxNames, n ∈ account.mailboxNames ∨ ∃ c ∈ last, n = c ∨ Below n c

theorem created_insertCreated (hasUpdated : Bool) {created : List (String × String)}
    {parent : Option String} (htree : account.Tree) (hflags : account.Flags parent)
    (hparent : account.HasParent parent) (hne : parent ≠ some "")
    (hpre : account.namePrefix ≠ some "") (hslash : ∀ e ∈ created, SlashFree e.2 ∧ e.2 ≠ "")
    (hnodup : (created.map Prod.fst).Nodup) (hids : ∀ e ∈ created, account.Unnamed e.1)
    (hname : ∀ e ∈ created.head?, account.childName parent e.2 ∉ account.mailboxNames) :
    Created account (account.insertCreated hasUpdated created (account.base parent))
      (account.createdPath parent (created.map Prod.snd)) ∧
    (account.insertCreated hasUpdated created (account.base parent)).Flags
      (if created = [] then parent
        else if hasUpdated then account.createdPath parent (created.map Prod.snd) else none) := by
  induction created generalizing account parent with
  | nil =>
      refine ⟨⟨htree, rfl, hparent, fun _ _ h ↦ h, fun n hn ↦ .inl hn⟩, ?_⟩
      simpa [insertCreated] using hflags
  | cons e created ih =>
      obtain ⟨id, x⟩ := e
      obtain ⟨hx, hx_ne⟩ : SlashFree x ∧ x ≠ "" := hslash (id, x) List.mem_cons_self
      have hid : account.Unnamed id := hids (id, x) List.mem_cons_self
      have hname' : account.childName parent x ∉ account.mailboxNames := hname (id, x) rfl
      have hbelow := htree.childName_below_root hparent x
      have htree' := htree.addLeaf hparent (.created (!created.isEmpty || hasUpdated)) hx hid
      have hflags' := hflags.addLeaf htree hparent (.created (!created.isEmpty || hasUpdated)) hx
        hname' hid
      have hunfold : account.insertCreated hasUpdated ((id, x) :: created) (account.base parent) =
          (account.addLeaf (account.childName parent x) id
            (.created (!created.isEmpty || hasUpdated))).insertCreated hasUpdated created
              (account.childName parent x) := by
        rw [insertCreated, base_append hne hpre]
        rfl
      have hpath : account.createdPath parent (((id, x) :: created).map Prod.snd) =
          account.createdPath (some (account.childName parent x)) (created.map Prod.snd) := rfl
      rw [hunfold, hpath]
      have hname_ne := account.childName_ne_empty parent hx_ne
      generalize account.childName parent x = name at *
      -- the first mailbox is there, and the rest is created below it
      have hold : ∀ (n i : String), account.mailboxNames[n]? = some i →
          (account.addLeaf name id (.created (!created.isEmpty || hasUpdated))).mailboxNames[n]? =
            some i := by
        intro n i hn
        rw [getElem?_addLeaf_names, if_neg, hn]
        rintro rfl
        exact hname' (Std.ExtTreeMap.mem_iff_isSome_getElem?.mpr (by simp [hn]))
      have hnext : (account.addLeaf name id
          (.created (!created.isEmpty || hasUpdated))).HasParent (some name) := by
        rintro p hp
        obtain rfl := Option.mem_some_iff.mp hp
        exact mem_addLeaf_names.mpr (.inl rfl)
      cases hrest : created with
      | nil =>
          subst hrest
          refine ⟨⟨htree', rfl, hnext, hold, fun n hn ↦ ?_⟩, ?_⟩
          · rcases mem_addLeaf_names.mp hn with rfl | hn
            · exact .inr ⟨name, rfl, .inl rfl⟩
            · exact .inl hn
          · simpa [Mailbox.created, insertCreated, createdPath] using hflags'
      | cons e rest =>
          rw [← hrest]
          have hne_nil : created ≠ [] := by simp [hrest]
          have hpending : (account.addLeaf name id
              (.created (!created.isEmpty || hasUpdated))).Flags (some name) := by
            simpa [Mailbox.created, hne_nil] using hflags'
          have hids' : ∀ e ∈ created, (account.addLeaf name id
              (.created (!created.isEmpty || hasUpdated))).Unnamed e.1 := by
            intro e he n hn
            rw [getElem?_addLeaf_names] at hn
            split at hn
            · exact (List.nodup_cons.mp hnodup).1
                (List.mem_map.mpr ⟨e, he, (Option.some.inj hn).symm⟩)
            · exact hids e (List.mem_cons_of_mem _ he) n hn
          have hnext_name : ∀ e ∈ created.head?, (account.addLeaf name id
              (.created (!created.isEmpty || hasUpdated))).childName (some name) e.2 ∉
                (account.addLeaf name id
                  (.created (!created.isEmpty || hasUpdated))).mailboxNames := by
            intro e he hmem
            rcases mem_addLeaf_names.mp hmem with heq | hmem
            · exact (below_append name e.2).ne heq
            · exact htree.not_below hname' hbelow hmem (below_append name e.2)
          obtain ⟨hcreated, hlast⟩ := ih htree' hpending hnext (by simpa using hname_ne) hpre
            (fun e he ↦ hslash e (List.mem_cons_of_mem _ he)) (List.nodup_cons.mp hnodup).2 hids'
            hnext_name
          refine ⟨⟨hcreated.tree, hcreated.namePrefix, hcreated.hasParent,
            fun n i hn ↦ hcreated.old n i (hold n i hn), fun n hn ↦ ?_⟩, ?_⟩
          · rcases hcreated.new n hn with hn | hn
            · rcases mem_addLeaf_names.mp hn with rfl | hn
              · exact .inr (account.exists_createdPath name _)
              · exact .inl hn
            · exact .inr hn
          · simp only [hne_nil, if_false, reduceCtorEq] at hlast ⊢
            exact hlast

/-! ## Setting a flag -/

theorem getElem?_setHasChildren {data : MailboxMap} {mailboxId i : String} {b : Bool} :
    (setHasChildren data mailboxId b)[i]? =
      if mailboxId = i then data[i]?.map fun mailbox ↦ { mailbox with hasChildren := b }
      else data[i]? := by
  rw [setHasChildren, Std.ExtTreeMap.getElem?_modify]
  simp only [Std.LawfulEqCmp.compare_eq_iff_eq]
  split
  · rename_i h
    rw [h]
  · rfl

/-- Edits that change neither the names nor the data. -/
theorem Tree.congr {account' : Account} (h : account.Tree)
    (hnames : account'.mailboxNames = account.mailboxNames)
    (hpre : account'.namePrefix = account.namePrefix) : account'.Tree := by
  refine ⟨?_, ?_, ?_⟩
  · rw [hnames]
    exact h.injective
  · rw [hnames, hpre]
    exact h.closed
  · rw [hnames, hpre]
    exact h.below_root

/-- A mailbox flagged ahead of its child. -/
theorem Flags.setPending (h : account.Flags none) (htree : account.Tree) {p mailboxId : String}
    (hp : account.mailboxNames[p]? = some mailboxId) :
    ({ account with mailboxData := setHasChildren account.mailboxData mailboxId true } :
      Account).Flags (some p) := by
  intro n id mailbox hn hmailbox
  rw [getElem?_setHasChildren] at hmailbox
  split at hmailbox
  · rename_i hid
    subst hid
    obtain ⟨mailbox, -, rfl⟩ := Option.map_eq_some_iff.mp hmailbox
    exact iff_of_true rfl (.inr (congrArg some (htree.injective p n _ hp hn)))
  · rename_i hid
    rw [h n id mailbox hn hmailbox]
    have hne : p ≠ n := by
      rintro rfl
      exact hid (Option.some.inj (hp.symm.trans hn))
    simp [hne]

/-! ## Deleting a mailbox -/

/-- Remove a mailbox and its name. -/
def remove (account : Account) (name id : String) : Account :=
  { account with
    mailboxNames := account.mailboxNames.erase name
    mailboxData := account.mailboxData.erase id }

theorem getElem?_remove_names {name id n i : String} :
    (account.remove name id).mailboxNames[n]? = some i ↔
      n ≠ name ∧ account.mailboxNames[n]? = some i := by
  simp only [remove, Std.ExtTreeMap.getElem?_erase, Std.LawfulEqCmp.compare_eq_iff_eq]
  split
  · rename_i h
    simp [h]
  · rename_i h
    simp [Ne.symm h]

theorem mem_remove_names {name id n : String} :
    n ∈ (account.remove name id).mailboxNames ↔ n ≠ name ∧ n ∈ account.mailboxNames := by
  simp only [remove, Std.ExtTreeMap.mem_erase, ne_eq, Std.LawfulEqCmp.compare_eq_iff_eq]
  exact and_congr_left' (not_congr eq_comm)

/-- A mailbox without children leaves a tree behind. -/
theorem Tree.remove (h : account.Tree) {name : String} (id : String)
    (hleaf : ∀ n ∈ account.mailboxNames, ¬ Below name n) : (account.remove name id).Tree where
  injective := by
    intro n n' i hn hn'
    exact h.injective n n' i (getElem?_remove_names.mp hn).2 (getElem?_remove_names.mp hn').2
  closed := by
    intro q x hx hq
    have hq' := (mem_remove_names.mp hq).2
    refine (h.closed q x hx hq').imp_left fun hmem ↦ mem_remove_names.mpr ⟨?_, hmem⟩
    rintro rfl
    exact hleaf _ hq' (below_append q x)
  below_root := by
    intro p hp n hn
    exact h.below_root p hp n (mem_remove_names.mp hn).2

/-- The flags are right after a mailbox is gone if its parent keeps another one. -/
theorem Flags.remove (h : account.Flags none) (htree : account.Tree) {name id : String}
    (hname : account.mailboxNames[name]? = some id)
    (hparent : ∀ q x, SlashFree x → name = q ++ "/" ++ x → q ∈ account.mailboxNames →
      ∃ n ∈ account.mailboxNames, n ≠ name ∧ Below q n) : (account.remove name id).Flags none := by
  intro n i mailbox hn hmailbox
  obtain ⟨hne, hn⟩ := getElem?_remove_names.mp hn
  have hmem : n ∈ account.mailboxNames := Std.ExtTreeMap.mem_iff_isSome_getElem?.mpr (by simp [hn])
  have hi : id ≠ i := by
    rintro rfl
    exact hne (htree.injective n name id hn hname)
  have hdata : account.mailboxData[i]? = some mailbox := by
    simpa [Account.remove, Std.ExtTreeMap.getElem?_erase, hi] using hmailbox
  rw [h n i mailbox hn hdata]
  simp only [reduceCtorEq, or_false, mem_remove_names]
  constructor
  · rintro ⟨n', hn', hbelow⟩
    by_cases heq : n' = name
    · subst heq
      -- the mailbox that goes: what is between it and the one above it stays
      obtain ⟨t, rfl⟩ := below_iff.mp hbelow
      by_cases hslash : '/' ∈ t.toList
      · obtain ⟨t', x, hx, rfl⟩ := exists_child_of_slash hslash
        have hassoc : n ++ "/" ++ (t' ++ "/" ++ x) = n ++ "/" ++ t' ++ "/" ++ x := by
          simp [String.append_assoc]
        rw [hassoc] at hn' ⊢
        rcases htree.closed _ x hx hn' with hq | hq
        · exact ⟨_, ⟨(below_append _ x).ne, hq⟩, below_append n t'⟩
        · exact absurd ⟨_, hq, .inr (below_append n t')⟩ (htree.not_above_root hmem)
      · obtain ⟨n', hn', hne', hbelow'⟩ := hparent n t hslash rfl hmem
        exact ⟨n', ⟨hne', hn'⟩, hbelow'⟩
    · exact ⟨n', ⟨heq, hn'⟩, hbelow⟩
  · rintro ⟨n', ⟨-, hn'⟩, hbelow⟩
    exact ⟨n', hn', hbelow⟩

end Account

end ImapToJmap
