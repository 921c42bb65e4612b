import ImapToJmap.Mailboxes.Tree

/-!
# Moving a subtree

A renaming takes a mailbox with all that is below it to another place of the tree.  The names are
rewritten one by one (`moved`), and the flags of two mailboxes are set: that of the old parent, by
whether it has a name below it other than the renamed one, and that of the new parent.

The old parent is judged too early: what is below the renamed mailbox is still below it.  So the
flags are right after a renaming unless the mailbox takes the last names below its old parent with
it (`Flags.rename`).
-/

namespace ImapToJmap

/-! ## The names -/

/-- The name of a mailbox after a renaming of another one. -/
def moved (old new n : String) : String :=
  match stripPrefix? n (old ++ "/") with
  | some child => new ++ "/" ++ child
  | none => n

theorem moved_append (old new t : String) : moved old new (old ++ "/" ++ t) = new ++ "/" ++ t := by
  simp [moved, stripPrefix?_eq_some.mpr rfl]

theorem moved_of_not_below {old new n : String} (h : ¬ Below old n) : moved old new n = n := by
  have : startsWith n (old ++ "/") = false := by simpa [Below] using h
  simp [moved, stripPrefix?_eq_none.mpr this]

/-- Two names that end up as one have been one, if there was nothing at the new place. -/
theorem moved_inj {old new n n' : String} (hn : ¬ Below new n) (hn' : ¬ Below new n')
    (h : moved old new n = moved old new n') : n = n' := by
  by_cases hb : Below old n
  · obtain ⟨t, rfl⟩ := below_iff.mp hb
    by_cases hb' : Below old n'
    · obtain ⟨t', rfl⟩ := below_iff.mp hb'
      rw [moved_append, moved_append] at h
      have : t = t' := String.toList_injective (by simpa using congrArg String.toList h)
      rw [this]
    · rw [moved_append, moved_of_not_below hb'] at h
      exact absurd (h ▸ below_append new t) hn'
  · by_cases hb' : Below old n'
    · obtain ⟨t', rfl⟩ := below_iff.mp hb'
      rw [moved_append, moved_of_not_below hb] at h
      exact absurd (h ▸ below_append new t') hn
    · rwa [moved_of_not_below hb, moved_of_not_below hb'] at h

theorem renamedName_eq_some {old new n k : String} :
    renamedName old new n = some k ↔ n ≠ old ∧ moved old new n = k := by
  unfold renamedName moved
  split
  · simp_all
  · split <;> simp_all

/-- The names after a renaming. -/
theorem getElem?_renameNames {names : Names} {old new id k i : String}
    (hnew : ∀ n ∈ names, ¬ Below new n) :
    (renameNames names old new id)[k]? = some i ↔
      k = new ∧ i = id ∨
        k ≠ new ∧ ∃ n : String, n ≠ old ∧ names[n]? = some i ∧ moved old new n = k := by
  have hfold : renameNames names old new id =
      ((names.toList.filterMap fun e ↦ (renamedName old new e.1).map fun name ↦ (name, e.2)).foldl
        (fun names e ↦ names.insert e.1 e.2) (∅ : Names)).insert new id := by
    rw [renameNames, List.foldl_filterMap]
    congr 2
    funext acc e
    cases renamedName old new e.1 <;> rfl
  have hmem_names {n v : String} (h : (n, v) ∈ names.toList) : n ∈ names :=
    Std.ExtTreeMap.mem_iff_isSome_getElem?.mpr
      (by simp [Std.ExtTreeMap.mem_toList_iff_getElem?_eq_some.mp h])
  have hnodup : ((names.toList.filterMap fun e ↦
      (renamedName old new e.1).map fun name ↦ (name, e.2)).map Prod.fst).Nodup := by
    rw [List.Nodup, List.pairwise_map, List.pairwise_filterMap]
    refine List.Pairwise.imp_of_mem ?_ (Std.ExtTreeMap.distinct_keys_toList (t := names))
    rintro ⟨n, v⟩ ⟨n', v'⟩ hmem hmem' hne ⟨k, w⟩ hk ⟨k', w'⟩ hk' heq
    obtain ⟨m, hm, hkm⟩ := Option.map_eq_some_iff.mp hk
    obtain ⟨m', hm', hkm'⟩ := Option.map_eq_some_iff.mp hk'
    obtain ⟨rfl, rfl⟩ := Prod.mk.inj hkm
    obtain ⟨rfl, rfl⟩ := Prod.mk.inj hkm'
    refine hne ?_
    rw [moved_inj (hnew n (hmem_names hmem)) (hnew n' (hmem_names hmem'))
      ((renamedName_eq_some.mp hm).2.trans (heq.trans (renamedName_eq_some.mp hm').2.symm))]
    exact Std.ReflCmp.compare_self
  rw [hfold]
  simp only [Std.ExtTreeMap.getElem?_insert, Std.LawfulEqCmp.compare_eq_iff_eq]
  by_cases hk : new = k
  · subst hk
    simp [eq_comm]
  · rw [if_neg hk, getElem?_foldl_insert
      fun e he e' he' heq ↦ List.inj_on_of_nodup_map hnodup he he' heq]
    simp only [Ne.symm hk, false_and, ne_eq, not_false_eq_true, true_and, false_or,
      Std.ExtTreeMap.getElem?_empty, reduceCtorEq, and_false, or_false, List.mem_filterMap,
      Option.map_eq_some_iff, Prod.mk.injEq, renamedName_eq_some]
    constructor
    · rintro ⟨⟨n, v⟩, hmem, m, ⟨hne, hm⟩, rfl, rfl⟩
      exact ⟨n, hne, Std.ExtTreeMap.mem_toList_iff_getElem?_eq_some.mp hmem, hm⟩
    · rintro ⟨n, hne, hn, hm⟩
      exact ⟨(n, i), Std.ExtTreeMap.mem_toList_iff_getElem?_eq_some.mpr hn, k, ⟨hne, hm⟩, rfl, rfl⟩

/-! ## The old parent -/

/-- The flags after the old parent has been judged. -/
theorem Account.getElem?_updateOldParent {account : Account} {old i : String} {mailbox : Mailbox}
    (h : (account.updateOldParent old).mailboxData[i]? = some mailbox) :
    ∃ data, account.mailboxData[i]? = some data ∧
      ((∃ q y, SlashFree y ∧ old = q ++ "/" ++ y ∧ account.mailboxNames[q]? = some i ∧
          (mailbox.hasChildren = true ↔ ∃ n ∈ account.mailboxNames, n ≠ old ∧ Below q n)) ∨
        (∀ q y, SlashFree y → old = q ++ "/" ++ y → account.mailboxNames[q]? ≠ some i) ∧
          mailbox = data) := by
  unfold updateOldParent at h
  split at h
  · rename_i hslash
    obtain ⟨q, y, hy, rfl⟩ := exists_child_of_slash hslash
    have hq : joinPath (splitPath (q ++ "/" ++ y)).dropLast = q := parentPath_append q hy
    simp only [hq] at h
    cases hid : account.mailboxNames[q]? with
    | none =>
        simp only [hid] at h
        refine ⟨mailbox, h, .inr ⟨?_, rfl⟩⟩
        intro q' y' hy' heq
        obtain ⟨rfl, -⟩ := child_inj hy hy' heq
        simp [hid]
    | some parentId =>
        simp only [hid, getElem?_setHasChildren] at h
        split at h
        · rename_i heq
          subst heq
          obtain ⟨data, hdata, rfl⟩ := Option.map_eq_some_iff.mp h
          refine ⟨data, hdata, .inl ⟨q, y, hy, rfl, hid, ?_⟩⟩
          simp [Below]
        · rename_i hne
          refine ⟨mailbox, h, .inr ⟨?_, rfl⟩⟩
          intro q' y' hy' heq
          obtain ⟨rfl, -⟩ := child_inj hy hy' heq
          rw [hid]
          simpa using hne
  · rename_i hslash
    refine ⟨mailbox, h, .inr ⟨?_, rfl⟩⟩
    rintro q y hy rfl
    simp at hslash

/-! ## The renaming -/

namespace Account

variable {account : Account} {old id x newState : String} {parent : Option String}
  {params : CreateParams}

theorem rename_names (account : Account) (old id : String) (params : CreateParams)
    (newState : String) :
    (account.rename old id params newState).mailboxNames =
      renameNames account.mailboxNames old params.fullPath id := by
  have h : ∀ account : Account, (account.updateOldParent old).mailboxNames =
    account.mailboxNames := by
    intro account
    unfold updateOldParent
    split
    · dsimp only
      split
      · rfl
      · rfl
    · rfl
  exact congrArg (renameNames · old params.fullPath id) (h _)

theorem rename_namePrefix (account : Account) (old id : String) (params : CreateParams)
    (newState : String) :
    (account.rename old id params newState).namePrefix = account.namePrefix := by
  unfold Account.rename updateOldParent
  dsimp only
  split
  · split
    · rfl
    · rfl
  · rfl

/-- A renaming to a place in the tree. -/
structure Moves (account : Account) (old id new : String) (parent : Option String) (x : String) :
    Prop where
  source : account.mailboxNames[old]? = some id
  target : new = account.childName parent x
  slashFree : SlashFree x
  hasParent : account.HasParent parent
  fresh : new ∉ account.mailboxNames
  apart : ¬ Below old new

section Moves

variable {new : String} (h : account.Moves old id new parent x) (htree : account.Tree)

include h

/-- The names above the new one stay where they are. -/
theorem Moves.above_stays {m : String} (hm : Below m new ∨ m = new) : m ≠ old ∧ ¬ Below old m := by
  constructor
  · rintro rfl
    rcases hm with hm | rfl
    · exact h.apart hm
    · exact h.fresh (mem_iff_exists_getElem?.mpr ⟨id, h.source⟩)
  · intro hb
    rcases hm with hm | rfl
    · exact h.apart (hb.trans hm)
    · exact h.apart hb

include htree

theorem Moves.not_below_new {n : String} (hn : n ∈ account.mailboxNames) : ¬ Below new n := by
  refine htree.not_below h.fresh ?_ hn
  rw [h.target]
  exact htree.childName_below_root h.hasParent x

/-- What a name is after the renaming: the new one, one that has moved with the mailbox, or one
that has stayed. -/
theorem Moves.getElem?_iff {k i : String} :
    (renameNames account.mailboxNames old new id)[k]? = some i ↔
      k = new ∧ i = id ∨
      (∃ t, k = new ++ "/" ++ t ∧ account.mailboxNames[old ++ "/" ++ t]? = some i) ∨
      (k ≠ old ∧ ¬ Below old k ∧ account.mailboxNames[k]? = some i) := by
  rw [getElem?_renameNames fun n hn ↦ h.not_below_new htree hn]
  refine or_congr_right ?_
  constructor
  · rintro ⟨-, n, hne, hn, rfl⟩
    by_cases hb : Below old n
    · obtain ⟨t, rfl⟩ := below_iff.mp hb
      exact .inl ⟨t, moved_append old new t, hn⟩
    · rw [moved_of_not_below hb]
      exact .inr ⟨hne, hb, hn⟩
  · rintro (⟨t, rfl, hn⟩ | ⟨hne, hb, hn⟩)
    · exact ⟨(below_append new t).ne.symm, _, (below_append old t).ne.symm, hn,
        moved_append old new t⟩
    · refine ⟨?_, k, hne, hn, moved_of_not_below hb⟩
      rintro rfl
      exact h.fresh (mem_iff_exists_getElem?.mpr ⟨i, hn⟩)

theorem Moves.mem_iff {k : String} :
    k ∈ renameNames account.mailboxNames old new id ↔
      k = new ∨ (∃ t, k = new ++ "/" ++ t ∧ old ++ "/" ++ t ∈ account.mailboxNames) ∨
      (k ≠ old ∧ ¬ Below old k ∧ k ∈ account.mailboxNames) := by
  simp only [mem_iff_exists_getElem?, h.getElem?_iff htree]
  constructor
  · rintro ⟨i, ⟨rfl, -⟩ | ⟨t, rfl, hn⟩ | ⟨hne, hb, hn⟩⟩
    · exact .inl rfl
    · exact .inr (.inl ⟨t, rfl, i, hn⟩)
    · exact .inr (.inr ⟨hne, hb, i, hn⟩)
  · rintro (rfl | ⟨t, rfl, i, hn⟩ | ⟨hne, hb, i, hn⟩)
    · exact ⟨id, .inl ⟨rfl, rfl⟩⟩
    · exact ⟨i, .inr (.inl ⟨t, rfl, hn⟩)⟩
    · exact ⟨i, .inr (.inr ⟨hne, hb, hn⟩)⟩

theorem Moves.below_target_iff {m : String}
    (hm : m ∈ account.mailboxNames) : Below m new ↔ ∃ p ∈ parent, m = p ∨ Below m p := by
  rw [h.target]
  exact htree.below_childName h.hasParent h.slashFree hm

/-- The names still form a tree. -/
theorem Moves.tree {account' : Account}
    (hnames : account'.mailboxNames = renameNames account.mailboxNames old new id)
    (hpre : account'.namePrefix = account.namePrefix) : account'.Tree where
  injective := by
    intro n n' i hn hn'
    rw [hnames, h.getElem?_iff htree] at hn hn'
    -- the mailbox with the id has one name before, and so it has one after
    have hinj {m m' : String} (hm : account.mailboxNames[m]? = some i)
        (hm' : account.mailboxNames[m']? = some i) : m = m' := htree.injective m m' i hm hm'
    rcases hn with ⟨rfl, rfl⟩ | ⟨t, rfl, hn⟩ | ⟨hne, hb, hn⟩
    · rcases hn' with ⟨rfl, -⟩ | ⟨t', rfl, hn'⟩ | ⟨hne', -, hn'⟩
      · rfl
      · exact absurd (hinj h.source hn') (below_append old t').ne
      · exact absurd (hinj hn' h.source) hne'
    · rcases hn' with ⟨rfl, rfl⟩ | ⟨t', rfl, hn'⟩ | ⟨-, hb', hn'⟩
      · exact absurd (hinj h.source hn) (below_append old t).ne
      · have heq := hinj hn hn'
        have : t = t' := String.toList_injective (by simpa using congrArg String.toList heq)
        rw [this]
      · exact absurd (hinj hn hn' ▸ below_append old t) hb'
    · rcases hn' with ⟨rfl, rfl⟩ | ⟨t', rfl, hn'⟩ | ⟨-, -, hn'⟩
      · exact absurd (hinj hn h.source) hne
      · exact absurd (hinj hn' hn ▸ below_append old t') hb
      · exact hinj hn hn'
  closed := by
    intro q y hy hq
    rw [hnames, h.mem_iff htree] at hq ⊢
    rw [hpre]
    rcases hq with hq | ⟨t, hq, hmem⟩ | ⟨hne, hb, hmem⟩
    · -- the renamed mailbox is a child of its new parent
      have hnew := h.target
      cases parent with
      | some p =>
          rw [childName_some] at hnew
          obtain ⟨rfl, -⟩ := child_inj hy h.slashFree (hq.trans hnew)
          obtain ⟨hne, hb⟩ := h.above_stays (.inl (hq ▸ below_append q y))
          exact .inl (.inr (.inr ⟨hne, hb, h.hasParent q rfl⟩))
      | none =>
          cases hp : account.namePrefix with
          | some p =>
              rw [childName_of_prefixed hp] at hnew
              exact .inr (congrArg some (child_inj hy h.slashFree (hq.trans hnew)).1.symm)
          | none =>
              rw [childName_of_bare hp] at hnew
              exact absurd (hnew ▸ hq ▸ below_append q y) (not_below_slashFree h.slashFree)
    · by_cases hslash : '/' ∈ t.toList
      · -- a mailbox that has moved with its parent
        obtain ⟨t', z, hz, rfl⟩ := exists_child_of_slash hslash
        have hassoc (s : String) : s ++ "/" ++ (t' ++ "/" ++ z) = s ++ "/" ++ t' ++ "/" ++ z := by
          simp [String.append_assoc]
        rw [hassoc] at hq hmem
        obtain ⟨rfl, -⟩ := child_inj hy hz hq
        rcases htree.closed _ z hz hmem with hmem | hp
        · exact .inl (.inr (.inl ⟨t', rfl, hmem⟩))
        · exact absurd ⟨_, hp, .inr (below_append old t')⟩
            (htree.not_above_root (mem_iff_exists_getElem?.mpr ⟨id, h.source⟩))
      · exact .inl (.inl (child_inj hy hslash hq).1)
    · refine (htree.closed q y hy hmem).imp_left fun hq ↦ .inr (.inr ⟨?_, ?_, hq⟩)
      · rintro rfl
        exact hb (below_append q y)
      · intro hbq
        exact hb (hbq.trans (below_append q y))
  below_root := by
    intro p hp n hn
    rw [hpre] at hp
    rw [hnames, h.mem_iff htree] at hn
    have hnew : Below p new := h.target ▸ htree.childName_below_root h.hasParent x p hp
    rcases hn with rfl | ⟨t, rfl, -⟩ | ⟨-, -, hn⟩
    · exact hnew
    · exact hnew.trans (below_append new t)
    · exact htree.below_root p hp n hn

/-! ### What is below a name afterwards -/

theorem Moves.exists_below_target :
    (∃ k ∈ renameNames account.mailboxNames old new id, Below new k) ↔
      ∃ n ∈ account.mailboxNames, Below old n := by
  constructor
  · rintro ⟨k, hk, hb⟩
    rcases (h.mem_iff htree).mp hk with rfl | ⟨t, rfl, hn⟩ | ⟨-, -, hn⟩
    · exact absurd hb (below_irrefl k)
    · exact ⟨_, hn, below_append old t⟩
    · exact absurd hb (h.not_below_new htree hn)
  · rintro ⟨n, hn, hb⟩
    obtain ⟨t, rfl⟩ := below_iff.mp hb
    exact ⟨_, (h.mem_iff htree).mpr (.inr (.inl ⟨t, rfl, hn⟩)), below_append new t⟩

theorem Moves.exists_below_moved {t : String} :
    (∃ k ∈ renameNames account.mailboxNames old new id, Below (new ++ "/" ++ t) k) ↔
      ∃ n ∈ account.mailboxNames, Below (old ++ "/" ++ t) n := by
  constructor
  · rintro ⟨k, hk, hb⟩
    have hnew : Below new k := (below_append new t).trans hb
    rcases (h.mem_iff htree).mp hk with rfl | ⟨s, rfl, hn⟩ | ⟨-, -, hn⟩
    · exact absurd hnew (below_irrefl k)
    · exact ⟨_, hn, below_append_append_iff.mpr (below_append_append_iff.mp hb)⟩
    · exact absurd hnew (h.not_below_new htree hn)
  · rintro ⟨n, hn, hb⟩
    obtain ⟨s, rfl⟩ := below_iff.mp ((below_append old t).trans hb)
    exact ⟨_, (h.mem_iff htree).mpr (.inr (.inl ⟨s, rfl, hn⟩)),
      below_append_append_iff.mpr (below_append_append_iff.mp hb)⟩

theorem Moves.exists_below_stays {n : String} (hn : n ∈ account.mailboxNames) :
    (∃ k ∈ renameNames account.mailboxNames old new id, Below n k) ↔
      Below n new ∨ ∃ k ∈ account.mailboxNames, k ≠ old ∧ ¬ Below old k ∧ Below n k := by
  constructor
  · rintro ⟨k, hk, hnk⟩
    rcases (h.mem_iff htree).mp hk with rfl | ⟨t, rfl, -⟩ | ⟨hne', hb', hk⟩
    · exact .inl hnk
    · rcases below_append_cases hnk with rfl | hnew | hnew
      · exact absurd hn h.fresh
      · exact .inl hnew
      · exact absurd hnew (h.not_below_new htree hn)
    · exact .inr ⟨k, hk, hne', hb', hnk⟩
  · rintro (hnew | ⟨k, hk, hne', hb', hnk⟩)
    · exact ⟨new, (h.mem_iff htree).mpr (.inl rfl), hnew⟩
    · exact ⟨k, (h.mem_iff htree).mpr (.inr (.inr ⟨hne', hb', hk⟩)), hnk⟩

end Moves

/-- The mailbox keeps what is below its old parent from running out, if there was anything below
the mailbox, and unless it has stayed below that parent. -/
def KeepsParent (account : Account) (old new : String) : Prop :=
  ∀ q y, SlashFree y → old = q ++ "/" ++ y → q ∈ account.mailboxNames →
    (∃ n ∈ account.mailboxNames, Below old n) →
      Below q new ∨ ∃ n ∈ account.mailboxNames, n ≠ old ∧ ¬ Below old n ∧ Below q n

/-- The new parent is flagged, ahead of the renaming or by it. -/
structure FlagsParent (account : Account) (pending parent parentId : Option String) (new : String) :
    Prop where
  set : ∀ i ∈ parentId, ∃ p : String, account.mailboxNames[p]? = some i ∧ Below p new
  ahead : pending = parent ∨
    pending = none ∧ ∀ p ∈ parent, account.mailboxNames[p]? = parentId
  last : ∀ c ∈ pending, ∀ n ∈ account.mailboxNames, ¬ Below c n

/-- The data of a mailbox after a renaming. -/
theorem getElem?_rename_data {i : String} {mailbox : Mailbox}
    (h : (account.rename old id params newState).mailboxData[i]? = some mailbox) :
    ∃ data, account.mailboxData[i]? = some data ∧
      (mailbox.hasChildren = true ↔
        params.parentMailboxId = some i ∨
        (∃ q y, SlashFree y ∧ old = q ++ "/" ++ y ∧ account.mailboxNames[q]? = some i ∧
          ∃ n ∈ account.mailboxNames, n ≠ old ∧ Below q n) ∨
        (∀ q y, SlashFree y → old = q ++ "/" ++ y → account.mailboxNames[q]? ≠ some i) ∧
          data.hasChildren = true) := by
  obtain ⟨judged, hjudged, hset⟩ : ∃ judged,
      (({ account with mailboxState := newState } : Account).updateOldParent old).mailboxData[i]? =
        some judged ∧
      (mailbox.hasChildren = true ↔
        params.parentMailboxId = some i ∨ judged.hasChildren = true) := by
    simp only [Account.rename] at h
    split at h
    · rename_i parentId hparent
      rw [getElem?_setHasChildren] at h
      split at h
      · rename_i heq
        obtain ⟨judged, hjudged, rfl⟩ := Option.map_eq_some_iff.mp h
        exact ⟨judged, hjudged, by simp [hparent, heq]⟩
      · rename_i hne
        exact ⟨mailbox, h, by simp [hparent, hne]⟩
    · rename_i hparent
      exact ⟨mailbox, h, by simp [hparent]⟩
  obtain ⟨data, hdata, hparent⟩ := getElem?_updateOldParent hjudged
  refine ⟨data, hdata, hset.trans (or_congr_right ?_)⟩
  rcases hparent with ⟨q, y, hy, hold, hq, hflag⟩ | ⟨hnot, rfl⟩
  · rw [hflag]
    constructor
    · intro hsome
      exact .inl ⟨q, y, hy, hold, hq, hsome⟩
    · rintro (⟨q', y', hy', hold', -, hsome⟩ | ⟨hnot, -⟩)
      · obtain ⟨rfl, -⟩ := child_inj hy hy' (hold.symm.trans hold')
        exact hsome
      · exact absurd hq (hnot q y hy hold)
  · constructor
    · intro hflag
      exact .inr ⟨hnot, hflag⟩
    · rintro (⟨q, y, hy, hold, hq, -⟩ | ⟨-, hflag⟩)
      · exact absurd hq (hnot q y hy hold)
      · exact hflag

/-- **Renaming.**  The flags are right afterwards if the old parent keeps a name, or keeps the
mailbox, or the mailbox has taken nothing with it. -/
theorem Flags.rename {pending : Option String} (hflags : account.Flags pending)
    (htree : account.Tree) (h : account.Moves old id params.fullPath parent x)
    (hparent : account.FlagsParent pending parent params.parentMailboxId params.fullPath)
    (hkeep : account.KeepsParent old params.fullPath) :
    (account.rename old id params newState).Flags none := by
  intro k i mailbox hk hmailbox
  rw [rename_names] at hk ⊢
  obtain ⟨data, hdata, hflag⟩ := getElem?_rename_data hmailbox
  have hold : old ∈ account.mailboxNames := mem_iff_exists_getElem?.mpr ⟨id, h.source⟩
  -- neither the renamed mailbox nor anything below it is flagged by the renaming
  have hmoved {n : String} (hn : account.mailboxNames[n]? = some i)
      (hnold : n = old ∨ Below old n) :
      mailbox.hasChildren = true ↔ ∃ n' ∈ account.mailboxNames, Below n n' := by
    have hnot_above : ¬ Below n params.fullPath := by
      intro hb
      obtain ⟨hne, hbelow⟩ := h.above_stays (.inl hb)
      rcases hnold with rfl | hnold
      · exact hne rfl
      · exact hbelow hnold
    have hnot_q {q y : String} (hq : account.mailboxNames[q]? = some i) : old ≠ q ++ "/" ++ y := by
      intro heq
      have hbelow : Below n old := htree.injective q n i hq hn ▸ heq ▸ below_append q y
      rcases hnold with rfl | hnold
      · exact below_irrefl n hbelow
      · exact below_irrefl n (hbelow.trans hnold)
    rw [hflag, hflags n i data hn hdata]
    constructor
    · rintro (hset | ⟨q, y, -, heq, hq, -⟩ | ⟨-, hbelow | hpending⟩)
      · obtain ⟨p, hp, hb⟩ := hparent.set i hset
        exact absurd (htree.injective p n i hp hn ▸ hb) hnot_above
      · exact absurd heq (hnot_q hq)
      · exact hbelow
      · rcases hparent.ahead with hahead | ⟨hnone, -⟩
        · have htarget := h.target
          rw [← hahead, hpending, childName_some] at htarget
          exact absurd (htarget ▸ below_append n x) hnot_above
        · cases hnone.symm.trans hpending
    · intro hbelow
      exact .inr (.inr ⟨fun q y _ heq hq ↦ hnot_q hq heq, .inl hbelow⟩)
  rcases (h.getElem?_iff htree).mp hk with ⟨rfl, rfl⟩ | ⟨t, rfl, hn⟩ | ⟨hne, hb, hn⟩
  · rw [hmoved h.source (.inl rfl), h.exists_below_target htree]
    simp
  · rw [hmoved hn (.inr (below_append old t)), h.exists_below_moved htree]
    simp
  · have hmem : k ∈ account.mailboxNames := mem_iff_exists_getElem?.mpr ⟨i, hn⟩
    rw [hflag, hflags k i data hn hdata, h.exists_below_stays htree hmem]
    simp only [reduceCtorEq, or_false]
    have hq_iff {q : String} (hq : account.mailboxNames[q]? = some i) : q = k :=
      htree.injective q k i hq hn
    constructor
    · rintro (hset | ⟨q, y, hy, heq, hq, n', hn', hne', hbelow⟩ | ⟨hnot,
        ⟨n', hn', hbelow⟩ | hpending⟩)
      · -- flagged as the new parent
        obtain ⟨p, hp, hbelow⟩ := hparent.set i hset
        exact .inl (hq_iff hp ▸ hbelow)
      · -- judged as the old parent
        obtain rfl := hq_iff hq
        by_cases hbelow_old : Below old n'
        · exact hkeep q y hy heq hmem ⟨n', hn', hbelow_old⟩
        · exact .inr ⟨n', hn', hne', hbelow_old, hbelow⟩
      · -- neither: what it has below it stays, or something between it and the mailbox does
        have hbetween (hbelow : Below k old) :
            ∃ n ∈ account.mailboxNames, n ≠ old ∧ ¬ Below old n ∧ Below k n := by
          obtain ⟨t, rfl⟩ := below_iff.mp hbelow
          by_cases hslash : '/' ∈ t.toList
          · obtain ⟨t', z, hz, rfl⟩ := exists_child_of_slash hslash
            have hassoc : k ++ "/" ++ (t' ++ "/" ++ z) = k ++ "/" ++ t' ++ "/" ++ z := by
              simp [String.append_assoc]
            rw [hassoc] at hold ⊢
            have hlt := below_append (k ++ "/" ++ t') z
            rcases htree.closed _ z hz hold with hq | hp
            · exact ⟨_, hq, hlt.ne, fun hb' ↦ below_irrefl _ (hb'.trans hlt), below_append k t'⟩
            · exact absurd ⟨_, hp, .inr (below_append k t')⟩ (htree.not_above_root hmem)
          · exact absurd hn (hnot k t hslash rfl)
        by_cases heq : n' = old
        · exact .inr (hbetween (heq ▸ hbelow))
        · by_cases hb' : Below old n'
          · obtain ⟨s, rfl⟩ := below_iff.mp hb'
            rcases below_append_cases hbelow with rfl | hk_old | hold_k
            · exact absurd rfl hne
            · exact .inr (hbetween hk_old)
            · exact absurd hold_k hb
          · exact .inr ⟨n', hn', heq, hb', hbelow⟩
      · rcases hparent.ahead with hahead | ⟨hnone, -⟩
        · have htarget := h.target
          rw [← hahead, hpending, childName_some] at htarget
          exact .inl (htarget ▸ below_append k x)
        · cases hnone.symm.trans hpending
    · intro hafter
      by_cases hq : ∃ q y, SlashFree y ∧ old = q ++ "/" ++ y ∧ account.mailboxNames[q]? = some i
      · obtain ⟨q, y, hy, heq, hq⟩ := hq
        obtain rfl := hq_iff hq
        rcases hafter with hnew | ⟨n', hn', hne', -, hbelow⟩
        · obtain ⟨p, hp, rfl | hbelow⟩ := (h.below_target_iff htree hmem).mp hnew
          · rcases hparent.ahead with hahead | ⟨-, hset⟩
            · exact absurd (heq ▸ below_append q y) (hparent.last q (hahead ▸ hp) old hold)
            · exact .inl ((hset q hp).symm.trans hq)
          · have hp_ne : p ≠ old := by
              obtain rfl := Option.mem_def.mp hp
              exact (h.above_stays (.inl (h.target ▸ below_append p x))).1
            exact .inr (.inl ⟨q, y, hy, heq, hq, p, h.hasParent p hp, hp_ne, hbelow⟩)
        · exact .inr (.inl ⟨q, y, hy, heq, hq, n', hn', hne', hbelow⟩)
      · have hnot : ∀ q y, SlashFree y → old = q ++ "/" ++ y → account.mailboxNames[q]? ≠ some i :=
          fun q y hy heq hq' ↦ hq ⟨q, y, hy, heq, hq'⟩
        rcases hafter with hnew | ⟨n', hn', -, -, hbelow⟩
        · obtain ⟨p, hp, rfl | hbelow⟩ := (h.below_target_iff htree hmem).mp hnew
          · rcases hparent.ahead with hahead | ⟨-, hset⟩
            · exact .inr (.inr ⟨hnot, .inr (hahead.trans hp)⟩)
            · exact .inl ((hset k hp).symm.trans hn)
          · exact .inr (.inr ⟨hnot, .inl ⟨p, h.hasParent p hp, hbelow⟩⟩)
        · exact .inr (.inr ⟨hnot, .inl ⟨n', hn', hbelow⟩⟩)

end Account

end ImapToJmap
