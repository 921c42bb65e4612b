import ImapToJmap.Mailboxes.Create

/-!
# The names after a renaming

The loop of `rename_folder` makes a new map of the names, with the renamed mailbox and what is below
it under the new name.  It takes a prefix of the text for a part of the path, and yet no name is
lost: the new name is not there, so there is nothing below it either, and what has moved cannot meet
what has stayed (`renamesExactly`).
-/

namespace ImapToJmap

/-- What is expected of the names after a renaming: the mailbox and those below it have moved, the
others are where they were, and they are as many as before. -/
structure RenamesExactly (names names' : Names) (old new : String) : Prop where
  self : names'[new]? = names[old]?
  below : ∀ x : String, names'[new ++ "/" ++ x]? = names[old ++ "/" ++ x]?
  gone : ∀ n, n = old ∨ Below old n → n ∉ names'
  others : ∀ n : String, n ≠ old → ¬ Below old n → n ≠ new → ¬ Below new n →
    names'[n]? = names[n]?
  size : names'.size = names.size

section

variable {names : Names} {root : Option String} {old new id : String}

/-- The name of a mailbox after a renaming, the renamed one included. -/
def renamed (old new n : String) : String := if n = old then new else moved old new n

theorem renamed_of_ne {n : String} (h : n ≠ old) : renamed old new n = moved old new n := if_neg h

@[simp] theorem renamed_self : renamed old new old = new := if_pos rfl

/-- The mailbox, one below it, and one apart from it. -/
theorem renamed_cases (old new n : String) :
    n = old ∧ renamed old new n = new ∨
      (∃ t, n = old ++ "/" ++ t ∧ renamed old new n = new ++ "/" ++ t) ∨
      n ≠ old ∧ ¬ Below old n ∧ renamed old new n = n := by
  by_cases hold : n = old
  · exact .inl ⟨hold, hold ▸ renamed_self⟩
  · rw [renamed_of_ne hold]
    by_cases hb : Below old n
    · obtain ⟨t, rfl⟩ := below_iff.mp hb
      exact .inr (.inl ⟨t, rfl, moved_append old new t⟩)
    · exact .inr (.inr ⟨hold, hb, moved_of_not_below hb⟩)

theorem moved_ne (hfresh : new ∉ names) {n : String} (hn : n ∈ names) : moved old new n ≠ new := by
  by_cases hb : Below old n
  · obtain ⟨t, rfl⟩ := below_iff.mp hb
    rw [moved_append]
    exact (below_append new t).ne.symm
  · rw [moved_of_not_below hb]
    rintro rfl
    exact hfresh hn

/-- No two mailboxes meet. -/
theorem renamed_inj (hnew : ∀ n ∈ names, ¬ Below new n) (hfresh : new ∉ names) {n n' : String}
    (hn : n ∈ names) (hn' : n' ∈ names) (h : renamed old new n = renamed old new n') : n = n' := by
  by_cases hold : n = old
  · subst hold
    by_cases hold' : n' = n
    · exact hold'.symm
    · rw [renamed_self, renamed_of_ne hold'] at h
      exact absurd h.symm (moved_ne hfresh hn')
  · by_cases hold' : n' = old
    · subst hold'
      rw [renamed_self, renamed_of_ne hold] at h
      exact absurd h (moved_ne hfresh hn)
    · rw [renamed_of_ne hold, renamed_of_ne hold'] at h
      exact moved_inj (hnew n hn) (hnew n' hn') h

/-- Every name comes from one that was there, with its id. -/
theorem getElem?_renameNames_iff (hnew : ∀ n ∈ names, ¬ Below new n) (hfresh : new ∉ names)
    (hold : names[old]? = some id) {k i : String} :
    (renameNames names old new id)[k]? = some i ↔
      ∃ n : String, names[n]? = some i ∧ renamed old new n = k := by
  rw [getElem?_renameNames hnew]
  constructor
  · rintro (⟨rfl, rfl⟩ | ⟨-, n, hne, hn, rfl⟩)
    · exact ⟨old, hold, renamed_self⟩
    · exact ⟨n, hn, renamed_of_ne hne⟩
  · rintro ⟨n, hn, rfl⟩
    by_cases hne : n = old
    · subst hne
      exact .inl ⟨renamed_self, Option.some.inj (hn.symm.trans hold)⟩
    · rw [renamed_of_ne hne]
      exact .inr ⟨moved_ne hfresh (mem_iff_exists_getElem?.mpr ⟨i, hn⟩), n, hne, hn, rfl⟩

theorem size_renameNames (hnew : ∀ n ∈ names, ¬ Below new n) (hfresh : new ∉ names)
    (hold : names[old]? = some id) : (renameNames names old new id).size = names.size := by
  have hnodup {names : Names} : names.keys.Nodup := by
    refine List.Pairwise.imp ?_ Std.ExtTreeMap.ordered_keys
    intro a b hlt
    exact (compare_lt_iff_lt.mp hlt).ne
  have hperm : (renameNames names old new id).keys.Perm (names.keys.map (renamed old new)) := by
    refine (List.perm_ext_iff_of_nodup hnodup ?_).mpr fun k ↦ ?_
    · refine List.Nodup.map_on (fun n hn n' hn' heq ↦ ?_) hnodup
      exact renamed_inj hnew hfresh (Std.ExtTreeMap.mem_keys.mp hn) (Std.ExtTreeMap.mem_keys.mp hn')
        heq
    · simp only [List.mem_map, Std.ExtTreeMap.mem_keys, mem_iff_exists_getElem?,
        getElem?_renameNames_iff hnew hfresh hold]
      constructor
      · rintro ⟨i, n, hn, hk⟩
        exact ⟨n, ⟨i, hn⟩, hk⟩
      · rintro ⟨n, ⟨i, hn⟩, hk⟩
        exact ⟨i, n, hn, hk⟩
  rw [← Std.ExtTreeMap.length_keys, ← Std.ExtTreeMap.length_keys, hperm.length_eq, List.length_map]

end

/-- **RENAME.**  The names are rewritten as they should be. -/
theorem renamesExactly {account : Account} {root : Option String} {old id : String}
    {params : CreateParams} (hclosed : ParentsIn account.mailboxNames root)
    (hroot : ∀ p ∈ root, Below p params.fullPath) (hold : account.mailboxNames[old]? = some id)
    (hfresh : params.fullPath ∉ account.mailboxNames) (hapart : ¬ Below old params.fullPath)
    (newState : String) :
    RenamesExactly account.mailboxNames (account.rename old id params newState).mailboxNames old
      params.fullPath := by
  rw [Account.rename_names]
  generalize account.mailboxNames = names at *
  generalize params.fullPath = new at *
  have hnew : ∀ n ∈ names, ¬ Below new n := fun n hn ↦ hclosed.not_below hfresh hroot hn
  have hmem : old ∈ names := mem_iff_exists_getElem?.mpr ⟨id, hold⟩
  have hne : old ≠ new := by
    rintro rfl
    exact hfresh hmem
  have hiff {k i : String} := getElem?_renameNames_iff hnew hfresh hold (k := k) (i := i)
  refine ⟨?_, fun x ↦ ?_, fun n hn ↦ ?_, fun n hnold hnbelow hnnew hnbelow' ↦ ?_,
    size_renameNames hnew hfresh hold⟩
  · rw [hold]
    exact hiff.mpr ⟨old, hold, renamed_self⟩
  · refine Option.ext fun i ↦ ?_
    rw [hiff]
    constructor
    · rintro ⟨n, hn, hk⟩
      rcases renamed_cases old new n with ⟨-, heq⟩ | ⟨t, rfl, heq⟩ | ⟨-, -, heq⟩
      · exact absurd (heq.symm.trans hk) (below_append new x).ne
      · obtain rfl : t = x :=
          String.toList_injective (by simpa using congrArg String.toList (heq.symm.trans hk))
        exact hn
      · obtain rfl := heq.symm.trans hk
        exact absurd (below_append new x) (hnew _ (mem_iff_exists_getElem?.mpr ⟨i, hn⟩))
    · intro hn
      exact ⟨_, hn, by rw [renamed_of_ne (below_append old x).ne.symm, moved_append]⟩
  · -- what has moved is apart from where it was
    rw [mem_iff_exists_getElem?]
    rintro ⟨i, hi⟩
    obtain ⟨m, hm, rfl⟩ := hiff.mp hi
    rcases renamed_cases old new m with ⟨-, heq⟩ | ⟨t, -, heq⟩ | ⟨hne', hb, heq⟩
    · rw [heq] at hn
      exact hn.elim hne.symm hapart
    · rw [heq] at hn
      rcases hn with rfl | hn
      · exact hnew _ hmem (below_append new t)
      · rcases below_append_cases hn with heq' | hb | hb
        · exact hne heq'
        · exact hapart hb
        · exact hnew old hmem hb
    · rw [heq] at hn
      exact hn.elim hne' hb
  · refine Option.ext fun i ↦ ?_
    rw [hiff]
    constructor
    · rintro ⟨m, hm, hk⟩
      rcases renamed_cases old new m with ⟨-, heq⟩ | ⟨t, -, heq⟩ | ⟨-, -, heq⟩
      · exact absurd (hk.symm.trans heq) hnnew
      · exact absurd (hk.symm.trans heq ▸ below_append new t) hnbelow'
      · obtain rfl := heq.symm.trans hk
        exact hm
    · intro hn
      exact ⟨n, hn, by rw [renamed_of_ne hnold, moved_of_not_below hnbelow]⟩

/-- A mailbox with a child, and one whose name begins with the same letter. -/
def similarNames : Names := .ofList [("A", "m"), ("A/X", "n"), ("AB", "k")]

theorem parentsIn_similarNames : ParentsIn similarNames none := by
  intro q x hx hmem
  refine .inl ?_
  have hkeys : similarNames.keys = ["A", "A/X", "AB"] := by decide +kernel
  rw [← Std.ExtTreeMap.mem_keys, hkeys, List.mem_cons, List.mem_cons, List.mem_singleton] at hmem
  have hnot {n : String} (hn : SlashFree n) : q ++ "/" ++ x ≠ n := by
    rintro rfl
    exact not_below_slashFree hn (below_append q x)
  rcases hmem with h | h | h
  · exact absurd h (hnot (by decide))
  · have hchild : q ++ "/" ++ x = "A" ++ "/" ++ "X" := h
    obtain ⟨rfl, -⟩ := child_inj hx (by decide) hchild
    rw [← Std.ExtTreeMap.mem_keys, hkeys]
    exact List.mem_cons_self
  · exact absurd h (hnot (by decide))

def similarAccount : Account := { ownAccount with mailboxNames := similarNames }

theorem renamesExactly_similar :
    RenamesExactly similarNames
      (similarAccount.rename "A" "m" ⟨"a", [], "AB/C", some "k", some "AB"⟩ "2").mailboxNames
      "A" "AB/C" := by
  have hclosed : ParentsIn similarAccount.mailboxNames none := parentsIn_similarNames
  exact renamesExactly hclosed (by simp) (by decide +kernel) (by decide +kernel) (by decide +kernel)
    "2"

end ImapToJmap
