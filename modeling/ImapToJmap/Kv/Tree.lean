import Mathlib

/-!
# Ordered trees of byte-string keys

An embedded ordered store, of the kind `sled::Db` is: a finite map from keys that are *strings*
over an ordered alphabet to values, iterated in lexicographic key order.  The carrier is
`Std.ExtTreeMap`, so that two trees with the same bindings are equal; this file adds the three
operations an ordered store offers on top of point reads and writes:

* `applyBatch`, a list of edits applied as one atomic step;
* `scanPrefix`, the bindings whose key extends a given prefix, in key order;
* `scanNext`, one step of the same scan, resumed after the last key seen.

The scan is the delicate one.  A store's iterator is not a snapshot: each step reads the *current*
tree from the last key onwards.  `scanFrom` is the list an undisturbed scan would still produce,
and `scanFrom_eq_cons` says that taking `scanNext` and moving the cursor is taking its head.
-/

namespace ImapToJmap.Kv

variable {α ν : Type} [Ord α] [Std.TransOrd α] [Std.LawfulEqOrd α] [DecidableEq α]

/-- A finite map from strings over `α` to values, ordered lexicographically. -/
abbrev Tree (α ν : Type) [Ord α] := Std.ExtTreeMap (List α) ν compare

/-- One entry of a batch. -/
inductive Edit (α ν : Type) where
  | insert (key : List α) (value : ν)
  | remove (key : List α)
deriving DecidableEq

namespace Edit

/-- The key an edit writes or removes. -/
def key : Edit α ν → List α
  | .insert k _ | .remove k => k

/-- What the edit leaves under its key. -/
def result : Edit α ν → Option ν
  | .insert _ v => some v
  | .remove _ => none

def apply (t : Tree α ν) : Edit α ν → Tree α ν
  | .insert k v => t.insert k v
  | .remove k => t.erase k

theorem getElem?_apply (t : Tree α ν) (e : Edit α ν) (k : List α) :
    (e.apply t)[k]? = if e.key = k then e.result else t[k]? := by
  cases e with
  | insert k' v => by_cases h : k' = k <;> simp [apply, key, result,
      Std.ExtTreeMap.getElem?_insert, h]
  | remove k' => by_cases h : k' = k <;> simp [apply, key, result, Std.ExtTreeMap.getElem?_erase, h]

end Edit

namespace Tree

/-! ## Batches -/

/-- Apply a batch of edits, in order, as one step. -/
def applyBatch (t : Tree α ν) (b : List (Edit α ν)) : Tree α ν := b.foldl Edit.apply t

/-- A batch leaves alone every key it does not mention. -/
theorem getElem?_applyBatch_of_notMem (t : Tree α ν) (b : List (Edit α ν)) (k : List α)
    (h : ∀ e ∈ b, e.key ≠ k) : (applyBatch t b)[k]? = t[k]? := by
  induction b generalizing t with
  | nil => rfl
  | cons e b ih =>
      have hb : ∀ e' ∈ b, e'.key ≠ k := fun e' he' ↦ h e' (List.mem_cons_of_mem _ he')
      have hcons : applyBatch t (e :: b) = applyBatch (e.apply t) b := rfl
      rw [hcons, ih _ hb, Edit.getElem?_apply, if_neg (h e List.mem_cons_self)]

/-- If every edit of a key leaves the same thing there, so does a batch that mentions it. -/
theorem getElem?_applyBatch_of_mem (t : Tree α ν) (b : List (Edit α ν)) (k : List α)
    (r : Option ν) (hr : ∀ e ∈ b, e.key = k → e.result = r) (h : ∃ e ∈ b, e.key = k) :
    (applyBatch t b)[k]? = r := by
  induction b generalizing t with
  | nil => simp at h
  | cons e b ih =>
      have hb : ∀ e' ∈ b, e'.key = k → e'.result = r :=
        fun e' he' ↦ hr e' (List.mem_cons_of_mem _ he')
      have hcons : applyBatch t (e :: b) = applyBatch (e.apply t) b := rfl
      rw [hcons]
      by_cases hmem : ∃ e' ∈ b, e'.key = k
      · exact ih _ hb hmem
      · have hno : ∀ e' ∈ b, e'.key ≠ k := fun e' he' hk ↦ hmem ⟨e', he', hk⟩
        obtain ⟨e', he', hk⟩ := h
        rcases List.mem_cons.mp he' with rfl | he'
        · rw [getElem?_applyBatch_of_notMem _ _ _ hno, Edit.getElem?_apply, if_pos hk]
          exact hr _ List.mem_cons_self hk
        · exact absurd hk (hno e' he')

/-! ## Prefix scans -/

/-- The bindings whose key extends `pre`, in key order. -/
def scanPrefix (t : Tree α ν) (pre : List α) : List (List α × ν) :=
  t.toList.filter fun e ↦ pre.isPrefixOf e.1

theorem mem_scanPrefix {t : Tree α ν} {pre k : List α} {v : ν} :
    (k, v) ∈ t.scanPrefix pre ↔ t[k]? = some v ∧ pre <+: k := by
  simp [scanPrefix, Std.ExtTreeMap.mem_toList_iff_getElem?_eq_some]

omit [Std.LawfulEqOrd α] in
theorem pairwise_scanPrefix (t : Tree α ν) (pre : List α) :
    (t.scanPrefix pre).Pairwise fun a b ↦ compare a.1 b.1 = .lt :=
  (Std.ExtTreeMap.ordered_keys_toList (t := t)).filter _

omit [DecidableEq α] in
/-- Two lists of bindings in strict key order with the same members are equal. -/
theorem eq_of_pairwise_of_mem_iff {l₁ l₂ : List (List α × ν)}
    (h₁ : l₁.Pairwise fun a b ↦ compare a.1 b.1 = .lt)
    (h₂ : l₂.Pairwise fun a b ↦ compare a.1 b.1 = .lt)
    (h : ∀ e, e ∈ l₁ ↔ e ∈ l₂) : l₁ = l₂ := by
  have hnd : ∀ {l : List (List α × ν)},
      l.Pairwise (fun a b ↦ compare a.1 b.1 = .lt) → l.Nodup := fun hl ↦
    hl.imp fun {a b} hlt heq ↦ by
      subst heq
      simp [Std.ReflCmp.compare_self] at hlt
  have hperm : l₁.Perm l₂ := (List.perm_ext_iff_of_nodup (hnd h₁) (hnd h₂)).mpr h
  refine List.Perm.eq_of_pairwise ?_ h₁ h₂ hperm
  intro a b _ _ hab hba
  have hswap : compare a.1 b.1 = (compare b.1 a.1).swap := Std.OrientedOrd.eq_swap
  rw [hswap, hba] at hab
  exact absurd hab (by decide)

/-- A scan is determined by the bindings under its prefix. -/
theorem scanPrefix_eq {t : Tree α ν} {pre : List α} {l : List (List α × ν)}
    (hl : l.Pairwise fun a b ↦ compare a.1 b.1 = .lt)
    (h : ∀ k v, (k, v) ∈ l ↔ t[k]? = some v ∧ pre <+: k) : t.scanPrefix pre = l :=
  eq_of_pairwise_of_mem_iff (pairwise_scanPrefix t pre) hl fun ⟨k, v⟩ ↦ by
    rw [mem_scanPrefix, h]

/-! ## Resumable scans -/

/-- Whether a key lies after the cursor of a scan. -/
def after : Option (List α) → List α → Bool
  | none, _ => true
  | some c, k => compare c k == .lt

/-- What an undisturbed scan of `pre` would still produce from the cursor `cur`. -/
def scanFrom (t : Tree α ν) (pre : List α) (cur : Option (List α)) : List (List α × ν) :=
  (t.scanPrefix pre).filter fun e ↦ after cur e.1

/-- One step of a scan: the first binding under `pre` after the cursor, in the tree as it is
*now*. -/
def scanNext (t : Tree α ν) (pre : List α) (cur : Option (List α)) : Option (List α × ν) :=
  (t.scanFrom pre cur).head?

/-- What a scan comes to is a binding under its prefix. -/
theorem mem_of_scanNext {t : Tree α ν} {pre : List α} {cur : Option (List α)} {e : List α × ν}
    (h : t.scanNext pre cur = some e) : pre <+: e.1 ∧ t[e.1]? = some e.2 := by
  have hmem := List.mem_of_mem_filter (List.mem_of_mem_head? h)
  exact (mem_scanPrefix.mp hmem).symm

omit [Std.LawfulEqOrd α] in
@[simp] theorem scanFrom_none (t : Tree α ν) (pre : List α) :
    t.scanFrom pre none = t.scanPrefix pre := by
  simp [scanFrom, after]

/-- Moving the cursor past the head of the remaining scan leaves its tail. -/
theorem scanFrom_eq_cons {t : Tree α ν} {pre : List α} {cur : Option (List α)}
    {e : List α × ν} {l : List (List α × ν)} (h : t.scanFrom pre cur = e :: l) :
    t.scanFrom pre (some e.1) = l := by
  have hpw : (t.scanFrom pre cur).Pairwise fun a b ↦ compare a.1 b.1 = .lt :=
    (pairwise_scanPrefix t pre).filter _
  have hcur : after cur e.1 = true := by
    have hmem : e ∈ t.scanFrom pre cur := h ▸ List.mem_cons_self
    exact (List.mem_filter.mp hmem).2
  -- everything after `e` is after the old cursor too, so the new filter refines the old one
  have htrans : ∀ x : List α × ν, after (some e.1) x.1 = true → after cur x.1 = true := by
    intro x hx
    cases cur with
    | none => rfl
    | some c =>
        simp only [after, beq_iff_eq] at hcur hx ⊢
        exact Std.TransCmp.lt_trans hcur hx
  have hfilter : t.scanFrom pre (some e.1) =
      (t.scanFrom pre cur).filter fun x ↦ after (some e.1) x.1 := by
    rw [scanFrom, scanFrom, List.filter_filter]
    congr 1
    funext x
    cases hx : after (some e.1) x.1 with
    | false => simp
    | true => simp [htrans x hx]
  rw [h] at hpw
  rw [hfilter, h]
  have hself : after (some e.1) e.1 = false := by
    simp [after, Std.ReflCmp.compare_self]
  rw [List.filter_cons_of_neg (by simp [hself])]
  refine List.filter_eq_self.mpr fun x hx ↦ ?_
  simpa [after] using List.rel_of_pairwise_cons hpw hx

/-- Erasing a list of keys, as a batch of removals. -/
theorem getElem?_applyBatch_remove (t : Tree α ν) (ks : List (List α)) (k : List α) :
    (applyBatch t (ks.map Edit.remove))[k]? = if k ∈ ks then none else t[k]? := by
  split
  · rename_i hk
    refine getElem?_applyBatch_of_mem _ _ _ none ?_ ⟨.remove k, List.mem_map_of_mem hk, rfl⟩
    rintro e he -
    obtain ⟨k', -, rfl⟩ := List.mem_map.mp he
    rfl
  · rename_i hk
    refine getElem?_applyBatch_of_notMem _ _ _ fun e he heq ↦ ?_
    obtain ⟨k', hk', rfl⟩ := List.mem_map.mp he
    exact hk (heq ▸ hk')

end Tree

end ImapToJmap.Kv
