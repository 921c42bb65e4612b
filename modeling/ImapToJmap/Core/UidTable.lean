import ImapToJmap.Data.List

/-!
# Numbered tables

What a mailbox's part of the UID database is *for*: a table that gives every message of the
mailbox a number, never gives a number twice, and numbers later arrivals higher.  `UidTable ι` is
that table over arbitrary message ids `ι`, with its invariant in the structure: entries in
strictly increasing order of their numbers, one entry per id, and a counter that bounds them all.

The operations are the ones the database code performs, in one line each: `restrict` drops
messages, `ensure` numbers a message that has no number yet, and `sync` makes the table agree with
a listing.  `sync_entries` is the shape of the result on which everything above rests: the old
entries that are still listed, in their old order, followed by new ones with larger numbers.

`Core/Refine.lean` proves that the byte-level programs implement these operations.
-/

universe u

namespace ImapToJmap

/-- A table numbering messages. -/
@[ext]
structure UidTable (ι : Type u) where
  /-- The numbered messages, by increasing number. -/
  entries : List (ℕ × ι)
  /-- The largest number given out so far. -/
  next : ℕ
  sorted : entries.Pairwise fun a b ↦ a.1 < b.1
  nodup : (entries.map Prod.snd).Nodup
  bounds : ∀ e ∈ entries, 1 ≤ e.1 ∧ e.1 ≤ next

namespace UidTable

variable {ι : Type u}

/-- The ids in the table. -/
def ids (T : UidTable ι) : List ι := T.entries.map Prod.snd

/-- The numbers in the table. -/
def uids (T : UidTable ι) : List ℕ := T.entries.map Prod.fst

theorem mem_ids {T : UidTable ι} {i : ι} : i ∈ T.ids ↔ ∃ u, (u, i) ∈ T.entries := by
  simp [ids]

theorem mem_uids {T : UidTable ι} {u : ℕ} : u ∈ T.uids ↔ ∃ i, (u, i) ∈ T.entries := by
  simp [uids]

theorem pairwise_uids (T : UidTable ι) : T.uids.Pairwise (· < ·) :=
  List.pairwise_map.mpr T.sorted

theorem le_next {T : UidTable ι} {u : ℕ} {i : ι} (h : (u, i) ∈ T.entries) : u ≤ T.next :=
  (T.bounds _ h).2

/-- A number belongs to one message. -/
theorem id_unique {T : UidTable ι} {u : ℕ} {i j : ι} (hi : (u, i) ∈ T.entries)
    (hj : (u, j) ∈ T.entries) : i = j := by
  have hnd : (T.entries.map Prod.fst).Nodup := T.pairwise_uids.imp Nat.ne_of_lt
  exact congrArg Prod.snd (List.inj_on_of_nodup_map hnd hi hj rfl)

/-- A message has one number. -/
theorem uid_unique {T : UidTable ι} {u v : ℕ} {i : ι} (hu : (u, i) ∈ T.entries)
    (hv : (v, i) ∈ T.entries) : u = v :=
  congrArg Prod.fst (List.inj_on_of_nodup_map T.nodup hu hv rfl)

/-- The table of an unused mailbox. -/
def empty : UidTable ι where
  entries := []
  next := 0
  sorted := .nil
  nodup := .nil
  bounds := by simp

/-- Keep the messages that satisfy `p`. -/
def restrict (T : UidTable ι) (p : ι → Bool) : UidTable ι where
  entries := T.entries.filter fun e ↦ p e.2
  next := T.next
  sorted := T.sorted.filter _
  nodup := T.nodup.sublist (List.filter_sublist.map _)
  bounds := fun e he ↦ T.bounds e (List.mem_of_mem_filter he)

@[simp] theorem restrict_next (T : UidTable ι) (p : ι → Bool) : (T.restrict p).next = T.next := rfl

theorem mem_restrict {T : UidTable ι} {p : ι → Bool} {e : ℕ × ι} :
    e ∈ (T.restrict p).entries ↔ e ∈ T.entries ∧ p e.2 = true := List.mem_filter

theorem mem_ids_restrict {T : UidTable ι} {p : ι → Bool} {i : ι} :
    i ∈ (T.restrict p).ids ↔ i ∈ T.ids ∧ p i = true := by
  simp [mem_ids, mem_restrict]

/-- Number a new message. -/
def push (T : UidTable ι) (i : ι) (h : i ∉ T.ids) : UidTable ι where
  entries := T.entries ++ [(T.next + 1, i)]
  next := T.next + 1
  sorted := by
    rw [List.pairwise_append]
    refine ⟨T.sorted, by simp, fun a ha b hb ↦ ?_⟩
    rw [List.mem_singleton.mp hb]
    exact Nat.lt_succ_of_le (T.bounds a ha).2
  nodup := by
    rw [List.map_append, List.nodup_append]
    refine ⟨T.nodup, by simp, fun a ha b hb hab ↦ h ?_⟩
    rw [List.map_singleton, List.mem_singleton] at hb
    rw [hab, hb] at ha
    exact ha
  bounds := fun e he ↦ by
    rcases List.mem_append.mp he with he | he
    · exact ⟨(T.bounds e he).1, Nat.le_succ_of_le (T.bounds e he).2⟩
    · rw [List.mem_singleton.mp he]
      exact ⟨Nat.succ_pos _, le_rfl⟩

@[simp] theorem push_next (T : UidTable ι) (i : ι) (h : i ∉ T.ids) :
    (T.push i h).next = T.next + 1 := rfl

theorem push_entries (T : UidTable ι) (i : ι) (h : i ∉ T.ids) :
    (T.push i h).entries = T.entries ++ [(T.next + 1, i)] := rfl

variable [DecidableEq ι]

/-- Number a message unless it has a number. -/
def ensure (T : UidTable ι) (i : ι) : UidTable ι := if h : i ∈ T.ids then T else T.push i h

/-- Number every listed message that has no number, in the order of the list. -/
def ensureAll (T : UidTable ι) (l : List ι) : UidTable ι := l.foldl ensure T

/-- Make the table agree with a listing. -/
def sync (T : UidTable ι) (l : List ι) : UidTable ι := (T.restrict (· ∈ l)).ensureAll l

theorem ensure_of_mem {T : UidTable ι} {i : ι} (h : i ∈ T.ids) : T.ensure i = T := dif_pos h

theorem ensure_of_notMem {T : UidTable ι} {i : ι} (h : i ∉ T.ids) : T.ensure i = T.push i h :=
  dif_neg h

theorem mem_ids_ensure {T : UidTable ι} {i j : ι} : j ∈ (T.ensure i).ids ↔ j ∈ T.ids ∨ j = i := by
  by_cases h : i ∈ T.ids
  · rw [ensure_of_mem h]
    exact ⟨.inl, fun hj ↦ hj.elim id fun e ↦ e ▸ h⟩
  · rw [ensure_of_notMem h]
    simp [ids, push_entries]

theorem mem_ids_ensureAll {T : UidTable ι} {l : List ι} {j : ι} :
    j ∈ (T.ensureAll l).ids ↔ j ∈ T.ids ∨ j ∈ l := by
  induction l generalizing T with
  | nil => simp [ensureAll]
  | cons i l ih =>
      rw [ensureAll, List.foldl_cons, ← ensureAll, ih, mem_ids_ensure, List.mem_cons]
      tauto

/-- There is nothing to do if every message has a number. -/
theorem ensureAll_of_subset {T : UidTable ι} {l : List ι} (h : ∀ i ∈ l, i ∈ T.ids) :
    T.ensureAll l = T := by
  induction l with
  | nil => rfl
  | cons i l ih =>
      rw [ensureAll, List.foldl_cons, ensure_of_mem (h i List.mem_cons_self)]
      exact ih fun j hj ↦ h j (List.mem_cons_of_mem _ hj)

/-- Numbering appends: the old entries stay in front, the new ones are above the counter and
listed. -/
theorem ensureAll_entries (T : UidTable ι) (l : List ι) :
    ∃ new, (T.ensureAll l).entries = T.entries ++ new ∧
      T.next + new.length = (T.ensureAll l).next ∧
      ∀ e ∈ new, T.next < e.1 ∧ e.2 ∈ l ∧ e.2 ∉ T.ids := by
  induction l generalizing T with
  | nil => exact ⟨[], by simp [ensureAll], rfl, by simp⟩
  | cons i l ih =>
      have hcons : T.ensureAll (i :: l) = (T.ensure i).ensureAll l := rfl
      obtain ⟨new, hnew, hlen, habove⟩ := ih (T.ensure i)
      rw [hcons]
      by_cases h : i ∈ T.ids
      · rw [ensure_of_mem h] at hnew hlen habove ⊢
        refine ⟨new, hnew, hlen, fun e he ↦ ?_⟩
        obtain ⟨h₁, h₂, h₃⟩ := habove e he
        exact ⟨h₁, List.mem_cons_of_mem _ h₂, h₃⟩
      · have hmem := @mem_ids_ensure ι _ T i
        rw [ensure_of_notMem h] at hnew hlen habove hmem ⊢
        refine ⟨(T.next + 1, i) :: new, ?_, ?_, ?_⟩
        · rw [hnew, push_entries, List.append_assoc, List.singleton_append]
        · rw [← hlen, push_next, List.length_cons]
          omega
        · intro e he
          rcases List.mem_cons.mp he with rfl | he
          · exact ⟨Nat.lt_succ_self _, List.mem_cons_self, h⟩
          · obtain ⟨h₁, h₂, h₃⟩ := habove e he
            rw [push_next] at h₁
            exact ⟨by omega, List.mem_cons_of_mem _ h₂, fun hc ↦ h₃ (hmem.mpr (.inl hc))⟩

/-- The new entries are the listed ids that had no number, in the order of the list. -/
theorem ensureAll_new (T : UidTable ι) {l : List ι} (hl : l.Nodup) :
    ∃ new, (T.ensureAll l).entries = T.entries ++ new ∧
      new.map Prod.snd = l.filter fun i ↦ i ∉ T.ids := by
  induction l generalizing T with
  | nil => exact ⟨[], by simp [ensureAll], rfl⟩
  | cons i l ih =>
      have hcons : T.ensureAll (i :: l) = (T.ensure i).ensureAll l := rfl
      obtain ⟨hi, hl'⟩ := List.nodup_cons.mp hl
      obtain ⟨new, hnew, hids⟩ := ih (T.ensure i) hl'
      -- what follows `i` in the list is not `i`, so numbering `i` does not matter to it
      have hfilter : (l.filter fun j ↦ j ∉ (T.ensure i).ids) = l.filter fun j ↦ j ∉ T.ids := by
        refine List.filter_congr fun j hj ↦ ?_
        have hji : j ≠ i := fun hc ↦ hi (hc ▸ hj)
        simp [mem_ids_ensure, hji]
      rw [hcons]
      by_cases h : i ∈ T.ids
      · rw [ensure_of_mem h] at hnew hids ⊢
        exact ⟨new, hnew, by simpa [h] using hids⟩
      · rw [hfilter] at hids
        rw [ensure_of_notMem h] at hnew ⊢
        refine ⟨(T.next + 1, i) :: new, ?_, ?_⟩
        · rw [hnew, push_entries, List.append_assoc, List.singleton_append]
        · simp [h, hids]

/-- The number of a message. -/
def uid? (T : UidTable ι) (i : ι) : Option ℕ := (T.entries.find? fun e ↦ e.2 = i).map Prod.fst

theorem uid?_eq_some {T : UidTable ι} {i : ι} {u : ℕ} : T.uid? i = some u ↔ (u, i) ∈ T.entries := by
  rw [uid?, Option.map_eq_some_iff]
  constructor
  · rintro ⟨e, he, rfl⟩
    have hi : e.2 = i := by simpa using List.find?_some he
    exact hi ▸ List.mem_of_find?_eq_some he
  · intro hmem
    cases hfind : T.entries.find? fun e ↦ e.2 = i with
    | none => simpa using List.find?_eq_none.mp hfind _ hmem
    | some e =>
        have hi : e.2 = i := by simpa using List.find?_some hfind
        exact ⟨e, rfl, uid_unique (hi ▸ List.mem_of_find?_eq_some hfind) hmem⟩

theorem uid?_eq_none {T : UidTable ι} {i : ι} : T.uid? i = none ↔ i ∉ T.ids := by
  rw [mem_ids, Option.eq_none_iff_forall_ne_some, not_exists]
  exact forall_congr' fun u ↦ not_congr uid?_eq_some

/-- Which of two listed messages comes first once both are numbered: those that have a number by
their numbers, the others after them in the order of the list. -/
def Before (T : UidTable ι) (l : List ι) (i j : ι) : Prop :=
  match T.uid? i, T.uid? j with
  | some u, some v => u < v
  | some _, none => True
  | none, some _ => False
  | none, none => l.idxOf i < l.idxOf j

/-- In a list without duplicates the positions increase. -/
theorem pairwise_idxOf {l : List ι} (hl : l.Nodup) :
    l.Pairwise fun i j ↦ l.idxOf i < l.idxOf j := by
  rw [List.pairwise_iff_getElem]
  intro a b ha hb hab
  rwa [hl.idxOf_getElem a ha, hl.idxOf_getElem b hb]

/-- The order of the numbers after numbering a list. -/
theorem lt_iff_before {T : UidTable ι} {l : List ι} (hl : l.Nodup) {i j : ι} {u v : ℕ}
    (hu : (u, i) ∈ (T.ensureAll l).entries) (hv : (v, j) ∈ (T.ensureAll l).entries) : u < v ↔
      T.Before l i j := by
  obtain ⟨new, hnew, hids⟩ := T.ensureAll_new hl
  have hsorted : (T.entries ++ new).Pairwise fun a b ↦ a.1 < b.1 :=
    hnew ▸ (T.ensureAll l).sorted
  rw [List.pairwise_append] at hsorted
  obtain ⟨-, hsorted', hcross⟩ := hsorted
  -- an entry with a new id is a new entry, one with an old id an old one
  have hold : ∀ {w : ℕ} {k : ι}, (w, k) ∈ (T.ensureAll l).entries → k ∈ T.ids →
      (w, k) ∈ T.entries := by
    intro w k hw hk
    rw [hnew] at hw
    rcases List.mem_append.mp hw with hw | hw
    · exact hw
    · have : k ∈ new.map Prod.snd := List.mem_map.mpr ⟨_, hw, rfl⟩
      rw [hids] at this
      exact absurd hk (by simpa using (List.mem_filter.mp this).2)
  have hfresh : ∀ {w : ℕ} {k : ι}, (w, k) ∈ (T.ensureAll l).entries → k ∉ T.ids →
      (w, k) ∈ new := by
    intro w k hw hk
    rw [hnew] at hw
    rcases List.mem_append.mp hw with hw | hw
    · exact absurd (mem_ids.mpr ⟨w, hw⟩) hk
    · exact hw
  rw [Before]
  cases hTi : T.uid? i with
  | some u' =>
      have hu' := uid?_eq_some.mp hTi
      obtain rfl : u = u' := uid_unique (hold hu (mem_ids.mpr ⟨u', hu'⟩)) hu'
      cases hTj : T.uid? j with
      | some v' =>
          have hv' := uid?_eq_some.mp hTj
          obtain rfl : v = v' := uid_unique (hold hv (mem_ids.mpr ⟨v', hv'⟩)) hv'
          rfl
      | none => exact iff_true_intro (hcross _ hu' _ (hfresh hv (uid?_eq_none.mp hTj)))
  | none =>
      have hu' := hfresh hu (uid?_eq_none.mp hTi)
      cases hTj : T.uid? j with
      | some v' =>
          have hv' := uid?_eq_some.mp hTj
          obtain rfl : v = v' := uid_unique (hold hv (mem_ids.mpr ⟨v', hv'⟩)) hv'
          exact iff_false_intro fun hlt ↦ absurd (hcross _ hv' _ hu') (by simpa using hlt.le)
      | none =>
          have hv' := hfresh hv (uid?_eq_none.mp hTj)
          have hpos : new.Pairwise fun a b ↦ l.idxOf a.2 < l.idxOf b.2 := by
            have := (pairwise_idxOf hl).filter fun i ↦ i ∉ T.ids
            rwa [← hids, List.pairwise_map] at this
          exact iff_of_pairwise hsorted' hpos (fun _ _ h ↦ by omega) (fun _ _ h ↦ by omega) hu' hv'

theorem next_le_ensureAll (T : UidTable ι) (l : List ι) : T.next ≤ (T.ensureAll l).next := by
  obtain ⟨new, -, hlen, -⟩ := T.ensureAll_entries l
  omega

theorem next_le_sync (T : UidTable ι) (l : List ι) : T.next ≤ (T.sync l).next :=
  (T.restrict _).next_le_ensureAll l

/-- **The shape of a synchronized table**: what is still listed, then newcomers with numbers
above everything given out before. -/
theorem sync_entries (T : UidTable ι) (l : List ι) :
    ∃ new, (T.sync l).entries = (T.entries.filter fun e ↦ e.2 ∈ l) ++ new ∧
      T.next + new.length = (T.sync l).next ∧ ∀ e ∈ new, T.next < e.1 := by
  obtain ⟨new, hnew, hlen, habove⟩ := (T.restrict (· ∈ l)).ensureAll_entries l
  exact ⟨new, hnew, hlen, fun e he ↦ (habove e he).1⟩

/-- What a table becomes while its counter is kept: entries go, and what comes is numbered above
everything given out before. -/
structure Later (T T' : UidTable ι) : Prop where
  next_le : T.next ≤ T'.next
  entries : ∀ e ∈ T'.entries, e ∈ T.entries ∨ T.next < e.1

omit [DecidableEq ι] in
theorem Later.refl (T : UidTable ι) : T.Later T := ⟨le_rfl, fun _ he ↦ .inl he⟩

omit [DecidableEq ι] in
theorem Later.trans {T T' T'' : UidTable ι} (h : T.Later T') (h' : T'.Later T'') :
    T.Later T'' where
  next_le := h.next_le.trans h'.next_le
  entries e he := (h'.entries e he).elim (h.entries e) fun hlt ↦ .inr (h.next_le.trans_lt hlt)

omit [DecidableEq ι] in
theorem later_restrict (T : UidTable ι) (p : ι → Bool) : T.Later (T.restrict p) :=
  ⟨le_rfl, fun _ he ↦ .inl (mem_restrict.mp he).1⟩

theorem later_ensureAll (T : UidTable ι) (l : List ι) : T.Later (T.ensureAll l) := by
  obtain ⟨new, hnew, -, habove⟩ := T.ensureAll_entries l
  refine ⟨T.next_le_ensureAll l, fun e he ↦ ?_⟩
  rw [hnew] at he
  exact (List.mem_append.mp he).imp_right fun he ↦ (habove e he).1

theorem later_sync (T : UidTable ι) (l : List ι) : T.Later (T.sync l) :=
  (T.later_restrict _).trans ((T.restrict _).later_ensureAll l)

/-- After a synchronization the table has the listed messages and no others. -/
theorem mem_ids_sync {T : UidTable ι} {l : List ι} {j : ι} : j ∈ (T.sync l).ids ↔ j ∈ l := by
  rw [sync, mem_ids_ensureAll, mem_ids_restrict, decide_eq_true_eq]
  tauto

end UidTable

end ImapToJmap
