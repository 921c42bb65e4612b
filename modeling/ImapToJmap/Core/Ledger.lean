import ImapToJmap.Core.UidTable

/-!
# Tables that remember what has left

A `Ledger` is a numbered table with, for each id, the last number the id gave up when it left.
`advance p l` is a step of its life: the messages outside `p` leave, and those of `l` that have no
number get one.

A message can leave, come back under a new number and leave again, but there is one memory per id.
`Complete H L` says that every number of the history `H` is still in use or remembered, and
`complete_advance` is when a step keeps this: exactly if nothing leaves that has left before.
-/

universe u

namespace ImapToJmap

/-- A table and the numbers given up. -/
structure Ledger (ι : Type u) where
  table : UidTable ι
  /-- The number an id had when it last left. -/
  gone : ι → Option ℕ

namespace Ledger

variable {ι : Type u}

/-- The ledger of an unused mailbox. -/
def empty : Ledger ι := ⟨.empty, fun _ ↦ none⟩

/-- What is known of a ledger with the history `H` of its entries. -/
structure Tracks (H : Set (ℕ × ι)) (L : Ledger ι) : Prop where
  entries : ∀ e ∈ L.table.entries, e ∈ H
  bounded : ∀ e ∈ H, e.1 ≤ L.table.next
  unique : ∀ e ∈ H, ∀ e' ∈ H, e.1 = e'.1 → e.2 = e'.2
  gone : ∀ i u, L.gone i = some u → (u, i) ∈ H ∧ u ∉ L.table.uids

/-- Every number of the history is in use or remembered. -/
def Complete (H : Set (ℕ × ι)) (L : Ledger ι) : Prop :=
  ∀ e ∈ H, e.1 ∈ L.table.uids ∨ L.gone e.2 = some e.1

theorem tracks_empty : Tracks (∅ : Set (ℕ × ι)) empty where
  entries := by simp [empty, UidTable.empty]
  bounded := by simp
  unique := by simp
  gone := by simp [empty]

variable [DecidableEq ι]

/-- Messages outside `p` leave, the messages of `l` are numbered. -/
def advance (L : Ledger ι) (p : ι → Bool) (l : List ι) : Ledger ι where
  table := (L.table.restrict p).ensureAll l
  gone i := if p i then L.gone i else (L.table.uid? i).or (L.gone i)

variable {H : Set (ℕ × ι)} {L : Ledger ι} {p : ι → Bool} {l : List ι}

/-- The history after a step. -/
def extend (H : Set (ℕ × ι)) (L : Ledger ι) : Set (ℕ × ι) := H ∪ {e | e ∈ L.table.entries}

theorem mem_advance_of_mem {e : ℕ × ι} (he : e ∈ L.table.entries) (hp : p e.2 = true) :
    e ∈ (L.advance p l).table.entries := by
  obtain ⟨new, hnew, -⟩ := (L.table.restrict p).ensureAll_entries l
  have heq : (L.advance p l).table.entries = (L.table.restrict p).entries ++ new := hnew
  rw [heq]
  exact List.mem_append_left _ (UidTable.mem_restrict.mpr ⟨he, hp⟩)

theorem mem_advance {e : ℕ × ι} (he : e ∈ (L.advance p l).table.entries) :
    e ∈ L.table.entries ∧ p e.2 = true ∨ L.table.next < e.1 := by
  obtain ⟨new, hnew, -, habove⟩ := (L.table.restrict p).ensureAll_entries l
  have heq : (L.advance p l).table.entries = (L.table.restrict p).entries ++ new := hnew
  rw [heq] at he
  rcases List.mem_append.mp he with he | he
  · exact .inl (UidTable.mem_restrict.mp he)
  · exact .inr (habove e he).1

theorem next_le_advance : L.table.next ≤ (L.advance p l).table.next :=
  (L.table.restrict p).next_le_ensureAll l

/-- A number that is not in use and not above the counter does not come back. -/
theorem notMem_uids_advance {u : ℕ} (hu : u ∉ L.table.uids) (hle : u ≤ L.table.next) :
    u ∉ (L.advance p l).table.uids := by
  intro hmem
  obtain ⟨i, hi⟩ := UidTable.mem_uids.mp hmem
  rcases mem_advance hi with ⟨hi, -⟩ | hlt
  · exact hu (UidTable.mem_uids.mpr ⟨i, hi⟩)
  · exact absurd hlt (not_lt.mpr hle)

/-- A number whose message leaves is not in use any more. -/
theorem notMem_uids_of_leaves {u : ℕ} {i : ι} (hi : (u, i) ∈ L.table.entries)
    (hp : p i = false) : u ∉ (L.advance p l).table.uids := by
  intro hmem
  obtain ⟨j, hj⟩ := UidTable.mem_uids.mp hmem
  rcases mem_advance hj with ⟨hj, hpj⟩ | hlt
  · rw [UidTable.id_unique hj hi, hp] at hpj
    exact absurd hpj (by decide)
  · exact absurd hlt (not_lt.mpr (UidTable.le_next hi))

theorem tracks_advance (h : Tracks H L) :
    Tracks (extend H (L.advance p l)) (L.advance p l) where
  entries e he := .inr he
  bounded := by
    rintro e (he | he)
    · exact (h.bounded e he).trans next_le_advance
    · exact UidTable.le_next he
  unique := by
    -- an entry of the new table is one of the history or lies above it
    have hcross : ∀ e ∈ H, ∀ e' ∈ (L.advance p l).table.entries, e.1 = e'.1 → e.2 = e'.2 := by
      intro e he e' he' heq
      rcases mem_advance he' with ⟨he', -⟩ | hlt
      · exact h.unique e he e' (h.entries e' he') heq
      · exact absurd (h.bounded e he) (by omega)
    rintro e (he | he) e' (he' | he') heq
    · exact h.unique e he e' he' heq
    · exact hcross e he e' he' heq
    · exact (hcross e' he' e he heq.symm).symm
    · exact UidTable.id_unique (u := e.1) he (heq ▸ he')
  gone i u hu := by
    have hold : L.gone i = some u → (u, i) ∈ extend H (L.advance p l) ∧
        u ∉ (L.advance p l).table.uids := by
      intro hgone
      obtain ⟨hmem, hnot⟩ := h.gone i u hgone
      exact ⟨.inl hmem, notMem_uids_advance hnot (h.bounded _ hmem)⟩
    cases hp : p i with
    | true => exact hold (by simpa [advance, hp] using hu)
    | false =>
        cases huid : L.table.uid? i with
        | none => exact hold (by simpa [advance, hp, huid] using hu)
        | some v =>
            obtain rfl : v = u := by simpa [advance, hp, huid] using hu
            have hmem := UidTable.uid?_eq_some.mp huid
            exact ⟨.inl (h.entries _ hmem), notMem_uids_of_leaves hmem hp⟩

/-- **When nothing is forgotten**: a step keeps the memory complete exactly if no message leaves
that has left before. -/
theorem complete_advance (h : Tracks H L) (hc : Complete H L) :
    Complete (extend H (L.advance p l)) (L.advance p l) ↔
      ∀ i, i ∈ L.table.ids → p i = false → L.gone i = none := by
  constructor
  · intro hc' i hi hp
    obtain ⟨v, hv⟩ := UidTable.mem_ids.mp hi
    cases hgone : L.gone i with
    | none => rfl
    | some u =>
        obtain ⟨hmem, hnot⟩ := h.gone i u hgone
        have huid := UidTable.uid?_eq_some.mpr hv
        rcases hc' (u, i) (.inl hmem) with hin | hin
        · exact absurd hin (notMem_uids_advance hnot (h.bounded _ hmem))
        · obtain rfl : v = u := by simpa [advance, hp, huid] using hin
          exact absurd (UidTable.mem_uids.mpr ⟨i, hv⟩) hnot
  · rintro hleave e (he | he)
    · rcases hc e he with hin | hin
      · obtain ⟨j, hj⟩ := UidTable.mem_uids.mp hin
        have hje : j = e.2 := h.unique (e.1, j) (h.entries _ hj) e he rfl
        rw [hje] at hj
        cases hp : p e.2 with
        | true => exact .inl (UidTable.mem_uids.mpr ⟨e.2, mem_advance_of_mem hj hp⟩)
        | false => exact .inr (by simp [advance, hp, UidTable.uid?_eq_some.mpr hj])
      · refine .inr ?_
        cases hp : p e.2 with
        | true => simpa [advance, hp] using hin
        | false =>
            have hids : e.2 ∉ L.table.ids := by
              intro hmem
              rw [hleave e.2 hmem hp] at hin
              exact absurd hin (by simp)
            simpa [advance, hp, UidTable.uid?_eq_none.mpr hids] using hin
    · exact .inl (UidTable.mem_uids.mpr ⟨e.2, he⟩)

end Ledger

end ImapToJmap
