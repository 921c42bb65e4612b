import Mathlib.Data.List.Basic

/-!
# Journals of changes

What has happened to a collection of objects, step by step, and what somebody is told who asks for
the changes since a position in the journal: `since` sums the later entries up, with every object
under one heading.  `mem_since_iff` says that these are exactly the objects of the later entries.
-/

universe u

namespace ImapToJmap

variable {ι : Type u}

/-- The objects that have been created, updated and destroyed. -/
structure Changed (ι : Type u) where
  created : List ι := []
  updated : List ι := []
  destroyed : List ι := []
deriving DecidableEq

/-- The changes, the oldest first. -/
abbrev Journal (ι : Type u) := List (Changed ι)

namespace Journal

/-- An entry after the position has the object among the updated ones. -/
def UpdatedSince (journal : Journal ι) (position : ℕ) (i : ι) : Prop :=
  ∃ e ∈ journal.drop position, i ∈ e.updated

/-- No entry has the object among the destroyed ones. -/
def Alive (journal : Journal ι) (i : ι) : Prop := ∀ e ∈ journal, i ∉ e.destroyed

instance [DecidableEq ι] (journal : Journal ι) (i : ι) : Decidable (journal.Alive i) :=
  inferInstanceAs (Decidable (∀ e ∈ journal, i ∉ e.destroyed))

section UpdatedSince

variable {journal journal' : Journal ι} {position position' : ℕ} {i : ι}

/-- Later entries do no harm. -/
theorem UpdatedSince.mono (h : journal.UpdatedSince position i) (hpre : journal <+: journal')
    (hle : position' ≤ position) : journal'.UpdatedSince position' i := by
  obtain ⟨e, he, hi⟩ := h
  obtain ⟨later, rfl⟩ := hpre
  refine ⟨e, ?_, hi⟩
  have hdrop : e ∈ (journal ++ later).drop position := by
    rw [List.drop_append]
    exact List.mem_append_left _ he
  obtain ⟨n, rfl⟩ := Nat.exists_eq_add_of_le hle
  rw [← List.drop_drop] at hdrop
  exact List.mem_of_mem_drop hdrop

theorem updatedSince_append {entry : Changed ι} (hle : position ≤ journal.length)
    (hi : i ∈ entry.updated) : Journal.UpdatedSince (journal ++ [entry]) position i := by
  refine ⟨entry, ?_, hi⟩
  rw [List.drop_append_of_le_length hle]
  exact List.mem_append_right _ (List.mem_singleton_self entry)

end UpdatedSince

section Since

variable [DecidableEq ι]

/-- The changes since a position. -/
def since (journal : Journal ι) (position : ℕ) : Changed ι :=
  let later := journal.drop position
  let created := later.flatMap Changed.created
  let destroyed := later.flatMap Changed.destroyed
  { created := created.filter (· ∉ destroyed)
    updated := (later.flatMap Changed.updated).filter fun i ↦ i ∉ created ∧ i ∉ destroyed
    destroyed := destroyed }

/-- **The changes since a position** are those of the later entries. -/
theorem mem_since_iff (journal : Journal ι) (position : ℕ) (i : ι) :
    (i ∈ (journal.since position).created ∨ i ∈ (journal.since position).updated ∨
      i ∈ (journal.since position).destroyed) ↔
        ∃ e ∈ journal.drop position, i ∈ e.created ∨ i ∈ e.updated ∨ i ∈ e.destroyed := by
  have hsplit : (∃ e ∈ journal.drop position, i ∈ e.created ∨ i ∈ e.updated ∨ i ∈ e.destroyed) ↔
      i ∈ (journal.drop position).flatMap Changed.created ∨
        i ∈ (journal.drop position).flatMap Changed.updated ∨
          i ∈ (journal.drop position).flatMap Changed.destroyed := by
    simp only [List.mem_flatMap]
    constructor
    · rintro ⟨e, he, hi | hi | hi⟩
      · exact .inl ⟨e, he, hi⟩
      · exact .inr (.inl ⟨e, he, hi⟩)
      · exact .inr (.inr ⟨e, he, hi⟩)
    · rintro (⟨e, he, hi⟩ | ⟨e, he, hi⟩ | ⟨e, he, hi⟩)
      · exact ⟨e, he, .inl hi⟩
      · exact ⟨e, he, .inr (.inl hi)⟩
      · exact ⟨e, he, .inr (.inr hi)⟩
  rw [hsplit]
  simp only [since, List.mem_filter, decide_eq_true_eq]
  tauto

/-- An object that has been updated and is still there is listed. -/
theorem UpdatedSince.listed {journal : Journal ι} {position : ℕ} {i : ι}
    (h : journal.UpdatedSince position i) (halive : journal.Alive i) :
    i ∈ (journal.since position).created ∨ i ∈ (journal.since position).updated := by
  obtain ⟨e, he, hi⟩ := h
  rcases (mem_since_iff journal position i).mpr ⟨e, he, .inr (.inl hi)⟩ with hc | hu | hd
  · exact .inl hc
  · exact .inr hu
  · obtain ⟨e', he', hi'⟩ := List.mem_flatMap.mp hd
    exact absurd hi' (halive e' (List.mem_of_mem_drop he'))

end Since

end Journal

end ImapToJmap
