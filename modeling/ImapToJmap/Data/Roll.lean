import Mathlib.Data.List.Nodup

/-!
# Rolls

Values numbered from one in the order they are first seen.  A roll is the list of the values seen
so far; `number` is the position of a value in it and `valueOf` reads a number back.  Everything
about the numbering is that a roll only ever grows at its end: `prefix_enroll`, and a number once
given is the same in every longer roll (`number_of_isPrefix`).
-/

namespace ImapToJmap.Roll

variable {α : Type} [DecidableEq α]

/-- Put a value on the roll, at its end if it is not there yet. -/
def enroll (l : List α) (a : α) : List α := if a ∈ l then l else l ++ [a]

/-- The number of a value on the roll. -/
def number (l : List α) (a : α) : ℕ := l.idxOf a + 1

omit [DecidableEq α] in
/-- The value a number was given to. -/
def valueOf (l : List α) : ℕ → Option α
  | 0 => none
  | n + 1 => l[n]?

variable {l l' : List α} {a b : α} {n : ℕ}

theorem enroll_of_mem (h : a ∈ l) : enroll l a = l := if_pos h

theorem enroll_of_notMem (h : a ∉ l) : enroll l a = l ++ [a] := if_neg h

@[simp] theorem mem_enroll : b ∈ enroll l a ↔ b ∈ l ∨ b = a := by
  by_cases h : a ∈ l
  · rw [enroll_of_mem h]
    constructor
    · exact .inl
    · rintro (hb | rfl)
      · exact hb
      · exact h
  · simp [enroll_of_notMem h]

theorem prefix_enroll (l : List α) (a : α) : l <+: enroll l a := by
  by_cases h : a ∈ l
  · exact (enroll_of_mem h).symm ▸ List.prefix_rfl
  · rw [enroll_of_notMem h]
    exact List.prefix_append l [a]

theorem nodup_enroll (h : l.Nodup) (a : α) : (enroll l a).Nodup := by
  by_cases ha : a ∈ l
  · rwa [enroll_of_mem ha]
  · rw [enroll_of_notMem ha]
    exact List.nodup_append.mpr ⟨h, by simp, by
      intro x hx y hy
      rw [List.mem_singleton] at hy
      rintro rfl
      exact ha (hy ▸ hx)⟩

theorem number_of_isPrefix (h : l <+: l') (ha : a ∈ l) : number l' a = number l a := by
  obtain ⟨r, rfl⟩ := h
  rw [number, number, List.idxOf_append_of_mem ha]

theorem number_le (ha : a ∈ l) : number l a ≤ l.length := List.idxOf_lt_length_iff.mpr ha

/-- The number of a newcomer. -/
theorem number_enroll_of_notMem (ha : a ∉ l) : number (enroll l a) a = l.length + 1 := by
  rw [enroll_of_notMem ha, number, List.idxOf_append_of_notMem ha]
  simp

theorem number_inj (ha : a ∈ l) : number l a = number l b ↔ a = b := by
  rw [number, number, Nat.add_right_cancel_iff, List.idxOf_inj ha]

/-- A number is read back as the value it was given to. -/
theorem valueOf_number (ha : a ∈ l) : valueOf l (number l a) = some a := by
  rw [number, valueOf, List.getElem?_eq_getElem (List.idxOf_lt_length_iff.mpr ha),
    List.getElem_idxOf]

/-- Only a number given to a value is read back. -/
theorem number_of_valueOf (hl : l.Nodup) (h : valueOf l n = some a) : a ∈ l ∧ number l a = n := by
  cases n with
  | zero => cases h
  | succ n =>
      obtain ⟨hlt, rfl⟩ := List.getElem?_eq_some_iff.mp h
      exact ⟨List.getElem_mem hlt, by rw [number, hl.idxOf_getElem n hlt]⟩

omit [DecidableEq α] in
theorem valueOf_concat (l : List α) (a : α) (n : ℕ) :
    valueOf (l ++ [a]) n = if n = l.length + 1 then some a else valueOf l n := by
  cases n with
  | zero => rfl
  | succ n =>
      simp only [valueOf, Nat.add_right_cancel_iff]
      split
      · rename_i h
        rw [h, List.getElem?_append_right (Nat.le_refl _)]
        simp
      · rename_i h
        rcases Nat.lt_or_ge n l.length with hlt | hge
        · rw [List.getElem?_append_left hlt]
        · rw [List.getElem?_eq_none (by simp; omega), List.getElem?_eq_none hge]

end ImapToJmap.Roll
