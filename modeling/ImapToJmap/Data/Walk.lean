import Mathlib.Data.List.Basic

/-!
# Walking a hierarchy

A hierarchy that can only be seen one place at a time: `list` gives the items at a place, and `next`
the place below an item, if it is said to have one.  `walk` goes down from a place as many levels as
it is told to.

`walk_induct` is what holds of every item that is found, and `mem_walk_of_depth` is that an item is
found, if it is at the first place or below one that is less deep.
-/

universe u v

namespace ImapToJmap

variable {κ : Type u} {ι : Type v} (list : κ → List ι) (next : ι → Option κ)

/-- The items of so many levels, each followed by what is below it. -/
def walk : ℕ → κ → List ι
  | 0, _ => []
  | levels + 1, k => (list k).flatMap fun i ↦ i ::
      match next i with
      | some k' => walk levels k'
      | none => []

variable {list next} {i j : ι} {k k' : κ} {n : ℕ}

theorem mem_walk_succ : i ∈ walk list next (n + 1) k ↔
    i ∈ list k ∨ ∃ j ∈ list k, ∃ k', next j = some k' ∧ i ∈ walk list next n k' := by
  rw [walk, List.mem_flatMap]
  constructor
  · rintro ⟨j, hj, hi⟩
    rcases List.mem_cons.mp hi with rfl | hi
    · exact .inl hj
    · cases hnext : next j with
      | none =>
          rw [hnext] at hi
          cases hi
      | some k' =>
          rw [hnext] at hi
          exact .inr ⟨j, hj, k', hnext, hi⟩
  · rintro (hi | ⟨j, hj, k', hnext, hi⟩)
    · exact ⟨i, hi, List.mem_cons_self⟩
    · refine ⟨j, hj, List.mem_cons_of_mem _ ?_⟩
      rwa [hnext]

/-- What is listed below an item that is found is found one level further down. -/
theorem mem_walk_of_next (hj : j ∈ walk list next n k) (hnext : next j = some k')
    (hi : i ∈ list k') : i ∈ walk list next (n + 1) k := by
  induction n generalizing k with
  | zero => cases hj
  | succ n ih =>
      rcases mem_walk_succ.mp hj with hj | ⟨j', hj', k'', hnext', hj⟩
      · exact mem_walk_succ.mpr (.inr ⟨j, hj, k', hnext, mem_walk_succ.mpr (.inl hi)⟩)
      · exact mem_walk_succ.mpr (.inr ⟨j', hj', k'', hnext', ih hj⟩)

/-- What holds of the items at the first place, and below an item of which it holds, holds of all
that is found. -/
theorem walk_induct {P : ι → Prop} (hfirst : ∀ i ∈ list k, P i)
    (hnext : ∀ j k', P j → next j = some k' → ∀ i ∈ list k', P i) (hi : i ∈ walk list next n k) :
    P i := by
  induction n generalizing k with
  | zero => cases hi
  | succ n ih =>
      rcases mem_walk_succ.mp hi with hi | ⟨j, hj, k', hnext', hi⟩
      · exact hfirst i hi
      · exact ih (hnext j k' (hfirst j hj) hnext') hi

/-- An item is found within its depth. -/
theorem mem_walk_of_depth {P : ι → Prop} (depth : ι → ℕ) (hpos : ∀ i, 0 < depth i)
    (h : ∀ i, P i → i ∈ list k ∨
      ∃ j, P j ∧ depth j < depth i ∧ ∃ k', next j = some k' ∧ i ∈ list k') (hi : P i)
    (hn : depth i ≤ n) : i ∈ walk list next n k := by
  induction n generalizing i with
  | zero => exact absurd (hpos i) (Nat.not_lt_of_le hn)
  | succ n ih =>
      rcases h i hi with hfirst | ⟨j, hj, hlt, k', hnext, hlist⟩
      · exact mem_walk_succ.mpr (.inl hfirst)
      · exact mem_walk_of_next (ih hj (Nat.le_of_lt_succ (Nat.lt_of_lt_of_le hlt hn))) hnext hlist

end ImapToJmap
