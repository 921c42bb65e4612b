import ImapToJmap.Run.Basic

/-!
# Runs that come to an end

A *rank* is a number that every step of some kind lowers.  A run of such steps is no longer than the
rank it starts with (`Lowers.length_le`), and each state has one that leads to a state in which no
step of the kind is left (`Lowers.exists_end`).
-/

universe u v

namespace ImapToJmap.Run

variable {σ : Type u} {ι : Type v} {step : σ → ι → σ} {C : σ → ι → Prop} {rank : σ → ℕ}

/-- Every step that meets the condition lowers the rank. -/
def Lowers (step : σ → ι → σ) (C : σ → ι → Prop) (rank : σ → ℕ) : Prop :=
  ∀ s i, C s i → rank (step s i) < rank s

namespace Lowers

theorem length_le (h : Lowers step C rank) {s : σ} {is : List ι} (hC : Along step C s is) :
    is.length ≤ rank s := by
  induction is generalizing s with
  | nil => exact Nat.zero_le _
  | cons i is ih =>
      have hlt := h s i hC.1
      have hle := ih hC.2
      rw [List.length_cons]
      omega

theorem exists_end (h : Lowers step C rank) (s : σ) :
    ∃ is, Along step C s is ∧ ∀ i, ¬C (exec step s is) i := by
  induction hn : rank s using Nat.strongRecOn generalizing s with
  | ind n ih =>
      by_cases hend : ∀ i, ¬C s i
      · exact ⟨[], trivial, hend⟩
      · obtain ⟨i, hi⟩ := not_forall_not.mp hend
        obtain ⟨is, his, hlast⟩ := ih _ (hn ▸ h s i hi) (step s i) rfl
        exact ⟨i :: is, ⟨hi, his⟩, hlast⟩

end Lowers

end ImapToJmap.Run
