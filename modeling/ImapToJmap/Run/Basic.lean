import Mathlib.Data.List.Basic

/-!
# Runs of a machine

A machine is a function `step : σ → ι → σ`: from a state and an input (a command with everything
the outside world decides about it) to the next state.  A *run* is a list of inputs, `exec` its
final state, and `Along C` says that every step of the run was taken in a state satisfying the
step condition `C`.

`exec_induct` and `along_of_inv` are the inductions over runs.  An invariant that holds initially
and is preserved by every step that meets the condition holds at the end of every run whose steps
meet it, and what it implies about a step holds of every step on the way.  A prefix of a run is a
run, so the final state is no restriction.
-/

universe u v

namespace ImapToJmap.Run

variable {σ : Type u} {ι : Type v} {step : σ → ι → σ} {C : σ → ι → Prop}

/-- The state a run ends in. -/
def exec (step : σ → ι → σ) (s : σ) (is : List ι) : σ := is.foldl step s

@[simp] theorem exec_nil (s : σ) : exec step s [] = s := rfl

@[simp] theorem exec_cons (s : σ) (i : ι) (is : List ι) :
    exec step s (i :: is) = exec step (step s i) is := rfl

theorem exec_append (s : σ) (is js : List ι) :
    exec step s (is ++ js) = exec step (exec step s is) js := List.foldl_append

/-- Every step of the run is taken in a state that meets the condition. -/
def Along (step : σ → ι → σ) (C : σ → ι → Prop) : σ → List ι → Prop
  | _, [] => True
  | s, i :: is => C s i ∧ Along step C (step s i) is

/-- A checkable step condition is checkable along a run. -/
instance decidableAlong [∀ s i, Decidable (C s i)] : ∀ s is, Decidable (Along step C s is)
  | _, [] => .isTrue trivial
  | s, i :: is =>
      have := decidableAlong (step s i) is
      inferInstanceAs (Decidable (C s i ∧ Along step C (step s i) is))

theorem along_append {s : σ} {is js : List ι} :
    Along step C s (is ++ js) ↔ Along step C s is ∧ Along step C (exec step s is) js := by
  induction is generalizing s with
  | nil => simp [Along]
  | cons i is ih => simp [Along, ih, and_assoc]

/-- A run meets a condition that each of its inputs meets in every state. -/
theorem along_of_forall {s : σ} {is : List ι} (h : ∀ i ∈ is, ∀ s, C s i) :
    Along step C s is := by
  induction is generalizing s with
  | nil => trivial
  | cons i is ih =>
      exact ⟨h i List.mem_cons_self s, ih fun j hj ↦ h j (List.mem_cons_of_mem _ hj)⟩

/-- A condition on the inputs alone. -/
theorem along_iff_forall {p : ι → Prop} {s : σ} {is : List ι} :
    Along step (fun _ i ↦ p i) s is ↔ ∀ i ∈ is, p i := by
  induction is generalizing s with
  | nil => simp [Along]
  | cons i is ih => simp [Along, ih]

/-- Two conditions at once. -/
theorem along_and {D : σ → ι → Prop} {s : σ} {is : List ι} :
    Along step (fun s i ↦ C s i ∧ D s i) s is ↔ Along step C s is ∧ Along step D s is := by
  induction is generalizing s with
  | nil => simp [Along]
  | cons i is ih =>
      simp only [Along, ih]
      tauto

/-- Equivalent step conditions. -/
theorem along_congr {C' : σ → ι → Prop} (h : ∀ s i, C s i ↔ C' s i) {s : σ} {is : List ι} :
    Along step C s is ↔ Along step C' s is := by
  induction is generalizing s with
  | nil => exact Iff.rfl
  | cons i is ih => exact and_congr (h s i) ih

/-- What relates two states, if every step keeps it, takes a step condition from one run to the
other. -/
theorem along_related {τ : Type u} {step' : τ → ι → τ} {C' : τ → ι → Prop} (R : σ → τ → Prop)
    (hstep : ∀ s t i, R s t → R (step s i) (step' t i))
    (hC : ∀ s t i, R s t → C s i → C' t i) {s : σ} {t : τ} (h : R s t) {is : List ι}
    (his : Along step C s is) : Along step' C' t is := by
  induction is generalizing s t with
  | nil => trivial
  | cons i is ih => exact ⟨hC s t i h his.1, ih (hstep s t i h) his.2⟩

/-- **Invariants of runs.** -/
theorem exec_induct (Inv : σ → Prop) {s : σ} {is : List ι} (h₀ : Inv s)
    (hstep : ∀ s i, Inv s → C s i → Inv (step s i)) (hC : Along step C s is) :
    Inv (exec step s is) := by
  induction is generalizing s with
  | nil => exact h₀
  | cons i is ih => exact ih (hstep s i h₀ hC.1) hC.2

/-- **Invariants and steps**: what an invariant implies about a step holds along the run. -/
theorem along_of_inv {P : σ → ι → Prop} (Inv : σ → Prop) {s : σ} {is : List ι} (h₀ : Inv s)
    (hstep : ∀ s i, Inv s → C s i → Inv (step s i)) (hP : ∀ s i, Inv s → C s i → P s i)
    (hC : Along step C s is) : Along step P s is := by
  induction is generalizing s with
  | nil => trivial
  | cons i is ih => exact ⟨hP s i h₀ hC.1, ih (hstep s i h₀ hC.1) hC.2⟩

/-- Two step conditions that agree where an invariant holds, if the invariant is kept by the steps
that meet them. -/
theorem along_iff_of_inv {D : σ → ι → Prop} (Inv : σ → Prop) {s : σ} {is : List ι} (h₀ : Inv s)
    (hstep : ∀ s i, Inv s → C s i → Inv (step s i)) (hCD : ∀ s i, Inv s → (C s i ↔ D s i)) :
    Along step C s is ↔ Along step D s is := by
  constructor
  · intro h
    exact along_of_inv Inv h₀ hstep (fun s i hs hC ↦ (hCD s i hs).mp hC) h
  · intro h
    exact along_of_inv Inv h₀ (fun s i hs hD ↦ hstep s i hs ((hCD s i hs).mpr hD))
      (fun s i hs hD ↦ (hCD s i hs).mpr hD) h

/-- The states that a run goes through are the first one and those after its steps. -/
theorem forall_take_iff {P : σ → Prop} {s : σ} {is : List ι} :
    (∀ n, P (exec step s (is.take n))) ↔ P s ∧ Along step (fun s i ↦ P (step s i)) s is := by
  induction is generalizing s with
  | nil => simp [Along]
  | cons i is ih =>
      constructor
      · intro h
        exact ⟨h 0, h 1, (ih.mp fun n ↦ h (n + 1)).2⟩
      · rintro ⟨hs, hi, his⟩ n
        cases n with
        | zero => exact hs
        | succ n => exact ih.mpr ⟨hi, his⟩ n

end ImapToJmap.Run
