import ImapToJmap.Run.Basic

/-!
# Runs with answers

A machine whose every step gives an answer: `answers` is the list of the inputs of a run with what
was answered to each.  `answers_eq_append_cons` cuts it at one of its entries: what stands before
are the answers of the run up to there, and the entry is the answer of the state reached.
-/

universe u v w

namespace ImapToJmap.Run

variable {σ : Type u} {ι : Type v} {ω : Type w} {step : σ → ι → σ × ω}

/-- The inputs of a run with their answers. -/
def answers (step : σ → ι → σ × ω) : σ → List ι → List (ι × ω)
  | _, [] => []
  | s, i :: is => (i, (step s i).2) :: answers step (step s i).1 is

/-- The state a run ends in. -/
def final (step : σ → ι → σ × ω) (s : σ) (is : List ι) : σ := exec (fun s i ↦ (step s i).1) s is

@[simp] theorem final_nil (s : σ) : final step s [] = s := rfl

@[simp] theorem final_cons (s : σ) (i : ι) (is : List ι) :
    final step s (i :: is) = final step (step s i).1 is := rfl

theorem final_append (s : σ) (is js : List ι) :
    final step s (is ++ js) = final step (final step s is) js := exec_append s is js

theorem answers_append (s : σ) (is js : List ι) :
    answers step s (is ++ js) = answers step s is ++ answers step (final step s is) js := by
  induction is generalizing s with
  | nil => rfl
  | cons i is ih => simp [answers, ih]

/-- An entry of the answers, with what stands before and after it. -/
theorem answers_eq_append_cons {s : σ} {is : List ι} {t₁ t₂ : List (ι × ω)} {e : ι × ω}
    (h : answers step s is = t₁ ++ e :: t₂) : ∃ is₁ is₂, is = is₁ ++ e.1 :: is₂ ∧
      t₁ = answers step s is₁ ∧ e.2 = (step (final step s is₁) e.1).2 ∧
        t₂ = answers step (final step s (is₁ ++ [e.1])) is₂ := by
  induction is generalizing s t₁ with
  | nil => cases t₁ <;> cases h
  | cons i is ih =>
      cases t₁ with
      | nil =>
          obtain ⟨rfl, rfl⟩ := List.cons_eq_cons.mp h
          exact ⟨[], is, rfl, rfl, rfl, rfl⟩
      | cons e' t₁ =>
          obtain ⟨rfl, htail⟩ := List.cons_eq_cons.mp h
          obtain ⟨is₁, is₂, rfl, rfl, he, rfl⟩ := ih htail
          exact ⟨i :: is₁, is₂, rfl, rfl, he, rfl⟩

theorem mem_answers {s : σ} {is : List ι} {e : ι × ω} (h : e ∈ answers step s is) :
    ∃ is₁ is₂, is = is₁ ++ e.1 :: is₂ ∧ e.2 = (step (final step s is₁) e.1).2 := by
  obtain ⟨t₁, t₂, ht⟩ := List.append_of_mem h
  obtain ⟨is₁, is₂, his, -, he, -⟩ := answers_eq_append_cons ht
  exact ⟨is₁, is₂, his, he⟩

/-- Inputs that leave a part of the state alone do not change what is answered from that part. -/
theorem answers_filter {τ : Type u} {p : ι → Bool} (view : σ → τ)
    (hskip : ∀ s i, p i = false → view (step s i).1 = view s)
    (hkeep : ∀ s s' i, p i = true → view s = view s' →
      view (step s i).1 = view (step s' i).1 ∧ (step s i).2 = (step s' i).2)
    {s s' : σ} (h : view s = view s') (is : List ι) :
    (answers step s is).filter (fun e ↦ p e.1) = answers step s' (is.filter p) := by
  induction is generalizing s s' with
  | nil => rfl
  | cons i is ih =>
      cases hp : p i with
      | false =>
          rw [answers, List.filter_cons_of_neg (by simp [hp]),
            List.filter_cons_of_neg (by simp [hp])]
          exact ih ((hskip s i hp).trans h)
      | true =>
          obtain ⟨hview, hans⟩ := hkeep s s' i hp h
          rw [answers, List.filter_cons_of_pos (by simp [hp]), List.filter_cons_of_pos hp, answers,
            hans, ih hview]

end ImapToJmap.Run
