import ImapToJmap.Run.Answer
import Mathlib.Data.List.Induction

/-!
# Refinement under a condition

A machine `step` that answers like an ideal machine `ideal` on a `view` of its state, as long as the
steps meet a condition on the ideal state: then so does a whole run.  The machine may depend on
choices `κ` that are not its own.  If every step that does not meet the condition is answered
differently under some choices, then the condition is exact: `answers_iff_along`.
-/

universe u v w x

namespace ImapToJmap.Run

variable {σ τ : Type u} {ι : Type v} {ω : Type w}

/-- A run meets a condition if each of its steps does behind steps that do. -/
theorem along_of_step {step : σ → ι → σ} {C : σ → ι → Prop} {s : σ} {is : List ι}
    (h : ∀ pre i post, is = pre ++ i :: post → Along step C s pre → C (exec step s pre) i) :
    Along step C s is := by
  induction is using List.reverseRecOn with
  | nil => trivial
  | append_singleton is i ih =>
      have hpre : Along step C s is := by
        refine ih fun pre j post heq hpre ↦ h pre j (post ++ [i]) ?_ hpre
        rw [heq, List.append_assoc, List.cons_append]
      exact along_append.mpr ⟨hpre, h is i [] rfl hpre, trivial⟩

section

variable {step : σ → ι → σ × ω} {ideal : τ → ι → τ × ω} {view : σ → τ} {C : τ → ι → Prop}

/-- A run whose steps meet the condition is answered like the ideal one. -/
theorem answers_of_along
    (hstep : ∀ s i, C (view s) i → ideal (view s) i = (view (step s i).1, (step s i).2))
    {s : σ} {is : List ι} (h : Along (fun t i ↦ (ideal t i).1) C (view s) is) :
    answers step s is = answers ideal (view s) is ∧
      view (final step s is) = final ideal (view s) is := by
  induction is generalizing s with
  | nil => exact ⟨rfl, rfl⟩
  | cons i is ih =>
      obtain ⟨hi, his⟩ := h
      rw [answers, answers, final_cons, final_cons, hstep s i hi]
      dsimp only at his ⊢
      rw [hstep s i hi] at his
      obtain ⟨hanswers, hfinal⟩ := ih his
      exact ⟨congrArg _ hanswers, hfinal⟩

end

/-- **Refinement.**  Under all choices a run is answered like the ideal one, if and only if each of
its steps meets the condition. -/
theorem answers_iff_along {κ : Type x} {step : κ → σ → ι → σ × ω} {ideal : τ → ι → τ × ω}
    {view : σ → τ} {C : τ → ι → Prop}
    (hstep : ∀ k s i, C (view s) i → ideal (view s) i = (view (step k s i).1, (step k s i).2))
    (hbad : ∀ t i, ¬ C t i → ∃ k, ∀ s, view s = t → (step k s i).2 ≠ (ideal t i).2)
    {s : σ} {is : List ι} :
    (∀ k, answers (step k) s is = answers ideal (view s) is ∧
        view (final (step k) s is) = final ideal (view s) is) ↔
      Along (fun t i ↦ (ideal t i).1) C (view s) is := by
  constructor
  · intro h
    refine along_of_step fun pre i post heq hpre ↦ by_contra fun hC ↦ ?_
    obtain ⟨k, hk⟩ := hbad _ i hC
    obtain ⟨hanswers, hfinal⟩ := answers_of_along (hstep k) hpre
    have hwhole := (h k).1
    rw [heq, answers_append, answers_append, hanswers] at hwhole
    have htail := List.append_cancel_left hwhole
    rw [answers, answers] at htail
    obtain ⟨hhead, -⟩ := List.cons.inj htail
    exact hk _ hfinal (Prod.mk.inj hhead).2
  · exact fun h k ↦ answers_of_along (hstep k) h

end ImapToJmap.Run
