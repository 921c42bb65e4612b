import ImapToJmap.Job.Basic

/-!
# Jobs with a history

What a job hands over in a call may stem from what earlier calls have returned.  A *history* is a
list of calls with their returns, and `Job.Honest K h` says that every call the job makes meets `K`
of the history up to then: `h` and, from there on, the job's own calls.

`logging` keeps the history of all jobs beside the world.  If `K` does not lose what it has as the
history grows, then jobs that are honest by themselves are honest in any interleaving, and every
call that a pool makes meets `K` of the history of the pool (`Pool.Honest.step`).
-/

universe u v

namespace ImapToJmap

variable {Q : Type u} {P : Q → Type u} {R S : Type u} {W : Type v}

/-- A call with what it has returned. -/
abbrev Reply (Q : Type u) (P : Q → Type u) := (q : Q) × P q

namespace Job

/-- Every call of the job meets `K` of what has been returned before. -/
def Honest (K : List (Reply Q P) → Q → Prop) : List (Reply Q P) → Job Q P R → Prop
  | _, done _ => True
  | h, call q next => K h q ∧ ∀ p, (next p).Honest K (⟨q, p⟩ :: h)

/-- From the one history, some returns make the job end in `r` with the other. -/
def Ends (h : List (Reply Q P)) (r : R) (h' : List (Reply Q P)) : Job Q P R → Prop
  | done r' => r' = r ∧ h = h'
  | call q next => ∃ p, Ends (⟨q, p⟩ :: h) r h' (next p)

section Honest

variable {K : List (Reply Q P) → Q → Prop} {h h' : List (Reply Q P)}

@[simp] theorem honest_pure (r : R) : (pure r : Job Q P R).Honest K h := trivial

@[simp] theorem ends_pure {r r' : R} :
    Ends h r h' (pure r' : Job Q P R) ↔ r' = r ∧ h = h' := Iff.rfl

theorem ends_perform {q : Q} {p : P q} :
    Ends h p h' (perform q : Job Q P (P q)) ↔ ⟨q, p⟩ :: h = h' := by
  constructor
  · rintro ⟨p', rfl, rfl⟩
    rfl
  · rintro rfl
    exact ⟨p, rfl, rfl⟩

/-- The history grows. -/
theorem Ends.subset {job : Job Q P R} {r : R} (hends : Ends h r h' job) : h ⊆ h' := by
  induction job generalizing h with
  | done r' =>
      obtain ⟨-, rfl⟩ := hends
      exact List.Subset.refl h
  | call q next ih =>
      obtain ⟨p, hp⟩ := hends
      exact List.Subset.trans (List.subset_cons_self _ _) (ih p hp)

/-- A sequence is honest if its first part is, and what follows is from where that ends. -/
theorem honest_bind_iff {job : Job Q P R} {f : R → Job Q P S} :
    (job >>= f).Honest K h ↔
      job.Honest K h ∧ ∀ r h', Ends h r h' job → (f r).Honest K h' := by
  show (job.bind f).Honest K h ↔ _
  induction job generalizing h with
  | done r =>
      constructor
      · intro hf
        refine ⟨trivial, ?_⟩
        rintro r' h' ⟨rfl, rfl⟩
        exact hf
      · rintro ⟨-, hf⟩
        exact hf r h ⟨rfl, rfl⟩
  | call q next ih =>
      simp only [bind, Honest, ih]
      constructor
      · rintro ⟨hq, hnext⟩
        refine ⟨⟨hq, fun p ↦ (hnext p).1⟩, ?_⟩
        rintro r h' ⟨p, hp⟩
        exact (hnext p).2 r h' hp
      · rintro ⟨⟨hq, hnext⟩, hf⟩
        exact ⟨hq, fun p ↦ ⟨hnext p, fun r h' hp ↦ hf r h' ⟨p, hp⟩⟩⟩

theorem ends_bind_iff {job : Job Q P R} {f : R → Job Q P S} {s : S} :
    Ends h s h' (job >>= f) ↔ ∃ r h₁, Ends h r h₁ job ∧ Ends h₁ s h' (f r) := by
  show Ends h s h' (job.bind f) ↔ _
  induction job generalizing h with
  | done r =>
      constructor
      · intro hf
        exact ⟨r, h, ⟨rfl, rfl⟩, hf⟩
      · rintro ⟨r', h₁, ⟨rfl, rfl⟩, hf⟩
        exact hf
  | call q next ih =>
      simp only [bind, Ends, ih]
      constructor
      · rintro ⟨p, r, h₁, hr, hf⟩
        exact ⟨r, h₁, ⟨p, hr⟩, hf⟩
      · rintro ⟨r, h₁, ⟨p, hr⟩, hf⟩
        exact ⟨p, r, h₁, hr, hf⟩

/-- What has been returned to others does no harm. -/
theorem Honest.mono (hK : ∀ h h' q, h ⊆ h' → K h q → K h' q) {job : Job Q P R}
    (hjob : job.Honest K h) (hsub : h ⊆ h') : job.Honest K h' := by
  induction job generalizing h h' with
  | done r => trivial
  | call q next ih =>
      refine ⟨hK h h' q hsub hjob.1, fun p ↦ ih p (hjob.2 p) ?_⟩
      exact List.cons_subset_cons _ hsub

/-- Calls that may always be made. -/
theorem honest_of_uses {C : Q → Prop} (hC : ∀ h q, C q → K h q) {job : Job Q P R}
    (hjob : job.Uses C) : job.Honest K h := by
  induction job generalizing h with
  | done r => trivial
  | call q next ih => exact ⟨hC h q hjob.1, fun p ↦ ih p (hjob.2 p)⟩

/-- What goes on after an honest job with calls that may always be made. -/
theorem Extends.honest {C : Q → Prop} (hC : ∀ h q, C q → K h q) {first : Job Q P R}
    {job : Job Q P S} (hjob : Extends C first job) (hfirst : first.Honest K h) :
    job.Honest K h := by
  obtain ⟨f, rfl, hf⟩ := hjob
  exact honest_bind_iff.mpr ⟨hfirst, fun r h' _ ↦ honest_of_uses hC (hf r)⟩

theorem Ends.returns {job : Job Q P R} {r : R} (hends : Ends h r h' job) : job.Returns r := by
  induction job generalizing h with
  | done r' => exact hends.1
  | call q next ih =>
      obtain ⟨p, hp⟩ := hends
      exact ⟨p, ih p hp⟩

end Honest

/-! ## Keeping the history -/

/-- A world with its history. -/
def logging (answer : (q : Q) → W → P q × W) (q : Q) (w : W × List (Reply Q P)) :
    P q × (W × List (Reply Q P)) :=
  ((answer q w.1).1, ((answer q w.1).2, ⟨q, (answer q w.1).1⟩ :: w.2))

/-- A job runs as it does without the history. -/
theorem run_logging (answer : (q : Q) → W → P q × W) (job : Job Q P R)
    (w : W × List (Reply Q P)) :
    (job.run (logging answer) w).1 = (job.run answer w.1).1 ∧
      (job.run (logging answer) w).2.1 = (job.run answer w.1).2 := by
  induction job generalizing w with
  | done r => exact ⟨rfl, rfl⟩
  | call q next ih => exact ih (answer q w.1).1 (logging answer q w).2

/-- A run alone ends as the job says, with what it has been told in the history. -/
theorem ends_run_logging (answer : (q : Q) → W → P q × W) (job : Job Q P R)
    (w : W × List (Reply Q P)) :
    Ends w.2 (job.run (logging answer) w).1 (job.run (logging answer) w).2.2 job := by
  induction job generalizing w with
  | done r => exact ⟨rfl, rfl⟩
  | call q next ih => exact ⟨(answer q w.1).1, ih (answer q w.1).1 (logging answer q w).2⟩

end Job

namespace Pool

variable {answer : (q : Q) → W → P q × W} {K : List (Reply Q P) → Q → Prop}

/-- Every job is honest, given the history of all of them. -/
def Honest (K : List (Reply Q P) → Q → Prop) (c : Pool Q P R (W × List (Reply Q P))) : Prop :=
  ∀ job ∈ c.jobs, job.Honest K c.world.2

theorem Honest.next? {c : Pool Q P R (W × List (Reply Q P))} (h : c.Honest K) {i : ℕ} {q : Q}
    (hq : c.next? i = some q) : K c.world.2 q := by
  unfold Pool.next? at hq
  cases hjob : c.jobs[i]? with
  | none => simp [hjob] at hq
  | some job =>
      cases job with
      | done r => simp [hjob] at hq
      | call q' next =>
          obtain rfl : q' = q := by simpa [hjob] using hq
          exact (h _ (List.mem_of_getElem? hjob)).1

/-- **Honesty** is kept by the steps of a pool. -/
theorem Honest.step (answer : (q : Q) → W → P q × W) (hK : ∀ h h' q, h ⊆ h' → K h q → K h' q)
    {c : Pool Q P R (W × List (Reply Q P))} (h : c.Honest K) (i : ℕ) :
    (c.step (Job.logging answer) i).Honest K := by
  unfold Pool.step
  cases hjob : c.jobs[i]? with
  | none => exact h
  | some job =>
      cases job with
      | done r => exact h
      | call q next =>
          intro job hmem
          rcases List.mem_or_eq_of_mem_set hmem with hmem | rfl
          · exact (h _ hmem).mono hK (List.subset_cons_self _ _)
          · exact (h _ (List.mem_of_getElem? hjob)).2 _

end Pool

end ImapToJmap
