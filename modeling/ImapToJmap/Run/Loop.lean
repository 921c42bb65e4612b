/-!
# Loops

A loop is a function `step : σ → Except ε (σ ⊕ α)`: from the values of its variables to the next
ones, or to what it returns.  It need not end, so `run` has fuel; `Steps n` is the relation of `n`
rounds, and a loop whose rounds lead to its end returns with any more fuel than that.  `Decreases`
is that every round makes a measure less, which bounds the rounds.

`Leads` compares a loop with a computation: the rounds lead to where the computation says, or to its
error.  It is closed under `bind`, so a recursion can be followed by induction on its definition.
-/

universe u v w x y

namespace ImapToJmap.Loop

variable {σ : Type u} {ε : Type v} {α : Type w} {step : σ → Except ε (σ ⊕ α)}
variable {β γ : Type x} {δ : Type y}

/-- Rounds that none of is the last one. -/
inductive Steps (step : σ → Except ε (σ ⊕ α)) : Nat → σ → σ → Prop
  | refl (s : σ) : Steps step 0 s s
  | cons {n : Nat} {s s' s'' : σ} : step s = .ok (.inl s') → Steps step n s' s'' →
      Steps step (n + 1) s s''

/-- At most so many rounds; `none` when they are used up. -/
def run (step : σ → Except ε (σ ⊕ α)) : Nat → σ → Except ε (Option α)
  | 0, _ => .ok none
  | n + 1, s =>
      match step s with
      | .error e => .error e
      | .ok (.inl s') => run step n s'
      | .ok (.inr a) => .ok (some a)

theorem Steps.one {s s' : σ} (h : step s = .ok (.inl s')) : Steps step 1 s s' :=
  .cons h (.refl s')

theorem Steps.trans {m n : Nat} {s s' s'' : σ} (h : Steps step m s s') (h' : Steps step n s' s'') :
    Steps step (m + n) s s'' := by
  induction h with
  | refl s =>
      rw [Nat.zero_add]
      exact h'
  | cons hstep _ ih =>
      rw [Nat.add_right_comm]
      exact .cons hstep (ih h')

/-- **A loop that comes to its end returns**, with as much fuel as that takes. -/
theorem run_of_steps {n fuel : Nat} {s s' : σ} {a : α} (h : Steps step n s s')
    (hend : step s' = .ok (.inr a)) (hfuel : n < fuel) : run step fuel s = .ok (some a) := by
  induction h generalizing fuel with
  | refl s =>
      obtain ⟨fuel, rfl⟩ := Nat.exists_eq_add_of_lt hfuel
      rw [run, hend]
  | cons hstep _ ih =>
      obtain ⟨fuel, rfl⟩ := Nat.exists_eq_add_of_lt hfuel
      rw [run, hstep]
      exact ih hend (by omega)

/-- **A loop that comes to an error fails**, with as much fuel as that takes. -/
theorem run_error_of_steps {n fuel : Nat} {s s' : σ} {e : ε} (h : Steps step n s s')
    (hend : step s' = .error e) (hfuel : n < fuel) : run step fuel s = .error e := by
  induction h generalizing fuel with
  | refl s =>
      obtain ⟨fuel, rfl⟩ := Nat.exists_eq_add_of_lt hfuel
      rw [run, hend]
  | cons hstep _ ih =>
      obtain ⟨fuel, rfl⟩ := Nat.exists_eq_add_of_lt hfuel
      rw [run, hstep]
      exact ih hend (by omega)

/-- Every round that is not the last one makes the measure less. -/
def Decreases (step : σ → Except ε (σ ⊕ α)) (measure : σ → Nat) : Prop :=
  ∀ s s', step s = .ok (.inl s') → measure s' < measure s

/-- There are no more rounds than the measure has room for. -/
theorem Decreases.rounds_le {measure : σ → Nat} (hmeasure : Decreases step measure) {n : Nat}
    {s s' : σ} (h : Steps step n s s') : n + measure s' ≤ measure s := by
  induction h with
  | refl s => exact Nat.le_of_eq (Nat.zero_add _)
  | cons hstep _ ih =>
      have hlt := hmeasure _ _ hstep
      omega

/-! ## Loops and computations -/

/-- From `s` the rounds lead to `next b` if `b` is computed, and to the error if there is one. -/
def Leads (step : σ → Except ε (σ ⊕ α)) (s : σ) (next : β → σ) : Except ε β → Prop
  | .ok b => ∃ n, Steps step n s (next b)
  | .error e => ∃ n s', Steps step n s s' ∧ step s' = .error e

variable {s s' : σ} {next : β → σ}

theorem leads_ok (next : β → σ) (b : β) : Leads step (next b) next (.ok b) := ⟨0, .refl _⟩

theorem leads_error {e : ε} (h : step s = .error e) : Leads step s next (.error e) :=
  ⟨0, s, .refl s, h⟩

/-- A round on the way. -/
theorem Leads.after {x : Except ε β} (h : Leads step s' next x) (hstep : step s = .ok (.inl s')) :
    Leads step s next x := by
  cases x with
  | error e =>
      obtain ⟨n, s'', hsteps, herror⟩ := h
      exact ⟨n + 1, s'', .cons hstep hsteps, herror⟩
  | ok b =>
      obtain ⟨n, hsteps⟩ := h
      exact ⟨n + 1, .cons hstep hsteps⟩

/-- One computation after the other. -/
theorem Leads.bind {x : Except ε β} {f : β → Except ε γ} {next' : γ → σ}
    (h : Leads step s next x) (hnext : ∀ b, Leads step (next b) next' (f b)) :
    Leads step s next' (x >>= f) := by
  cases x with
  | error e => exact h
  | ok b =>
      obtain ⟨n, hsteps⟩ := h
      show Leads step s next' (f b)
      have hrest := hnext b
      cases hf : f b with
      | error e =>
          rw [hf] at hrest
          obtain ⟨m, s'', hsteps', herror⟩ := hrest
          exact ⟨n + m, s'', hsteps.trans hsteps', herror⟩
      | ok c =>
          rw [hf] at hrest
          obtain ⟨m, hsteps'⟩ := hrest
          exact ⟨n + m, hsteps.trans hsteps'⟩

/-- **The loop returns what is computed**, with enough fuel. -/
theorem Leads.returns {x : Except ε β} (h : Leads step s next x) {result : β → α}
    (hend : ∀ b, step (next b) = .ok (.inr (result b))) :
    ∃ rounds, ∀ fuel, rounds < fuel → run step fuel s = x.map fun b ↦ some (result b) := by
  cases x with
  | error e =>
      obtain ⟨n, s', hsteps, herror⟩ := h
      exact ⟨n, fun fuel hfuel ↦ run_error_of_steps hsteps herror hfuel⟩
  | ok b =>
      obtain ⟨n, hsteps⟩ := h
      exact ⟨n, fun fuel hfuel ↦ run_of_steps hsteps (hend b) hfuel⟩

/-- With more fuel than the measure. -/
theorem Leads.run_eq {measure : σ → Nat} (hmeasure : Decreases step measure) {x : Except ε β}
    (h : Leads step s next x) {result : β → α} (hend : ∀ b, step (next b) = .ok (.inr (result b)))
    {fuel : Nat} (hfuel : measure s < fuel) :
    run step fuel s = x.map fun b ↦ some (result b) := by
  cases x with
  | error e =>
      obtain ⟨n, s', hsteps, herror⟩ := h
      have hle := hmeasure.rounds_le hsteps
      exact run_error_of_steps hsteps herror (by omega)
  | ok b =>
      obtain ⟨n, hsteps⟩ := h
      have hle := hmeasure.rounds_le hsteps
      exact run_of_steps hsteps (hend b) (by omega)

/-! ## Folds -/

/-- A fold fails with the first error on the list. -/
theorem foldlM_eq_error_iff {f : β → δ → Except ε β} {l : List δ} {b : β} {e : ε} :
    l.foldlM f b = .error e ↔
      ∃ before x after b', l = before ++ x :: after ∧ before.foldlM f b = .ok b' ∧
        f b' x = .error e := by
  induction l generalizing b with
  | nil =>
      constructor
      · exact nofun
      · rintro ⟨before, x, after, b', hnil, -⟩
        simp at hnil
  | cons y l ih =>
      rw [List.foldlM_cons]
      cases hy : f b y with
      | error e' =>
          constructor
          · intro h
            exact ⟨[], y, l, b, rfl, rfl, hy.trans h⟩
          · rintro ⟨before, x, after, b', hl, hbefore, hx⟩
            cases before with
            | nil =>
                obtain ⟨rfl, rfl⟩ := List.cons.inj hl
                obtain rfl := Except.ok.inj hbefore
                exact hy.symm.trans hx
            | cons z before =>
                obtain ⟨rfl, rfl⟩ := List.cons.inj hl
                rw [List.foldlM_cons, hy] at hbefore
                cases hbefore
      | ok b₁ =>
          refine (ih (b := b₁)).trans ?_
          constructor
          · rintro ⟨before, x, after, b', rfl, hbefore, hx⟩
            refine ⟨y :: before, x, after, b', rfl, ?_, hx⟩
            rw [List.foldlM_cons, hy]
            exact hbefore
          · rintro ⟨before, x, after, b', hl, hbefore, hx⟩
            cases before with
            | nil =>
                obtain ⟨rfl, rfl⟩ := List.cons.inj hl
                obtain rfl := Except.ok.inj hbefore
                rw [hy] at hx
                cases hx
            | cons z before =>
                obtain ⟨rfl, rfl⟩ := List.cons.inj hl
                rw [List.foldlM_cons, hy] at hbefore
                exact ⟨before, x, after, b', rfl, hbefore, hx⟩

end ImapToJmap.Loop
