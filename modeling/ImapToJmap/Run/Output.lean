import ImapToJmap.Run.Basic

/-!
# Runs with output

A machine whose steps also emit events: `emit` is the final state of a run with the events of all
its steps, in order.

A *monitor* reads the events: `next` is how its state goes on, and `ok` what it demands of an event.
That it accepts a trace is `Along next ok`, so the rules for runs apply to traces too.  `emit_along`
is the rule by which a machine is shown to satisfy a monitor: a relation between the state of the
machine and that of the monitor, which every step keeps while the monitor accepts what it emits.

`tracked` runs a machine together with something that is computed from its steps, for step
conditions that speak of what has happened before.
-/

universe u v w x

namespace ImapToJmap.Run

variable {σ : Type u} {ι : Type v} {ε : Type w} {μ : Type x} {γ : Type x}
variable {step : σ → ι → σ × List ε}

/-- The final state of a run, and its trace. -/
def emit (step : σ → ι → σ × List ε) : σ → List ι → σ × List ε
  | s, [] => (s, [])
  | s, i :: is =>
      let here := step s i
      let rest := emit step here.1 is
      (rest.1, here.2 ++ rest.2)

@[simp] theorem emit_nil (s : σ) : emit step s [] = (s, []) := rfl

theorem emit_cons (s : σ) (i : ι) (is : List ι) :
    emit step s (i :: is) =
      ((emit step (step s i).1 is).1, (step s i).2 ++ (emit step (step s i).1 is).2) := rfl

theorem emit_append (s : σ) (is js : List ι) :
    emit step s (is ++ js) =
      ((emit step (emit step s is).1 js).1,
        (emit step s is).2 ++ (emit step (emit step s is).1 js).2) := by
  induction is generalizing s with
  | nil => simp
  | cons i is ih => simp [emit_cons, ih]

/-- A run over parts of the input. -/
theorem emit_flatten (s : σ) (parts : List (List ι)) :
    emit step s parts.flatten = emit (emit step) s parts := by
  induction parts generalizing s with
  | nil => rfl
  | cons part parts ih => rw [List.flatten_cons, emit_append, emit_cons, ih]

/-- The state a step leaves. -/
def advance (step : σ → ι → σ × List ε) (s : σ) (i : ι) : σ := (step s i).1

@[simp] theorem emit_fst (s : σ) (is : List ι) :
    (emit step s is).1 = exec (advance step) s is := by
  induction is generalizing s with
  | nil => rfl
  | cons i is ih => simp [emit_cons, ih, advance]

/-- **Related machines.**  What relates two states, if every step keeps it and emits the same on
both sides, gives them the same traces. -/
theorem emit_related {τ : Type u} {step' : τ → ι → τ × List ε} (R : σ → τ → Prop)
    (hstep : ∀ s t i, R s t → R (step s i).1 (step' t i).1 ∧ (step s i).2 = (step' t i).2)
    {s : σ} {t : τ} (h : R s t) (is : List ι) :
    R (emit step s is).1 (emit step' t is).1 ∧ (emit step s is).2 = (emit step' t is).2 := by
  induction is generalizing s t with
  | nil => exact ⟨h, rfl⟩
  | cons i is ih =>
      obtain ⟨hR, hevents⟩ := hstep s t i h
      obtain ⟨hR', hevents'⟩ := ih hR
      rw [emit_cons, emit_cons]
      exact ⟨hR', congrArg₂ (· ++ ·) hevents hevents'⟩

/-! ## Monitors -/

/-- **Monitored runs.** -/
theorem emit_along {C : σ → ι → Prop} {next : μ → ε → μ} {ok : μ → ε → Prop} (R : σ → μ → Prop)
    (hstep : ∀ s m i, R s m → C s i →
      Along next ok m (step s i).2 ∧ R (step s i).1 (exec next m (step s i).2))
    {s : σ} {m : μ} (h₀ : R s m) {is : List ι} (hC : Along (advance step) C s is) :
    Along next ok m (emit step s is).2 ∧ R (emit step s is).1 (exec next m (emit step s is).2) := by
  induction is generalizing s m with
  | nil => exact ⟨trivial, h₀⟩
  | cons i is ih =>
      obtain ⟨hok, hR⟩ := hstep s m i h₀ hC.1
      obtain ⟨hok', hR'⟩ := ih hR hC.2
      rw [emit_cons]
      exact ⟨along_append.mpr ⟨hok, hok'⟩, by rwa [exec_append]⟩

/-! ## Tracking -/

/-- A machine run together with `track`. -/
def tracked (step : σ → ι → σ × List ε) (track : σ → γ → ι → γ) (s : σ × γ) (i : ι) :
    (σ × γ) × List ε :=
  (((step s.1 i).1, track s.1 s.2 i), (step s.1 i).2)

end ImapToJmap.Run
