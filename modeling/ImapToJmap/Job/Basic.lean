import ImapToJmap.Run.Basic

/-!
# Jobs

A job is a computation that makes calls, one at a time, and goes on with what each of them
returns.  What may be called is an interface: a type `Q` of calls and for each call the type `P q`
of its returns.  Critical sections of a lock, requests to a server and queries of a database are
all calls, and a call is an atomic step.

The same job has three readings.

* `Job.Uses C` looks at the calls alone: whatever is returned, the job makes no call outside `C`.
  `uses_bind_iff` takes it apart along `bind`.
* `Job.run` executes the job with nothing else running, over a world that answers the calls.
* `Pool.step` lets one of several jobs make its next call, so that a run of the pool is an
  interleaving.
-/

universe u v

namespace ImapToJmap

/-- A computation that makes calls `q : Q` with returns in `P q`. -/
inductive Job (Q : Type u) (P : Q → Type u) (R : Type u) : Type u where
  | done (r : R)
  | call (q : Q) (next : P q → Job Q P R)

namespace Job

variable {Q : Type u} {P : Q → Type u} {R S : Type u} {W : Type v}

/-- Sequencing. -/
def bind : Job Q P R → (R → Job Q P S) → Job Q P S
  | done r, f => f r
  | call q next, f => call q fun p ↦ (next p).bind f

instance instMonad : Monad (Job Q P) where
  pure := done
  bind := bind

/-- Make one call. -/
def perform (q : Q) : Job Q P (P q) := call q done

/-! ## The calls of a job -/

/-- Whatever its calls return, the job makes only calls in `C`. -/
def Uses (C : Q → Prop) : Job Q P R → Prop
  | done _ => True
  | call q next => C q ∧ ∀ p, (next p).Uses C

/-- Some returns make the job end in `r`. -/
def Returns (r : R) : Job Q P R → Prop
  | done r' => r' = r
  | call _ next => ∃ p, (next p).Returns r

section Uses

variable {C : Q → Prop}

@[simp] theorem uses_pure (r : R) : (pure r : Job Q P R).Uses C := trivial

@[simp] theorem returns_pure {r r' : R} : (pure r' : Job Q P R).Returns r ↔ r' = r := Iff.rfl

@[simp] theorem uses_perform {q : Q} : (perform q : Job Q P (P q)).Uses C ↔ C q :=
  ⟨fun h ↦ h.1, fun h ↦ ⟨h, fun _ ↦ trivial⟩⟩

@[simp] theorem returns_perform {q : Q} (p : P q) : (perform q : Job Q P (P q)).Returns p :=
  ⟨p, rfl⟩

/-- The calls of a sequence are those of its first part, and those of what follows on each of its
results. -/
theorem uses_bind_iff {p : Job Q P R} {f : R → Job Q P S} :
    (p >>= f).Uses C ↔ p.Uses C ∧ ∀ r, p.Returns r → (f r).Uses C := by
  show (p.bind f).Uses C ↔ _
  induction p with
  | done r =>
      constructor
      · intro h
        exact ⟨trivial, fun r' hr ↦ hr ▸ h⟩
      · rintro ⟨-, h⟩
        exact h r rfl
  | call q next ih =>
      simp only [bind, Uses, ih]
      constructor
      · rintro ⟨hq, h⟩
        exact ⟨⟨hq, fun p ↦ (h p).1⟩, fun r ⟨p, hp⟩ ↦ (h p).2 r hp⟩
      · rintro ⟨⟨hq, h⟩, hf⟩
        exact ⟨hq, fun p ↦ ⟨h p, fun r hr ↦ hf r ⟨p, hr⟩⟩⟩

/-- `uses_bind_iff` where what follows does not depend on the result. -/
theorem Uses.bind {p : Job Q P R} {f : R → Job Q P S} (hp : p.Uses C)
    (hf : ∀ r, (f r).Uses C) : (p >>= f).Uses C :=
  uses_bind_iff.mpr ⟨hp, fun r _ ↦ hf r⟩

theorem returns_bind_iff {p : Job Q P R} {f : R → Job Q P S} {s : S} :
    (p >>= f).Returns s ↔ ∃ r, p.Returns r ∧ (f r).Returns s := by
  show (p.bind f).Returns s ↔ _
  induction p with
  | done r => simp [bind, Returns]
  | call q next ih =>
      simp only [bind, Returns, ih]
      constructor
      · rintro ⟨p, r, hr, hs⟩
        exact ⟨r, ⟨p, hr⟩, hs⟩
      · rintro ⟨r, ⟨p, hr⟩, hs⟩
        exact ⟨p, r, hr, hs⟩

theorem Uses.mono {D : Q → Prop} {p : Job Q P R} (h : p.Uses C) (hCD : ∀ q, C q → D q) :
    p.Uses D := by
  induction p with
  | done r => trivial
  | call q next ih => exact ⟨hCD q h.1, fun p ↦ ih p (h.2 p)⟩

/-- The job does the first one to its end, and makes only calls in `C` from there on. -/
def Extends (C : Q → Prop) (first : Job Q P R) (job : Job Q P S) : Prop :=
  ∃ f, job = first >>= f ∧ ∀ r, (f r).Uses C

theorem Extends.bind {T : Type u} {first : Job Q P R} {job : Job Q P S} {g : S → Job Q P T}
    (h : Extends C first job) (hg : ∀ s, (g s).Uses C) : Extends C first (job >>= g) := by
  obtain ⟨f, rfl, hf⟩ := h
  refine ⟨fun r ↦ f r >>= g, ?_, fun r ↦ (hf r).bind hg⟩
  show (first.bind f).bind g = first.bind fun r ↦ (f r).bind g
  induction first with
  | done r => rfl
  | call q next ih => exact congrArg (call q) (funext ih)

theorem Extends.mono {D : Q → Prop} {first : Job Q P R} {job : Job Q P S} (h : Extends C first job)
    (hCD : ∀ q, C q → D q) : Extends D first job := by
  obtain ⟨f, rfl, hf⟩ := h
  exact ⟨f, rfl, fun r ↦ (hf r).mono hCD⟩

theorem Extends.uses {first : Job Q P R} {job : Job Q P S} (h : Extends C first job)
    (hfirst : first.Uses C) : job.Uses C := by
  obtain ⟨f, rfl, hf⟩ := h
  exact hfirst.bind hf

end Uses

/-! ## Running alone -/

/-- Run a job to its end over a world that answers its calls. -/
def run (answer : (q : Q) → W → P q × W) : Job Q P R → W → R × W
  | done r, w => (r, w)
  | call q next, w => (next (answer q w).1).run answer (answer q w).2

section Run

variable {answer : (q : Q) → W → P q × W}

@[simp] theorem run_pure (r : R) (w : W) : (pure r : Job Q P R).run answer w = (r, w) := rfl

@[simp] theorem run_perform (q : Q) (w : W) :
    (perform q : Job Q P (P q)).run answer w = answer q w := rfl

theorem run_bind (p : Job Q P R) (f : R → Job Q P S) (w : W) :
    (p >>= f).run answer w = (f (p.run answer w).1).run answer (p.run answer w).2 := by
  show (p.bind f).run answer w = _
  induction p generalizing w with
  | done r => rfl
  | call q next ih => exact ih _ _

/-- What a job ends in when it runs is one of its results. -/
theorem returns_run (answer : (q : Q) → W → P q × W) (p : Job Q P R) (w : W) :
    p.Returns (p.run answer w).1 := by
  induction p generalizing w with
  | done r => rfl
  | call q next ih => exact ⟨_, ih _ _⟩

/-- What every call in `C` keeps, a job that makes only such calls keeps. -/
theorem run_induct {C : Q → Prop} (Inv : W → Prop)
    (hcall : ∀ q w, C q → Inv w → Inv (answer q w).2) {p : Job Q P R} (hp : p.Uses C) {w : W}
    (h : Inv w) : Inv (p.run answer w).2 := by
  induction p generalizing w with
  | done r => exact h
  | call q next ih => exact ih _ (hp.2 _) (hcall q w hp.1 h)

end Run

end Job

/-! ## Interleaved jobs -/

/-- Several jobs over one world. -/
structure Pool (Q : Type u) (P : Q → Type u) (R : Type u) (W : Type v) where
  /-- What each job still has to do. -/
  jobs : List (Job Q P R)
  world : W

namespace Pool

variable {Q : Type u} {P : Q → Type u} {R : Type u} {W : Type v}
variable {answer : (q : Q) → W → P q × W}

/-- The next call of job `i`. -/
def next? (c : Pool Q P R W) (i : ℕ) : Option Q :=
  match c.jobs[i]? with
  | some (.call q _) => some q
  | _ => none

/-- Let job `i` make its next call. -/
def step (answer : (q : Q) → W → P q × W) (c : Pool Q P R W) (i : ℕ) : Pool Q P R W :=
  match c.jobs[i]? with
  | some (.call q next) => ⟨c.jobs.set i (next (answer q c.world).1), (answer q c.world).2⟩
  | _ => c

/-- A step is a call, or nothing. -/
theorem step_world (answer : (q : Q) → W → P q × W) (c : Pool Q P R W) (i : ℕ) :
    (c.step answer i).world = c.world ∧ c.next? i = none ∨
      ∃ q, c.next? i = some q ∧ (c.step answer i).world = (answer q c.world).2 := by
  unfold step next?
  cases h : c.jobs[i]? with
  | none => exact .inl ⟨rfl, rfl⟩
  | some job =>
      cases job with
      | done r => exact .inl ⟨rfl, rfl⟩
      | call q next => exact .inr ⟨q, rfl, rfl⟩

/-- Every call the jobs can still make is in `C`. -/
def Uses (C : Q → Prop) (c : Pool Q P R W) : Prop := ∀ job ∈ c.jobs, job.Uses C

theorem Uses.next? {C : Q → Prop} {c : Pool Q P R W} (h : c.Uses C) {i : ℕ} {q : Q}
    (hq : c.next? i = some q) : C q := by
  unfold Pool.next? at hq
  cases hjob : c.jobs[i]? with
  | none => simp [hjob] at hq
  | some job =>
      cases job with
      | done r => simp [hjob] at hq
      | call q' next =>
          obtain rfl : q' = q := by simpa [hjob] using hq
          exact (h _ (List.mem_of_getElem? hjob)).1

theorem Uses.step {C : Q → Prop} {c : Pool Q P R W} (h : c.Uses C) (i : ℕ) :
    (c.step answer i).Uses C := by
  unfold Pool.step
  cases hjob : c.jobs[i]? with
  | none => exact h
  | some job =>
      cases job with
      | done r => exact h
      | call q next =>
          intro job hmem
          rcases List.mem_or_eq_of_mem_set hmem with hmem | rfl
          · exact h _ hmem
          · exact (h _ (List.mem_of_getElem? hjob)).2 _

end Pool

end ImapToJmap
