import ImapToJmap.Kv.Tree

/-!
# Programs over an ordered tree

`Prog α ν R` is a computation that talks to a shared `Tree α ν` through the store's own
operations, one at a time, and returns an `R` or fails.  The same program has two meanings:

* `Prog.run` executes it with nothing else running, as one atomic transaction;
* `Prog.step` executes exactly one store operation, so that several programs can be interleaved
  over one tree (`Pool`).

`steps_run` connects them: stepping a program on its own ends in the state and result `run`
computes.  A result proved for `run` is therefore about the undisturbed executions of the very
program whose interleavings `Pool` describes.

Failure does not roll back.  `done none` models an early `return Err(())`: whatever the program
wrote before stays written.
-/

namespace ImapToJmap.Kv

variable {α ν : Type} [Ord α] [Std.TransOrd α] [Std.LawfulEqOrd α] [DecidableEq α]
variable {R S : Type}

/-- A computation over a shared tree. -/
inductive Prog (α ν R : Type) : Type 1 where
  | /-- Finished, with a result or with a failure. -/
    done (r : Option R)
  | /-- Read a key. -/
    get (k : List α) (next : Option ν → Prog α ν R)
  | /-- Write a key. -/
    insert (k : List α) (v : ν) (next : Prog α ν R)
  | /-- Replace the value under a key by a function of it, atomically; `none` removes the key.
    The program continues with the new value. -/
    updateAndFetch (k : List α) (f : Option ν → Option ν) (next : Option ν → Prog α ν R)
  | /-- Apply a batch of edits atomically. -/
    applyBatch (b : List (Edit α ν)) (next : Prog α ν R)
  | /-- Scan the keys extending `pre` from the cursor on, folding `body` over the bindings; `body`
    makes the whole program fail by returning `none`. -/
    scan {σ : Type} (pre : List α) (cur : Option (List α)) (acc : σ)
      (body : σ → List α × ν → Option σ) (next : σ → Prog α ν R)

namespace Prog

/-! ## The monad -/

/-- Sequencing: the second program starts from the first one's result. -/
def bind : Prog α ν R → (R → Prog α ν S) → Prog α ν S
  | done none, _ => done none
  | done (some r), f => f r
  | get k next, f => get k fun v ↦ (next v).bind f
  | insert k v next, f => insert k v (next.bind f)
  | updateAndFetch k g next, f => updateAndFetch k g fun v ↦ (next v).bind f
  | applyBatch b next, f => applyBatch b (next.bind f)
  | scan pre cur acc body next, f => scan pre cur acc body fun s ↦ (next s).bind f

instance instMonad : Monad (Prog α ν) where
  pure r := done (some r)
  bind := bind

/-- Stop with a failure. -/
def fail : Prog α ν R := done none

/-- Continue with the value of an `Option`, or fail. -/
def ofOption (o : Option R) : Prog α ν R := done o

/-- Read one key. -/
def read (k : List α) : Prog α ν (Option ν) := get k pure

/-- Write one key. -/
def write (k : List α) (v : ν) : Prog α ν Unit := insert k v (pure ())

/-- Apply one batch. -/
def batch (b : List (Edit α ν)) : Prog α ν Unit := applyBatch b (pure ())

/-- Update one key and return what it holds afterwards. -/
def update (k : List α) (f : Option ν → Option ν) : Prog α ν (Option ν) :=
  updateAndFetch k f pure

/-- Fold over the bindings under a prefix. -/
def fold {σ : Type} (pre : List α) (acc : σ) (body : σ → List α × ν → Option σ) :
    Prog α ν σ := scan pre none acc body pure

/-! ## Atomic execution -/

/-- The value an `updateAndFetch` leaves under its key, written back. -/
def store (t : Tree α ν) (k : List α) : Option ν → Tree α ν
  | some v => t.insert k v
  | none => t.erase k

/-- Run a program to its end with nothing else touching the tree. -/
def run : Prog α ν R → Tree α ν → Option R × Tree α ν
  | done r, t => (r, t)
  | get k next, t => (next t[k]?).run t
  | insert k v next, t => next.run (t.insert k v)
  | updateAndFetch k f next, t => (next (f t[k]?)).run (store t k (f t[k]?))
  | applyBatch b next, t => next.run (t.applyBatch b)
  | scan pre cur acc body next, t =>
      match (t.scanFrom pre cur).foldlM body acc with
      | some s => (next s).run t
      | none => (none, t)

omit [Std.LawfulEqOrd α] in
@[simp] theorem run_pure (r : R) (t : Tree α ν) : (pure r : Prog α ν R).run t = (some r, t) :=
  rfl

omit [Std.LawfulEqOrd α] in
/-- The one rule that peels a computation apart: run the first program, and go on only if it
returned a value. -/
theorem run_bind (p : Prog α ν R) (f : R → Prog α ν S) (t : Tree α ν) :
    (p >>= f).run t = match p.run t with
      | (some r, t') => (f r).run t'
      | (none, t') => (none, t') := by
  change (p.bind f).run t = _
  induction p generalizing t with
  | done r => cases r <;> rfl
  | get k next ih => exact ih _ t
  | insert k v next ih => exact ih _
  | updateAndFetch k g next ih => exact ih _ _
  | applyBatch b next ih => exact ih _
  | scan pre cur acc body next ih =>
      simp only [bind, run]
      cases hfold : (t.scanFrom pre cur).foldlM body acc with
      | none => rfl
      | some s => exact ih s t

omit [Std.LawfulEqOrd α] in
/-- `run_bind` where the first program is known to return. -/
theorem run_bind_of_eq {p : Prog α ν R} {f : R → Prog α ν S} {t t' : Tree α ν} {r : R}
    (h : p.run t = (some r, t')) : (p >>= f).run t = (f r).run t' := by
  rw [run_bind, h]

omit [Std.LawfulEqOrd α] in
@[simp] theorem run_ofOption (o : Option R) (t : Tree α ν) :
    (ofOption o : Prog α ν R).run t = (o, t) := rfl

omit [Std.LawfulEqOrd α] in
@[simp] theorem run_read (k : List α) (t : Tree α ν) :
    (read k : Prog α ν (Option ν)).run t = (some t[k]?, t) := rfl

omit [Std.LawfulEqOrd α] in
@[simp] theorem run_write (k : List α) (v : ν) (t : Tree α ν) :
    (write k v).run t = (some (), t.insert k v) := rfl

omit [Std.LawfulEqOrd α] in
@[simp] theorem run_batch (b : List (Edit α ν)) (t : Tree α ν) :
    (batch b).run t = (some (), t.applyBatch b) := rfl

omit [Std.LawfulEqOrd α] in
@[simp] theorem run_update (k : List α) (f : Option ν → Option ν) (t : Tree α ν) :
    (update k f).run t = (some (f t[k]?), store t k (f t[k]?)) := rfl

omit [Std.LawfulEqOrd α] in
theorem run_fold {σ : Type} (pre : List α) (acc : σ) (body : σ → List α × ν → Option σ)
    (t : Tree α ν) :
    (fold pre acc body).run t = ((t.scanPrefix pre).foldlM body acc, t) := by
  simp only [fold, run, Tree.scanFrom_none]
  cases (t.scanPrefix pre).foldlM body acc <;> rfl

/-- How often an atomic run updates the key `k₀`. -/
def updates (k₀ : List α) : Prog α ν R → Tree α ν → ℕ
  | done _, _ => 0
  | get k next, t => (next t[k]?).updates k₀ t
  | insert k v next, t => next.updates k₀ (t.insert k v)
  | updateAndFetch k f next, t =>
      (next (f t[k]?)).updates k₀ (store t k (f t[k]?)) + if k = k₀ then 1 else 0
  | applyBatch b next, t => next.updates k₀ (t.applyBatch b)
  | scan pre cur acc body next, t =>
      match (t.scanFrom pre cur).foldlM body acc with
      | some s => (next s).updates k₀ t
      | none => 0

omit [Std.LawfulEqOrd α] in
theorem updates_bind (k₀ : List α) (p : Prog α ν R) (f : R → Prog α ν S) (t : Tree α ν) :
    (p >>= f).updates k₀ t = p.updates k₀ t + match p.run t with
      | (some r, t') => (f r).updates k₀ t'
      | (none, _) => 0 := by
  change (p.bind f).updates k₀ t = _
  induction p generalizing t with
  | done r => cases r <;> simp [bind, updates, run]
  | get k next ih => exact ih _ t
  | insert k v next ih => exact ih _
  | updateAndFetch k g next ih =>
      simp only [bind, updates, run, ih]
      omega
  | applyBatch b next ih => exact ih _
  | scan pre cur acc body next ih =>
      simp only [bind, updates, run]
      cases hfold : (t.scanFrom pre cur).foldlM body acc with
      | none => rfl
      | some s => exact ih s t

omit [Std.LawfulEqOrd α] in
/-- `updates_bind` where the first program is known to return. -/
theorem updates_bind_of_eq {k₀ : List α} {p : Prog α ν R} {f : R → Prog α ν S} {t t' : Tree α ν}
    {r : R} (h : p.run t = (some r, t')) :
    (p >>= f).updates k₀ t = p.updates k₀ t + (f r).updates k₀ t' := by
  rw [updates_bind, h]

section Updates

variable (k₀ k : List α) (t : Tree α ν)

omit [Std.LawfulEqOrd α] in
@[simp] theorem updates_pure (r : R) : (pure r : Prog α ν R).updates k₀ t = 0 := rfl

omit [Std.LawfulEqOrd α] in
@[simp] theorem updates_ofOption (o : Option R) :
    (ofOption o : Prog α ν R).updates k₀ t = 0 := rfl

omit [Std.LawfulEqOrd α] in
@[simp] theorem updates_read : (read k : Prog α ν (Option ν)).updates k₀ t = 0 := rfl

omit [Std.LawfulEqOrd α] in
@[simp] theorem updates_write (v : ν) : (write k v).updates k₀ t = 0 := rfl

omit [Std.LawfulEqOrd α] in
@[simp] theorem updates_batch (b : List (Edit α ν)) : (batch b).updates k₀ t = 0 := rfl

omit [Std.LawfulEqOrd α] in
@[simp] theorem updates_update (f : Option ν → Option ν) :
    (update k f).updates k₀ t = if k = k₀ then 1 else 0 := by
  rw [update, updates, updates_pure, Nat.zero_add]

omit [Std.LawfulEqOrd α] in
@[simp] theorem updates_fold {σ : Type} (acc : σ) (body : σ → List α × ν → Option σ) :
    (fold k acc body).updates k₀ t = 0 := by
  simp only [fold, updates]
  split <;> rfl

end Updates

/-! ## One operation at a time -/

/-- Execute one store operation. -/
def step : Prog α ν R → Tree α ν → Prog α ν R × Tree α ν
  | done r, t => (done r, t)
  | get k next, t => (next t[k]?, t)
  | insert k v next, t => (next, t.insert k v)
  | updateAndFetch k f next, t => (next (f t[k]?), store t k (f t[k]?))
  | applyBatch b next, t => (next, t.applyBatch b)
  | scan pre cur acc body next, t =>
      match t.scanNext pre cur with
      | none => (next acc, t)
      | some e =>
          match body acc e with
          | none => (done none, t)
          | some acc' => (scan pre (some e.1) acc' body next, t)

/-- Whether there is nothing left to do. -/
def isDone : Prog α ν R → Bool
  | done _ => true
  | _ => false

omit [Ord α] [Std.TransOrd α] [Std.LawfulEqOrd α] [DecidableEq α] in
theorem isDone_iff {p : Prog α ν R} : p.isDone = true ↔ ∃ r, p = done r := by
  cases p <;> simp [isDone]

/-- `Steps p t p' t'`: stepping `p` alone from `t` reaches `p'` in `t'`. -/
inductive Steps : Prog α ν R → Tree α ν → Prog α ν R → Tree α ν → Prop
  | /-- No step. -/
    refl (p : Prog α ν R) (t : Tree α ν) : Steps p t p t
  | /-- One step, and then more. -/
    head {p p' : Prog α ν R} {t t' : Tree α ν} :
      Steps (p.step t).1 (p.step t).2 p' t' → Steps p t p' t'

/-- **Stepping a program alone computes `run`.**  In particular it terminates: the scan of a tree
that does not change has finitely many steps. -/
theorem steps_run (p : Prog α ν R) (t : Tree α ν) :
    Steps p t (done (p.run t).1) (p.run t).2 := by
  induction p generalizing t with
  | done r => exact .refl _ _
  | get k next ih => exact .head (ih _ t)
  | insert k v next ih => exact .head (ih _)
  | updateAndFetch k f next ih => exact .head (ih _ _)
  | applyBatch b next ih => exact .head (ih _)
  | scan pre cur acc body next ih =>
      -- the induction is on what the scan still has to produce, the cursor and the
      -- accumulator moving along
      generalize hl : t.scanFrom pre cur = l
      induction l generalizing cur acc with
      | nil =>
          refine .head ?_
          simp only [step, Tree.scanNext, run, hl, List.head?_nil]
          exact ih acc t
      | cons e l ihl =>
          refine .head ?_
          have htail := Tree.scanFrom_eq_cons hl
          simp only [step, Tree.scanNext, run, hl, List.head?_cons, List.foldlM_cons]
          cases hbody : body acc e with
          | none => exact .refl _ _
          | some acc' =>
              have h := ihl (some e.1) acc' htail
              simp only [run, htail] at h
              exact h

end Prog

/-! ## Interleaved programs -/

/-- Several programs over one tree. -/
structure Pool (α ν R : Type) [Ord α] where
  /-- What each program still has to do. -/
  threads : List (Prog α ν R)
  /-- The shared tree. -/
  tree : Tree α ν

namespace Pool

/-- Let thread `i` execute one operation. -/
def step (c : Pool α ν R) (i : ℕ) : Pool α ν R :=
  match c.threads[i]? with
  | none => c
  | some p => ⟨c.threads.set i (p.step c.tree).1, (p.step c.tree).2⟩

/-- Every thread has ended. -/
def Finished (c : Pool α ν R) : Prop := ∀ p ∈ c.threads, p.isDone = true

instance (c : Pool α ν R) : Decidable c.Finished :=
  inferInstanceAs (Decidable (∀ p ∈ c.threads, p.isDone = true))

omit [Std.LawfulEqOrd α] in
theorem step_of_getElem? {c : Pool α ν R} {i : ℕ} {p : Prog α ν R} (h : c.threads[i]? = some p) :
    c.step i = ⟨c.threads.set i (p.step c.tree).1, (p.step c.tree).2⟩ := by
  simp [step, h]

end Pool

end ImapToJmap.Kv
