import ImapToJmap.Kv.Prog

/-!
# What a program may write

`WritesOnly P p` says of the text of a program that every key it can write satisfies `P`, whatever
it reads.  A run then leaves every other key alone (`run_of_writesOnly`), and the rule for
sequencing makes the condition a matter of going through the program once.

`applyBatch_cases` is the same question for one batch: a key holds either what one of its edits
leaves there or what was there before.
-/

namespace ImapToJmap.Kv

variable {α ν : Type} [Ord α] [Std.TransOrd α] [Std.LawfulEqOrd α] [DecidableEq α]
variable {R S : Type} {P Q : List α → Prop}

/-- After a batch a key holds the result of one of its edits, or there is none and it is as
before. -/
theorem Tree.applyBatch_cases (t : Tree α ν) (b : List (Edit α ν)) (k : List α) :
    (∃ e ∈ b, e.key = k ∧ (t.applyBatch b)[k]? = e.result) ∨
      (∀ e ∈ b, e.key ≠ k) ∧ (t.applyBatch b)[k]? = t[k]? := by
  induction b generalizing t with
  | nil => exact .inr ⟨by simp, rfl⟩
  | cons e b ih =>
      have hcons : t.applyBatch (e :: b) = (e.apply t).applyBatch b := rfl
      rw [hcons]
      rcases ih (e.apply t) with ⟨e', he', hk, hres⟩ | ⟨hno, hsame⟩
      · exact .inl ⟨e', List.mem_cons_of_mem _ he', hk, hres⟩
      · by_cases hk : e.key = k
        · refine .inl ⟨e, List.mem_cons_self, hk, ?_⟩
          rw [hsame, Edit.getElem?_apply, if_pos hk]
        · refine .inr ⟨List.forall_mem_cons.mpr ⟨hk, hno⟩, ?_⟩
          rw [hsame, Edit.getElem?_apply, if_neg hk]

namespace Prog

/-- Every key the program can write satisfies `P`. -/
def WritesOnly (P : List α → Prop) : Prog α ν R → Prop
  | done _ => True
  | get _ next => ∀ v, (next v).WritesOnly P
  | insert k _ next => P k ∧ next.WritesOnly P
  | updateAndFetch k _ next => P k ∧ ∀ v, (next v).WritesOnly P
  | applyBatch b next => (∀ e ∈ b, P e.key) ∧ next.WritesOnly P
  | scan _ _ _ _ next => ∀ s, (next s).WritesOnly P

omit [Ord α] [Std.TransOrd α] [Std.LawfulEqOrd α] [DecidableEq α] in
theorem writesOnly_bind {p : Prog α ν R} {f : R → Prog α ν S} (hp : p.WritesOnly P)
    (hf : ∀ r, (f r).WritesOnly P) : (p >>= f).WritesOnly P := by
  change (p.bind f).WritesOnly P
  induction p with
  | done r =>
      cases r with
      | none => trivial
      | some r => exact hf r
  | get k next ih => exact fun v ↦ ih v (hp v)
  | insert k v next ih => exact ⟨hp.1, ih hp.2⟩
  | updateAndFetch k g next ih => exact ⟨hp.1, fun v ↦ ih v (hp.2 v)⟩
  | applyBatch b next ih => exact ⟨hp.1, ih hp.2⟩
  | scan pre cur acc body next ih => exact fun s ↦ ih s (hp s)

section Operations

omit [Ord α] [Std.TransOrd α] [Std.LawfulEqOrd α] [DecidableEq α]

@[simp] theorem writesOnly_pure (r : R) : (pure r : Prog α ν R).WritesOnly P := trivial

@[simp] theorem writesOnly_ofOption (o : Option R) : (ofOption o : Prog α ν R).WritesOnly P :=
  trivial

@[simp] theorem writesOnly_read (k : List α) : (read k : Prog α ν (Option ν)).WritesOnly P :=
  fun _ ↦ trivial

@[simp] theorem writesOnly_write {k : List α} {v : ν} :
    (write k v : Prog α ν Unit).WritesOnly P ↔ P k :=
  ⟨fun h ↦ h.1, fun h ↦ ⟨h, trivial⟩⟩

@[simp] theorem writesOnly_batch {b : List (Edit α ν)} :
    (batch b).WritesOnly P ↔ ∀ e ∈ b, P e.key :=
  ⟨fun h ↦ h.1, fun h ↦ ⟨h, trivial⟩⟩

@[simp] theorem writesOnly_update {k : List α} {f : Option ν → Option ν} :
    (update k f).WritesOnly P ↔ P k :=
  ⟨fun h ↦ h.1, fun h ↦ ⟨h, fun _ ↦ trivial⟩⟩

@[simp] theorem writesOnly_fold {σ : Type} (pre : List α) (acc : σ)
    (body : σ → List α × ν → Option σ) : (fold pre acc body).WritesOnly P := fun _ ↦ trivial

end Operations

/-- **Frame.**  A run leaves alone every key that the program cannot write. -/
theorem run_of_writesOnly {p : Prog α ν R} (hp : p.WritesOnly P) {k : List α} (hk : ¬ P k)
    (t : Tree α ν) : (p.run t).2[k]? = t[k]? := by
  induction p generalizing t with
  | done r => rfl
  | get k' next ih => exact ih _ (hp _) t
  | insert k' v next ih =>
      have hne : k' ≠ k := fun h ↦ hk (h ▸ hp.1)
      exact (ih hp.2 _).trans ((Edit.getElem?_apply t (.insert k' v) k).trans (if_neg hne))
  | updateAndFetch k' f next ih =>
      have hne : k' ≠ k := fun h ↦ hk (h ▸ hp.1)
      refine (ih _ (hp.2 _) _).trans ?_
      cases f t[k']? with
      | none => exact (Edit.getElem?_apply t (.remove k') k).trans (if_neg hne)
      | some v => exact (Edit.getElem?_apply t (.insert k' v) k).trans (if_neg hne)
  | applyBatch b next ih =>
      exact (ih hp.2 _).trans
        (Tree.getElem?_applyBatch_of_notMem _ _ _ fun e he h ↦ hk (h ▸ hp.1 e he))
  | scan pre cur acc body next ih =>
      simp only [run]
      split
      · exact ih _ (hp _) t
      · rfl

end Prog

end ImapToJmap.Kv
