import ImapToJmap.Kv.Prog

/-!
# Typed trees

`Typed P t` says that every binding of the tree satisfies `P`.  `Sound P Q p` says of the text of a
program that, as long as what it reads satisfies `P`, so does what it writes, and that what it
returns satisfies `Q`.  A sound program keeps a tree typed (`Sound.run`), whatever else its bindings
are.
-/

namespace ImapToJmap.Kv

variable {α ν : Type} [Ord α] [Std.TransOrd α] [Std.LawfulEqOrd α] [DecidableEq α]
variable {R S : Type} {P : List α → ν → Prop}

/-- Every binding satisfies `P`. -/
def Typed (P : List α → ν → Prop) (t : Tree α ν) : Prop := ∀ k v, t[k]? = some v → P k v

omit [Std.LawfulEqOrd α] [DecidableEq α] in
theorem typed_empty : Typed P (∅ : Tree α ν) := by
  intro k v h
  simp at h

omit [Std.LawfulEqOrd α] [DecidableEq α] in
theorem Typed.mono {Q : List α → ν → Prop} {t : Tree α ν} (h : Typed P t)
    (hPQ : ∀ k v, P k v → Q k v) : Typed Q t := fun k v hv ↦ hPQ k v (h k v hv)

theorem Typed.edit {t : Tree α ν} (h : Typed P t) {e : Edit α ν} (he : ∀ v ∈ e.result, P e.key v) :
    Typed P (e.apply t) := by
  intro k v hv
  rw [Edit.getElem?_apply] at hv
  split at hv
  · next hk => exact hk ▸ he v hv
  · exact h k v hv

theorem Typed.applyBatch {t : Tree α ν} (h : Typed P t) {b : List (Edit α ν)}
    (hb : ∀ e ∈ b, ∀ v ∈ e.result, P e.key v) : Typed P (t.applyBatch b) := by
  induction b generalizing t with
  | nil => exact h
  | cons e b ih =>
      obtain ⟨he, hb'⟩ := List.forall_mem_cons.mp hb
      exact ih (h.edit he) hb'

namespace Prog

/-- The program keeps a tree typed, and returns what satisfies `Q`. -/
def Sound (P : List α → ν → Prop) (Q : R → Prop) : Prog α ν R → Prop
  | done r => ∀ x ∈ r, Q x
  | get k next => ∀ o, (∀ v ∈ o, P k v) → (next o).Sound P Q
  | insert k v next => P k v ∧ next.Sound P Q
  | updateAndFetch k f next => ∀ o, (∀ v ∈ o, P k v) → (∀ v ∈ f o, P k v) ∧ (next (f o)).Sound P Q
  | applyBatch b next => (∀ e ∈ b, ∀ v ∈ e.result, P e.key v) ∧ next.Sound P Q
  | scan pre _ acc body next => ∀ l : List (List α × ν), (∀ e ∈ l, pre <+: e.1 ∧ P e.1 e.2) →
      ∀ s ∈ l.foldlM body acc,
      (next s).Sound P Q

variable {Q : R → Prop} {Q' : S → Prop}

omit [Ord α] [Std.TransOrd α] [Std.LawfulEqOrd α] [DecidableEq α] in
theorem sound_bind {p : Prog α ν R} {f : R → Prog α ν S} (hp : p.Sound P Q)
    (hf : ∀ r, Q r → (f r).Sound P Q') : (p >>= f).Sound P Q' := by
  change (p.bind f).Sound P Q'
  induction p with
  | done r =>
      cases r with
      | none =>
          intro x hx
          cases hx
      | some r => exact hf r (hp r rfl)
  | get k next ih => exact fun o ho ↦ ih o (hp o ho)
  | insert k v next ih => exact ⟨hp.1, ih hp.2⟩
  | updateAndFetch k g next ih => exact fun o ho ↦ ⟨(hp o ho).1, ih _ (hp o ho).2⟩
  | applyBatch b next ih => exact ⟨hp.1, ih hp.2⟩
  | scan pre cur acc body next ih => exact fun l hl s hs ↦ ih s (hp l hl s hs)

section Operations

omit [Ord α] [Std.TransOrd α] [Std.LawfulEqOrd α] [DecidableEq α]

theorem sound_pure {r : R} (h : Q r) : (pure r : Prog α ν R).Sound P Q := by
  intro x hx
  obtain rfl := Option.some.inj hx
  exact h

theorem sound_ofOption {o : Option R} (h : ∀ x ∈ o, Q x) : (ofOption o : Prog α ν R).Sound P Q := h

theorem sound_read (k : List α) :
    (read k : Prog α ν (Option ν)).Sound P fun o ↦ ∀ v ∈ o, P k v := by
  intro o ho x hx
  obtain rfl := Option.some.inj hx
  exact ho

theorem sound_write {k : List α} {v : ν} (h : P k v) :
    (write k v : Prog α ν Unit).Sound P fun _ ↦ True := ⟨h, fun _ _ ↦ trivial⟩

theorem sound_batch {b : List (Edit α ν)} (h : ∀ e ∈ b, ∀ v ∈ e.result, P e.key v) :
    (batch b).Sound P fun _ ↦ True := ⟨h, fun _ _ ↦ trivial⟩

/-- A fold whose body keeps `Q` on typed bindings under the prefix. -/
theorem sound_fold {σ : Type} {pre : List α} {acc : σ} {body : σ → List α × ν → Option σ}
    {Q : σ → Prop} (hacc : Q acc)
    (hbody : ∀ s, Q s → ∀ e, pre <+: e.1 → P e.1 e.2 → ∀ s' ∈ body s e, Q s') :
    (fold pre acc body).Sound P Q := by
  intro l hl s hs
  refine sound_pure ?_
  induction l generalizing acc with
  | nil =>
      obtain rfl := Option.some.inj hs
      exact hacc
  | cons e l ih =>
      obtain ⟨⟨hpre, he⟩, hl'⟩ := List.forall_mem_cons.mp hl
      rw [List.foldlM_cons] at hs
      obtain ⟨s', hs', hrest⟩ := Option.bind_eq_some_iff.mp hs
      exact ih (hbody acc hacc e hpre he s' hs') hl' hrest

end Operations

omit [Ord α] [Std.TransOrd α] [Std.LawfulEqOrd α] [DecidableEq α] in
theorem Sound.mono {p : Prog α ν R} {Q₁ Q₂ : R → Prop} (h : p.Sound P Q₁) (hQ : ∀ r, Q₁ r → Q₂ r) :
    p.Sound P Q₂ := by
  induction p with
  | done r => exact fun x hx ↦ hQ x (h x hx)
  | get k next ih => exact fun o ho ↦ ih o (h o ho)
  | insert k v next ih => exact ⟨h.1, ih h.2⟩
  | updateAndFetch k g next ih => exact fun o ho ↦ ⟨(h o ho).1, ih _ (h o ho).2⟩
  | applyBatch b next ih => exact ⟨h.1, ih h.2⟩
  | scan pre cur acc body next ih => exact fun l hl s hs ↦ ih s (h l hl s hs)

/-- **A sound program keeps a tree typed.** -/
theorem Sound.run {p : Prog α ν R} (hp : p.Sound P Q) {t : Tree α ν} (ht : Typed P t) :
    Typed P (p.run t).2 ∧ ∀ r ∈ (p.run t).1, Q r := by
  induction p generalizing t with
  | done r => exact ⟨ht, hp⟩
  | get k next ih => exact ih _ (hp _ fun v hv ↦ ht k v hv) ht
  | insert k v next ih =>
      refine ih hp.2 (ht.edit (e := .insert k v) ?_)
      intro v' hv'
      obtain rfl := Option.some.inj hv'
      exact hp.1
  | updateAndFetch k f next ih =>
      obtain ⟨hf, hnext⟩ := hp t[k]? fun v hv ↦ ht k v hv
      refine ih _ hnext ?_
      cases hfo : f t[k]? with
      | none => exact ht.edit (e := .remove k) (by simp [Edit.result])
      | some v =>
          refine ht.edit (e := .insert k v) ?_
          intro v' hv'
          obtain rfl := Option.some.inj hv'
          exact hf v hfo
  | applyBatch b next ih => exact ih hp.2 (ht.applyBatch hp.1)
  | scan pre cur acc body next ih =>
      have hl : ∀ e ∈ t.scanFrom pre cur, pre <+: e.1 ∧ P e.1 e.2 := by
        intro e he
        obtain ⟨hget, hpre⟩ := Tree.mem_scanPrefix.mp (List.mem_of_mem_filter he)
        exact ⟨hpre, ht _ _ hget⟩
      rw [Prog.run]
      cases hfold : (t.scanFrom pre cur).foldlM body acc with
      | none => exact ⟨ht, by simp⟩
      | some s => exact ih s (hp _ hl s hfold) ht

end Prog

end ImapToJmap.Kv
