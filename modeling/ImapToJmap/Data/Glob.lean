import Mathlib

/-!
# Globs

Patterns of single items and two wildcards over an arbitrary alphabet, one item of which separates
levels: `any` stands for every string, `within` for every string on one level.  `Matches` is what
they mean; the lemmas take it apart along the pattern.
-/

universe u

namespace ImapToJmap

/-- A part of a glob. -/
inductive GlobPart (α : Type u) where
  | item (a : α)
  | any
  | within
deriving DecidableEq

namespace GlobPart

variable {α : Type u} {sep : α}

def IsWild : GlobPart α → Prop
  | item _ => False
  | any | within => True

/-- The whole of a string matches a glob. -/
inductive Matches (sep : α) : List (GlobPart α) → List α → Prop
  | nil : Matches sep [] []
  | item {a p t} : Matches sep p t → Matches sep (item a :: p) (a :: t)
  | any {p t} (s : List α) : Matches sep p t → Matches sep (any :: p) (s ++ t)
  | within {p t} (s : List α) : sep ∉ s → Matches sep p t → Matches sep (within :: p) (s ++ t)

variable {p : List (GlobPart α)} {t : List α}

theorem matches_nil : Matches sep [] t ↔ t = [] := by
  constructor
  · intro h
    cases h
    rfl
  · rintro rfl
    exact .nil

theorem matches_item {a : α} :
    Matches sep (item a :: p) t ↔ ∃ t', t = a :: t' ∧ Matches sep p t' := by
  constructor
  · intro h
    cases h with
    | item h => exact ⟨_, rfl, h⟩
  · rintro ⟨t', rfl, h⟩
    exact .item h

/-- A string of items stands for itself. -/
theorem matches_items {l : List α} :
    Matches sep (l.map item ++ p) t ↔ ∃ t', t = l ++ t' ∧ Matches sep p t' := by
  induction l generalizing t with
  | nil => simp
  | cons a l ih =>
      rw [List.map_cons, List.cons_append, matches_item]
      constructor
      · rintro ⟨t', rfl, h⟩
        obtain ⟨t'', rfl, h'⟩ := ih.mp h
        exact ⟨t'', rfl, h'⟩
      · rintro ⟨t', rfl, h⟩
        exact ⟨l ++ t', rfl, ih.mpr ⟨t', rfl, h⟩⟩

/-- Whatever a wildcard stands for is in front of what the rest matches. -/
theorem matches_wild {x : GlobPart α} (hx : x.IsWild) (h : Matches sep (x :: p) t) :
    ∃ s t', t = s ++ t' ∧ (x = within → sep ∉ s) ∧ Matches sep p t' := by
  cases h with
  | item h => exact hx.elim
  | any s h => exact ⟨s, _, rfl, by simp, h⟩
  | within s hs h => exact ⟨s, _, rfl, fun _ ↦ hs, h⟩

theorem matches_wild_append {x : GlobPart α} (hx : x.IsWild) {s : List α}
    (hs : x = within → sep ∉ s) (h : Matches sep p t) : Matches sep (x :: p) (s ++ t) := by
  cases x with
  | item a => exact hx.elim
  | any => exact .any s h
  | within => exact .within s (hs rfl) h

/-- Wildcards match the empty string. -/
theorem matches_empty (hp : ∀ x ∈ p, x.IsWild) : Matches sep p [] := by
  induction p with
  | nil => exact .nil
  | cons x p ih =>
      refine matches_wild_append (hp x List.mem_cons_self) (s := []) (by simp) ?_
      exact ih fun y hy ↦ hp y (List.mem_cons_of_mem _ hy)

/-- What matches wildcards of one level is on one level. -/
theorem notMem_of_matches_within (hp : ∀ x ∈ p, x = within) (h : Matches sep p t) : sep ∉ t := by
  induction h with
  | nil => simp
  | item h ih => cases hp _ List.mem_cons_self
  | any s h ih => cases hp _ List.mem_cons_self
  | within s hs h ih =>
      rw [List.mem_append]
      rintro (hmem | hmem)
      · exact hs hmem
      · exact ih (fun y hy ↦ hp y (List.mem_cons_of_mem _ hy)) hmem

end GlobPart

end ImapToJmap
