import Mathlib

/-!
# Lists in order

Facts about sorted lists that the commands rest on, over arbitrary types.

`zip_sortNumbers_iff` is the one behind COPYUID.  Two keys of the same items, each sorted on its
own, still belong together position by position if and only if the two keys order the items alike.
-/

universe u

namespace ImapToJmap

variable {X : Type u}

/-- A list ordered by two relations orders its elements alike by both. -/
theorem iff_of_pairwise {R S : X → X → Prop} {l : List X} (hR : l.Pairwise R)
    (hS : l.Pairwise S) (hRa : ∀ a b, R a b → ¬ R b a) (hSa : ∀ a b, S a b → ¬ S b a) {a b : X}
    (ha : a ∈ l) (hb : b ∈ l) : R a b ↔ S a b := by
  by_cases hab : a = b
  · subst hab
    exact ⟨fun h ↦ absurd h (hRa _ _ h), fun h ↦ absurd h (hSa _ _ h)⟩
  have hboth : l.Pairwise fun a b ↦ (R a b ∧ S a b) ∨ (R b a ∧ S b a) :=
    (hR.and hS).imp Or.inl
  have : Std.Symm fun a b ↦ (R a b ∧ S a b) ∨ (R b a ∧ S b a) := ⟨fun _ _ h ↦ h.symm⟩
  rcases hboth.forall ha hb hab with ⟨h₁, h₂⟩ | ⟨h₁, h₂⟩
  · exact ⟨fun _ ↦ h₂, fun _ ↦ h₁⟩
  · exact ⟨fun h ↦ absurd h₁ (hRa _ _ h), fun h ↦ absurd h₂ (hSa _ _ h)⟩

/-- The last element with a property. -/
theorem exists_last {P : X → Prop} {l : List X} (h : ∃ x ∈ l, P x) :
    ∃ pre x post, l = pre ++ x :: post ∧ P x ∧ ∀ y ∈ post, ¬ P y := by
  induction l with
  | nil => simp at h
  | cons a l ih =>
      by_cases hl : ∃ x ∈ l, P x
      · obtain ⟨pre, x, post, rfl, hx, hpost⟩ := ih hl
        exact ⟨a :: pre, x, post, rfl, hx, hpost⟩
      · have ha : P a := by
          obtain ⟨x, hx, hP⟩ := h
          rcases List.mem_cons.mp hx with rfl | hx
          · exact hP
          · exact absurd ⟨x, hx, hP⟩ hl
        exact ⟨[], a, l, rfl, ha, fun y hy hP ↦ hl ⟨y, hy, hP⟩⟩

/-- Sort numbers. -/
def sortNumbers (l : List ℕ) : List ℕ := l.insertionSort (· ≤ ·)

theorem perm_sortNumbers (l : List ℕ) : (sortNumbers l).Perm l := List.perm_insertionSort _ l

theorem pairwise_sortNumbers (l : List ℕ) : (sortNumbers l).Pairwise (· ≤ ·) :=
  List.pairwise_insertionSort _ l

/-- A sorted permutation is the sorted list. -/
theorem sortNumbers_eq {l l' : List ℕ} (hp : l'.Perm l) (hs : l'.Pairwise (· ≤ ·)) :
    sortNumbers l = l' :=
  ((perm_sortNumbers l).trans hp.symm).eq_of_pairwise
    (fun _ _ _ _ h₁ h₂ ↦ le_antisymm h₁ h₂) (pairwise_sortNumbers l) hs

section Pairs

variable {L : List X} {f g : X → ℕ} {P : List ℕ}

/-- The items in the order of a key. -/
theorem exists_perm_pairwise (L : List X) (g : X → ℕ) (hg : (L.map g).Nodup) :
    ∃ L' : List X, L'.Perm L ∧ L'.Pairwise (fun x y ↦ g x < g y) := by
  refine ⟨L.mergeSort fun x y ↦ g x ≤ g y, List.mergeSort_perm _ _, ?_⟩
  have hle : (L.mergeSort fun x y ↦ g x ≤ g y).Pairwise fun x y ↦ g x ≤ g y := by
    refine (List.pairwise_mergeSort (fun x y z hxy hyz ↦ ?_) (fun x y ↦ ?_) L).imp
      of_decide_eq_true
    · exact decide_eq_true ((of_decide_eq_true hxy).trans (of_decide_eq_true hyz))
    · simpa using le_total (g x) (g y)
  have hnd : ((L.mergeSort fun x y ↦ g x ≤ g y).map g).Nodup :=
    ((List.mergeSort_perm L _).map g).nodup_iff.mpr hg
  exact (hle.and (List.pairwise_map.mp hnd)).imp fun h ↦ lt_of_le_of_ne h.1 h.2

/-- **Two keys sorted apart.**  Sort the values of `g` on its own, and a list `P` on its own.  The
two sorted lists give every item its own pair of keys if and only if `P` holds the values of `f`
and the two keys order the items alike. -/
theorem zip_sortNumbers_iff (hf : (L.map f).Nodup) (hg : (L.map g).Nodup) :
    ((sortNumbers P).length = (sortNumbers (L.map g)).length ∧
      ∀ p ∈ (sortNumbers P).zip (sortNumbers (L.map g)), ∃ x ∈ L, p = (f x, g x)) ↔
    P.Perm (L.map f) ∧ ∀ x ∈ L, ∀ y ∈ L, f x < f y ↔ g x < g y := by
  obtain ⟨L', hperm, hsorted⟩ := exists_perm_pairwise L g hg
  have hgs : sortNumbers (L.map g) = L'.map g :=
    sortNumbers_eq (hperm.map g) (List.pairwise_map.mpr (hsorted.imp le_of_lt))
  rw [hgs]
  constructor
  · rintro ⟨hlen, hzip⟩
    -- the pair at each position is that of the item there, as `g` tells the items apart
    have hP : sortNumbers P = L'.map f := by
      refine List.ext_getElem (by simpa using hlen) fun i h₁ h₂ ↦ ?_
      have hi : i < L'.length := by simpa using h₂
      have hmem : ((sortNumbers P)[i], g L'[i]) ∈ (sortNumbers P).zip (L'.map g) := by
        have hz : i < ((sortNumbers P).zip (L'.map g)).length := by simp [h₁, hi]
        have := List.getElem_mem hz
        simpa [List.getElem_zip] using this
      obtain ⟨x, hx, heq⟩ := hzip _ hmem
      obtain ⟨hfx, hgx⟩ := Prod.mk.inj heq
      have hitem : L'[i] = x :=
        List.inj_on_of_nodup_map hg (hperm.mem_iff.mp (List.getElem_mem hi)) hx hgx
      rw [List.getElem_map, hitem, hfx]
    have hPf : P.Perm (L.map f) := by
      refine (perm_sortNumbers P).symm.trans ?_
      rw [hP]
      exact hperm.map f
    refine ⟨hPf, fun x hx y hy ↦ ?_⟩
    have hfle : L'.Pairwise fun x y ↦ f x ≤ f y := by
      have := pairwise_sortNumbers P
      rwa [hP, List.pairwise_map] at this
    have hfnd : (L'.map f).Nodup := (hperm.map f).nodup_iff.mpr hf
    have hflt : L'.Pairwise fun x y ↦ f x < f y :=
      (hfle.and (List.pairwise_map.mp hfnd)).imp fun h ↦ lt_of_le_of_ne h.1 h.2
    exact iff_of_pairwise hflt hsorted (fun _ _ h ↦ by omega) (fun _ _ h ↦ by omega)
      (hperm.mem_iff.mpr hx) (hperm.mem_iff.mpr hy)
  · rintro ⟨hPf, horder⟩
    have hflt : L'.Pairwise fun x y ↦ f x < f y :=
      hsorted.imp_of_mem fun hx hy h ↦
        (horder _ (hperm.mem_iff.mp hx) _ (hperm.mem_iff.mp hy)).mpr h
    have hP : sortNumbers P = L'.map f :=
      sortNumbers_eq ((hperm.map f).trans hPf.symm) (List.pairwise_map.mpr (hflt.imp le_of_lt))
    rw [hP]
    refine ⟨by simp, fun p hp ↦ ?_⟩
    rw [List.zip_map'] at hp
    obtain ⟨x, hx, rfl⟩ := List.mem_map.mp hp
    exact ⟨x, hperm.mem_iff.mp hx, rfl⟩

end Pairs

end ImapToJmap
