import Mathlib.Data.List.Nodup
import Mathlib.Data.List.Perm.Basic

/-!
# Grouping by a key

A table of groups, each under its key.  `push` adds an element to the group of its key, or opens a
group for it: what `entry(key).or_default().push(element)` does to a hash map.

`IsGrouping` relates a table to the list of all that was pushed: the group of a key has the elements
with that key, in their order.  The groups are then a partition of the list
(`IsGrouping.perm`), in whatever order a hash map gives them.
-/

universe u v

namespace ImapToJmap.Grouping

variable {κ : Type u} {α : Type v} [DecidableEq κ]

/-- Add an element to the group of its key. -/
def push (groups : List (κ × List α)) (x : κ × α) : List (κ × List α) :=
  if x.1 ∈ groups.map Prod.fst then
    groups.map fun g ↦ if g.1 = x.1 then (g.1, g.2 ++ [x.2]) else g
  else groups ++ [(x.1, [x.2])]

/-- The elements with a key. -/
def fiber (l : List (κ × α)) (k : κ) : List α := (l.filter fun x ↦ x.1 = k).map Prod.snd

theorem fiber_append (l l' : List (κ × α)) (k : κ) :
    fiber (l ++ l') k = fiber l k ++ fiber l' k := by
  rw [fiber, List.filter_append, List.map_append, fiber, fiber]

theorem fiber_self (x : κ × α) : fiber [x] x.1 = [x.2] := by
  simp [fiber]

theorem fiber_of_ne {x : κ × α} {k : κ} (h : x.1 ≠ k) : fiber [x] k = [] := by
  simp [fiber, h]

theorem fiber_eq_nil {l : List (κ × α)} {k : κ} (h : k ∉ l.map Prod.fst) : fiber l k = [] := by
  rw [fiber, List.map_eq_nil_iff, List.filter_eq_nil_iff]
  intro x hx hk
  exact h (List.mem_map.mpr ⟨x, hx, by simpa using hk⟩)

/-- The table groups the elements of the list. -/
structure IsGrouping (groups : List (κ × List α)) (l : List (κ × α)) : Prop where
  nodup : (groups.map Prod.fst).Nodup
  keys : ∀ k, k ∈ groups.map Prod.fst ↔ k ∈ l.map Prod.fst
  group : ∀ g ∈ groups, g.2 = fiber l g.1

namespace IsGrouping

variable {groups : List (κ × List α)} {l : List (κ × α)}

theorem nil : IsGrouping ([] : List (κ × List α)) [] := ⟨List.nodup_nil, by simp, by simp⟩

/-- **One element.** -/
theorem push (h : IsGrouping groups l) (x : κ × α) : IsGrouping (push groups x) (l ++ [x]) := by
  unfold Grouping.push
  split
  · next hmem =>
      have hkeys : (groups.map fun g ↦ if g.1 = x.1 then (g.1, g.2 ++ [x.2]) else g).map Prod.fst =
          groups.map Prod.fst := by
        rw [List.map_map]
        refine List.map_congr_left fun g _ ↦ ?_
        rw [Function.comp_apply]
        split <;> rfl
      refine ⟨hkeys ▸ h.nodup, fun k ↦ ?_, fun g hg ↦ ?_⟩
      · rw [hkeys, h.keys, List.map_append, List.mem_append, List.map_singleton,
          List.mem_singleton]
        constructor
        · exact .inl
        · rintro (hk | rfl)
          · exact hk
          · exact (h.keys _).mp hmem
      · obtain ⟨g', hgroup, rfl⟩ := List.mem_map.mp hg
        rw [fiber_append]
        split
        · next hkey =>
            show g'.2 ++ [x.2] = fiber l g'.1 ++ fiber [x] g'.1
            rw [h.group g' hgroup, hkey, fiber_self]
        · next hkey => rw [h.group g' hgroup, fiber_of_ne (Ne.symm hkey), List.append_nil]
  · next hmem =>
      refine ⟨?_, fun k ↦ ?_, fun g hg ↦ ?_⟩
      · rw [List.map_append]
        exact h.nodup.append (List.nodup_singleton _) (by simpa using hmem)
      · rw [List.map_append, List.map_append, List.mem_append, List.mem_append, h.keys]
        rfl
      · rw [fiber_append]
        rcases List.mem_append.mp hg with hg | hg
        · have hkey : x.1 ≠ g.1 := fun heq ↦ hmem (heq ▸ List.mem_map_of_mem hg)
          rw [h.group g hg, fiber_of_ne hkey, List.append_nil]
        · obtain rfl := List.mem_singleton.mp hg
          have hnew : fiber l x.1 = [] := fiber_eq_nil fun hk ↦ hmem ((h.keys _).mpr hk)
          rw [hnew, fiber_self]
          rfl

/-- **One element after the other.** -/
theorem foldl_push (h : IsGrouping groups l) (l' : List (κ × α)) :
    IsGrouping (l'.foldl Grouping.push groups) (l ++ l') := by
  induction l' generalizing groups l with
  | nil => exact (List.append_nil l).symm ▸ h
  | cons x l' ih => exact List.append_cons l x l' ▸ ih (h.push x)

/-- The table in another order. -/
theorem of_perm {groups' : List (κ × List α)} (h : IsGrouping groups l)
    (hperm : groups'.Perm groups) : IsGrouping groups' l where
  nodup := (hperm.map Prod.fst).nodup_iff.mpr h.nodup
  keys k := (hperm.map Prod.fst).mem_iff.trans (h.keys k)
  group g hg := h.group g (hperm.mem_iff.mp hg)

end IsGrouping

/-- Distinct keys that cover a list take it apart. -/
theorem perm_flatMap_fiber {keys : List κ} (hnodup : keys.Nodup) {l : List (κ × α)}
    (hcover : ∀ x ∈ l, x.1 ∈ keys) : (keys.flatMap (fiber l)).Perm (l.map Prod.snd) := by
  induction keys generalizing l with
  | nil =>
      have hnil : l = [] := List.eq_nil_iff_forall_not_mem.mpr fun x hx ↦ by
        simpa using hcover x hx
      subst hnil
      exact .refl _
  | cons k keys ih =>
      obtain ⟨hk, hnodup⟩ := List.nodup_cons.mp hnodup
      have hrest := ih hnodup (l := l.filter fun x ↦ !decide (x.1 = k)) fun x hx ↦ by
        obtain ⟨hx, hne⟩ := List.mem_filter.mp hx
        exact (List.mem_cons.mp (hcover x hx)).resolve_left (by simpa using hne)
      have hfibers : keys.flatMap (fiber (l.filter fun x ↦ !decide (x.1 = k))) =
          keys.flatMap (fiber l) := by
        refine List.flatMap_congr fun k' hk' ↦ ?_
        have hne : k' ≠ k := fun heq ↦ hk (heq ▸ hk')
        rw [fiber, List.filter_filter, fiber]
        refine congrArg _ (List.filter_congr fun x _ ↦ ?_)
        by_cases hx : x.1 = k' <;> simp [hx, hne]
      rw [hfibers] at hrest
      rw [List.flatMap_cons]
      refine (List.Perm.append_left _ hrest).trans ?_
      rw [fiber, ← List.map_append]
      exact (List.filter_append_perm _ l).map Prod.snd

/-- **The groups are a partition** of the elements. -/
theorem IsGrouping.perm {groups : List (κ × List α)} {l : List (κ × α)}
    (h : IsGrouping groups l) : (groups.flatMap Prod.snd).Perm (l.map Prod.snd) := by
  have hgroups : groups.flatMap Prod.snd = (groups.map Prod.fst).flatMap (fiber l) := by
    rw [List.flatMap_map]
    exact List.flatMap_congr h.group
  rw [hgroups]
  exact perm_flatMap_fiber h.nodup fun x hx ↦ (h.keys x.1).mpr (List.mem_map_of_mem hx)

end ImapToJmap.Grouping
