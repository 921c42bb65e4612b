import ImapToJmap.Parser.SequenceText

/-!
# Numbers as sequence sets

`serialize_sequence` of `protocol/mod.rs`, which writes the numbers of COPYUID, MODIFIED and
VANISHED.  It folds a run of consecutive numbers to a range: `takeRun` is its inner loop, and the
number after the greatest one is 0.

`runs` are the items that it writes, and `parseSequenceSet_serialize` is that a list without 0 is
read back number by number, in its order and as often as each is on it.  `contains_iff_mem_expand`
is about any set that the parser returns: to ask it for numbers is the same as to expand it.
-/

namespace ImapToJmap

open Ascii

/-! ## The writer -/

/-- The inner loop: the last number of a run, and the numbers after it. -/
def takeRun (rangeId : ℕ) : List ℕ → ℕ × List ℕ
  | [] => (rangeId, [])
  | nextId :: ids =>
      if nextId = (rangeId + 1) % 2 ^ 32 then takeRun ((rangeId + 1) % 2 ^ 32) ids
      else (rangeId, nextId :: ids)

theorem length_takeRun_le (rangeId : ℕ) (ids : List ℕ) :
    (takeRun rangeId ids).2.length ≤ ids.length := by
  induction ids generalizing rangeId with
  | nil => exact le_rfl
  | cons nextId ids ih =>
      rw [takeRun]
      split
      · exact (ih _).trans (Nat.le_succ _)
      · exact le_rfl

/-- `serialize_sequence` -/
def serializeSequence : List ℕ → Bytes
  | [] => []
  | id :: ids =>
      let run := takeRun id ids
      decimal id ++ (if run.1 ≠ id then colon :: decimal run.1 else []) ++
        (if run.2 ≠ [] then [comma] else []) ++ serializeSequence run.2
termination_by ids => ids.length
decreasing_by exact Nat.lt_succ_of_le (length_takeRun_le id ids)

/-! ## The items -/

/-- A run as an item. -/
def runItem (id rangeId : ℕ) : SetItem :=
  if rangeId ≠ id then .range (.number id) (.number rangeId) else .single (.number id)

theorem text_runItem (id rangeId : ℕ) :
    (runItem id rangeId).text =
      decimal id ++ if rangeId ≠ id then colon :: decimal rangeId else [] := by
  unfold runItem
  split
  · rfl
  · rw [List.append_nil]
    rfl

/-- The items that are written. -/
def runs : List ℕ → List SetItem
  | [] => []
  | id :: ids => runItem id (takeRun id ids).1 :: runs (takeRun id ids).2
termination_by ids => ids.length
decreasing_by exact Nat.lt_succ_of_le (length_takeRun_le id ids)

theorem serializeSequence_eq (id : ℕ) (ids : List ℕ) :
    serializeSequence (id :: ids) =
      SequenceSet.textFrom (runItem id (takeRun id ids).1) (runs (takeRun id ids).2) := by
  induction hlength : ids.length using Nat.strong_induction_on generalizing id ids with
  | _ length ih =>
      rw [serializeSequence]
      have hle := length_takeRun_le id ids
      cases hrest : (takeRun id ids).2 with
      | nil =>
          rw [runs, SequenceSet.textFrom, text_runItem, serializeSequence]
          simp
      | cons next rest =>
          rw [hrest, List.length_cons] at hle
          rw [runs, SequenceSet.textFrom, text_runItem, ih rest.length (by omega) next rest rfl]
          simp

/-! ## The numbers of a sequence set -/

/-- The numbers of an item, in order. -/
def Sequence.itemNumbers : Sequence → List ℕ
  | .number n => [n]
  | .range (some first) (some last) => List.range' first (last + 1 - first)
  | _ => []

/-- The numbers of a sequence set, item by item. -/
def Sequence.numbers : Sequence → List ℕ
  | .list items => items.flatMap itemNumbers
  | item => item.itemNumbers

variable {id : ℕ} {ids : List ℕ}

/-- Numbers of 32 bits that are not 0. -/
def PositiveNumbers (ids : List ℕ) : Prop := ∀ n ∈ ids, 0 < n ∧ n < 2 ^ 32

/-- A run is what it stands for: no number is followed by the one after the greatest. -/
theorem takeRun_spec (hid : id < 2 ^ 32) (hids : PositiveNumbers ids) :
    id ≤ (takeRun id ids).1 ∧ (takeRun id ids).1 < 2 ^ 32 ∧
      id :: ids = List.range' id ((takeRun id ids).1 + 1 - id) ++ (takeRun id ids).2 := by
  induction ids generalizing id with
  | nil =>
      refine ⟨le_rfl, hid, ?_⟩
      rw [takeRun, Nat.add_sub_cancel_left]
      rfl
  | cons nextId ids ih =>
      obtain ⟨hnext, hids'⟩ := List.forall_mem_cons.mp hids
      rw [takeRun]
      split
      · rename_i heq
        have hsucc : (id + 1) % 2 ^ 32 = id + 1 := by omega
        rw [hsucc] at heq ⊢
        subst heq
        obtain ⟨hle, hlt, hrun⟩ := ih hnext.2 hids'
        refine ⟨by omega, hlt, ?_⟩
        have hcount : (takeRun (id + 1) ids).1 + 1 - id =
            (takeRun (id + 1) ids).1 + 1 - (id + 1) + 1 := by omega
        rw [hcount, List.range'_succ, List.cons_append, ← hrun]
      · refine ⟨le_rfl, hid, ?_⟩
        rw [Nat.add_sub_cancel_left]
        rfl

theorem itemNumbers_runItem (id rangeId : ℕ) :
    (runItem id rangeId).toSequence.itemNumbers = List.range' id (rangeId + 1 - id) := by
  unfold runItem
  split
  · rfl
  · rename_i heq
    rw [not_not.mp heq, Nat.add_sub_cancel_left]
    rfl

/-- The items are of 32 bits, and their numbers are those of the list. -/
theorem runs_spec (h : PositiveNumbers ids) :
    (∀ item ∈ runs ids, item.Fits) ∧
      (runs ids).flatMap (fun item ↦ item.toSequence.itemNumbers) = ids := by
  induction hlength : ids.length using Nat.strong_induction_on generalizing ids with
  | _ length ih =>
      cases ids with
      | nil =>
          rw [runs]
          exact ⟨by simp, rfl⟩
      | cons id ids =>
          obtain ⟨hid, hids⟩ := List.forall_mem_cons.mp h
          obtain ⟨hle, hlt, hrun⟩ := takeRun_spec hid.2 hids
          have hrest : PositiveNumbers (takeRun id ids).2 := fun n hn ↦
            h n (by rw [hrun]; exact List.mem_append_right _ hn)
          rw [List.length_cons] at hlength
          have hshorter := length_takeRun_le id ids
          obtain ⟨hfits, hnumbers⟩ := ih _ (by omega) hrest rfl
          rw [runs]
          refine ⟨List.forall_mem_cons.mpr ⟨?_, hfits⟩, ?_⟩
          · unfold runItem
            split
            · exact ⟨hid.2, hlt⟩
            · exact hid.2
          · rw [List.flatMap_cons, itemNumbers_runItem, hnumbers]
            exact hrun.symm

theorem numbers_toSequence (set : SequenceSet) :
    set.toSequence.numbers = set.items.flatMap fun item ↦ item.toSequence.itemNumbers := by
  rw [SequenceSet.toSequence, SequenceSet.items]
  cases set.tail with
  | nil =>
      rw [List.flatMap_cons, List.flatMap_nil, List.append_nil]
      cases set.head with
      | single n => cases n <;> rfl
      | range first last => rfl
      | saved => rfl
  | cons next items =>
      rw [Sequence.numbers, List.flatMap_map]

/-- **Numbers are read back as they were written**, in the same order and as often. -/
theorem parseSequenceSet_serialize (hne : ids ≠ []) (h : PositiveNumbers ids) :
    ∃ set, parseSequenceSet (serializeSequence ids) = .ok set ∧ set.numbers = ids := by
  obtain ⟨id, ids, rfl⟩ := List.exists_cons_of_ne_nil hne
  obtain ⟨hfits, hnumbers⟩ := runs_spec h
  rw [runs] at hfits hnumbers
  let set : SequenceSet := ⟨runItem id (takeRun id ids).1, runs (takeRun id ids).2⟩
  refine ⟨set.toSequence, ?_, ?_⟩
  · rw [serializeSequence_eq]
    have hset : set.Fits := hfits
    change parseSequenceSet set.text = _
    rw [hset.setText.parse, set.ofItems_items]
  · rw [numbers_toSequence]
    exact hnumbers

/-- A run, a number that repeats, one that descends, and the greatest. -/
theorem parseSequenceSet_serialize_runs :
    ∃ set, parseSequenceSet (serializeSequence [3, 4, 5, 5, 4, 4294967295, 1]) = .ok set ∧
      set.numbers = [3, 4, 5, 5, 4, 4294967295, 1] :=
  parseSequenceSet_serialize nofun (by unfold PositiveNumbers; decide)

/-! ## The two readings -/

/-- **A sequence set contains what it expands to**, whatever it was read from: the ranges are the
same in either direction and with `*` at any end, and neither looks into a saved search. -/
theorem contains_iff_mem_expand {value : Bytes} {sequence : Sequence}
    (hparse : parseSequenceSet value = .ok sequence) (v maxValue : ℕ) :
    sequence.contains v maxValue = true ↔ v ∈ sequence.expand maxValue :=
  (flat_parseSequenceSet hparse).contains_iff

/-- `*:3,$,7` -/
theorem contains_iff_mem_expand_star :
    (Sequence.list [.range none (some 3), .savedSearch, .number 7]).contains 5 9 = true ↔
      5 ∈ (Sequence.list [.range none (some 3), .savedSearch, .number 7]).expand 9 := by
  have hparse : parseSequenceSet [42, 58, 51, 44, 36, 44, 55] =
      .ok (.list [.range none (some 3), .savedSearch, .number 7]) := rfl
  exact contains_iff_mem_expand hparse 5 9

end ImapToJmap
