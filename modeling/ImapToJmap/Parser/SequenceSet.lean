import ImapToJmap.Core.Bytes
import ImapToJmap.Data.Ascii
import ImapToJmap.Protocol.Basic

/-!
# Sequence sets

`parse_sequence_set` of `parser/mod.rs`.  The parser goes over the bytes once and keeps the position
where a number has begun, the first end of a range, and three flags; a comma or the last byte ends
an item.  Whatever it accepts is an item or a list of items (`flat_parseSequenceSet`), and on such
sets the two readings `contains` and `expand` agree.
-/

namespace ImapToJmap

open Ascii

/-! ## Numbers -/

/-- The digits of a number: `str::parse` lets one `+` stand in front. -/
def unsigned : Bytes → Bytes
  | plus :: digits => digits
  | digits => digits

/-- `parse_number` at the unsigned type of the given width. -/
def parseNumber (width : ℕ) (value : Bytes) : Option ℕ :=
  let digits := unsigned value
  if digits ≠ [] ∧ digits.all isAsciiDigit ∧ ofDecimal digits < 2 ^ width then
    some (ofDecimal digits)
  else none

theorem parseNumber_decimal {width n : ℕ} (h : n < 2 ^ width) :
    parseNumber width (decimal n) = some n := by
  have hdigits : ∀ ch ∈ decimal n, isAsciiDigit ch = true := fun ch ↦ isAsciiDigit_of_mem_decimal
  have hunsigned : unsigned (decimal n) = decimal n := by
    unfold unsigned
    split
    · rename_i rest hrest
      have hp := hdigits plus (by simp [hrest])
      exact absurd hp (by decide)
    · rfl
  rw [parseNumber, hunsigned]
  rw [if_pos ⟨decimal_ne_nil n, List.all_eq_true.mpr hdigits, by rwa [ofDecimal_decimal]⟩,
    ofDecimal_decimal]

/-! ## The parser -/

/-- The errors of `parse_sequence_set`, after what their texts say. -/
inductive SequenceSetError where
  | /-- `Expected a number, found {:?}.` -/
    number
  | /-- `parse error.` -/
    slice
  | /-- `number expected before ':'.` -/
    numberBeforeColon
  | /-- `':' appears multiple times.` -/
    colonTwice
  | /-- `invalid use of '*'.` -/
    wildcard
  | /-- `'*' appears multiple times.` -/
    wildcardTwice
  | /-- `unexpected token after '$'.` -/
    afterSavedSearch
  | /-- `found invalid character '{}' at position {}.` -/
    character (ch : UInt8) (pos : ℕ)
  | /-- `expected number.` -/
    expectedNumber
  | /-- `Invalid empty sequence set.` -/
    empty
deriving DecidableEq

/-- The variables of the loop. -/
structure SequenceParser where
  sequenceSet : List Sequence := []
  rangeStart : Option ℕ := none
  tokenStart : Option ℕ := none
  isWildcard : Bool := false
  isRange : Bool := false
  isSavedSearch : Bool := false

namespace SequenceParser

/-- `parse_number::<u32>(value.get(from..pos)?)` -/
def numberAt (value : Bytes) (first pos : ℕ) : Except SequenceSetError ℕ :=
  if first ≤ pos ∧ pos ≤ value.length then
    match parseNumber 32 ((value.take pos).drop first) with
    | some n => .ok n
    | none => .error .number
  else .error .slice

/-- `parse_number::<u32>(value.get(token_start?..pos)?)` -/
def numberFrom (value : Bytes) (tokenStart : Option ℕ) (pos : ℕ) : Except SequenceSetError ℕ :=
  match tokenStart with
  | some first => numberAt value first pos
  | none => .error .expectedNumber

/-- The arms of the loop. -/
def read (value : Bytes) (pos : ℕ) (ch : UInt8) (p : SequenceParser) :
    Except SequenceSetError SequenceParser :=
  match ch with
  | comma => .ok p
  | colon =>
      if p.isRange then .error .colonTwice
      else match p.tokenStart with
        | some first => do
            let n ← numberAt value first pos
            .ok { p with rangeStart := some n, tokenStart := none, isRange := true }
        | none =>
            if p.isWildcard then .ok { p with isWildcard := false, isRange := true }
            else .error .numberBeforeColon
  | Ascii.star =>
      if p.isWildcard then .error .wildcardTwice
      else if p.tokenStart.isNone then .ok { p with isWildcard := true }
      else .error .wildcard
  | dollar =>
      if value[pos + 1]?.all (· == comma) then .ok { p with isSavedSearch := true }
      else .error .afterSavedSearch
  | _ =>
      if isAsciiDigit ch then
        if p.isWildcard then .error .wildcard
        else .ok { p with tokenStart := some (p.tokenStart.getD pos) }
      else .error (.character ch pos)

/-- The end of an item; `pos` is the position behind it. -/
def finish (value : Bytes) (pos : ℕ) (p : SequenceParser) :
    Except SequenceSetError SequenceParser :=
  if p.isRange then
    if p.isWildcard then
      .ok { p with
        sequenceSet := p.sequenceSet ++ [.range p.rangeStart none]
        isWildcard := false, isRange := false, rangeStart := none, tokenStart := none }
    else do
      let n ← numberFrom value p.tokenStart pos
      .ok { p with
        sequenceSet := p.sequenceSet ++ [.range p.rangeStart (some n)]
        isRange := false, rangeStart := none, tokenStart := none }
  else if p.isWildcard then
    .ok { p with
      sequenceSet := p.sequenceSet ++ [.range none none]
      isWildcard := false, tokenStart := none }
  else if p.isSavedSearch then
    .ok { p with
      sequenceSet := p.sequenceSet ++ [.savedSearch]
      isSavedSearch := false, tokenStart := none }
  else do
    let n ← numberFrom value p.tokenStart pos
    .ok { p with sequenceSet := p.sequenceSet ++ [.number n], tokenStart := none }

/-- One round of the loop. -/
def step (value : Bytes) (pos : ℕ) (ch : UInt8) (p : SequenceParser) :
    Except SequenceSetError SequenceParser := do
  let p ← p.read value pos ch
  let addToken := ch == comma
  if addToken || pos == value.length - 1 then p.finish value (if addToken then pos else pos + 1)
  else .ok p

/-- The loop from a position on. -/
def scan (value : Bytes) : ℕ → Bytes → SequenceParser → Except SequenceSetError SequenceParser
  | _, [], p => .ok p
  | pos, ch :: rest, p => p.step value pos ch >>= scan value (pos + 1) rest

end SequenceParser

/-- `parse_sequence_set`; a `*` that is all of the value is returned from within the loop. -/
def parseSequenceSet (value : Bytes) : Except SequenceSetError Sequence :=
  if value = [Ascii.star] then .ok (.range none none)
  else do
    let p ← SequenceParser.scan value 0 value {}
    match p.sequenceSet with
    | [] => .error .empty
    | [item] => .ok item
    | items => .ok (.list items)

/-! ## What is accepted -/

namespace Sequence

/-- The sequence is not a list. -/
def IsItem : Sequence → Prop
  | list _ => False
  | _ => True

/-- An item, or a list of items. -/
def Flat : Sequence → Prop
  | list items => ∀ item ∈ items, item.IsItem
  | _ => True

theorem IsItem.flat {sequence : Sequence} (h : sequence.IsItem) : sequence.Flat := by
  cases sequence with
  | list items => exact h.elim
  | number | range | savedSearch => trivial

theorem mem_expandRange {maxValue v : ℕ} {first last : Option ℕ} :
    v ∈ expandRange maxValue first last ↔
      first.getD maxValue ≤ v ∧ v ≤ last.getD maxValue ∨
        last.getD maxValue ≤ v ∧ v ≤ first.getD maxValue := by
  rw [expandRange, Finset.mem_uIcc]
  omega

/-- The two readings of an item. -/
theorem IsItem.contains_iff {item : Sequence} (h : item.IsItem) {v maxValue : ℕ} :
    item.contains v maxValue = true ↔ v ∈ item.expandItem maxValue := by
  cases item with
  | number n =>
      rw [contains, expandItem, Finset.mem_singleton, beq_iff_eq]
      exact eq_comm
  | range first last =>
      rw [expandItem, mem_expandRange]
      cases first with
      | none =>
          cases last with
          | none =>
              simp only [contains, Option.getD_none, beq_iff_eq]
              omega
          | some last =>
              simp only [contains, Option.getD_none, Option.getD_some, Bool.or_eq_true,
                Bool.and_eq_true, decide_eq_true_eq]
              omega
      | some first =>
          cases last with
          | none | some last =>
              simp only [contains, Option.getD_none, Option.getD_some, Bool.or_eq_true,
                Bool.and_eq_true, decide_eq_true_eq]
  | savedSearch => simp [contains, expandItem]
  | list items => exact h.elim

theorem anyContains_iff {v maxValue : ℕ} {items : List Sequence} :
    anyContains v maxValue items = true ↔ ∃ item ∈ items, item.contains v maxValue = true := by
  induction items with
  | nil => simp [anyContains]
  | cons item items ih => rw [anyContains, Bool.or_eq_true, ih, List.exists_mem_cons_iff]

theorem mem_foldl_union {v : ℕ} (sets : List (Finset ℕ)) (s : Finset ℕ) :
    v ∈ sets.foldl (· ∪ ·) s ↔ v ∈ s ∨ ∃ t ∈ sets, v ∈ t := by
  induction sets generalizing s with
  | nil => simp
  | cons t sets ih =>
      rw [List.foldl_cons, ih, Finset.mem_union, List.exists_mem_cons_iff]
      exact or_assoc

/-- **The two readings of a sequence set**: asking for one number after the other gives the numbers
that the set expands to. -/
theorem Flat.contains_iff {sequence : Sequence} (h : sequence.Flat) {v maxValue : ℕ} :
    sequence.contains v maxValue = true ↔ v ∈ sequence.expand maxValue := by
  cases sequence with
  | number n => exact (show (Sequence.number n).IsItem from trivial).contains_iff
  | range first last => exact (show (Sequence.range first last).IsItem from trivial).contains_iff
  | savedSearch => exact (show Sequence.savedSearch.IsItem from trivial).contains_iff
  | list items =>
      rw [contains, anyContains_iff, expand, mem_foldl_union]
      constructor
      · rintro ⟨item, hitem, hv⟩
        exact .inr ⟨_, List.mem_map_of_mem hitem, (h item hitem).contains_iff.mp hv⟩
      · rintro (hv | ⟨t, ht, hv⟩)
        · simp at hv
        · obtain ⟨item, hitem, rfl⟩ := List.mem_map.mp ht
          exact ⟨item, hitem, (h item hitem).contains_iff.mpr hv⟩

end Sequence

namespace SequenceParser

variable {value : Bytes} {pos : ℕ} {ch : UInt8} {p p' : SequenceParser}

/-- What has been parsed are items. -/
def Items (p : SequenceParser) : Prop := ∀ item ∈ p.sequenceSet, item.IsItem

theorem read_sequenceSet (h : p.read value pos ch = .ok p') : p'.sequenceSet = p.sequenceSet := by
  unfold read at h
  split at h
  · obtain rfl := Except.ok.inj h
    rfl
  · split at h
    · cases h
    · split at h
      · rename_i first _
        cases hn : numberAt value first pos with
        | error e => simp [hn, bind, Except.bind] at h
        | ok n =>
            simp only [hn, bind, Except.bind] at h
            obtain rfl := Except.ok.inj h
            rfl
      · split at h
        · obtain rfl := Except.ok.inj h
          rfl
        · cases h
  · split at h
    · cases h
    · split at h
      · obtain rfl := Except.ok.inj h
        rfl
      · cases h
  · split at h
    · obtain rfl := Except.ok.inj h
      rfl
    · cases h
  · split at h
    · split at h
      · cases h
      · obtain rfl := Except.ok.inj h
        rfl
    · cases h

/-- The end of an item adds an item. -/
theorem finish_sequenceSet (h : p.finish value pos = .ok p') :
    ∃ item, item.IsItem ∧ p'.sequenceSet = p.sequenceSet ++ [item] := by
  unfold finish at h
  split at h
  · split at h
    · obtain rfl := Except.ok.inj h
      refine ⟨_, ?_, rfl⟩
      trivial
    · cases hn : numberFrom value p.tokenStart pos with
      | error e => simp [hn, bind, Except.bind] at h
      | ok n =>
          simp only [hn, bind, Except.bind] at h
          obtain rfl := Except.ok.inj h
          refine ⟨_, ?_, rfl⟩
          trivial
  · split at h
    · obtain rfl := Except.ok.inj h
      refine ⟨_, ?_, rfl⟩
      trivial
    · split at h
      · obtain rfl := Except.ok.inj h
        refine ⟨_, ?_, rfl⟩
        trivial
      · cases hn : numberFrom value p.tokenStart pos with
        | error e => simp [hn, bind, Except.bind] at h
        | ok n =>
            simp only [hn, bind, Except.bind] at h
            obtain rfl := Except.ok.inj h
            refine ⟨_, ?_, rfl⟩
            trivial

theorem Items.step (hp : p.Items) (h : p.step value pos ch = .ok p') : p'.Items := by
  rw [SequenceParser.step] at h
  cases hr : p.read value pos ch with
  | error e => simp [hr, bind, Except.bind] at h
  | ok q =>
      have hq : q.Items := by
        rw [Items, read_sequenceSet hr]
        exact hp
      simp only [hr, bind, Except.bind] at h
      split at h
      · obtain ⟨item, hitem, heq⟩ := finish_sequenceSet h
        intro x hx
        rw [heq] at hx
        rcases List.mem_append.mp hx with hx | hx
        · exact hq x hx
        · exact List.mem_singleton.mp hx ▸ hitem
      · obtain rfl := Except.ok.inj h
        exact hq

theorem Items.scan {rest : Bytes} (hp : p.Items) (h : scan value pos rest p = .ok p') :
    p'.Items := by
  induction rest generalizing pos p with
  | nil =>
      obtain rfl := Except.ok.inj h
      exact hp
  | cons ch rest ih =>
      rw [SequenceParser.scan] at h
      cases hs : p.step value pos ch with
      | error e => simp [hs, bind, Except.bind] at h
      | ok q =>
          rw [hs] at h
          exact ih (hp.step hs) h

end SequenceParser

/-- The parser does not nest lists. -/
theorem flat_parseSequenceSet {value : Bytes} {sequence : Sequence}
    (h : parseSequenceSet value = .ok sequence) : sequence.Flat := by
  rw [parseSequenceSet] at h
  split at h
  · obtain rfl := Except.ok.inj h
    trivial
  · cases hs : SequenceParser.scan value 0 value {} with
    | error e => simp [hs, bind, Except.bind] at h
    | ok p =>
        have hp : p.Items := SequenceParser.Items.scan (by simp [SequenceParser.Items]) hs
        simp only [hs, bind, Except.bind] at h
        split at h
        · cases h
        · rename_i item hitem
          obtain rfl := Except.ok.inj h
          exact (hp item (by simp [hitem])).flat
        · obtain rfl := Except.ok.inj h
          exact hp

end ImapToJmap
