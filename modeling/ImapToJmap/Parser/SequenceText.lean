import ImapToJmap.Parser.SequenceLanguage

/-!
# Sequence sets as they are written

The texts that the grammar of IMAP calls sequence sets, apart from what the parser makes of them:
items with commas between them, an item being a number, `*`, two of these with a colon between them,
or `$`. Their texts are among those of `SetText`, and so the parser reads every one of them, item by
item (`parseSequenceSet_fits`).
-/

namespace ImapToJmap

open Ascii

/-- A number, or the greatest one. -/
inductive SetNumber where
  | number (n : ℕ)
  | greatest
deriving DecidableEq

/-- An item of a sequence set. -/
inductive SetItem where
  | single (n : SetNumber)
  | range (first last : SetNumber)
  | saved
deriving DecidableEq

namespace SetNumber

def text : SetNumber → Bytes
  | number n => decimal n
  | greatest => [Ascii.star]

/-- Numbers are not zero, and have 32 bits. -/
def Valid : SetNumber → Prop
  | number n => 0 < n ∧ n < 2 ^ 32
  | greatest => True

/-- Numbers have 32 bits. -/
def Fits : SetNumber → Prop
  | number n => n < 2 ^ 32
  | greatest => True

theorem Valid.fits {n : SetNumber} (h : n.Valid) : n.Fits := by
  cases n with
  | number n => exact h.2
  | greatest => trivial

/-- The end of a range that it becomes. -/
def bound : SetNumber → Option ℕ
  | number n => some n
  | greatest => none

end SetNumber

namespace SetItem

def text : SetItem → Bytes
  | single n => n.text
  | range first last => first.text ++ colon :: last.text
  | saved => [dollar]

def Valid : SetItem → Prop
  | single n => n.Valid
  | range first last => first.Valid ∧ last.Valid
  | saved => True

def Fits : SetItem → Prop
  | single n => n.Fits
  | range first last => first.Fits ∧ last.Fits
  | saved => True

theorem Valid.fits {item : SetItem} (h : item.Valid) : item.Fits := by
  cases item with
  | single n => exact SetNumber.Valid.fits h
  | range first last => exact ⟨h.1.fits, h.2.fits⟩
  | saved => trivial

/-- What the parser makes of an item. -/
def toSequence : SetItem → Sequence
  | single (.number n) => .number n
  | single .greatest => .range none none
  | range first last => .range first.bound last.bound
  | saved => .savedSearch

end SetItem

/-- A sequence set: its first item, and the others. -/
structure SequenceSet where
  head : SetItem
  tail : List SetItem := []

namespace SequenceSet

def items (set : SequenceSet) : List SetItem := set.head :: set.tail

/-- Items with commas between them. -/
def textFrom : SetItem → List SetItem → Bytes
  | item, [] => item.text
  | item, next :: items => item.text ++ comma :: textFrom next items

def text (set : SequenceSet) : Bytes := textFrom set.head set.tail

def Valid (set : SequenceSet) : Prop := ∀ item ∈ set.items, item.Valid

def Fits (set : SequenceSet) : Prop := ∀ item ∈ set.items, item.Fits

def toSequence (set : SequenceSet) : Sequence :=
  match set.tail with
  | [] => set.head.toSequence
  | tail => .list ((set.head :: tail).map SetItem.toSequence)

end SequenceSet

/-! ## The texts of sequence sets -/

theorem isNumber_decimal {n : ℕ} (h : n < 2 ^ 32) : IsNumber (decimal n) n where
  ne_nil := decimal_ne_nil n
  digits _ := isAsciiDigit_of_mem_decimal
  value := ofDecimal_decimal n
  lt := h

theorem SetNumber.Fits.isBound {n : SetNumber} (h : n.Fits) : IsBound n.text n.bound := by
  cases n with
  | number n => exact .number (isNumber_decimal h)
  | greatest => exact .star

theorem SetItem.Fits.itemText {item : SetItem} (h : item.Fits) :
    ItemText item.text item.toSequence := by
  cases item with
  | single n =>
      cases n with
      | number n => exact .number (isNumber_decimal h)
      | greatest => exact .star
  | range first last => exact .range h.1.isBound h.2.isBound
  | saved => exact .saved

namespace SequenceSet

theorem setText_textFrom (item : SetItem) (items : List SetItem) (h : ∀ i ∈ item :: items, i.Fits) :
    SetText (textFrom item items) ((item :: items).map SetItem.toSequence) := by
  induction items generalizing item with
  | nil => exact .last (h item List.mem_cons_self).itemText
  | cons next items ih =>
      obtain ⟨hitem, hitems⟩ := List.forall_mem_cons.mp h
      exact .cons hitem.itemText (ih next hitems)

theorem Fits.setText {set : SequenceSet} (h : set.Fits) :
    SetText set.text (set.items.map SetItem.toSequence) :=
  setText_textFrom set.head set.tail h

theorem ofItems_items (set : SequenceSet) :
    .ofItems (set.items.map SetItem.toSequence) = set.toSequence := by
  rw [items, toSequence]
  cases set.tail with
  | nil => rfl
  | cons next items => rfl

theorem Valid.fits {set : SequenceSet} (h : set.Valid) : set.Fits := by
  intro item hitem
  exact (h item hitem).fits

end SequenceSet

/-- What the grammar calls a sequence set is read, item by item. -/
theorem parseSequenceSet_text {set : SequenceSet} (h : set.Valid) :
    parseSequenceSet set.text = .ok set.toSequence := by
  rw [h.fits.setText.parse, set.ofItems_items]

/-- **Items with commas between them are read as these items**, whatever numbers with 32 bits are in
them. -/
theorem parseSequenceSet_fits {set : SequenceSet} (h : set.Fits) :
    parseSequenceSet set.text = .ok set.toSequence := by
  rw [h.setText.parse, set.ofItems_items]

/-- `0,*:4294967295,$,*` -/
theorem parseSequenceSet_fits_all :
    parseSequenceSet (asBytes "0,*:4294967295,$,*") = .ok (.list
      [.number 0, .range none (some 4294967295), .savedSearch, .range none none]) := by
  let set : SequenceSet := {
    head := .single (.number 0)
    tail := [.range .greatest (.number 4294967295), .saved, .single .greatest] }
  have hfits : set.Fits := by
    intro item hitem
    simp only [set, SequenceSet.items, List.mem_cons, List.not_mem_nil, or_false] at hitem
    rcases hitem with rfl | rfl | rfl | rfl
    · exact Nat.two_pow_pos 32
    · exact ⟨trivial, Nat.lt_succ_self _⟩
    · trivial
    · trivial
  exact parseSequenceSet_fits hfits

end ImapToJmap
