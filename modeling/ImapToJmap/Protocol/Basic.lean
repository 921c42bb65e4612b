import Mathlib

/-!
# Flags and sequence sets

The parts of `protocol/mod.rs` the commands work with: the IMAP flags with their JMAP keywords, and
sequence sets as the parser leaves them.
-/

namespace ImapToJmap

/-- `Flag` -/
inductive Flag where
  | seen
  | draft
  | flagged
  | answered
  | recent
  | important
  | phishing
  | junk
  | notJunk
  | deleted
  | forwarded
  | mdnSent
  | keyword (name : String)
deriving DecidableEq

/-- `Flag::to_jmap` -/
def Flag.toJmap : Flag → String
  | seen => "$seen"
  | draft => "$draft"
  | flagged => "$flagged"
  | answered => "$answered"
  | recent => "$recent"
  | important => "$important"
  | phishing => "$phishing"
  | junk => "$junk"
  | notJunk => "$notjunk"
  | deleted => "$deleted"
  | forwarded => "$forwarded"
  | mdnSent => "$mdnsent"
  | keyword name => name

/-- `store::Operation` -/
inductive Operation where
  | set
  | add
  | clear
deriving DecidableEq

/-- `Sequence`; an end of a range that is left out is `*`. -/
inductive Sequence where
  | number (value : ℕ)
  | range (first last : Option ℕ)
  | savedSearch
  | list (items : List Sequence)

namespace Sequence

mutual

/-- `Sequence::contains` -/
def contains (value maxValue : ℕ) : Sequence → Bool
  | number n => n == value
  | range (some first) (some last) =>
      first ≤ value && value ≤ last || last ≤ value && value ≤ first
  | range (some bound) none | range none (some bound) =>
      bound ≤ value && value ≤ maxValue || maxValue ≤ value && value ≤ bound
  | range none none => value == maxValue
  | savedSearch => false
  | list items => anyContains value maxValue items

def anyContains (value maxValue : ℕ) : List Sequence → Bool
  | [] => false
  | item :: items => item.contains value maxValue || anyContains value maxValue items

end

mutual

/-- `Sequence::is_saved_search` -/
def isSavedSearch : Sequence → Bool
  | savedSearch => true
  | list items => anySavedSearch items
  | _ => false

def anySavedSearch : List Sequence → Bool
  | [] => false
  | item :: items => item.isSavedSearch || anySavedSearch items

end

/-- The numbers of a range, `*` resolved. -/
def expandRange (maxValue : ℕ) (first last : Option ℕ) : Finset ℕ :=
  Finset.uIcc (first.getD maxValue) (last.getD maxValue)

/-- The items of a list that `Sequence::expand` looks at. -/
def expandItem (maxValue : ℕ) : Sequence → Finset ℕ
  | number n => {n}
  | range first last => expandRange maxValue first last
  | _ => ∅

/-- `Sequence::expand` -/
def expand (maxValue : ℕ) : Sequence → Finset ℕ
  | number n => {n}
  | list items => (items.map (expandItem maxValue)).foldl (· ∪ ·) ∅
  | range first last => expandRange maxValue first last
  | savedSearch => ∅

end Sequence

end ImapToJmap
