import ImapToJmap.Jmap.Request
import ImapToJmap.Protocol.Basic

/-!
# Search keys

The filters of `protocol/search.rs`, as the parser leaves them and `imap_filter_to_jmap` finds them.
A filter is a tree: its inner nodes are operators, its leaves are the keys of the command, and
`leaves` reads them off in the order of the command.
-/

namespace ImapToJmap.Search

open Jmap (Operator)

/-- `ModSeqEntry` -/
inductive ModSeqEntry where
  | shared (flag : Flag)
  | priv (flag : Flag)
  | all (flag : Flag)
  | none
deriving DecidableEq

/-- `search::Filter` -/
inductive Filter where
  | sequence (sequence : Sequence) (uidFilter : Bool)
  | all
  | answered
  | bcc (text : String)
  | before (date : ℤ)
  | body (text : String)
  | cc (text : String)
  | deleted
  | draft
  | flagged
  | «from» (text : String)
  | header (header value : String)
  | keyword (keyword : Flag)
  | larger (size : ℕ)
  | on (date : ℤ)
  | seen
  | sentBefore (date : ℤ)
  | sentOn (date : ℤ)
  | sentSince (date : ℤ)
  | since (date : ℤ)
  | smaller (size : ℕ)
  | subject (text : String)
  | text (text : String)
  | to (text : String)
  | unanswered
  | undeleted
  | undraft
  | unflagged
  | unkeyword (keyword : Flag)
  | unseen
  | operator (operator : Operator) (filters : List Filter)
  | recent
  | new
  | old
  | older (seconds : ℕ)
  | younger (seconds : ℕ)
  | modSeq (modseq : ℕ) (entry : ModSeqEntry)
  | emailId (id : String)
  | threadId (id : String)

namespace Filter

mutual

/-- The keys of a filter, in the order of the command. -/
def leaves : Filter → List Filter
  | operator _ filters => leavesOf filters
  | filter => [filter]

def leavesOf : List Filter → List Filter
  | [] => []
  | filter :: filters => filter.leaves ++ leavesOf filters

end

@[simp] theorem leavesOf_nil : leavesOf [] = [] := by rw [leavesOf]

@[simp] theorem leavesOf_cons (filter : Filter) (filters : List Filter) :
    leavesOf (filter :: filters) = filter.leaves ++ leavesOf filters := by rw [leavesOf]

@[simp] theorem leaves_operator (o : Operator) (filters : List Filter) :
    (operator o filters).leaves = leavesOf filters := by rw [leaves]

@[simp] theorem leavesOf_append (filters filters' : List Filter) :
    leavesOf (filters ++ filters') = leavesOf filters ++ leavesOf filters' := by
  induction filters with
  | nil => rw [leavesOf_nil, List.nil_append, List.nil_append]
  | cons filter filters ih =>
      rw [List.cons_append, leavesOf_cons, leavesOf_cons, ih, List.append_assoc]

/-- The filter is a key. -/
def IsKey (filter : Filter) : Prop := ∀ o filters, filter ≠ operator o filters

theorem IsKey.leaves {filter : Filter} (h : filter.IsKey) : filter.leaves = [filter] := by
  cases filter
  case operator o filters => exact absurd rfl (h o filters)
  all_goals rfl

/-- The number of a MODSEQ key. -/
def modseq? : Filter → Option ℕ
  | modSeq modseq _ => some modseq
  | _ => none

end Filter

end ImapToJmap.Search
