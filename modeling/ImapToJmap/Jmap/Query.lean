import ImapToJmap.Jmap.Request
import ImapToJmap.Jmap.Store

/-!
# The meaning of a query

Which emails a filter of `Email/query` matches: the conditions one by one, and the three operators
over lists of filters.  A text is looked for in a part of the email, which the server does in its
own way.
-/

namespace ImapToJmap.Jmap

/-- A part of an email that a text is looked for in. -/
inductive Part where
  | text
  | «from»
  | to
  | cc
  | bcc
  | subject
  | body
  | header (name : String)

/-- An email with what a query asks about. -/
structure IndexedEmail extends Email where
  id : String
  threadId : String
  receivedAt : ℤ
  sentAt : ℤ
  size : ℕ
  /-- The text is found in the part; the empty one in every header that is there. -/
  contains : Part → String → Prop

/-- The condition holds of an email. -/
def Condition.Holds (email : IndexedEmail) : Condition → Prop
  | .inMailbox mailboxId => mailboxId ∈ email.mailboxIds
  | .id ids => email.id ∈ ids
  | .inThread threadId => email.threadId = threadId
  | .after date => date ≤ email.receivedAt
  | .before date => email.receivedAt < date
  | .sentAfter date => date ≤ email.sentAt
  | .sentBefore date => email.sentAt < date
  | .minSize size => size ≤ email.size
  | .maxSize size => email.size < size
  | .hasKeyword keyword => keyword ∈ email.keywords
  | .notKeyword keyword => keyword ∉ email.keywords
  | .text value => email.contains .text value
  | .from value => email.contains .from value
  | .to value => email.contains .to value
  | .cc value => email.contains .cc value
  | .bcc value => email.contains .bcc value
  | .subject value => email.contains .subject value
  | .body value => email.contains .body value
  | .header name value => email.contains (.header name) (value.getD "")

namespace Query

mutual

/-- The filter matches an email. -/
def Matches (email : IndexedEmail) : Query → Prop
  | .condition c => c.Holds email
  | .operator .and queries => AllMatch email queries
  | .operator .or queries => AnyMatch email queries
  | .operator .not queries => ¬AnyMatch email queries

def AllMatch (email : IndexedEmail) : List Query → Prop
  | [] => True
  | query :: queries => query.Matches email ∧ AllMatch email queries

def AnyMatch (email : IndexedEmail) : List Query → Prop
  | [] => False
  | query :: queries => query.Matches email ∨ AnyMatch email queries

end

variable {email : IndexedEmail} {queries : List Query}

theorem allMatch_iff : AllMatch email queries ↔ ∀ query ∈ queries, query.Matches email := by
  induction queries with
  | nil => exact iff_of_true (by rw [AllMatch]; trivial) (by simp)
  | cons query queries ih => rw [AllMatch, ih, List.forall_mem_cons]

theorem anyMatch_iff : AnyMatch email queries ↔ ∃ query ∈ queries, query.Matches email := by
  induction queries with
  | nil => exact iff_of_false (by rw [AnyMatch]; exact id) (by simp)
  | cons query queries ih => simp only [AnyMatch, ih, List.mem_cons, exists_eq_or_imp]

@[simp] theorem matches_condition {c : Condition} :
    (condition c).Matches email ↔ c.Holds email := by rw [Matches]

/-- All match. -/
@[simp] theorem matches_and :
    (operator .and queries).Matches email ↔ ∀ query ∈ queries, query.Matches email := by
  rw [Matches, allMatch_iff]

/-- At least one matches. -/
@[simp] theorem matches_or :
    (operator .or queries).Matches email ↔ ∃ query ∈ queries, query.Matches email := by
  rw [Matches, anyMatch_iff]

/-- None matches. -/
@[simp] theorem matches_not :
    (operator .not queries).Matches email ↔ ¬∃ query ∈ queries, query.Matches email := by
  rw [Matches, anyMatch_iff]

end Query

end ImapToJmap.Jmap
