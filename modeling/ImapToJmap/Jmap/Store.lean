import Mathlib

/-!
# The mail store behind the JMAP server

An account's emails as JMAP describes them: an email belongs to a set of mailboxes and carries a
set of keywords, both of the email and not of its copies.  `Email/set` patches emails or destroys
them; which of the requested changes the server carries out is its own decision, so every request
comes with the set of the ids it accepts.
-/

namespace ImapToJmap.Jmap

/-- An email object. -/
structure Email where
  mailboxIds : Finset String
  keywords : Finset String
deriving DecidableEq

/-- A property patch of `Email/set`. -/
inductive Patch where
  | mailboxId (id : String) (set : Bool)
  | keyword (name : String) (set : Bool)
  | keywords (names : List String)
deriving DecidableEq

/-- Put an element into a set or take it out. -/
def patchSet (s : Finset String) (x : String) (set : Bool) : Finset String :=
  if set then insert x s else s.erase x

/-- Carry out a patch. -/
def Patch.apply (email : Email) : Patch → Email
  | mailboxId id set => { email with mailboxIds := patchSet email.mailboxIds id set }
  | keyword name set => { email with keywords := patchSet email.keywords name set }
  | keywords names => { email with keywords := names.toFinset }

/-- The emails of an account by their ids. -/
abbrev Store := String → Option Email

namespace Store

/-- `Email/set` with updates: the same patches for every id the server accepts. -/
def update (s : Store) (ids : String → Bool) (patches : List Patch) : Store := fun id ↦
  if ids id then (s id).map fun email ↦ patches.foldl Patch.apply email else s id

/-- `Email/set` with destructions. -/
def destroy (s : Store) (ids : String → Bool) : Store := fun id ↦ if ids id then none else s id

/-- The email is in the mailbox. -/
def InMailbox (s : Store) (id mailbox : String) : Prop :=
  ∃ email, s id = some email ∧ mailbox ∈ email.mailboxIds

instance (s : Store) (id mailbox : String) : Decidable (s.InMailbox id mailbox) :=
  match h : s id with
  | some email => decidable_of_iff (mailbox ∈ email.mailboxIds) (by simp [InMailbox, h])
  | none => .isFalse (by simp [InMailbox, h])

/-- What a destruction leaves in a mailbox. -/
theorem inMailbox_destroy {s : Store} {ids : String → Bool} {id mailbox : String} :
    (s.destroy ids).InMailbox id mailbox ↔ s.InMailbox id mailbox ∧ ids id = false := by
  unfold InMailbox destroy
  cases ids id <;> simp

end Store

/-- The conditions of the `Email/query` requests the commands send, all of which have to hold. -/
structure Filter where
  hasKeyword : String
  inMailbox : Option String
  ids : Option (List String)

/-- The email matches the filter. -/
def Filter.test (f : Filter) (id : String) (email : Email) : Bool :=
  f.hasKeyword ∈ email.keywords && f.inMailbox.all (· ∈ email.mailboxIds) &&
    f.ids.all (id ∈ ·)

/-- The ids a query finds. -/
def Store.query (s : Store) (f : Filter) : String → Bool := fun id ↦ (s id).any (f.test id)

end ImapToJmap.Jmap
