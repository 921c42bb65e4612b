import ImapToJmap.Mailboxes.Section

/-!
# A JMAP server with mailboxes

A server with one account and its mailboxes, that executes each request as it comes.  Every change
takes a new state, and each mailbox carries the states it was created and last changed in, from
which `Mailbox/changes` is answered.  The theorems are about any server; this one runs their
examples.
-/

namespace ImapToJmap.Jmap

/-- A mailbox, with the states of its creation and its last change. -/
structure ServerMailbox where
  mailbox : MailboxObject
  created : ℕ
  updated : ℕ
deriving DecidableEq

structure MailboxServer where
  accountId : String
  mailboxes : List ServerMailbox
  destroyed : List (String × ℕ)
  state : ℕ
deriving DecidableEq

namespace MailboxServer

/-- A server with mailboxes at the top level, by their ids and names. -/
def ofNames (accountId : String) (names : List (String × String)) : MailboxServer where
  accountId := accountId
  mailboxes := names.map fun e ↦ ⟨⟨some e.1, some e.2, none, .none, false, 0, 0⟩, 0, 0⟩
  destroyed := []
  state := 0

/-- `Mailbox/changes` -/
def changes (s : MailboxServer) (sinceState : String) : Option Changes := do
  let since ← (List.range (s.state + 1)).find? fun n ↦ toString n = sinceState
  let ids (p : ServerMailbox → Bool) := (s.mailboxes.filter p).filterMap fun m ↦ m.mailbox.id
  pure {
    accountId := s.accountId
    newState := toString s.state
    created := ids fun m ↦ since < m.created
    updated := ids fun m ↦ m.created ≤ since && since < m.updated
    destroyed := (s.destroyed.filter fun e ↦ since < e.2).map Prod.fst
    updatedProperties := none }

/-- Create the mailboxes of a request one after the other, with the ids of those before. -/
def create (state : ℕ) : List MailboxCreate → List String → List ServerMailbox → List ServerMailbox
  | [], _, mailboxes => mailboxes
  | new :: rest, ids, mailboxes =>
      let id := "m" ++ toString state ++ "." ++ toString ids.length
      let parentId := match new.parent with
        | .id parentId => parentId
        | .created pos => ids[pos - 1]?
      create state rest (ids ++ [id])
        (mailboxes ++ [⟨⟨some id, some new.name, parentId, new.role, false, 0, 0⟩, state, state⟩])

/-- The id of a mailbox created by a request. -/
def createdId (state position : ℕ) : String := "m" ++ toString state ++ "." ++ toString position

/-- The error of a method on a mailbox that is not there. -/
def notFound : StatusResponse := .no "notFound"

/-- `Mailbox/set` -/
def set (s : MailboxServer) (new : List MailboxCreate) (update : Option MailboxUpdate) :
    MailboxSet × MailboxServer :=
  let state := s.state + 1
  let mailboxes := create state new [] s.mailboxes
  let isTarget (m : ServerMailbox) := update.any fun u ↦ m.mailbox.id = some u.id
  let found := mailboxes.any isTarget
  let mailboxes := mailboxes.map fun m ↦
    match update with
    | some u =>
        if isTarget m then
          { m with
            mailbox := { m.mailbox with
              name := some u.name
              parentId := match u.parent with
                | .id parentId => parentId
                | .created pos => some (createdId state (pos - 1)) }
            updated := state }
        else m
    | none => m
  ({
      newState := toString state
      created := fun position ↦
        if position < new.length then .ok (createdId state position) else .error "Not created."
      hasUpdated := found
      updated := if found then .ok () else .error notFound },
    { s with mailboxes := mailboxes, state := state })

/-- `Mailbox/set` with a destruction. -/
def destroy (s : MailboxServer) (id : String) : Except StatusResponse Unit × MailboxServer :=
  if s.mailboxes.any fun m ↦ m.mailbox.parentId = some id then
    (.error (.no "mailboxHasChild"), s)
  else if s.mailboxes.any fun m ↦ m.mailbox.id = some id then
    (.ok (), { s with
      mailboxes := s.mailboxes.filter fun m ↦ m.mailbox.id ≠ some id
      destroyed := (id, s.state + 1) :: s.destroyed
      state := s.state + 1 })
  else (.error notFound, s)

/-- A page of the listing of the mailboxes. -/
def page (s : MailboxServer) (position : ℕ) : MailboxPage where
  state := toString s.state
  list := (s.mailboxes.drop position).map ServerMailbox.mailbox
  total := some s.mailboxes.length

/-- The answers to requests; there are no emails. -/
def handle : (request : Jmap.Request) → MailboxServer → request.Return × MailboxServer
  | .isSessionUpdated, s => (true, s)
  | .refreshSession, s => (.ok (), s)
  | .session, s => ([(s.accountId, s.accountId)], s)
  | .changesMailbox accounts, s =>
      (.ok (accounts.map fun e ↦ if e.1 = s.accountId then s.changes e.2 else none), s)
  | .queryMailboxes accountId position, s =>
      (if accountId.getD s.accountId = s.accountId then some (s.page position) else none, s)
  | .setMailbox accountId new update, s =>
      if accountId.getD s.accountId = s.accountId then
        let (response, s) := s.set new update
        (.ok response, s)
      else (.error notFound, s)
  | .mailboxDestroy id _, s => s.destroy id
  | .mailboxSubscribe id isSubscribed, s =>
      let state := s.state + 1
      if s.mailboxes.any fun m ↦ m.mailbox.id = some id then
        (.ok (), { s with
          mailboxes := s.mailboxes.map fun m ↦
            if m.mailbox.id = some id then
              { m with
                mailbox := { m.mailbox with isSubscribed := isSubscribed }
                updated := state }
            else m
          state := state })
      else (.error notFound, s)
  | .queryEmail .., s => (.ok ⟨[], some 0⟩, s)
  | .queryThreads .., s => (.ok (⟨[], some 0⟩, []), s)
  | .querySizes .., s => (.ok ⟨[], some 0⟩, s)
  | .queryTotals _ filters, s => (.ok (filters.map fun _ ↦ .ok (some 0)), s)
  | .getEmail .., s => (.ok ("0", []), s)
  | .changesEmail .., s => (.error notFound, s)
  | .setEmail .., s => (.ok ("0", [], []), s)
  | .copyEmail .., s => (.ok ("0", [], []), s)
  | .destroyEmail .., s => (.ok "0", s)
  | .download _, s => (.error notFound, s)

end MailboxServer

end ImapToJmap.Jmap

namespace ImapToJmap

open Jmap

/-- A database that fails. -/
def noDatabase {S : Type} : (op : DbCall) → S → op.Return × S
  | .updateUids .., s => (none, s)
  | .deleteMailbox .., s => ((), s)
  | .jmapToImap .., s => (none, s)
  | .uids _, s => (none, s)
  | .deleteIds .., s => ((), s)
  | .stateToModseq .., s => (none, s)
  | .modseqToState .., s => (none, s)

/-- The mailbox server, without a database. -/
def mailboxOutside : Outside MailboxServer where
  jmap := MailboxServer.handle
  database := noDatabase

end ImapToJmap
