import ImapToJmap.Core.Message
import ImapToJmap.Mailboxes.Account

/-!
# STATUS on the cache

What `SessionData::status` reads and writes while it holds the lock of the mailboxes
(`commands/status.rs`): the values that are cached are answered at once, the others are listed for
an update, and each update is entered into the cache with its answer.
-/

namespace ImapToJmap

open Jmap

/-- `Status` -/
inductive Status where
  | messages
  | uidNext
  | uidValidity
  | unseen
  | deleted
  | size
  | recent
  | highestModSeq
  | mailboxId
deriving DecidableEq

/-- `StatusItemType` -/
inductive StatusItemType where
  | number (value : ℕ)
  | string (value : String)
deriving DecidableEq

/-- A count, cut to 32 bits. -/
def StatusItemType.count (value : ℕ) : StatusItemType := .number (value % 2 ^ 32)

/-- The items of a response. -/
abbrev StatusItems := List (Status × StatusItemType)

namespace Account

/-- The key of a mailbox in `mailbox_data`; All Mail has the empty one. -/
def dataKey (mailbox : MailboxId) : String := mailbox.mailboxId.getD ""

/-- `entry(..).or_insert_with(Mailbox::default)` -/
def entry (account : Account) (mailbox : MailboxId) : Mailbox :=
  (account.mailboxData[dataKey mailbox]?).getD {}

/-- Write the entry of a mailbox. -/
def setEntry (account : Account) (mailbox : MailboxId) (data : Mailbox) : Account :=
  { account with mailboxData := account.mailboxData.insert (dataKey mailbox) data }

/-- The cached value of an item, if there is one. -/
def cached (account : Account) (mailbox : MailboxId) : Status → Option StatusItemType
  | .messages => (account.entry mailbox).totalMessages.map .count
  | .uidNext => (account.entry mailbox).uidNext.map .number
  | .uidValidity => (account.entry mailbox).uidValidity.map .number
  | .unseen => (account.entry mailbox).totalUnseen.map .count
  | .deleted => (account.entry mailbox).totalDeleted.map .count
  | .size => (account.entry mailbox).size.map .count
  | .highestModSeq => account.modseq.map .number
  | .mailboxId => some (.string (match mailbox.mailboxId with
      | some mailboxId => mailbox.accountId ++ "/" ++ mailboxId
      | none => mailbox.accountId))
  | .recent => some (.number 0)

/-- The items that are answered from the cache, and those that are to be updated.  The entry of the
mailbox is there afterwards. -/
def statusCached (account : Account) (mailbox : MailboxId) (items : List Status) :
    (StatusItems × List Status) × Account :=
  ((items.filterMap fun item ↦ (account.cached mailbox item).map fun value ↦ (item, value),
      items.filter fun item ↦ (account.cached mailbox item).isNone),
    account.setEntry mailbox (account.entry mailbox))

/-- UIDNEXT, UIDVALIDITY and MESSAGES after `synchronize_messages`. -/
def statusMessages (account : Account) (mailbox : MailboxId) (status : MailboxData)
    (update : List Status) : StatusItems × Account :=
  ((if .uidNext ∈ update then [(.uidNext, .number status.uidNext)] else []) ++
      (if .uidValidity ∈ update then [(.uidValidity, .number status.uidValidity)] else []) ++
      (if .messages ∈ update then [(.messages, .count status.totalMessages)] else []),
    account.setEntry mailbox { account.entry mailbox with
      totalMessages := some status.totalMessages
      uidNext := some status.uidNext
      uidValidity := some status.uidValidity })

/-- The next response to a query for a number of results. -/
def nextTotal : List (Except StatusResponse (Option ℕ)) →
    Except StatusResponse (ℕ × List (Except StatusResponse (Option ℕ)))
  | [] => .error ((StatusResponse.no "Invalid JMAP server response").withCode .contactAdmin)
  | .error err :: _ => .error err
  | .ok total :: rest => .ok (total.getD 0, rest)

/-- UNSEEN after its query. -/
def statusUnseen (account : Account) (mailbox : MailboxId) (update : List Status)
    (responses : List (Except StatusResponse (Option ℕ))) :
    Except StatusResponse (StatusItems × List (Except StatusResponse (Option ℕ)) × Account) :=
  if .unseen ∈ update then
    (nextTotal responses).map fun (total, rest) ↦
      ([(.unseen, .count total)], rest,
        account.setEntry mailbox { account.entry mailbox with totalUnseen := some total })
  else .ok ([], responses, account.setEntry mailbox (account.entry mailbox))

/-- DELETED after its query.  The source labels the number `Status::Unseen`. -/
def statusDeleted (account : Account) (mailbox : MailboxId) (update : List Status)
    (responses : List (Except StatusResponse (Option ℕ))) :
    Except StatusResponse (StatusItems × Account) :=
  if .deleted ∈ update then
    (nextTotal responses).map fun (total, _) ↦
      ([(.unseen, .count total)],
        account.setEntry mailbox { account.entry mailbox with totalDeleted := some total })
  else .ok ([], account)

/-- UNSEEN and DELETED after their queries, one response each. -/
def statusTotals (account : Account) (mailbox : MailboxId) (update : List Status)
    (responses : List (Except StatusResponse (Option ℕ))) :
    Except StatusResponse StatusItems × Account :=
  match account.statusUnseen mailbox update responses with
  | .error err => (.error err, account.setEntry mailbox (account.entry mailbox))
  | .ok (unseen, rest, account) =>
      match account.statusDeleted mailbox update rest with
      | .error err => (.error err, account)
      | .ok (deleted, account) => (.ok (unseen ++ deleted), account)

/-- SIZE after the sizes have been added up. -/
def statusSize (account : Account) (mailbox : MailboxId) (mailboxSize : ℕ) :
    StatusItems × Account :=
  ([(.size, .count mailboxSize)],
    account.setEntry mailbox { account.entry mailbox with size := some mailboxSize })

end Account

/-- Change the first account with an id, with a result; without such an account there is the result
`default`, and no change. -/
def onAccount {α : Type} (accountId : String) (default : α) (f : Account → α × Account) :
    List Account → α × List Account
  | [] => (default, [])
  | account :: accounts =>
      if account.accountId = accountId then
        let (a, account) := f account
        (a, account :: accounts)
      else
        let (a, accounts) := onAccount accountId default f accounts
        (a, account :: accounts)

end ImapToJmap
