import ImapToJmap.Commands.Fetch

/-!
# SELECT with QRESYNC

`Session::handle_select`.  A client that comes back gives the modseq it has last seen, and SELECT
sends it what has changed since, by a call of `fetch`.  That call returns a status too, and SELECT
drops it.
-/

namespace ImapToJmap

/-- `select::QResync` -/
structure QResync where
  uidValidity : ℕ
  modseq : ℕ
  knownUids : Option Sequence
  seqMatch : Option (Sequence × Sequence)

/-- `select::Arguments` -/
structure SelectArguments where
  mailboxName : String
  condstore : Bool
  qresync : Option QResync

/-- `select::Response`; the counts of recent and unseen messages are always zero. -/
structure SelectResponse where
  mailboxName : String
  totalMessages : ℕ
  uidValidity : ℕ
  uidNext : ℕ
  closedPrevious : Bool
  isRev2 : Bool
  highestModseq : Option ℕ
  mailboxId : String
deriving DecidableEq

/-- How SELECT ends. -/
inductive SelectStatus where
  | completed (response : SelectResponse)
  | /-- The mailboxes could not be brought up to date. -/
    mailboxes
  | /-- `Mailbox does not exist.` -/
    nonExistent
  | /-- The messages, or the state of the account, could not be had. -/
    server
  | databaseFailure
  | /-- `QRESYNC is not enabled.` -/
    qresyncRequired
  | /-- Neither set of QRESYNC is given, and the code unwraps the second. -/
    panics
deriving DecidableEq

/-- The fields of the session that SELECT reads. -/
structure SelectSession where
  isCondstore : Bool
  isQresync : Bool
  isMailboxSelected : Bool
  isRev2 : Bool

/-- What SELECT asks for on its way. -/
structure SelectContext where
  synchronizeMailboxes : Bool
  getMailboxByName : String → Option MailboxId
  synchronizeMessages : MailboxId → Option MailboxData
  getJmapState : String → Option String
  db : String → AccountDb

/-- What SELECT does. -/
structure SelectOutcome where
  /-- The call of `fetch`, if it comes to it. -/
  fetched : Option FetchStart
  status : SelectStatus

namespace SelectContext

/-- `Session::handle_select` up to QRESYNC. -/
def openMailbox (context : SelectContext) (session : SelectSession) (arguments : SelectArguments)
    (isSelect : Bool) : Except SelectStatus (SelectedMailbox × Option ℕ) :=
  if !context.synchronizeMailboxes then .error .mailboxes
  else
    match context.getMailboxByName arguments.mailboxName with
    | none => .error .nonExistent
    | some mailbox =>
        match context.synchronizeMessages mailbox with
        | none => .error .server
        | some state =>
            match context.getJmapState mailbox.accountId with
            | none => .error .server
            | some lastState =>
                let m : SelectedMailbox := ⟨mailbox, { state with lastState }, .none, isSelect⟩
                if session.isCondstore || arguments.condstore then
                  match (context.db mailbox.accountId).stateToModseq lastState with
                  | none => .error .databaseFailure
                  | some highestModseq => .ok (m, some highestModseq)
                else .ok (m, none)

/-- The response of a SELECT that goes through. -/
def response (session : SelectSession) (arguments : SelectArguments) (m : SelectedMailbox)
    (highestModseq : Option ℕ) : SelectResponse where
  mailboxName := arguments.mailboxName
  totalMessages := m.state.imapUids.length
  uidValidity := m.state.uidValidity
  uidNext := m.state.uidNext
  closedPrevious := session.isMailboxSelected
  isRev2 := session.isRev2
  highestModseq := highestModseq
  mailboxId :=
    match m.id.mailboxId with
    | some mailboxId => m.id.accountId ++ "-" ++ mailboxId
    | none => m.id.accountId

/-- The sequence set of QRESYNC. -/
def knownMessages (qresync : QResync) : Option Sequence :=
  qresync.knownUids.or (qresync.seqMatch.map Prod.snd)

/-- `Session::handle_select`, the part about QRESYNC. -/
def resynchronize (db : AccountDb) (session : SelectSession) (qresync : QResync)
    (m : SelectedMailbox)
    (completed : SelectStatus) (changesEmail : String → Option Jmap.Changes) : SelectOutcome :=
  if !session.isQresync then ⟨none, .qresyncRequired⟩
  else if qresync.uidValidity ≠ m.state.uidValidity then ⟨none, completed⟩
  else
    match knownMessages qresync with
    | none => ⟨none, .panics⟩
    | some sequenceSet =>
        ⟨some (fetch db m ⟨sequenceSet, some qresync.modseq, true⟩ true true false changesEmail),
          completed⟩

/-- `Session::handle_select` -/
def handleSelect (context : SelectContext) (session : SelectSession) (arguments : SelectArguments)
    (isSelect : Bool) (changesEmail : String → Option Jmap.Changes) : SelectOutcome :=
  match context.openMailbox session arguments isSelect with
  | .error status => ⟨none, status⟩
  | .ok (m, highestModseq) =>
      let completed := SelectStatus.completed (response session arguments m highestModseq)
      match arguments.qresync with
      | none => ⟨none, completed⟩
      | some qresync =>
          resynchronize (context.db m.id.accountId) session qresync m completed changesEmail

end SelectContext

/-- What the client is sent of the call of `fetch`: not its status. -/
def SelectOutcome.responses (outcome : SelectOutcome) : List FetchResponse :=
  outcome.fetched.elim [] FetchStart.written

/-- No SELECT says that a modseq does not exist. -/
theorem SelectOutcome.not_refuses (outcome : SelectOutcome) (modseq : ℕ) :
    ¬ Refuses modseq outcome.responses := by
  rintro ⟨hmem, -⟩
  rw [responses] at hmem
  cases hfetched : outcome.fetched with
  | none => simp [hfetched] at hmem
  | some start =>
      rw [hfetched, Option.elim, FetchStart.written] at hmem
      cases hnext : start.next <;> simp [hnext] at hmem

namespace SelectContext

variable {db : AccountDb} {session : SelectSession} {qresync : QResync} {m : SelectedMailbox}
variable {completed : SelectStatus}

/-- SELECT gets as far as the modseq of QRESYNC. -/
def Reaches (session : SelectSession) (qresync : QResync) (m : SelectedMailbox) : Prop :=
  session.isQresync = true ∧ qresync.uidValidity = m.state.uidValidity ∧
    ∃ sequenceSet ids, knownMessages qresync = some sequenceSet ∧
      m.sequenceToJmap sequenceSet true = .ok ids

/-- From there on it is a FETCH. -/
theorem resynchronize_of_reaches (h : Reaches session qresync m) :
    ∃ sequenceSet, FetchReaches m ⟨sequenceSet, some qresync.modseq, true⟩ true true ∧
      ∀ changesEmail, resynchronize db session qresync m completed changesEmail =
        ⟨some (fetch db m ⟨sequenceSet, some qresync.modseq, true⟩ true true false changesEmail),
          completed⟩ := by
  obtain ⟨hq, hvalidity, sequenceSet, ids, hset, hids⟩ := h
  refine ⟨sequenceSet, ⟨fun _ ↦ ⟨rfl, rfl⟩, ids, hids⟩, fun changesEmail ↦ ?_⟩
  rw [resynchronize, if_neg (by simp [hq]), if_neg (by simpa using hvalidity), hset]

/-- Before, what the server says does not matter. -/
theorem resynchronize_of_not_reaches (h : ¬ Reaches session qresync m) :
    ∃ outcome, ∀ changesEmail,
      resynchronize db session qresync m completed changesEmail = outcome := by
  by_cases hq : session.isQresync = true
  · by_cases hvalidity : qresync.uidValidity = m.state.uidValidity
    · have hstart : ∀ changesEmail, resynchronize db session qresync m completed changesEmail =
          match knownMessages qresync with
          | none => ⟨none, .panics⟩
          | some sequenceSet =>
              ⟨some (fetch db m ⟨sequenceSet, some qresync.modseq,
                true⟩ true true false changesEmail),
                completed⟩ := by
        intro changesEmail
        rw [resynchronize, if_neg (by simp [hq]), if_neg (by simpa using hvalidity)]
      cases hset : knownMessages qresync with
      | none => exact ⟨_, fun changesEmail ↦ by rw [hstart, hset]⟩
      | some sequenceSet =>
          have hno : ¬ FetchReaches m ⟨sequenceSet, some qresync.modseq, true⟩ true true := by
            rintro ⟨-, ids, hids⟩
            exact h ⟨hq, hvalidity, sequenceSet, ids, hset, hids⟩
          obtain ⟨status, -, hfetch⟩ : ∃ status, (∀ n, status ≠ .unknownModseq n) ∧ ∀ changesEmail,
              fetch db m ⟨sequenceSet, some qresync.modseq, true⟩ true true false changesEmail =
                ⟨[], .error status⟩ := fetch_of_not_reaches hno
          refine ⟨⟨some ⟨[], .error status⟩, completed⟩, fun changesEmail ↦ ?_⟩
          rw [hstart, hset]
          dsimp only
          rw [hfetch]
    · refine ⟨⟨none, completed⟩, fun changesEmail ↦ ?_⟩
      rw [resynchronize, if_neg (by simp [hq]), if_pos (by simpa using hvalidity)]
  · refine ⟨⟨none, .qresyncRequired⟩, fun changesEmail ↦ ?_⟩
    rw [resynchronize, if_pos (by simpa using hq)]

/-- SELECT gets as far as QRESYNC, in a mailbox with this UIDVALIDITY. -/
def Opens (context : SelectContext) (session : SelectSession) (arguments : SelectArguments)
    (uidValidity : ℕ) : Prop :=
  context.synchronizeMailboxes = true ∧
    ∃ mailbox state lastState, context.getMailboxByName arguments.mailboxName = some mailbox ∧
      context.synchronizeMessages mailbox = some state ∧
      context.getJmapState mailbox.accountId = some lastState ∧
      ((session.isCondstore || arguments.condstore) = true →
        ((context.db mailbox.accountId).stateToModseq lastState).isSome = true) ∧
      state.uidValidity = uidValidity

variable {context : SelectContext} {arguments : SelectArguments} {isSelect : Bool}

theorem opens_iff {uidValidity : ℕ} : context.Opens session arguments uidValidity ↔
    ∃ m highestModseq, context.openMailbox session arguments isSelect = .ok (m, highestModseq) ∧
      m.state.uidValidity = uidValidity := by
  rw [Opens, openMailbox]
  cases hmailboxes : context.synchronizeMailboxes with
  | false => exact ⟨fun h ↦ (nomatch h.1), fun ⟨_, _, h, _⟩ ↦ nomatch h⟩
  | true =>
      rw [if_neg (by decide)]
      constructor
      · rintro ⟨-, mailbox, state, lastState, hname, hmessages, hstate, hmodseq, rfl⟩
        simp only [hname, hmessages, hstate]
        split
        · rename_i hcondstore
          obtain ⟨modseq, hsome⟩ := Option.isSome_iff_exists.mp (hmodseq hcondstore)
          rw [hsome]
          exact ⟨_, _, rfl, rfl⟩
        · exact ⟨_, _, rfl, rfl⟩
      · rintro ⟨m, highestModseq, hopen, rfl⟩
        refine ⟨rfl, ?_⟩
        split at hopen
        · cases hopen
        · rename_i mailbox hname
          split at hopen
          · cases hopen
          · rename_i state hmessages
            split at hopen
            · cases hopen
            · rename_i lastState hstate
              refine ⟨mailbox, state, lastState, hname, hmessages, hstate, ?_⟩
              split at hopen
              · split at hopen
                · cases hopen
                · rename_i modseq hmodseq
                  cases hopen
                  exact ⟨fun _ ↦ Option.isSome_iff_exists.mpr ⟨modseq, hmodseq⟩, rfl⟩
              · rename_i hcondstore
                cases hopen
                exact ⟨fun h ↦ absurd h hcondstore, rfl⟩

theorem knownMessages_eq_none_iff :
    knownMessages qresync = none ↔ qresync.knownUids = none ∧ qresync.seqMatch = none := by
  rw [knownMessages, Option.or_eq_none_iff, Option.map_eq_none_iff]

theorem resynchronize_panics_iff {changesEmail : String → Option Jmap.Changes}
    (hcompleted : completed ≠ .panics) :
    (resynchronize db session qresync m completed changesEmail).status = .panics ↔
      session.isQresync = true ∧ m.state.uidValidity = qresync.uidValidity ∧
        qresync.knownUids = none ∧ qresync.seqMatch = none := by
  rw [← knownMessages_eq_none_iff, resynchronize]
  split
  · rename_i hq
    exact ⟨nofun, fun h ↦ absurd h.1 (by simpa using hq)⟩
  · rename_i hq
    split
    · rename_i hne
      exact ⟨fun h ↦ absurd h hcompleted, fun h ↦ absurd h.2.1.symm hne⟩
    · rename_i heq
      cases hknown : knownMessages qresync with
      | none =>
          refine iff_of_true rfl ⟨by simpa using hq, ?_, rfl⟩
          exact (not_not.mp heq).symm
      | some sequenceSet => exact ⟨fun h ↦ absurd h hcompleted, fun h ↦ nomatch h.2.2⟩

theorem openMailbox_ne_panics : context.openMailbox session arguments isSelect ≠
    .error .panics := by
  unfold openMailbox
  split
  · nofun
  · split
    · nofun
    · split
      · nofun
      · split
        · nofun
        · dsimp only
          split
          · split <;> nofun
          · nofun

/-- **SELECT unwraps what is not there** when QRESYNC is enabled, has neither set, and names the
UIDVALIDITY of the mailbox. -/
theorem handleSelect_panics_iff {changesEmail : String → Option Jmap.Changes} :
    (context.handleSelect session arguments isSelect changesEmail).status = .panics ↔
      ∃ qresync, arguments.qresync = some qresync ∧ qresync.knownUids = none ∧
        qresync.seqMatch = none ∧ session.isQresync = true ∧
        context.Opens session arguments qresync.uidValidity := by
  rw [handleSelect]
  cases hopen : context.openMailbox session arguments isSelect with
  | error status =>
      refine ⟨fun h ↦ ?_, ?_⟩
      · have hstatus : status = .panics := h
        exact absurd (hopen.trans (congrArg Except.error hstatus)) openMailbox_ne_panics
      · rintro ⟨qresync, -, -, -, -, hopens⟩
        obtain ⟨m, highestModseq, hok, -⟩ := opens_iff.mp hopens
        rw [hopen] at hok
        cases hok
  | ok opened =>
      obtain ⟨m, highestModseq⟩ := opened
      have hcompleted : SelectStatus.completed (response session arguments m highestModseq) ≠
        .panics :=
        nofun
      cases hqresync : arguments.qresync with
      | none => exact ⟨fun h ↦ absurd h hcompleted, fun ⟨_, h, _⟩ ↦ nomatch h⟩
      | some qresync =>
          dsimp only
          rw [resynchronize_panics_iff hcompleted]
          constructor
          · rintro ⟨hq, hvalidity, huids, hmatch⟩
            exact ⟨qresync, rfl, huids, hmatch, hq,
              opens_iff.mpr ⟨m, highestModseq, hopen, hvalidity⟩⟩
          · rintro ⟨_, ⟨⟩, huids, hmatch, hq, hopens⟩
            obtain ⟨m', highestModseq', hok, hvalidity⟩ := opens_iff.mp hopens
            rw [hopen] at hok
            cases hok
            exact ⟨hq, hvalidity, huids, hmatch⟩

end SelectContext

end ImapToJmap
