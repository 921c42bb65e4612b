import ImapToJmap.Core.View
import ImapToJmap.Jmap.Request

/-!
# FETCH CHANGEDSINCE

The first half of `SessionData::fetch`: which messages are fetched, and what is written before.
SELECT calls it too, to bring a client up to date that gives a modseq with QRESYNC; it does not look
at the status that comes back.
-/

namespace ImapToJmap

/-- What the commands ask the database of an account for; `none` if the call fails. -/
structure AccountDb where
  modseqToState : ℕ → Option (Option String)
  stateToModseq : String → Option ℕ
  /-- `jmap_to_imap` with `OnlyIncludeDeleted`. -/
  deletedUids : List String → Option (List ℕ)

/-- `fetch::Arguments`; the attributes are read by the caller and by the second half. -/
structure FetchArguments where
  sequenceSet : Sequence
  changedSince : Option ℕ
  includeVanished : Bool

/-- The statuses that the first half of `fetch` returns. -/
inductive FetchStatus where
  | completed
  | /-- `Enable QRESYNC first to use the VANISHED parameter.` -/
    qresyncRequired
  | /-- `VANISHED parameter is only available for UID FETCH.` -/
    uidRequired
  | sequence (error : SequenceError)
  | /-- `MODSEQ '{}' does not exist.` -/
    unknownModseq (modseq : ℕ)
  | databaseFailure
  | /-- The request for the changes has failed. -/
    server
deriving DecidableEq

/-- What is written before the messages. -/
inductive FetchNotice where
  | /-- `OK [HIGHESTMODSEQ n] Highest Modseq` -/
    highestModseq (modseq : ℕ)
  | /-- `VANISHED (EARLIER)` -/
    vanished (uids : List ℕ)
deriving DecidableEq

/-- How far the first half of `fetch` gets: a status, or the messages to be fetched. -/
structure FetchStart where
  notices : List FetchNotice := []
  next : Except FetchStatus IdMap

/-- The messages with changes: each is moved from the first map to the second. -/
def moveChanged : List String → IdMap → IdMap → IdMap
  | [], _, changedIds => changedIds
  | jmapId :: rest, ids, changedIds =>
      match ids.get? jmapId with
      | some imapId =>
          moveChanged rest (ids.filter fun e ↦ e.1 ≠ jmapId) (changedIds.insert jmapId imapId)
      | none => moveChanged rest ids changedIds

/-- The VANISHED of a `fetch` with that parameter. -/
def vanishedNotices (db : AccountDb) (changes : Jmap.Changes) : List FetchNotice :=
  if changes.destroyed = [] ∧ changes.updated = [] then []
  else
    match db.deletedUids (changes.destroyed ++ changes.updated) with
    | some [] => []
    | some vanished => [.vanished (sortNumbers vanished)]
    | none => []

/-- `SessionData::fetch`, once the changes since the modseq are known. -/
def fetchChanged (db : AccountDb) (arguments : FetchArguments) (enabledCondstore : Bool)
    (ids : IdMap)
    (changes : Jmap.Changes) : FetchStart :=
  match if enabledCondstore then (db.stateToModseq changes.newState).map some else some none with
  | none => ⟨[], .error .databaseFailure⟩
  | some highest =>
      let notices := (highest.map FetchNotice.highestModseq).toList ++
        if arguments.includeVanished then vanishedNotices db changes else []
      match moveChanged (changes.created ++ changes.updated) ids [] with
      | [] => ⟨notices, .error .completed⟩
      | changedIds => ⟨notices, .ok changedIds⟩

/-- `SessionData::fetch` up to the request for the messages.  `changesEmail` asks the server for the
changes since a state. -/
def fetch (db : AccountDb) (m : SelectedMailbox) (arguments : FetchArguments)
    (isUid isQresync enabledCondstore : Bool) (changesEmail : String → Option Jmap.Changes) :
    FetchStart :=
  if arguments.includeVanished && !isQresync then ⟨[], .error .qresyncRequired⟩
  else if arguments.includeVanished && !isUid then ⟨[], .error .uidRequired⟩
  else
    match m.sequenceToJmap arguments.sequenceSet isUid with
    | .error e => ⟨[], .error (.sequence e)⟩
    | .ok ids =>
        match arguments.changedSince with
        | none => ⟨[], .ok ids⟩
        | some changedSince =>
            match db.modseqToState (changedSince % 2 ^ 32) with
            | none => ⟨[], .error .databaseFailure⟩
            | some none => ⟨[], .error (.unknownModseq changedSince)⟩
            | some (some state) =>
                match changesEmail state with
                | none => ⟨[], .error .server⟩
                | some changes => fetchChanged db arguments enabledCondstore ids changes

/-- What goes to the client for a `fetch`: notices, messages, and a status. -/
inductive FetchResponse where
  | notice (notice : FetchNotice)
  | messages (ids : IdMap)
  | status (status : FetchStatus)

/-- What `fetch` writes itself. -/
def FetchStart.written (start : FetchStart) : List FetchResponse :=
  start.notices.map .notice ++
    match start.next with
    | .ok ids => [.messages ids]
    | .error _ => []

/-- `Session::handle_fetch`: the status is written as well; that of the second half is not
modelled. -/
def FetchStart.responses (start : FetchStart) : List FetchResponse :=
  start.written ++
    match start.next with
    | .ok _ => []
    | .error status => [.status status]

/-- The client is told that the modseq does not exist, and of no message. -/
def Refuses (modseq : ℕ) (responses : List FetchResponse) : Prop :=
  .status (.unknownModseq modseq) ∈ responses ∧ ∀ r ∈ responses, ∃ status, r = .status status

/-! ## How far it gets -/

section Reaches

variable {db : AccountDb} {m : SelectedMailbox} {arguments : FetchArguments}
variable {isUid isQresync enabledCondstore : Bool} {modseq : ℕ}

/-- The command gets as far as the modseq. -/
def FetchReaches (m : SelectedMailbox) (arguments : FetchArguments) (isUid isQresync : Bool) :
    Prop :=
  (arguments.includeVanished = true → isQresync = true ∧ isUid = true) ∧
    ∃ ids, m.sequenceToJmap arguments.sequenceSet isUid = .ok ids

/-- From there on the modseq decides. -/
theorem fetch_of_reaches (h : FetchReaches m arguments isUid isQresync)
    (hsince : arguments.changedSince = some modseq) :
    ∃ ids, ∀ changesEmail, fetch db m arguments isUid isQresync enabledCondstore changesEmail =
      match db.modseqToState (modseq % 2 ^ 32) with
      | none => ⟨[], .error .databaseFailure⟩
      | some none => ⟨[], .error (.unknownModseq modseq)⟩
      | some (some state) =>
          match changesEmail state with
          | none => ⟨[], .error .server⟩
          | some changes => fetchChanged db arguments enabledCondstore ids changes := by
  obtain ⟨hvanished, ids, hids⟩ := h
  refine ⟨ids, fun changesEmail ↦ ?_⟩
  have h₁ : ¬ (arguments.includeVanished && !isQresync) = true := by
    intro hc
    obtain ⟨hv, hq⟩ := Bool.and_eq_true_iff.mp hc
    rw [(hvanished hv).1] at hq
    exact absurd hq (by decide)
  have h₂ : ¬ (arguments.includeVanished && !isUid) = true := by
    intro hc
    obtain ⟨hv, hu⟩ := Bool.and_eq_true_iff.mp hc
    rw [(hvanished hv).2] at hu
    exact absurd hu (by decide)
  rw [fetch, if_neg h₁, if_neg h₂, hids]
  dsimp only
  rw [hsince]

/-- Before, it ends in a status of its own. -/
theorem fetch_of_not_reaches (h : ¬ FetchReaches m arguments isUid isQresync) :
    ∃ status, (∀ n, status ≠ .unknownModseq n) ∧ ∀ changesEmail,
      fetch db m arguments isUid isQresync enabledCondstore changesEmail = ⟨[], .error status⟩ := by
  by_cases h₁ : (arguments.includeVanished && !isQresync) = true
  · exact ⟨.qresyncRequired, by simp, fun _ ↦ by rw [fetch, if_pos h₁]⟩
  · by_cases h₂ : (arguments.includeVanished && !isUid) = true
    · exact ⟨.uidRequired, by simp, fun _ ↦ by rw [fetch, if_neg h₁, if_pos h₂]⟩
    · cases hids : m.sequenceToJmap arguments.sequenceSet isUid with
      | error e =>
          refine ⟨.sequence e, by simp, fun _ ↦ ?_⟩
          rw [fetch, if_neg h₁, if_neg h₂, hids]
      | ok ids =>
          exfalso
          refine h ⟨fun hv ↦ ?_, ids, hids⟩
          rw [hv, Bool.true_and, Bool.not_eq_true', Bool.not_eq_false] at h₁ h₂
          exact ⟨h₁, h₂⟩

/-- The changes since a state are known, and `fetch` does not say that the server has failed. -/
theorem fetchChanged_next_ne_server (ids : IdMap) (changes : Jmap.Changes) :
    (fetchChanged db arguments enabledCondstore ids changes).next ≠ .error .server := by
  rw [fetchChanged]
  split
  · simp
  · dsimp only
    split <;> simp

end Reaches

end ImapToJmap
