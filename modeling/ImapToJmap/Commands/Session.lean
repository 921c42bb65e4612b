import ImapToJmap.Commands.Linked

/-!
# A session and its client

One session with a selected mailbox, whose commands run one at a time, while other sessions work on
the UID database between them.  The client starts from the EXISTS of SELECT and follows the untagged
responses.

`client_in_step`: as long as nobody resets the selected mailbox's UIDs and no counter is used up,
the client's list and the server's view agree after every command, and the view is in increasing
order of the UIDs.

The first condition is one the code does not keep.  A login purges the UID records of every mailbox
that is missing from the list of mailboxes it has just fetched, and that list may be older than the
mailbox.  The numbering then starts again from one, but a session that has the mailbox selected
never looks at the UID validity of a snapshot, and appends the new numbers to its view
(`purge_breaks_order`).
-/

namespace ImapToJmap

open SelectedMailbox

/-- A session with a selected mailbox, the database it shares with the other sessions, and what its
client knows. -/
structure Session where
  db : Db
  selected : SelectedMailbox
  isQresync : Bool
  client : Client

namespace Session

/-! ## Commands -/

/-- `Session::handle_select`: the first view is a snapshot, and the client is told its size. -/
def select (db : Db) (mailbox : MailboxId) (isQresync isSelect : Bool) (clock : Clock)
    (listing : List String) : Option Session :=
  match (Db.updateUids mailbox clock listing).run db with
  | (some state, db) => some {
      db := db
      selected := ⟨mailbox, state, .none, isSelect⟩
      isQresync := isQresync
      client := Client.receive [] (.exist state.imapUids.length) }
  | (none, _) => none

/-- Edit the view and write about it. -/
def edit (s : Session) (step : ViewStep) : Session :=
  { s with
    selected := s.selected.apply step
    client := s.client.receiveAll (s.selected.responses s.isQresync step) }

/-- `SessionData::synchronize_messages`, given the listing the server returns. -/
def synchronizeMessages (s : Session) (clock : Clock) (listing : List String) :
    Option MailboxData × Session :=
  let (snapshot, db) := (Db.updateUids s.selected.id clock listing).run s.db
  (snapshot, { s with db := db })

/-- Take a snapshot and synchronize the view with it. -/
def refresh (s : Session) (clock : Clock) (listing : List String) (removeMissing : Bool) :
    Session :=
  match s.synchronizeMessages clock listing with
  | (some snapshot, s) => s.edit (.synchronize snapshot removeMissing)
  | (none, s) => s

/-- What happens in and around a session.  The emails a search finds, the listing of the mailbox and
the emails a copy reports are what the JMAP server returns. -/
inductive Command where
  | /-- A call on the UID database by another session. -/
    other (op : UidOp)
  | /-- `Core::uids`, for STATUS, here or in another session. -/
    uids (mailbox : MailboxId) (now : ℕ)
  | /-- FETCH of the UIDs at some positions. -/
    fetch (positions : List ℕ)
  | /-- SEARCH and SORT. -/
    search (jmapIds : List String) (clock : Clock) (listing : List String)
  | thread (jmapIds : List String) (clock : Clock) (listing : List String)
  | append (mailbox : MailboxId) (createdIds : List String) (clock : Clock) (listing : List String)
  | /-- The change report of NOOP, CHECK and IDLE. -/
    writeChanges (clock : Clock) (listing : List String)
  | expunge (clock : Clock) (listing : List String) (jmapState : String)
  | move (dest : MailboxId) (copiedIds : List String) (destroyedIds : Option (List String))
      (now : ℕ) (clock : Clock)

/-- The FETCH responses for some positions of the view. -/
def fetchUids (state : MailboxData) (positions : List ℕ) : List Untagged :=
  positions.filterMap fun pos ↦ (state.imapUids[pos]?).map (.fetch (pos + 1))

/-- A search found something that is not in the view. -/
def searchOutOfSync (state : MailboxData) (jmapIds : List String) : Bool :=
  (jmapToImap state jmapIds).length != jmapIds.length

/-- `SelectedMailbox::is_in_sync` -/
def isInSync (state : MailboxData) (jmapIds : List String) : Bool :=
  jmapIds.all fun jmapId ↦ jmapId ∈ state.jmapIds

/-- The effect of a command. -/
def apply (s : Session) : Command → Session
  | .other op => { s with db := op.apply s.db }
  | .uids mailbox now => { s with db := ((Db.uids mailbox now).run s.db).2 }
  | .fetch positions =>
      { s with client := s.client.receiveAll (fetchUids s.selected.state positions) }
  | .search jmapIds clock listing =>
      if searchOutOfSync s.selected.state jmapIds then s.refresh clock listing false else s
  | .thread jmapIds clock listing =>
      if isInSync s.selected.state jmapIds then s else s.refresh clock listing false
  | .append mailbox createdIds clock listing =>
      if createdIds.isEmpty then s
      else
        let (uids, db) := (Db.jmapToImap mailbox createdIds .addIfMissing).run s.db
        let s := { s with db := db }
        if uids.isSome && s.selected.id = mailbox then s.refresh clock listing false else s
  | .writeChanges clock listing => s.refresh clock listing true
  | .expunge clock listing jmapState =>
      let (snapshot, s) := s.synchronizeMessages clock listing
      s.edit (.expunge snapshot jmapState)
  | .move dest copiedIds destroyedIds now clock =>
      if copiedIds.isEmpty then s
      else
        let (mapped, db) := (Db.jmapToImap dest copiedIds .addIfMissing).run s.db
        let (uids, db) := (Db.uids dest now).run db
        let s := { s with db := db }
        match mapped, uids with
        | some (copiedIds, _), some _ =>
            let destroyedIds := destroyedIds.getD copiedIds
            let s := s.edit (.move destroyedIds)
            { s with db := (UidOp.deleteIds s.selected.id clock destroyedIds).apply s.db }
        | _, _ => s

/-- The calls on the UID database that a command makes keep the numbering of the selected
mailbox. -/
def Allowed (s : Session) : Command → Prop
  | .other op => op.Allowed s.selected.id s.db
  | .uids mailbox _ => mailbox.WellFormed
  | .fetch _ => True
  | .search jmapIds clock listing => searchOutOfSync s.selected.state jmapIds = true →
      (UidOp.updateUids s.selected.id clock listing).Allowed s.selected.id s.db
  | .thread jmapIds clock listing => isInSync s.selected.state jmapIds = false →
      (UidOp.updateUids s.selected.id clock listing).Allowed s.selected.id s.db
  | .append mailbox createdIds clock listing =>
      (UidOp.jmapToImap mailbox createdIds .addIfMissing).Allowed s.selected.id s.db ∧
        (s.selected.id = mailbox →
          (UidOp.updateUids s.selected.id clock listing).Allowed s.selected.id
            ((UidOp.jmapToImap mailbox createdIds .addIfMissing).apply s.db))
  | .writeChanges clock listing | .expunge clock listing _ =>
      (UidOp.updateUids s.selected.id clock listing).Allowed s.selected.id s.db
  | .move dest copiedIds _ _ _ =>
      (UidOp.jmapToImap dest copiedIds .addIfMissing).Allowed s.selected.id s.db

instance decidableAllowed (s : Session) : (command : Command) → Decidable (s.Allowed command)
  | .other op => inferInstanceAs (Decidable (op.Allowed s.selected.id s.db))
  | .uids mailbox _ => inferInstanceAs (Decidable mailbox.WellFormed)
  | .fetch _ => .isTrue trivial
  | .search jmapIds clock listing =>
      inferInstanceAs (Decidable (searchOutOfSync s.selected.state jmapIds = true →
        (UidOp.updateUids s.selected.id clock listing).Allowed s.selected.id s.db))
  | .thread jmapIds clock listing =>
      inferInstanceAs (Decidable (isInSync s.selected.state jmapIds = false →
        (UidOp.updateUids s.selected.id clock listing).Allowed s.selected.id s.db))
  | .append mailbox createdIds clock listing =>
      inferInstanceAs (Decidable
        ((UidOp.jmapToImap mailbox createdIds .addIfMissing).Allowed s.selected.id s.db ∧
          (s.selected.id = mailbox →
            (UidOp.updateUids s.selected.id clock listing).Allowed s.selected.id
              ((UidOp.jmapToImap mailbox createdIds .addIfMissing).apply s.db))))
  | .writeChanges clock listing | .expunge clock listing _ =>
      inferInstanceAs (Decidable
        ((UidOp.updateUids s.selected.id clock listing).Allowed s.selected.id s.db))
  | .move dest copiedIds _ _ _ =>
      inferInstanceAs (Decidable
        ((UidOp.jmapToImap dest copiedIds .addIfMissing).Allowed s.selected.id s.db))

/-! ## The invariant -/

/-- The client's list is the server's as far as the client knows it, and the view is in order. -/
structure InStep (s : Session) : Prop where
  length_eq : s.client.length = s.selected.state.imapUids.length
  known : ∀ pos uid : ℕ, s.client[pos]? = some (some uid) →
    s.selected.state.imapUids[pos]? = some uid
  ordered : s.selected.state.Ordered

/-- What every command preserves. -/
structure Invariant (s : Session) : Prop where
  wellFormed : s.selected.id.WellFormed
  tables : ∃ T, Tables s.db T ∧ Linked [] s.selected.state [] (T s.selected.id)
  ordered : s.selected.state.Ordered
  agrees : s.client.Agrees s.selected.state.imapUids

theorem Invariant.inStep {s : Session} (h : s.Invariant) : s.InStep where
  length_eq := h.agrees.length_eq
  known _ _ := h.agrees.getElem?_eq_some
  ordered := h.ordered

variable {s : Session}

/-- The database moves on. -/
theorem Invariant.of_tables (h : s.Invariant) {T T' : MailboxId → UidTable String} {db' : Db}
    (hlink : Linked [] s.selected.state [] (T s.selected.id)) (hT' : Tables db' T')
    (hlater : (T s.selected.id).Later (T' s.selected.id)) : Invariant { s with db := db' } where
  wellFormed := h.wellFormed
  tables := ⟨T', hT', hlink.later hlater⟩
  ordered := h.ordered
  agrees := h.agrees

/-- A call by another session. -/
theorem Invariant.perform (h : s.Invariant) {op : UidOp} (hop : op.Allowed s.selected.id s.db) :
    Invariant { s with db := op.apply s.db } := by
  obtain ⟨T, hT, hlink⟩ := h.tables
  obtain ⟨T', hT', hlater⟩ := hop.tables hT h.wellFormed
  exact h.of_tables hlink hT' hlater

theorem Invariant.uids (h : s.Invariant) {mailbox : MailboxId} (hm : mailbox.WellFormed) (now : ℕ) :
    Invariant { s with db := ((Db.uids mailbox now).run s.db).2 } := by
  obtain ⟨T, hT, hlink⟩ := h.tables
  exact h.of_tables hlink (hT.uids hm now) (.refl _)

/-- **A snapshot is taken and the view edited by it.** -/
theorem Invariant.snapshot (h : s.Invariant) {clock : Clock} {listing : List String}
    (hop : (UidOp.updateUids s.selected.id clock listing).Allowed s.selected.id s.db)
    (step : MailboxData → ViewStep) (hstep : ∀ data T, IsSnapshot data T → (step data).FromTable T)
    (hid : ∀ data, (s.selected.apply (step data)).id = s.selected.id) :
    ∃ data db', (Db.updateUids s.selected.id clock listing).run s.db = (some data, db') ∧
      Invariant (edit { s with db := db' } (step data)) := by
  obtain ⟨T, hT, hlink⟩ := h.tables
  obtain ⟨data, db', T', hrun, hT', hlater, hdata⟩ := hT.updateUids h.wellFormed hop
  have hlink' := hlink.later hlater
  have hfrom := hstep data _ hdata
  refine ⟨data, db', hrun, ?_, ?_, ?_, ?_⟩
  · exact (hid data).symm ▸ h.wellFormed
  · refine ⟨T', hT', ?_⟩
    have := (hfrom.linked h.ordered hlink' (.refl _)).forget
    rwa [← hid data] at this
  · exact ordered_apply h.ordered (hfrom.continues hlink')
  · exact agrees_apply h.ordered (hfrom.continues hlink') h.agrees s.isQresync

theorem Invariant.refresh (h : s.Invariant) {clock : Clock} {listing : List String}
    (hop : (UidOp.updateUids s.selected.id clock listing).Allowed s.selected.id s.db)
    (removeMissing : Bool) : (s.refresh clock listing removeMissing).Invariant := by
  obtain ⟨data, db', hrun, hinv⟩ := h.snapshot hop (.synchronize · removeMissing)
    (fun data T hdata ↦ hdata) fun _ ↦ rfl
  rw [Session.refresh, synchronizeMessages, hrun]
  exact hinv

/-- MOVE takes its messages out of the view, and then out of the table. -/
theorem Invariant.move (h : s.Invariant) (destroyedIds : List String) (clock : Clock) :
    Invariant { s.edit (.move destroyedIds) with
      db := (UidOp.deleteIds s.selected.id clock destroyedIds).apply s.db } := by
  obtain ⟨T, hT, hlink⟩ := h.tables
  obtain ⟨db', hdb', hT'⟩ := hT.deleteIds h.wellFormed clock destroyedIds
  have hcont : ViewStep.Continues s.selected.state (.move destroyedIds) := trivial
  have hsub : ∀ i ∈ destroyedIds ++ [], i ∈ ([] : List String) ∨ i ∈ destroyedIds := by simp
  refine ⟨h.wellFormed, ⟨_, hdb' ▸ hT', ?_⟩, ordered_apply h.ordered hcont,
    agrees_apply h.ordered hcont h.agrees s.isQresync⟩
  have hremoved := (hlink.removeMessages destroyedIds).restrict hsub
  simpa [edit, SelectedMailbox.apply] using hremoved.forget

/-- The client learns UIDs. -/
theorem agrees_fetchUids {client : Client} {state : MailboxData}
    (h : client.Agrees state.imapUids) (positions : List ℕ) :
    (client.receiveAll (fetchUids state positions)).Agrees state.imapUids := by
  induction positions generalizing client with
  | nil => exact h
  | cons pos positions ih =>
      cases hget : state.imapUids[pos]? with
      | none => simpa [fetchUids, hget] using ih h
      | some uid => simpa [fetchUids, hget, Client.receiveAll] using ih (Client.agrees_fetch h hget)

/-- **One command.** -/
theorem Invariant.apply (h : s.Invariant) {command : Command} (hcommand : s.Allowed command) :
    (s.apply command).Invariant := by
  cases command with
  | other op => exact h.perform hcommand
  | uids mailbox now => exact h.uids hcommand now
  | fetch positions =>
      exact ⟨h.wellFormed, h.tables, h.ordered, agrees_fetchUids h.agrees positions⟩
  | search jmapIds clock listing =>
      rw [Session.apply]
      split
      · rename_i hsync
        exact h.refresh (hcommand hsync) false
      · exact h
  | thread jmapIds clock listing =>
      rw [Session.apply]
      split
      · exact h
      · rename_i hsync
        exact h.refresh (hcommand (by simpa using hsync)) false
  | append mailbox createdIds clock listing =>
      obtain ⟨hmap, hupdate⟩ := hcommand
      rw [Session.apply]
      split
      · exact h
      · dsimp only
        have hs := h.perform hmap
        split
        · rename_i heq
          rw [Bool.and_eq_true, decide_eq_true_eq] at heq
          exact hs.refresh (hupdate heq.2) false
        · exact hs
  | writeChanges clock listing => exact h.refresh hcommand true
  | expunge clock listing jmapState =>
      obtain ⟨data, db', hrun, hinv⟩ := h.snapshot hcommand (fun data ↦ .expunge data jmapState)
        (fun data T hdata data' hdata' ↦ Option.some.inj hdata' ▸ hdata) fun _ ↦ rfl
      rw [Session.apply, synchronizeMessages, hrun]
      exact hinv
  | move dest copiedIds destroyedIds now clock =>
      rw [Session.apply]
      split
      · exact h
      · dsimp only
        have hs := (h.perform hcommand).uids hcommand.wellFormed.1 now
        split
        · exact hs.move _ clock
        · exact hs

end Session

/-- **The client and the server stay in step.**  A session selects a mailbox of a database that any
calls have led to.  Whatever commands it then runs and whatever other sessions do in between, the
client's list is the server's and the view is in order, as long as no call resets the selected
mailbox or uses up a counter. -/
theorem client_in_step (before : List UidOp) (hbefore : ∀ op ∈ before, op.WellFormed)
    (hlt : ∀ m : MailboxId, m.WellFormed → allocated m ∅ before < 2 ^ 32 - 1)
    (mailbox : MailboxId) (isQresync isSelect : Bool) (clock : Clock) (listing : List String)
    (hselect : (UidOp.updateUids mailbox clock listing).Allowed mailbox
      (Run.exec UidOp.apply ∅ before)) :
    ∃ s, Session.select (Run.exec UidOp.apply ∅ before) mailbox isQresync isSelect clock listing =
        some s ∧
      ∀ commands, Run.Along Session.apply Session.Allowed s commands →
        (Run.exec Session.apply s commands).InStep := by
  have hm : mailbox.WellFormed := hselect.wellFormed.1
  obtain ⟨T, hT⟩ := exec_tables before hbefore hlt
  obtain ⟨data, db', T', hrun, hT', -, hdata⟩ := hT.updateUids hm hselect
  refine ⟨_, by rw [Session.select, hrun], fun commands hcommands ↦ ?_⟩
  refine (Run.exec_induct Session.Invariant ?_ (fun s command h hc ↦ h.apply hc) hcommands).inStep
  refine ⟨hm, ⟨T', hT', .of_isSnapshot hdata⟩, hdata.ordered, ?_⟩
  simpa [Client.receive] using Client.agrees_replicate data.imapUids

/-- A mailbox that has had two messages. -/
def listedOnce : List UidOp :=
  [.updateUids ⟨"u1", some "X"⟩ (fun _ ↦ 1660000000) ["M0", "M1"]]

/-- It is selected when the first of them is gone and another one there. -/
def selectX : Option Session :=
  Session.select (Run.exec UidOp.apply ∅ listedOnce) ⟨"u1", some "X"⟩ false true
    (fun _ ↦ 1660000001) ["M1", "M2"]

/-- Messages come and go in every way: another session lists the mailbox, a search finds the new
message, one is appended, one is moved away, one is expunged. -/
def busySession : List Session.Command := [
  .fetch [0, 1],
  .other (.updateUids ⟨"u1", some "X"⟩ (fun _ ↦ 1660000002) ["M1", "M2", "M3"]),
  .search ["M3"] (fun _ ↦ 1660000003) ["M1", "M2", "M3"],
  .append ⟨"u1", some "X"⟩ ["M4"] (fun _ ↦ 1660000004) ["M1", "M2", "M3", "M4"],
  .move ⟨"u1", some "Y"⟩ ["M2"] none 1660000005 (fun _ ↦ 1660000005),
  .writeChanges (fun _ ↦ 1660000006) ["M3", "M4"],
  .expunge (fun _ ↦ 1660000007) ["M4"] "s1"]

theorem client_in_step_busy :
    ∃ s, selectX = some s ∧ (Run.exec Session.apply s busySession).InStep := by
  obtain ⟨s, hs, hall⟩ := client_in_step listedOnce (by decide +kernel)
    (fun m _ ↦ (allocated_le m ∅ _).trans_lt (by decide)) ⟨"u1", some "X"⟩ false true
    (fun _ ↦ 1660000001) ["M1", "M2"] (by decide +kernel)
  have hallowed : selectX.all (fun s ↦
      decide (Run.Along Session.apply Session.Allowed s busySession)) = true := by decide +kernel
  rw [selectX, hs] at hallowed
  exact ⟨s, hs, hall _ (by simpa using hallowed)⟩

/-- Another session has fetched its list of mailboxes before `X` was created.  Its login purges
`X`, and then a search finds a new message. -/
def purgedSession : List Session.Command := [
  .other (.purgeDeletedMailboxes "u1" ["inbox"]),
  .search ["M3"] (fun _ ↦ 1660000002) ["M1", "M2", "M3"]]

/-- **A purge breaks the order.**  `M1` and `M2` are selected under the UIDs 2 and 3.  The refresh
after the purge appends `M1` once more, under the UID 1, and not the new message. -/
theorem purge_breaks_order :
    ∃ s, selectX = some s ∧ s.selected.state.imapUids = [2, 3] ∧
      (Run.exec Session.apply s purgedSession).selected.state.imapUids = [2, 3, 1] ∧
      ¬ (Run.exec Session.apply s purgedSession).InStep := by
  have hrun : selectX.map (fun s ↦ (s.selected.state.imapUids,
      (Run.exec Session.apply s purgedSession).selected.state.imapUids)) =
        some ([2, 3], [2, 3, 1]) := by decide +kernel
  obtain ⟨s, hs, huids⟩ := Option.map_eq_some_iff.mp hrun
  obtain ⟨hbefore, hafter⟩ := Prod.mk.inj huids
  refine ⟨s, hs, hbefore, hafter, fun h ↦ ?_⟩
  have hinc := h.ordered.increasing
  rw [hafter] at hinc
  exact absurd hinc (by decide)

end ImapToJmap
