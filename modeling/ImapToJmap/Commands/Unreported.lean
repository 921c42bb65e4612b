import ImapToJmap.Commands.Poll

/-!
# Changes that NOOP does not report

Whether NOOP reports what another client has changed depends on where the change stands relative to
`last_state`.  STORE, MOVE and EXPUNGE move `last_state` past everything that has happened before
their own update, so a change that is still to be reported then is passed over.

`Follows` is what any calls do to the world: a change that is pending after them stands in the
journal after the point where they began, or was pending before and has not been reported.  The
invariant `Tracks` says that every pending change of a message of the view stands after
`last_state`; `along_tells` that NOOP then reports all of them.
-/

namespace ImapToJmap

/-! ## Pending changes -/

/-- Another client has changed keywords of the message, and no FETCH response with its flags was
sent after that. -/
def Pending : List MailEvent → String → Prop
  | [], _ => False
  | .changed x :: log, id => x = id ∨ Pending log id
  | .reported x :: log, id => x ≠ id ∧ Pending log id
  | .set :: log, id => Pending log id

instance Pending.decidable : ∀ log id, Decidable (Pending log id)
  | [], _ => .isFalse id
  | .changed x :: log, id =>
      have := Pending.decidable log id
      inferInstanceAs (Decidable (x = id ∨ Pending log id))
  | .reported x :: log, id =>
      have := Pending.decidable log id
      inferInstanceAs (Decidable (x ≠ id ∧ Pending log id))
  | .set :: log, id => Pending.decidable log id

/-- From one world to another the calls report the message. -/
def Sent (w w' : MailWorld) (id : String) : Prop :=
  ∃ events, w'.log = events ++ w.log ∧ .reported id ∈ events

instance (w w' : MailWorld) (id : String) : Decidable (Sent w w' id) :=
  decidable_of_iff (w.log <:+ w'.log ∧ .reported id ∈
    w'.log.take (w'.log.length - w.log.length)) <| by
    constructor
    · rintro ⟨⟨events, hlog⟩, hmem⟩
      refine ⟨events, hlog.symm, ?_⟩
      simpa [← hlog] using hmem
    · rintro ⟨events, hlog, hmem⟩
      exact ⟨⟨events, hlog.symm⟩, by simpa [hlog] using hmem⟩

/-- What calls do to the world. -/
structure Follows (w w' : MailWorld) : Prop where
  moments : w'.moments ⊆ w.moments
  journal : w.server.journal <+: w'.server.journal
  mailbox : w'.server.mailbox ⊆ w.server.mailbox
  log : w.log <:+ w'.log
  pending : ∀ id, Pending w'.log id →
    w'.server.journal.UpdatedSince w.server.journal.length id ∨ (Pending w.log id ∧ ¬ Sent w w' id)

section Follows

variable {w w' w'' : MailWorld} {id : String}

theorem Sent.trans_follows (h : Sent w w' id) (h' : Follows w' w'') : Sent w w'' id := by
  obtain ⟨events, hlog, hmem⟩ := h
  obtain ⟨later, hlater⟩ := h'.log
  exact ⟨later ++ events, by rw [← hlater, hlog, List.append_assoc], List.mem_append_right _ hmem⟩

theorem Follows.trans_sent (h : Follows w w') (h' : Sent w' w'' id) : Sent w w'' id := by
  obtain ⟨events, hlog, hmem⟩ := h'
  obtain ⟨earlier, hearlier⟩ := h.log
  exact ⟨events ++ earlier, by rw [hlog, ← hearlier, List.append_assoc],
    List.mem_append_left _ hmem⟩

/-- What is reported in two parts is reported in one of them. -/
theorem Sent.split (h : Sent w w'' id) (hlog : w.log <:+ w'.log) (hlog' : w'.log <:+ w''.log) :
    Sent w w' id ∨ Sent w' w'' id := by
  obtain ⟨events, heq, hmem⟩ := h
  obtain ⟨earlier, hearlier⟩ := hlog
  obtain ⟨later, hlater⟩ := hlog'
  obtain rfl : later ++ earlier = events := by
    rw [← hlater, ← hearlier, ← List.append_assoc] at heq
    exact List.append_cancel_right heq
  rcases List.mem_append.mp hmem with hmem | hmem
  · exact .inr ⟨later, hlater.symm, hmem⟩
  · exact .inl ⟨earlier, hearlier.symm, hmem⟩

theorem not_sent_self (w : MailWorld) (id : String) : ¬ Sent w w id := by
  rintro ⟨events, hlog, hmem⟩
  have hnil : events = [] := by simpa using hlog
  rw [hnil] at hmem
  exact List.not_mem_nil hmem

theorem Follows.refl (w : MailWorld) : Follows w w where
  moments := List.Subset.refl _
  journal := List.prefix_rfl
  mailbox := List.Subset.refl _
  log := List.suffix_rfl
  pending id h := .inr ⟨h, not_sent_self w id⟩

/-- One call after the other. -/
theorem Follows.trans (h : Follows w w') (h' : Follows w' w'') : Follows w w'' where
  moments := List.Subset.trans h'.moments h.moments
  journal := h.journal.trans h'.journal
  mailbox := List.Subset.trans h'.mailbox h.mailbox
  log := h.log.trans h'.log
  pending id hpending := by
    obtain hnew | ⟨hpending', hunsent'⟩ := h'.pending id hpending
    · exact .inl (hnew.mono List.prefix_rfl h.journal.length_le)
    · obtain hnew | ⟨hold, hunsent⟩ := h.pending id hpending'
      · exact .inl (hnew.mono h'.journal le_rfl)
      · refine .inr ⟨hold, fun hsent ↦ ?_⟩
        rcases hsent.split h.log h'.log with hsent | hsent
        · exact hunsent hsent
        · exact hunsent' hsent

/-- Later events do not take a pending change back, unless they report it. -/
theorem pending_append {events log : List MailEvent} (h : Pending (events ++ log) id) :
    .changed id ∈ events ∨ (Pending log id ∧ .reported id ∉ events) := by
  induction events with
  | nil => exact .inr ⟨h, List.not_mem_nil⟩
  | cons event events ih =>
      cases event with
      | changed x =>
          obtain rfl | h := h
          · exact .inl List.mem_cons_self
          · exact (ih h).imp (List.mem_cons_of_mem _) fun ⟨hold, hunsent⟩ ↦
              ⟨hold, by simpa using hunsent⟩
      | reported x =>
          obtain ⟨hne, h⟩ := h
          refine (ih h).imp (List.mem_cons_of_mem _) fun ⟨hold, hunsent⟩ ↦ ⟨hold, ?_⟩
          simpa [hunsent] using fun heq : id = x ↦ hne heq.symm
      | set =>
          exact (ih h).imp (List.mem_cons_of_mem _) fun ⟨hold, hunsent⟩ ↦
            ⟨hold, by simpa using hunsent⟩

/-- What a step adds to the log, it adds to the journal. -/
theorem follows_of_events (events : List MailEvent) (hlog : w'.log = events ++ w.log)
    (hmoments : w'.moments ⊆ w.moments) (hjournal : w.server.journal <+: w'.server.journal)
    (hmailbox : w'.server.mailbox ⊆ w.server.mailbox)
    (hchanged : ∀ id, .changed id ∈ events →
      w'.server.journal.UpdatedSince w.server.journal.length id) : Follows w w' where
  moments := hmoments
  journal := hjournal
  mailbox := hmailbox
  log := ⟨events, hlog.symm⟩
  pending id hpending := by
    rw [hlog] at hpending
    refine (pending_append hpending).imp (hchanged id) fun ⟨hold, hunsent⟩ ↦ ⟨hold, ?_⟩
    rintro ⟨events', hlog', hmem⟩
    obtain rfl : events = events' := List.append_cancel_right (hlog.symm.trans hlog')
    exact hunsent hmem

/-- Another client changes keywords of an email. -/
theorem follows_interfere (w : MailWorld) (id : String) : Follows w (w.interfere id) := by
  refine follows_of_events (if id ∈ w.server.mailbox then [.changed id] else []) ?_
    (List.Subset.refl _) (List.prefix_append _ _)
      (by simp [MailWorld.interfere, MailServer.update]) ?_
  · rw [MailWorld.interfere]
    split
    · rfl
    · rfl
  · intro id' hid'
    obtain rfl : id' = id := by
      split at hid'
      · simpa using hid'
      · cases hid'
    exact Journal.updatedSince_append le_rfl (by simp)

/-- The moments before a call. -/
theorem follows_next (w : MailWorld) : Follows w w.next := by
  have hall : ∀ (ids : List String) (w : MailWorld),
    Follows w (ids.foldl MailWorld.interfere w) := by
    intro ids
    induction ids with
    | nil => exact Follows.refl
    | cons id ids ih => exact fun w ↦ (follows_interfere w id).trans (ih _)
  refine Follows.trans ?_ (hall w.moment.others { w with moments := w.moments.tail })
  exact follows_of_events [] rfl (List.tail_subset _) List.prefix_rfl (List.Subset.refl _)
    (by simp)

/-- The server carries an update out. -/
theorem follows_server {server : MailServer} (events : List MailEvent)
    (hjournal : w.server.journal <+: server.journal) (hmailbox : server.mailbox ⊆ w.server.mailbox)
    (hevents : ∀ id, .changed id ∉ events) :
    Follows w { w with server, log := events ++ w.log } :=
  follows_of_events events rfl (List.Subset.refl _) hjournal hmailbox fun id hid ↦
    absurd hid (hevents id)

theorem follows_act (env : MailEnvironment) (moment : Moment) (q : MailCall) (w : MailWorld) :
    Follows w (env.act moment q w).2 := by
  have hupdate : ∀ ids remove, w.server.journal <+: (w.server.update ids remove).journal ∧
      (w.server.update ids remove).mailbox ⊆ w.server.mailbox :=
    fun ids remove ↦ ⟨List.prefix_append _ _, fun _ h ↦ List.mem_of_mem_filter h⟩
  have hdestroy : ∀ ids, w.server.journal <+: (w.server.destroy ids).journal ∧
      (w.server.destroy ids).mailbox ⊆ w.server.mailbox :=
    fun ids ↦ ⟨List.prefix_append _ _, fun _ h ↦ List.mem_of_mem_filter h⟩
  cases q with
  | getState | changes | synchronizeMessages | get => exact Follows.refl w
  | update ids remove get =>
      obtain ⟨hjournal, hmailbox⟩ := hupdate (ids.filter (· ∈ moment.accepted)) remove
      rw [MailEnvironment.act]
      split
      · exact follows_server [] hjournal hmailbox (by simp)
      · exact follows_server [.set] hjournal hmailbox (by simp)
  | copy ids =>
      obtain ⟨hjournal, hmailbox⟩ :=
        hdestroy ((ids.filter (· ∈ moment.accepted)).filter (· ∈ moment.destroyed))
      rw [MailEnvironment.act]
      dsimp only
      split
      · exact Follows.refl w
      · split
        · exact follows_server [] hjournal hmailbox (by simp)
        · exact follows_server [.set] hjournal hmailbox (by simp)
  | destroy ids =>
      rw [MailEnvironment.act]
      split
      · exact follows_server [] (hdestroy _).1 (hdestroy _).2 (by simp)
      · exact follows_server [.set] (hdestroy _).1 (hdestroy _).2 (by simp)
  | write ids =>
      exact follows_server (ids.map .reported) List.prefix_rfl (List.Subset.refl _) (by simp)

theorem follows_answer (env : MailEnvironment) (q : MailCall) (w : MailWorld) :
    Follows w (env.answer q w).2 := (follows_next w).trans (follows_act env w.moment q w.next)

/-- **What the calls of a command do to the world.** -/
theorem follows_run (env : MailEnvironment) {R : Type} (job : MailJob R) (w : MailWorld) :
    Follows w (job.run env.answer w).2 := by
  induction job generalizing w with
  | done r => exact Follows.refl w
  | call q next ih => exact (follows_answer env q w).trans (ih _ _)

end Follows

/-! ## Views -/

/-- A view as SELECT and the synchronizations leave it. -/
structure Numbered (env : MailEnvironment) (state : MailboxData) : Prop where
  uids : state.imapUids = state.jmapIds.map env.uid
  nodup : state.jmapIds.Nodup

section Numbered

variable {env : MailEnvironment} {state : MailboxData} {m : SelectedMailbox} {id : String}

theorem Numbered.aligned (h : Numbered env state) : state.Aligned where
  length_eq := by simp [h.uids]
  nodup := by
    rw [h.uids]
    exact h.nodup.map env.uid.injective

theorem Numbered.pairs (h : Numbered env state) :
    state.pairs = state.jmapIds.map fun id ↦ (id, env.uid id) := by
  rw [MailboxData.pairs, h.uids]
  simpa using List.zip_map' (f := id) (g := env.uid) (l := state.jmapIds)

/-- The server's view of the mailbox. -/
theorem numbered_snapshot (env : MailEnvironment) (server : MailServer) :
    Numbered env (env.snapshot server) := ⟨rfl, server.nodup⟩

/-- Removing messages. -/
theorem Numbered.removeMessages (h : Numbered env state) (keep : String × ℕ → Bool) :
    Numbered env (state.removeMessages keep) ∧
      (state.removeMessages keep).jmapIds = state.jmapIds.filter fun id ↦
        keep (id, env.uid id) := by
  have hids : (state.removeMessages keep).jmapIds =
      state.jmapIds.filter fun id ↦ keep (id, env.uid id) := by
    rw [MailboxData.removeMessages, MailboxData.withPairs_jmapIds, h.pairs, List.filter_map,
      List.map_map]
    exact List.map_id _
  refine ⟨⟨?_, hids ▸ h.nodup.filter _⟩, hids⟩
  rw [hids, MailboxData.removeMessages, MailboxData.withPairs_imapUids, h.pairs, List.filter_map,
    List.map_map]
  rfl

/-- **`synchronize_uids` with removal** leaves the messages that the mailbox has. -/
theorem Numbered.synchronize (h : Numbered env m.state) (server : MailServer) :
    Numbered env (m.apply (.synchronize (env.snapshot server) true)).state ∧
      (m.apply (.synchronize (env.snapshot server) true)).state.lastState = m.state.lastState ∧
        ∀ id, id ∈ (m.apply (.synchronize (env.snapshot server) true)).state.jmapIds ↔
          id ∈ server.mailbox := by
  have hsnap := numbered_snapshot env server
  have heq : (m.apply (.synchronize (env.snapshot server) true)).state =
      m.state.synchronized (env.snapshot server) true := by
    show (m.state.synchronizeUids _ _ true).1 = _
    rw [h.aligned.synchronizeUids_eq hsnap.aligned]
  have hkeeps : ∀ id, (env.snapshot server).keeps true (id, env.uid id) = true ↔
      id ∈ server.mailbox := by
    intro id
    show (false || decide (env.uid id ∈ server.mailbox.map env.uid)) = true ↔ _
    simp [List.mem_map, env.uid.injective.eq_iff]
  have hkept : Numbered env (m.state.kept (env.snapshot server) true) := (h.removeMessages _).1
  have hkeptIds : (m.state.kept (env.snapshot server) true).jmapIds =
      m.state.jmapIds.filter fun id ↦ (env.snapshot server).keeps true (id, env.uid id) :=
    (h.removeMessages _).2
  have hinserted : m.state.inserted (env.snapshot server) true =
      (server.mailbox.filter (· ∉ (m.state.kept (env.snapshot server) true).jmapIds)).map
        fun id ↦ (id, env.uid id) := by
    rw [MailboxData.inserted, MailboxData.missing, hsnap.pairs, List.filter_map]
    refine congrArg (List.map _) (List.filter_congr fun id _ ↦ ?_)
    show decide (env.uid id ∉ (m.state.kept (env.snapshot server) true).imapUids) = _
    rw [hkept.uids]
    simp [List.mem_map, env.uid.injective.eq_iff]
  have hids : (m.state.synchronized (env.snapshot server) true).jmapIds =
      (m.state.kept (env.snapshot server) true).jmapIds ++
        server.mailbox.filter (· ∉ (m.state.kept (env.snapshot server) true).jmapIds) := by
    rw [MailboxData.synchronized, hinserted]
    simp [List.map_map, Function.comp_def]
  have huids : (m.state.synchronized (env.snapshot server) true).imapUids =
      (m.state.synchronized (env.snapshot server) true).jmapIds.map env.uid := by
    rw [hids, List.map_append, ← hkept.uids, MailboxData.synchronized, hinserted]
    simp [List.map_map, Function.comp_def]
  rw [heq]
  refine ⟨⟨huids, ?_⟩, rfl, fun id ↦ ?_⟩
  · rw [hids]
    refine hkept.nodup.append (server.nodup.filter _) fun id hid hid' ↦ ?_
    have hnot := (List.mem_filter.mp hid').2
    simp [hid] at hnot
  · rw [hids, List.mem_append, List.mem_filter]
    have hsub : id ∈ (m.state.kept (env.snapshot server) true).jmapIds → id ∈ server.mailbox := by
      intro hid
      rw [hkeptIds] at hid
      exact (hkeeps id).mp (List.mem_filter.mp hid).2
    by_cases hid : id ∈ (m.state.kept (env.snapshot server) true).jmapIds
    · simp [hid, hsub hid]
    · simp [hid]

/-- The set of UIDs with which `write_changes` fetches. -/
theorem contains_numbers (uids : List ℕ) (uid maxUid : ℕ) :
    (Sequence.list (uids.map .number)).contains uid maxUid = true ↔ uid ∈ uids := by
  rw [Sequence.contains]
  induction uids with
  | nil => simp [Sequence.anyContains]
  | cons n uids ih =>
      rw [List.map_cons, Sequence.anyContains, Bool.or_eq_true, ih, List.mem_cons,
        Sequence.contains,
        beq_iff_eq, eq_comm]

theorem isSavedSearch_numbers (uids : List ℕ) :
    (Sequence.list (uids.map .number)).isSavedSearch = false := by
  rw [Sequence.isSavedSearch]
  induction uids with
  | nil => rfl
  | cons n uids ih =>
      rw [List.map_cons, Sequence.anySavedSearch, ih]
      rfl

/-- The messages of the view with these UIDs are fetched. -/
theorem Numbered.fetch (h : Numbered env m.state) (db : AccountDb) (uids : List ℕ)
    (isQresync : Bool)
    (changesEmail : String → Option Jmap.Changes) :
    ∃ ids, (ImapToJmap.fetch db m ⟨.list (uids.map .number), none, false⟩ true isQresync false
        changesEmail).next = .ok ids ∧
      ∀ id ∈ m.state.jmapIds, env.uid id ∈ uids → id ∈ ids.keys := by
  have hseq : m.sequenceToJmap (.list (uids.map .number)) true =
      SelectedMailbox.insertMatches m.state.jmapIds
        (SelectedMailbox.matchedMessages m.state (.list (uids.map .number)) true) := by
    rw [SelectedMailbox.sequenceToJmap, isSavedSearch_numbers]
    rfl
  have hsame : ∀ x ∈ SelectedMailbox.matchedMessages m.state (.list (uids.map .number)) true,
      ∀ y ∈ SelectedMailbox.matchedMessages m.state (.list (uids.map .number)) true,
        ∀ i, m.state.jmapIds[x.1]? = some i → m.state.jmapIds[y.1]? = some i → x.2 = y.2 := by
    intro x hx y hy i hxi hyi
    obtain ⟨hxu, hxs, -, -⟩ := SelectedMailbox.mem_matchedMessages.mp hx
    obtain ⟨hyu, hys, -, -⟩ := SelectedMailbox.mem_matchedMessages.mp hy
    obtain ⟨hlx, hxi⟩ := List.getElem?_eq_some_iff.mp hxi
    obtain ⟨hly, hyi⟩ := List.getElem?_eq_some_iff.mp hyi
    have hpos : x.1 = y.1 := (List.Nodup.getElem_inj_iff h.nodup).mp (hxi.trans hyi.symm)
    rw [hpos, hyu] at hxu
    rw [hpos, ← hys] at hxs
    obtain ⟨px, ux, sx⟩ := x
    obtain ⟨py, uy, sy⟩ := y
    exact congrArg₂ ImapId.mk (Option.some.inj hxu).symm hxs
  obtain ⟨ids, hids, -⟩ | ⟨-, x, hx, hle⟩ := SelectedMailbox.insertMatches_spec m.state.jmapIds
    (SelectedMailbox.matchedMessages m.state (.list (uids.map .number)) true)
  · refine ⟨ids, ?_, fun id hid huid ↦ ?_⟩
    · rw [ImapToJmap.fetch, if_neg (by simp), if_neg (by simp), hseq, hids]
    · obtain ⟨pos, hlt, hpos⟩ := List.mem_iff_getElem.mp hid
      have hget : m.state.jmapIds[pos]? = some id := List.getElem?_eq_some_iff.mpr ⟨hlt, hpos⟩
      have hmatched : (pos, ⟨env.uid id, pos + 1⟩) ∈
          SelectedMailbox.matchedMessages m.state (.list (uids.map .number)) true := by
        refine SelectedMailbox.mem_matchedMessages.mpr ⟨?_, rfl, (env.uid_pos id).ne', ?_⟩
        · rw [h.uids, List.getElem?_map, hget]
          rfl
        · exact (contains_numbers uids _ _).mpr huid
      have hmem := (SelectedMailbox.mem_insertMatches hids hsame (id, ⟨env.uid id, pos + 1⟩)).mpr
        ⟨_, hmatched, hget, rfl⟩
      exact List.mem_map.mpr ⟨_, hmem, rfl⟩
  · -- the two lists have one length, so no position is out of range
    obtain ⟨hlt, -⟩ := List.getElem?_eq_some_iff.mp (SelectedMailbox.mem_matchedMessages.mp hx).1
    rw [← h.aligned.length_eq] at hlt
    omega

end Numbered

/-! ## Reports -/

/-- None of the calls to come fails. -/
def MailWorld.Answered (w : MailWorld) : Prop := ∀ moment ∈ w.moments, moment.fails = false

/-- The call changes nothing in the mailbox. -/
def MailCall.Reads : MailCall → Prop
  | get _ | write _ => True
  | _ => False

section Reports

variable {env : MailEnvironment} {w w' : MailWorld} {id : String}

theorem MailWorld.Answered.moment (h : w.Answered) : w.moment.fails = false := by
  rw [MailWorld.moment]
  cases hmoments : w.moments with
  | nil => rfl
  | cons moment moments => exact h moment (by simp [hmoments])

theorem MailWorld.Answered.follows (h : w.Answered) (hfollows : Follows w w') : w'.Answered :=
  fun moment hmoment ↦ h moment (hfollows.moments hmoment)

/-- A call, and what follows. -/
theorem run_ask {R : Type} (q : MailCall) (f : q.Return → MailJob R) (w : MailWorld) :
    (MailJob.ask q >>= f).run env.answer w =
      (f (env.answer q w).1).run env.answer (env.answer q w).2 := rfl

theorem mailbox_next (w : MailWorld) : w.next.server.mailbox = w.server.mailbox := by
  have hall : ∀ (ids : List String) (w : MailWorld),
      (ids.foldl MailWorld.interfere w).server.mailbox = w.server.mailbox := by
    intro ids
    induction ids with
    | nil => exact fun w ↦ rfl
    | cons id ids ih =>
        intro w
        rw [List.foldl_cons, ih]
        show w.server.mailbox.filter _ = _
        exact List.filter_eq_self.mpr fun _ _ ↦ rfl
  exact hall _ _

theorem mailbox_run {R : Type} {job : MailJob R} (h : job.Uses MailCall.Reads) (w : MailWorld) :
    (job.run env.answer w).2.server.mailbox = w.server.mailbox := by
  refine Job.run_induct (fun w' : MailWorld ↦ w'.server.mailbox = w.server.mailbox)
    (fun q w' hq hw' ↦ ?_) h rfl
  rw [← hw', ← mailbox_next w']
  cases q with
  | get ids => rfl
  | write ids => rfl
  | _ => exact hq.elim

theorem uses_writeEach (ids : List String) : (MailJob.writeEach ids).Uses MailCall.Reads := by
  induction ids with
  | nil => trivial
  | cons id ids ih => exact ⟨trivial, fun _ ↦ ih⟩

theorem uses_fetchChunks (ids : IdMap) (chunks : List (List String)) :
    (MailJob.fetchChunks ids chunks).Uses MailCall.Reads := by
  induction chunks with
  | nil => trivial
  | cons chunk chunks ih =>
      refine ⟨trivial, fun emails ↦ ?_⟩
      cases emails with
      | none => trivial
      | some emails => exact (uses_writeEach _).bind fun _ ↦ ih

theorem uses_fetchFlags (env : MailEnvironment) (m : SelectedMailbox) (uids : List ℕ)
    (isQresync : Bool) : (MailJob.fetchFlags env m uids isQresync).Uses MailCall.Reads := by
  rw [MailJob.fetchFlags]
  split
  · trivial
  · exact uses_fetchChunks _ _

/-- What is written is sent. -/
theorem sent_writeEach {ids : List String} (hid : id ∈ ids) (w : MailWorld) :
    Sent w ((MailJob.writeEach ids).run env.answer w).2 id := by
  induction ids generalizing w with
  | nil => cases hid
  | cons x ids ih =>
      show Sent w ((MailJob.writeEach ids).run env.answer (env.answer (.write [x]) w).2).2 id
      rcases List.mem_cons.mp hid with rfl | hid
      · have hwrite : Sent w.next (env.answer (.write [id]) w).2 id :=
          ⟨[.reported id], rfl, by simp⟩
        exact ((follows_next w).trans_sent hwrite).trans_follows (follows_run env _ _)
      · exact (follows_answer env (.write [x]) w).trans_sent (ih hid _)

/-- What is fetched and is still there is sent. -/
theorem sent_fetchChunks {ids : IdMap} {chunks : List (List String)} (hw : w.Answered)
    (hid : id ∈ chunks.flatten) (hkey : id ∈ ids.keys) (hmailbox : id ∈ w.server.mailbox) :
    Sent w ((MailJob.fetchChunks ids chunks).run env.answer w).2 id := by
  induction chunks generalizing w with
  | nil => cases hid
  | cons chunk chunks ih =>
      have hget : env.answer (.get chunk) w =
          (some (chunk.filter fun id ↦ w.next.server.journal.Alive id), w.next) := by
        rw [MailEnvironment.answer, MailEnvironment.act, hw.moment]
        rfl
      have hrun : (MailJob.fetchChunks ids (chunk :: chunks)).run env.answer w =
          (MailJob.fetchChunks ids chunks).run env.answer
            ((MailJob.writeEach ((chunk.filter fun id ↦ w.next.server.journal.Alive id).filter
              (· ∈ ids.keys))).run env.answer w.next).2 := by
        rw [MailJob.fetchChunks, run_ask, hget]
        exact Job.run_bind ..
      have hnext : id ∈ w.next.server.mailbox := mailbox_next w ▸ hmailbox
      rw [hrun]
      rw [List.flatten_cons, List.mem_append] at hid
      rcases hid with hid | hid
      · have hmem : id ∈ (chunk.filter fun id ↦ w.next.server.journal.Alive id).filter
            (· ∈ ids.keys) := by
          simp [hid, hkey, w.next.server.alive id hnext]
        exact ((follows_next w).trans_sent (sent_writeEach hmem w.next)).trans_follows
          (follows_run env _ _)
      · have hfollows := (follows_next w).trans (follows_run env (MailJob.writeEach
          ((chunk.filter fun id ↦ w.next.server.journal.Alive id).filter (· ∈ ids.keys))) w.next)
        refine hfollows.trans_sent (ih (hw.follows hfollows) hid ?_)
        rw [mailbox_run (uses_writeEach _)]
        exact hnext

/-- **A fetch reports** the messages of the view that are asked for, if they are in the mailbox. -/
theorem sent_fetchFlags {m : SelectedMailbox} (h : Numbered env m.state) (hw : w.Answered)
    {uids : List ℕ} (hid : id ∈ m.state.jmapIds) (huid : env.uid id ∈ uids)
    (hmailbox : id ∈ w.server.mailbox) (isQresync : Bool) :
    Sent w ((MailJob.fetchFlags env m uids isQresync).run env.answer w).2 id := by
  obtain ⟨ids, hids, hkeys⟩ := h.fetch env.db uids isQresync fun _ ↦ none
  have hkey := hkeys id hid huid
  rw [MailJob.fetchFlags, hids]
  refine sent_fetchChunks hw ?_ hkey hmailbox
  rw [env.flatten_chunks]
  exact ((env.order_perm ids).map Prod.fst).mem_iff.mpr hkey

end Reports

/-! ## `last_state` -/

/-- Every change that is still to be reported stands after `last_state`. -/
structure Tracks (env : MailEnvironment) (m : SelectedMailbox) (w : MailWorld) : Prop where
  numbered : Numbered env m.state
  tracked : ∃ k, m.state.lastState = env.stateName k ∧ k ≤ w.server.journal.length ∧
    ∀ id, id ∈ m.state.jmapIds ∨ id ∈ w.server.mailbox → Pending w.log id →
      w.server.journal.UpdatedSince k id

/-- Where a command has its update carried out, every change that is pending has been reported when
the command ends, if the message is still in the view or in the mailbox. -/
def Spares (m' : SelectedMailbox) (w w' : MailWorld) : Prop :=
  ∀ n < w'.log.length - w.log.length, w'.log[n]? = some .set →
    ∀ id ∈ m'.state.jmapIds ++ w'.server.mailbox, Pending (w'.log.drop (n + 1)) id →
      .reported id ∈ w'.log.take n

instance (m' : SelectedMailbox) (w w' : MailWorld) : Decidable (Spares m' w w') :=
  inferInstanceAs (Decidable (∀ n < w'.log.length - w.log.length, w'.log[n]? = some .set →
    ∀ id ∈ m'.state.jmapIds ++ w'.server.mailbox, Pending (w'.log.drop (n + 1)) id →
      .reported id ∈ w'.log.take n))

/-- An update of the session is carried out at the next call, and the session learns the new
state. -/
structure Applies (env : MailEnvironment) (w w' : MailWorld) (newState : String) : Prop where
  log : w'.log = .set :: w.next.log
  state : newState = env.state w'.server

section Tracks

variable {env : MailEnvironment} {m m' : SelectedMailbox} {w w₁ w₂ w' : MailWorld} {id : String}

/-- Later changes stand after `last_state` as well. -/
theorem updatedSince_of_pending {k : ℕ} (hfollows : Follows w w') (hk : k ≤ w.server.journal.length)
    (h : Pending w.log id → w.server.journal.UpdatedSince k id) (hpending : Pending w'.log id) :
    w'.server.journal.UpdatedSince k id := by
  obtain hnew | ⟨hold, -⟩ := hfollows.pending id hpending
  · exact hnew.mono List.prefix_rfl hk
  · exact (h hold).mono hfollows.journal le_rfl

/-- A command that leaves `last_state` as it is. -/
theorem Tracks.keep (h : Tracks env m w) (hfollows : Follows w w')
    (hnumbered : Numbered env m'.state)
    (hstate : m'.state.lastState = m.state.lastState)
    (hview : ∀ id ∈ m'.state.jmapIds, id ∈ m.state.jmapIds ∨ id ∈ w.server.mailbox) :
    Tracks env m' w' := by
  obtain ⟨k, hlast, hk, hall⟩ := h.tracked
  refine ⟨hnumbered, k, hstate.trans hlast, hk.trans hfollows.journal.length_le, fun id hid ↦ ?_⟩
  refine updatedSince_of_pending hfollows hk (hall id ?_)
  rcases hid with hid | hid
  · exact hview id hid
  · exact .inr (hfollows.mailbox hid)

theorem Tracks.follows (h : Tracks env m w) (hfollows : Follows w w') : Tracks env m w' :=
  h.keep hfollows h.numbered rfl fun _ ↦ .inl

/-- A command that takes the new state for `last_state`. -/
theorem tracks_of_applies {newState : String} (hbefore : Follows w w₁)
    (hset : Applies env w₁ w₂ newState)
    (hafter : Follows w₂ w') (hspares : Spares m' w w') (hnumbered : Numbered env m'.state)
    (hstate : m'.state.lastState = newState) : Tracks env m' w' := by
  refine ⟨hnumbered, w₂.server.journal.length, hstate.trans hset.state, hafter.journal.length_le,
    fun id hid hpending ↦ ?_⟩
  obtain hnew | ⟨hold, hunsent⟩ := hafter.pending id hpending
  · exact hnew
  · rw [hset.log] at hold
    obtain ⟨events, hlog⟩ := hafter.log
    obtain ⟨earlier, hearlier⟩ := (hbefore.trans (follows_next w₁)).log
    have hlog' : w'.log = events ++ .set :: w₁.next.log := by rw [← hlog, hset.log]
    have hreported := hspares events.length ?_ (by simp [hlog']) id (List.mem_append.mpr hid) ?_
    · refine absurd ⟨events, hlog.symm, ?_⟩ hunsent
      simpa [hlog'] using hreported
    · rw [hlog', ← hearlier]
      simp only [List.length_append, List.length_cons]
      omega
    · have hdrop : w'.log.drop (events.length + 1) = w₁.next.log := by simp [hlog']
      rw [hdrop]
      exact hold

/-! ### STORE, MOVE and EXPUNGE -/

theorem carries_update (env : MailEnvironment) (ids : List String) (remove get : Bool)
    (w : MailWorld) :
    (env.answer (.update ids remove get) w).1 = none ∨
      ∃ reply, (env.answer (.update ids remove get) w).1 = some reply ∧
        Applies env w (env.answer (.update ids remove get) w).2 reply.newState := by
  rw [MailEnvironment.answer, MailEnvironment.act]
  cases w.moment.fails with
  | true => exact .inl rfl
  | false => exact .inr ⟨_, rfl, rfl, rfl⟩

theorem carries_destroy (env : MailEnvironment) (ids : Option (List String)) (w : MailWorld) :
    (env.answer (.destroy ids) w).1 = none ∨
      ∃ newState, (env.answer (.destroy ids) w).1 = some newState ∧
        Applies env w (env.answer (.destroy ids) w).2 newState := by
  rw [MailEnvironment.answer, MailEnvironment.act]
  cases w.moment.fails with
  | true => exact .inl rfl
  | false => exact .inr ⟨_, rfl, rfl, rfl⟩

theorem carries_copy (env : MailEnvironment) (ids : List String) (w : MailWorld) :
    (env.answer (.copy ids) w).1 = none ∨ (∃ copied, (env.answer (.copy ids) w).1 =
      some (copied, none)) ∨
      ∃ copied newState destroyed,
        (env.answer (.copy ids) w).1 = some (copied, some (newState, destroyed)) ∧
          Applies env w (env.answer (.copy ids) w).2 newState := by
  rw [MailEnvironment.answer, MailEnvironment.act]
  dsimp only
  cases w.moment.fails with
  | true => split <;> exact .inl rfl
  | false =>
      split
      · exact .inr (.inl ⟨_, rfl⟩)
      · exact .inr (.inr ⟨_, _, _, rfl, rfl, rfl⟩)

theorem numbered_withLastState (h : Numbered env m.state) (newState : String) :
    Numbered env (m.withLastState newState).state := ⟨h.uids, h.nodup⟩

theorem numbered_move (h : Numbered env m.state) (ids : List String) :
    Numbered env (m.apply (.move ids)).state := (h.removeMessages _).1

theorem tracks_store (h : Tracks env m w) (arguments : MailJob.StoreArguments)
    (hspares : Spares ((MailJob.storeFlags env m arguments).run env.answer w).1 w
      ((MailJob.storeFlags env m arguments).run env.answer w).2) :
    Tracks env ((MailJob.storeFlags env m arguments).run env.answer w).1
      ((MailJob.storeFlags env m arguments).run env.answer w).2 := by
  have hbefore := follows_run env (arguments.changes env m) w
  rw [MailJob.storeFlags, Job.run_bind] at hspares ⊢
  generalize (arguments.changes env m).run env.answer w = found at hbefore hspares ⊢
  obtain ⟨changes, w₁⟩ := found
  dsimp only at hbefore hspares ⊢
  cases hstore : ImapToJmap.store env.order env.db.modseqToState (fun _ ↦ changes) m
    arguments.sequence arguments.isUid arguments.unchangedSince with
  | error e => exact h.follows hbefore
  | ok request =>
      rw [hstore] at hspares
      dsimp only at hspares ⊢
      split
      · exact h.follows hbefore
      · rename_i hne
        rw [if_neg hne] at hspares
        rw [run_ask] at hspares ⊢
        have hcall := follows_answer env
          (.update (env.order request.ids).keys false (!arguments.isSilent)) w₁
        obtain hnone | ⟨reply, hsome, hset⟩ := carries_update env (env.order request.ids).keys false
          (!arguments.isSilent) w₁
        · rw [hnone]
          exact h.follows (hbefore.trans hcall)
        · rw [hsome] at hspares ⊢
          exact tracks_of_applies hbefore hset (follows_answer env _ _) hspares
            (numbered_withLastState h.numbered _) rfl

theorem tracks_move (h : Tracks env m w) (sequence : Sequence) (isUid : Bool) (dest : MailboxId)
    (mapped : Bool)
    (hspares : Spares ((MailJob.moveMessages env m sequence isUid dest mapped).run env.answer w).1 w
      ((MailJob.moveMessages env m sequence isUid dest mapped).run env.answer w).2) :
    Tracks env ((MailJob.moveMessages env m sequence isUid dest mapped).run env.answer w).1
      ((MailJob.moveMessages env m sequence isUid dest mapped).run env.answer w).2 := by
  rw [MailJob.moveMessages] at hspares ⊢
  cases hids : m.sequenceToJmap sequence isUid with
  | error e => exact h
  | ok ids =>
      cases ids with
      | nil => exact h
      | cons e ids =>
          rw [hids] at hspares
          dsimp only at hspares ⊢
          by_cases haccount : m.id.accountId = dest.accountId
          · rw [if_pos haccount] at hspares ⊢
            rw [run_ask] at hspares ⊢
            have hcall := follows_answer env
              (.update (env.order (e :: ids)).keys m.id.mailboxId.isSome false) w
            obtain hnone | ⟨reply, hsome, hset⟩ := carries_update env (env.order (e :: ids)).keys
              m.id.mailboxId.isSome false w
            · rw [hnone]
              exact h.follows hcall
            · rw [hsome] at hspares ⊢
              dsimp only at hspares ⊢
              have hnumbered := numbered_withLastState h.numbered reply.newState
              split
              · rename_i hstop
                rw [if_pos hstop] at hspares
                exact tracks_of_applies (Follows.refl w) hset (Follows.refl _) hspares hnumbered rfl
              · rename_i hstop
                rw [if_neg hstop] at hspares
                exact tracks_of_applies (Follows.refl w) hset (Follows.refl _) hspares
                  (numbered_move hnumbered _) rfl
          · rw [if_neg haccount] at hspares ⊢
            rw [run_ask] at hspares ⊢
            have hcall := follows_answer env (.copy (env.order (e :: ids)).keys) w
            obtain hnone | ⟨copied, hcopied⟩ | ⟨copied, newState, destroyed, hsome, hset⟩ :=
              carries_copy env (env.order (e :: ids)).keys w
            · rw [hnone]
              exact h.follows hcall
            · rw [hcopied]
              dsimp only [Option.elim]
              split
              · exact h.follows hcall
              · refine h.keep hcall (numbered_move h.numbered _) rfl fun id hid ↦ .inl ?_
                have hids' := (h.numbered.removeMessages fun x ↦ x.1 ∉ ([] : List String)).2
                exact List.mem_of_mem_filter (hids' ▸ hid)
            · rw [hsome] at hspares ⊢
              dsimp only [Option.elim] at hspares ⊢
              have hnumbered := numbered_withLastState h.numbered newState
              split
              · rename_i hstop
                rw [if_pos hstop] at hspares
                exact tracks_of_applies (Follows.refl w) hset (Follows.refl _) hspares hnumbered rfl
              · rename_i hstop
                rw [if_neg hstop] at hspares
                exact tracks_of_applies (Follows.refl w) hset (Follows.refl _) hspares
                  (numbered_move hnumbered _) rfl

/-- What `synchronize_messages` returns. -/
theorem answer_synchronizeMessages (env : MailEnvironment) (w : MailWorld) :
    env.answer .synchronizeMessages w = (none, w.next) ∨
      env.answer .synchronizeMessages w = (some (env.snapshot w.next.server), w.next) := by
  rw [MailEnvironment.answer, MailEnvironment.act]
  cases w.moment.fails with
  | true => exact .inl rfl
  | false => exact .inr rfl

theorem tracks_expunge (h : Tracks env m w) (sequence : Option Sequence)
    (hspares : Spares ((MailJob.expungeMessages env m sequence).run env.answer w).1 w
      ((MailJob.expungeMessages env m sequence).run env.answer w).2) :
    Tracks env ((MailJob.expungeMessages env m sequence).run env.answer w).1
      ((MailJob.expungeMessages env m sequence).run env.answer w).2 := by
  unfold MailJob.expungeMessages at hspares ⊢
  dsimp only at hspares ⊢
  split
  · exact h
  · rename_i e ids hids
    rw [hids] at hspares
    dsimp only at hspares
    rw [run_ask] at hspares ⊢
    have hcall := follows_answer env (.destroy ids) w
    obtain hnone | ⟨newState, hsome, hset⟩ := carries_destroy env ids w
    · rw [hnone]
      exact h.follows hcall
    · rw [hsome] at hspares ⊢
      dsimp only at hspares ⊢
      rw [run_ask] at hspares ⊢
      have hsync := follows_next (env.answer (.destroy ids) w).2
      obtain hfound | hfound := answer_synchronizeMessages env (env.answer (.destroy ids) w).2
      · rw [hfound]
        exact h.keep (hcall.trans hsync) h.numbered rfl fun _ ↦ .inl
      · rw [hfound] at hspares ⊢
        exact tracks_of_applies (Follows.refl w) hset hsync hspares
          ⟨(numbered_snapshot env _).uids, (numbered_snapshot env _).nodup⟩ rfl

/-! ### NOOP -/

theorem position?_stateName (env : MailEnvironment) {server : MailServer} {k : ℕ}
    (hk : k ≤ server.journal.length) : env.position? server (env.stateName k) = some k := by
  rw [MailEnvironment.position?, List.find?_range_eq_some]
  refine ⟨by simp, by simpa using Nat.lt_succ_of_le hk, fun j hj ↦ ?_⟩
  simp [env.stateName.injective.eq_iff, hj.ne]

/-- `Email/changes` since a state of the account. -/
theorem answer_changes (hw : w.Answered) {k : ℕ} (hk : k ≤ w.server.journal.length) :
    env.answer (.changes (env.stateName k)) w =
      (some (env.state w.next.server, ⟨(w.next.server.journal.since k).created,
        (w.next.server.journal.since k).updated, (w.next.server.journal.since k).destroyed⟩),
          w.next) := by
  have hnext : k ≤ w.next.server.journal.length := hk.trans (follows_next w).journal.length_le
  rw [MailEnvironment.answer, MailEnvironment.act, hw.moment, MailEnvironment.changesSince,
    position?_stateName env hnext]
  rfl

/-- The UIDs of what has been listed. -/
theorem mem_changedUids (h : Numbered env m.state) {changes : EmailChanges}
    (hid : id ∈ m.state.jmapIds)
    (hlisted : id ∈ changes.created ∨ id ∈ changes.updated) :
    env.uid id ∈ MailJob.changedUids m.state changes := by
  rw [MailJob.changedUids, h.pairs]
  refine List.mem_map.mpr ⟨(id, env.uid id), List.mem_filter.mpr ⟨List.mem_map.mpr ⟨id, hid, rfl⟩,
    ?_⟩, rfl⟩
  simpa using hlisted.symm

/-- NOOP, from the changes on: `w₁` is where it has asked for them, `w₂` where it has looked into
the mailbox, and `w'` where it ends. -/
theorem tracks_of_reported {k : ℕ}
    (hk : k ≤ w.server.journal.length)
    (hall : ∀ id, id ∈ m.state.jmapIds ∨ id ∈ w.server.mailbox → Pending w.log id →
      w.server.journal.UpdatedSince k id)
    (hfirst : Follows w w₁) (hsecond : Follows w₁ w₂) (hthird : Follows w₂ w')
    (hmailbox : w'.server.mailbox = w₂.server.mailbox)
    (hnumbered : Numbered env m'.state) (hview : ∀ id, id ∈ m'.state.jmapIds ↔
      id ∈ w₂.server.mailbox)
    (hstate : m'.state.lastState = env.state w₁.server)
    (hreported : ∀ id ∈ m'.state.jmapIds, w₁.server.journal.UpdatedSince k id → Sent w₂ w' id) :
    Tracks env m' w' ∧ ∀ id ∈ m'.state.jmapIds, Pending w.log id → Sent w w' id := by
  have hold : ∀ id ∈ m'.state.jmapIds, id ∈ w.server.mailbox :=
    fun id hid ↦ hfirst.mailbox (hsecond.mailbox ((hview id).mp hid))
  constructor
  · refine ⟨hnumbered, w₁.server.journal.length, hstate,
      (hsecond.trans hthird).journal.length_le, fun id hid hpending ↦ ?_⟩
    have hid' : id ∈ m'.state.jmapIds := by
      rcases hid with hid | hid
      · exact hid
      · exact (hview id).mpr (hmailbox ▸ hid)
    obtain hnew | ⟨hbefore, hunsent⟩ := (hsecond.trans hthird).pending id hpending
    · exact hnew
    · have hupdated := updatedSince_of_pending hfirst hk (hall id (.inr (hold id hid'))) hbefore
      exact absurd (hsecond.trans_sent (hreported id hid' hupdated)) hunsent
  · intro id hid hpending
    have hupdated := (hall id (.inr (hold id hid)) hpending).mono hfirst.journal le_rfl
    exact (hfirst.trans hsecond).trans_sent (hreported id hid hupdated)

/-- **NOOP reports** what is pending, and takes the state in which it has asked for `last_state`. -/
theorem tracks_noop (h : Tracks env m w) (hw : w.Answered) (isQresync : Bool) :
    Tracks env ((MailJob.writeChanges env m isQresync).run env.answer w).1
        ((MailJob.writeChanges env m isQresync).run env.answer w).2 ∧
      ∀ id ∈ ((MailJob.writeChanges env m isQresync).run env.answer w).1.state.jmapIds,
        Pending w.log id →
          Sent w ((MailJob.writeChanges env m isQresync).run env.answer w).2 id := by
  obtain ⟨k, hlast, hk, hall⟩ := h.tracked
  have hfirst := follows_next w
  have hw₁ : w.next.Answered := hw.follows hfirst
  have hsecond := follows_next w.next
  have hw₂ : w.next.next.Answered := hw₁.follows hsecond
  have hfound : env.answer .synchronizeMessages w.next =
      (some (env.snapshot w.next.next.server), w.next.next) := by
    rw [MailEnvironment.answer, MailEnvironment.act, hw₁.moment]
    rfl
  obtain ⟨hnumbered, hsame, hview⟩ := h.numbered.synchronize w.next.next.server
  rw [MailJob.writeChanges, run_ask, hlast, answer_changes hw hk]
  dsimp only
  rw [run_ask, hfound]
  dsimp only
  rw [hlast] at hsame
  generalize m.apply (.synchronize (env.snapshot w.next.next.server) true) =
    m₂ at hnumbered hsame hview ⊢
  have hold : ∀ id ∈ m₂.state.jmapIds, id ∈ w.server.mailbox :=
    fun id hid ↦ hfirst.mailbox (hsecond.mailbox ((hview id).mp hid))
  -- a message that is still in the mailbox has not been destroyed
  have hlisted : ∀ id ∈ m₂.state.jmapIds, w.next.server.journal.UpdatedSince k id →
      id ∈ (w.next.server.journal.since k).created ∨ id ∈ (w.next.server.journal.since k).updated :=
    fun id hid hupdated ↦
      hupdated.listed (w.next.server.alive id (hsecond.mailbox ((hview id).mp hid)))
  generalize w.next.server.journal.since k = changed at hlisted ⊢
  split
  · rename_i hzero
    have hnone : ∀ id ∈ m₂.state.jmapIds, ¬ w.next.server.journal.UpdatedSince k id := by
      intro id hid hupdated
      rcases hlisted id hid hupdated with hmem | hmem
      · have := List.length_pos_of_mem hmem
        omega
      · have := List.length_pos_of_mem hmem
        omega
    refine ⟨h.keep (hfirst.trans hsecond) hnumbered (hsame.trans hlast.symm)
      fun id hid ↦ .inr (hold id hid), fun id hid hpending ↦ ?_⟩
    exact absurd ((hall id (.inr (hold id hid)) hpending).mono hfirst.journal le_rfl) (hnone id hid)
  · have hnumbered' := numbered_withLastState hnumbered (env.state w.next.server)
    generalize hm₃ : m₂.withLastState (env.state w.next.server) = m₃ at hnumbered' ⊢
    have hview' : ∀ id, id ∈ m₃.state.jmapIds ↔ id ∈ w.next.next.server.mailbox := by
      rw [← hm₃]
      exact hview
    have hstate : m₃.state.lastState = env.state w.next.server := by
      rw [← hm₃]
      rfl
    have huid : ∀ id ∈ m₃.state.jmapIds, w.next.server.journal.UpdatedSince k id → env.uid id ∈
        MailJob.changedUids m₃.state ⟨changed.created, changed.updated, changed.destroyed⟩ :=
      fun id hid hupdated ↦ mem_changedUids hnumbered' hid
        (hlisted id ((hview id).mpr ((hview' id).mp hid)) hupdated)
    split
    · rename_i hnil
      rw [hnil] at huid
      exact tracks_of_reported hk hall hfirst hsecond (Follows.refl _) rfl hnumbered' hview' hstate
        fun id hid hupdated ↦ absurd (huid id hid hupdated) List.not_mem_nil
    · rw [Job.run_bind, Job.run_pure]
      refine tracks_of_reported hk hall hfirst hsecond (follows_run env _ _)
        (mailbox_run (uses_fetchFlags ..) _) hnumbered' hview' hstate fun id hid hupdated ↦ ?_
      exact sent_fetchFlags hnumbered' hw₂ hid (huid id hid hupdated) ((hview' id).mp hid) isQresync

/-! ### SELECT -/

theorem tracks_select (env : MailEnvironment) (id : MailboxId) (isSelect : Bool) (w w' : MailWorld)
    {m : SelectedMailbox}
    (h : (MailJob.selectMailbox id isSelect).run env.answer w = (some m, w')) :
    Tracks env m { w' with log := [] } := by
  rw [MailJob.selectMailbox, run_ask] at h
  obtain hfound | hfound := answer_synchronizeMessages env w
  · rw [hfound] at h
    cases h
  · rw [hfound] at h
    dsimp only at h
    rw [run_ask, MailEnvironment.answer, MailEnvironment.act] at h
    cases hfails : w.next.moment.fails with
    | true =>
        rw [hfails] at h
        cases h
    | false =>
        rw [hfails] at h
        have hselected : (some (SelectedMailbox.mk id
            { env.snapshot w.next.server with lastState := env.state w.next.next.server } .none
              isSelect), w.next.next) = (some m, w') := h
        obtain ⟨hm, rfl⟩ := Prod.mk.inj hselected
        obtain rfl := Option.some.inj hm
        refine ⟨⟨rfl, w.next.server.nodup⟩, w.next.next.server.journal.length, rfl, le_rfl, ?_⟩
        exact fun _ _ hpending ↦ hpending.elim

end Tracks

/-! ## Histories -/

/-- A session with a mailbox selected tracks its changes. -/
def Tracking (env : MailEnvironment) : Option Watching → Prop
  | none => True
  | some (m, w) => Tracks env m w

/-- A NOOP gets its answers; STORE, MOVE and EXPUNGE pass over no pending change. -/
def Steady (env : MailEnvironment) : Option Watching → MailInput → Prop
  | some _, .command (.noop _) moments => ∀ moment ∈ moments, moment.fails = false
  | some (m, w), .command command moments =>
      Spares ((command.job env m).run env.answer { w with moments }).1 { w with moments }
        ((command.job env m).run env.answer { w with moments }).2
  | _, _ => True

/-- A NOOP reports every message of the view that another client has changed since the SELECT,
unless that has been reported before. -/
def Tells (env : MailEnvironment) : Option Watching → MailInput → Prop
  | some (m, w), .command (.noop isQresync) moments =>
      ∀ id ∈ ((MailJob.writeChanges env m isQresync).run env.answer
        { w with moments }).1.state.jmapIds,
        Pending w.log id →
          Sent w ((MailJob.writeChanges env m isQresync).run env.answer { w with moments }).2 id
  | _, _ => True

instance (env : MailEnvironment) : ∀ s i, Decidable (Steady env s i)
  | some _, .command (.noop _) moments =>
      inferInstanceAs (Decidable (∀ moment ∈ moments, moment.fails = false))
  | some _, .command (.store _) _ | some _, .command (.move ..) _ | some _,
      .command (.expunge _) _ =>
      inferInstanceAs (Decidable (Spares _ _ _))
  | none, _ | some _, .select .. => .isTrue trivial

instance (env : MailEnvironment) : ∀ s i, Decidable (Tells env s i)
  | some (m, w), .command (.noop isQresync) moments =>
      inferInstanceAs (Decidable (∀ id ∈ ((MailJob.writeChanges env m isQresync).run env.answer
        { w with moments }).1.state.jmapIds, Pending w.log id → Sent w _ id))
  | some _, .command (.store _) _ | some _, .command (.move ..) _ | some _,
      .command (.expunge _) _ |
    none, _ | some _, .select .. => .isTrue trivial

section Histories

variable {env : MailEnvironment} {s : Option Watching} {i : MailInput}

theorem tracks_moments {m : SelectedMailbox} {w : MailWorld} (h : Tracks env m w)
    (moments : List Moment) : Tracks env m { w with moments } := ⟨h.numbered, h.tracked⟩

theorem tracking_watch (h : Tracking env s) (hi : Steady env s i) :
    Tracking env (watch env s i) := by
  cases i with
  | select id isSelect server moments =>
      rw [watch]
      split
      · rename_i m w hselected
        exact tracks_select env id isSelect _ w hselected
      · exact h
  | command command moments =>
      cases s with
      | none => trivial
      | some s =>
          obtain ⟨m, w⟩ := s
          have h' := tracks_moments h moments
          cases command with
          | noop isQresync => exact (tracks_noop h' hi isQresync).1
          | store arguments => exact tracks_store h' arguments hi
          | expunge sequence => exact tracks_expunge h' sequence hi
          | move sequence isUid dest mapped =>
              show Tracks env ((MailCommand.job env m _).run _ _).1 _
              have hi' : Spares _ _ _ := hi
              rw [MailCommand.job] at hi' ⊢
              split
              · exact h'
              · rename_i hne
                rw [if_neg hne] at hi'
                exact tracks_move h' sequence isUid dest mapped hi'

theorem tells_of_tracking (h : Tracking env s) (hi : Steady env s i) : Tells env s i := by
  cases s with
  | none => trivial
  | some s =>
      obtain ⟨m, w⟩ := s
      cases i with
      | select => trivial
      | command command moments =>
          cases command with
          | noop isQresync => exact (tracks_noop (tracks_moments h moments) hi isQresync).2
          | _ => trivial

/-- **NOOP reports what other clients have changed**, in every history in which STORE, MOVE and
EXPUNGE do not pass over pending changes. -/
theorem along_tells (env : MailEnvironment) (is : List MailInput)
    (h : Run.Along (watch env) (Steady env) none is) : Run.Along (watch env) (Tells env) none is :=
  Run.along_of_inv (Tracking env) trivial (fun _ _ ↦ tracking_watch) (fun _ _ ↦ tells_of_tracking) h

/-- States and UIDs by which a server and a database may go. -/
def plainEnvironment : MailEnvironment where
  stateName := ⟨fun n ↦ String.ofList (List.replicate n 's'), fun m n h ↦ by
    simpa using congrArg List.length (String.ofList_injective h)⟩
  uid := ⟨fun id ↦ Encodable.encode (id.toList.map Char.toNat) + 1, fun a b h ↦ by
    have hmap := Encodable.encode_injective (Nat.succ.inj h)
    have hlist := (List.map_injective_iff.mpr fun c d hcd ↦ Char.toNat_inj.mp hcd) hmap
    exact String.toList_inj.mp hlist⟩
  uid_pos _ := Nat.succ_pos _
  uidValidity := 1
  uidNext := 1
  db := ⟨fun _ ↦ none, fun _ ↦ none, fun _ ↦ none⟩
  order := id
  order_perm _ := .refl _
  chunks ids := [ids]
  flatten_chunks _ := by simp

/-- A mailbox with two messages. -/
def twoEmails : MailServer where
  journal := []
  mailbox := ["a", "b"]
  nodup := by decide
  alive := by simp [Journal.Alive]

/-- Another client changes `a` before NOOP asks for the changes. -/
theorem along_tells_noop : Run.Along (watch plainEnvironment) (Tells plainEnvironment) none
    [.select ⟨"u", some "m"⟩ true twoEmails [], .command (.store ⟨.number 2, false, none, true⟩)
      [{ accepted := ["b"] }], .command (.noop false) [{ others := ["a"] }],
        .command (.noop false) []] :=
  along_tells _ _ (by decide +kernel)

/-- Another client changes `a` before STORE updates `b`: the NOOP after it does not tell of `a`. -/
theorem along_tells_store : ¬ Run.Along (watch plainEnvironment) (Tells plainEnvironment) none
    [.select ⟨"u", some "m"⟩ true twoEmails [], .command (.store ⟨.number 2, false, none, true⟩)
      [{ others := ["a"], accepted := ["b"] }], .command (.noop false) []] := by
  decide +kernel

end Histories

end ImapToJmap
