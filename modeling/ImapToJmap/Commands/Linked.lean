import ImapToJmap.Commands.Selected
import ImapToJmap.Core.UidMap

/-!
# The view of a mailbox and its UID table

A session sees the UID table of its selected mailbox through snapshots, and keeps its own list of
messages, the view.  The two drift apart while other sessions work on the mailbox.  `Linked` is what
remains true of them: the messages of the table that are not in the view are numbered above
everything the view has ever shown.

Tables only move forward (`UidTable.Later`), as long as nobody makes the database forget the
mailbox.  A snapshot of a linked table continues the view (`Linked.continues`), and the view edited
by it is linked to that table and to every later one (`Linked.apply_snapshot`).  MOVE takes its
messages out of the view first and out of the table later, so `Linked` has a list of the emails
that are still to be removed from the table.
-/

namespace ImapToJmap

open Kv

/-! ## Tables under the calls of all sessions -/

/-- Every mailbox has a table. -/
def Tables (db : Db) (T : MailboxId → UidTable String) : Prop :=
  ∀ m : MailboxId, m.WellFormed → Represents db m (T m)

/-- A call that keeps the numbering of a mailbox: it does not reset it, and uses up no counter. -/
structure UidOp.Allowed (mailbox : MailboxId) (db : Db) (op : UidOp) : Prop where
  wellFormed : op.WellFormed
  not_resets : ¬ op.Resets mailbox
  within : ∀ m ∈ op.target, db.counter m + op.allocations m db + 1 < 2 ^ 32

instance UidOp.decidableAllowed (mailbox : MailboxId) (db : Db) (op : UidOp) :
    Decidable (op.Allowed mailbox db) :=
  decidable_of_iff (op.WellFormed ∧ ¬ op.Resets mailbox ∧
      ∀ m ∈ op.target, db.counter m + op.allocations m db + 1 < 2 ^ 32)
    ⟨fun h ↦ ⟨h.1, h.2.1, h.2.2⟩, fun h ↦ ⟨h.wellFormed, h.not_resets, h.within⟩⟩

section

variable {db db' : Db} {T : MailboxId → UidTable String} {mailbox : MailboxId}

theorem UidOp.Allowed.next_lt {op : UidOp} (h : op.Allowed mailbox db) (hT : Tables db T)
    {m : MailboxId} (hm : m ∈ op.target) : (T m).next + op.allocations m db + 1 < 2 ^ 32 :=
  (hT m (UidOp.target_wellFormed h.wellFormed hm)).counter_eq ▸ h.within m hm

/-- Any allowed call. -/
theorem UidOp.Allowed.tables {op : UidOp} (h : op.Allowed mailbox db) (hT : Tables db T)
    (hm : mailbox.WellFormed) :
    ∃ T', Tables (op.apply db) T' ∧ (T mailbox).Later (T' mailbox) := by
  have hstep : ∀ m : MailboxId, ∃ T', m.WellFormed → Represents (op.apply db) m T' ∧
      (¬ op.Resets m → (T m).Later T') := by
    intro m
    by_cases hwf : m.WellFormed
    · obtain ⟨T', hrep, -, hlater⟩ :=
        op.apply_represents h.wellFormed T hT (fun m hm ↦ h.next_lt hT hm) m hwf
      exact ⟨T', fun _ ↦ ⟨hrep, hlater⟩⟩
    · exact ⟨.empty, fun hc ↦ absurd hc hwf⟩
  choose T' hT' using hstep
  exact ⟨T', fun m hm ↦ (hT' m hm).1, (hT' mailbox hm).2 h.not_resets⟩

/-- The tables of a database that calls have led to. -/
theorem exec_tables (ops : List UidOp) (hops : ∀ op ∈ ops, op.WellFormed)
    (hlt : ∀ m : MailboxId, m.WellFormed → allocated m ∅ ops < 2 ^ 32 - 1) :
    ∃ T, Tables (Run.exec UidOp.apply ∅ ops) T := by
  have hall : ∀ m : MailboxId, ∃ T', m.WellFormed →
      Represents (Run.exec UidOp.apply ∅ ops) m T' := by
    intro m
    by_cases hm : m.WellFormed
    · obtain ⟨T', hT'⟩ := exec_represents_empty ops hops hlt m hm
      exact ⟨T', fun _ ↦ hT'⟩
    · exact ⟨.empty, fun hc ↦ absurd hc hm⟩
  choose T hT using hall
  exact ⟨T, hT⟩

/-- A call that is about one mailbox changes one table. -/
theorem Tables.update (hT : Tables db T) (hm : mailbox.WellFormed) (hf : Frame mailbox db db')
    {T' : UidTable String} (h' : Represents db' mailbox T') :
    Tables db' (Function.update T mailbox T') := by
  intro m hwf
  by_cases heq : m = mailbox
  · subst heq
    simpa using h'
  · rw [Function.update_of_ne heq]
    exact (hT m hwf).frame hf hwf hm (Ne.symm heq)

/-- `Core::uids` reads, and fixes the UID validity on first use. -/
theorem Tables.uids (hT : Tables db T) (hm : mailbox.WellFormed) (now : ℕ) :
    Tables ((Db.uids mailbox now).run db).2 T := by
  obtain ⟨v, db', hval, hrep, hf⟩ := Db.uidValidity_run (hT mailbox hm) now
  have hrun : ((Db.uids mailbox now).run db).2 = db' := by
    rw [Db.uids, Prog.run_bind_of_eq hval, Prog.run_bind, Db.uidNext,
      Prog.run_bind_of_eq (Prog.run_read _ _)]
    cases db'[serializeUidNextKey mailbox]? with
    | none => rfl
    | some bytes =>
        rw [Prog.run_bind, Prog.run_ofOption]
        cases u32FromBe bytes <;> rfl
  rw [hrun]
  have := hT.update hm hf hrep
  rwa [Function.update_eq_self] at this

/-- A snapshot of a table, as `update_uids` returns it. -/
structure IsSnapshot (data : MailboxData) (T : UidTable String) : Prop where
  jmapIds : data.jmapIds = T.ids
  imapUids : data.imapUids = T.uids
  total : data.totalMessages = data.imapUids.length

/-- A listing of the mailbox. -/
theorem Tables.updateUids (hT : Tables db T) (hm : mailbox.WellFormed) {clock : Clock}
    {listing : List String}
    (h : (UidOp.updateUids mailbox clock listing).Allowed mailbox db) :
    ∃ data db' T', (Db.updateUids mailbox clock listing).run db = (some data, db') ∧
      Tables db' T' ∧ (T mailbox).Later (T' mailbox) ∧ IsSnapshot data (T' mailbox) := by
  obtain ⟨-, hid, hnd⟩ := h.wellFormed
  have hlt := h.next_lt hT rfl
  have hnext := Db.updateUids_next (hT mailbox hm) hid hnd clock (Nat.lt_of_succ_lt hlt)
  obtain ⟨data, db', hrun, hrep, hf, hids, huids, htotal, -⟩ :=
    Db.updateUids_run (hT mailbox hm) clock hid hnd (by rw [hnext]; exact hlt)
  refine ⟨data, db', _, hrun, hT.update hm hf hrep, ?_, ?_⟩
  · rw [Function.update_self]
    exact UidTable.later_sync _ _
  · rw [Function.update_self]
    exact ⟨hids, huids, htotal⟩

/-- MOVE removes messages from the table. -/
theorem Tables.deleteIds (hT : Tables db T) (hm : mailbox.WellFormed) (clock : Clock)
    (ids : List String) :
    ∃ db', (UidOp.deleteIds mailbox clock ids).apply db = db' ∧
      Tables db' (Function.update T mailbox ((T mailbox).restrict (· ∉ ids))) := by
  obtain ⟨db', hrun, hrep, hf⟩ := Db.deleteIds_run (hT mailbox hm) clock ids
  exact ⟨db', by rw [UidOp.apply, hrun], hT.update hm hf hrep⟩

end

/-! ## Views and tables -/

section

variable {data state : MailboxData} {T T' : UidTable String}

theorem IsSnapshot.ordered (h : IsSnapshot data T) : data.Ordered where
  length_eq := by rw [h.jmapIds, h.imapUids, UidTable.ids, UidTable.uids]; simp
  increasing := h.imapUids ▸ T.pairwise_uids
  total := h.total

theorem IsSnapshot.mem_pairs (h : IsSnapshot data T) {i : String} {u : ℕ} :
    (i, u) ∈ data.pairs ↔ (u, i) ∈ T.entries := by
  rw [MailboxData.pairs, h.jmapIds, h.imapUids, UidTable.ids, UidTable.uids, List.zip_map']
  simp

/-- What a view has to do with a table: `gone` are the UIDs that have left the view, `awaiting` the
emails that are still to leave the table. -/
structure Linked (awaiting : List String) (state : MailboxData) (gone : List ℕ)
    (T : UidTable String) : Prop where
  le_next : ∀ u ∈ state.imapUids ++ gone, u ≤ T.next
  entries : ∀ e ∈ T.entries, e.2 ∈ awaiting ∨ (e.2, e.1) ∈ state.pairs ∨
    ∀ v ∈ state.imapUids ++ gone, v < e.1

namespace Linked

variable {awaiting : List String} {gone : List ℕ}

/-- The table moves on. -/
theorem later (h : Linked awaiting state gone T) (hT : T.Later T') :
    Linked awaiting state gone T' where
  le_next u hu := (h.le_next u hu).trans hT.next_le
  entries e he := (hT.entries e he).elim (h.entries e)
    fun hlt ↦ .inr (.inr fun v hv ↦ (h.le_next v hv).trans_lt hlt)

/-- A snapshot of the table continues the view. -/
theorem continues (h : Linked [] state gone T) (hdata : IsSnapshot data T) :
    state.Continues data := by
  intro u hu
  rw [hdata.imapUids] at hu
  obtain ⟨i, hi⟩ := UidTable.mem_uids.mp hu
  rcases h.entries _ hi with hc | hpair | habove
  · simp at hc
  · exact .inl (List.of_mem_zip hpair).2
  · exact .inr fun v hv ↦ habove v (List.mem_append_left _ hv)

/-- The view right after SELECT. -/
theorem of_isSnapshot (hdata : IsSnapshot data T) : Linked [] data [] T where
  le_next u hu := by
    rw [List.append_nil, hdata.imapUids] at hu
    obtain ⟨i, hi⟩ := UidTable.mem_uids.mp hu
    exact UidTable.le_next hi
  entries e he := .inr (.inl (hdata.mem_pairs.mpr he))

/-- None of the emails that are to leave the table is in it. -/
theorem of_disjoint (h : Linked awaiting state gone T)
    (hdisj : ∀ e ∈ T.entries, e.2 ∉ awaiting) : Linked [] state gone T where
  le_next := h.le_next
  entries e he := .inr ((h.entries e he).resolve_left (hdisj e he))

theorem of_nil (h : Linked [] state gone T) (awaiting : List String) :
    Linked awaiting state gone T where
  le_next := h.le_next
  entries e he := .inr ((h.entries e he).resolve_left (by simp))

/-- The table catches up with a removal. -/
theorem restrict {awaiting' ids : List String} (h : Linked awaiting state gone T)
    (hsub : ∀ i ∈ awaiting, i ∈ awaiting' ∨ i ∈ ids) :
    Linked awaiting' state gone (T.restrict (· ∉ ids)) where
  le_next := h.le_next
  entries e he := by
    obtain ⟨he, hnot⟩ := UidTable.mem_restrict.mp he
    refine (h.entries e he).imp_left fun hi ↦ (hsub _ hi).resolve_right ?_
    simpa using hnot

end Linked

/-- The UIDs that an edit takes out of the view. -/
def removedUids (state state' : MailboxData) : List ℕ :=
  state.imapUids.filter (· ∉ state'.imapUids)

@[simp] theorem removedUids_self (state : MailboxData) : removedUids state state = [] :=
  List.filter_eq_nil_iff.mpr fun u hu ↦ by simpa using hu

namespace Linked

variable {awaiting : List String} {gone : List ℕ} {state' : MailboxData}

/-- An edit shows nothing that was not shown before. -/
theorem mem_removedUids {u : ℕ} (h : u ∈ gone ++ removedUids state state') :
    u ∈ gone ∨ u ∈ state.imapUids :=
  (List.mem_append.mp h).imp_right List.mem_of_mem_filter

/-- **The view catches up with the table** by a snapshot, and is linked to all later tables. -/
theorem catchUp (h : Linked [] state gone T) (hdata : IsSnapshot data T) (hT : T.Later T')
    (huids : ∀ u ∈ state'.imapUids, u ∈ state.imapUids ∨ u ∈ data.imapUids)
    (hpairs : ∀ x ∈ data.pairs, x ∈ state'.pairs) :
    Linked [] state' (gone ++ removedUids state state') T' := by
  have hle : ∀ u ∈ state'.imapUids ++ (gone ++ removedUids state state'), u ≤ T.next := by
    intro u hu
    rcases List.mem_append.mp hu with hu | hu
    · rcases huids u hu with hu | hu
      · exact h.le_next u (List.mem_append_left _ hu)
      · rw [hdata.imapUids] at hu
        obtain ⟨i, hi⟩ := UidTable.mem_uids.mp hu
        exact UidTable.le_next hi
    · rcases mem_removedUids hu with hu | hu
      · exact h.le_next u (List.mem_append_right _ hu)
      · exact h.le_next u (List.mem_append_left _ hu)
  refine ⟨fun u hu ↦ (hle u hu).trans hT.next_le, fun e he ↦ .inr ?_⟩
  rcases hT.entries e he with he | hlt
  · exact .inl (hpairs _ (hdata.mem_pairs.mpr he))
  · exact .inr fun v hv ↦ (hle v hv).trans_lt hlt

/-- What has left the view does not come back by a snapshot. -/
theorem notMem_catchUp (h : Linked [] state gone T) (hdata : IsSnapshot data T)
    (huids : ∀ u ∈ state'.imapUids, u ∈ state.imapUids ∨ u ∈ data.imapUids)
    (hgone : ∀ u ∈ gone, u ∉ state.imapUids) :
    ∀ u ∈ gone ++ removedUids state state', u ∉ state'.imapUids := by
  intro u hu hmem
  rcases List.mem_append.mp hu with hu | hu
  · rcases huids u hmem with hc | hc
    · exact hgone u hu hc
    · rw [hdata.imapUids] at hc
      obtain ⟨i, hi⟩ := UidTable.mem_uids.mp hc
      rcases h.entries _ hi with hc | hpair | habove
      · simp at hc
      · exact hgone u hu (List.of_mem_zip hpair).2
      · exact lt_irrefl u (habove u (List.mem_append_right _ hu))
  · have hnot : u ∉ state'.imapUids := by simpa using (List.mem_filter.mp hu).2
    exact hnot hmem

/-- MOVE takes messages out of the view. -/
theorem removeMessages (h : Linked awaiting state gone T) (ids : List String) :
    Linked (ids ++ awaiting) (state.removeMessages fun x ↦ x.1 ∉ ids)
      (gone ++ removedUids state (state.removeMessages fun x ↦ x.1 ∉ ids)) T := by
  have hsub : ∀ u ∈ (state.removeMessages fun x ↦ x.1 ∉ ids).imapUids ++
      (gone ++ removedUids state (state.removeMessages fun x ↦ x.1 ∉ ids)),
      u ∈ state.imapUids ++ gone := by
    intro u hu
    rcases List.mem_append.mp hu with hu | hu
    · exact List.mem_append_left _ (MailboxData.mem_of_mem_removeMessages hu)
    · exact List.mem_append.mpr (mem_removedUids hu).symm
  refine ⟨fun u hu ↦ h.le_next u (hsub u hu), fun e he ↦ ?_⟩
  rcases h.entries e he with hawait | hpair | habove
  · exact .inl (List.mem_append_right _ hawait)
  · by_cases hin : e.2 ∈ ids
    · exact .inl (List.mem_append_left _ hin)
    · refine .inr (.inl ?_)
      rw [MailboxData.pairs_removeMessages]
      exact List.mem_filter.mpr ⟨hpair, by simpa using hin⟩
  · exact .inr (.inr fun v hv ↦ habove v (hsub v hv))

/-- Fewer messages to account for. -/
theorem forget (h : Linked awaiting state gone T) : Linked awaiting state [] T where
  le_next u hu := h.le_next u (List.mem_append_left _ (by simpa using hu))
  entries e he := (h.entries e he).imp_right (Or.imp_right fun habove v hv ↦
    habove v (List.mem_append_left _ (by simpa using hv)))

end Linked

/-! ## The edits by snapshots -/

namespace SelectedMailbox

/-- The edit is made by a snapshot of a table. -/
def ViewStep.FromTable (T : UidTable String) : ViewStep → Prop
  | .saveSearch .. => True
  | .synchronize snapshot _ => IsSnapshot snapshot T
  | .move _ => False
  | .expunge snapshot _ => ∀ data ∈ snapshot, IsSnapshot data T

variable {m : SelectedMailbox} {step : ViewStep} {gone : List ℕ}

/-- A snapshot of a linked table continues the view. -/
theorem ViewStep.FromTable.continues (hstep : step.FromTable T) (h : Linked [] m.state gone T) :
    step.Continues m.state := by
  cases step with
  | saveSearch => trivial
  | synchronize snapshot removeMissing => exact ⟨hstep.ordered, h.continues hstep⟩
  | move => exact hstep.elim
  | expunge snapshot jmapState =>
      exact fun data hdata ↦ ⟨(hstep data hdata).ordered, h.continues (hstep data hdata)⟩

/-- What an edit by a snapshot shows: nothing new, or the messages of the snapshot. -/
theorem ViewStep.FromTable.apply_cases (hstep : step.FromTable T) (hs : m.state.Ordered)
    (h : Linked [] m.state gone T) :
    ((m.apply step).state = m.state) ∨ ∃ data, IsSnapshot data T ∧
      (∀ u ∈ (m.apply step).state.imapUids, u ∈ m.state.imapUids ∨ u ∈ data.imapUids) ∧
      ∀ x ∈ data.pairs, x ∈ (m.apply step).state.pairs := by
  cases step with
  | saveSearch => exact .inl rfl
  | synchronize snapshot removeMissing =>
      have hcont := h.continues hstep
      have hsync := hs.synchronized hstep.ordered hcont removeMissing
      rw [apply_synchronize hs hstep.ordered]
      refine .inr ⟨snapshot, hstep, fun u hu ↦ ?_, fun x hx ↦ ?_⟩
      · rw [← hsync.aligned.map_snd_pairs, MailboxData.pairs_synchronized, List.map_append] at hu
        rcases List.mem_append.mp hu with hu | hu
        · obtain ⟨x, hx, rfl⟩ := List.mem_map.mp hu
          exact .inl (List.of_mem_zip (List.mem_of_mem_filter hx)).2
        · obtain ⟨x, hx, rfl⟩ := List.mem_map.mp hu
          exact .inr (List.of_mem_zip (List.mem_of_mem_filter hx)).2
      · rw [MailboxData.pairs_synchronized]
        have huid : x.2 ∈ snapshot.imapUids := (List.of_mem_zip hx).2
        rcases h.entries _ (hstep.mem_pairs.mp hx) with hc | hpair | habove
        · simp at hc
        · refine List.mem_append_left _ (List.mem_filter.mpr ⟨hpair, ?_⟩)
          simp [MailboxData.keeps, huid]
        · refine List.mem_append_right _ (List.mem_filter.mpr ⟨hx, ?_⟩)
          rw [decide_eq_true_eq, MailboxData.kept]
          intro hmem
          have hin := MailboxData.mem_of_mem_removeMessages hmem
          exact lt_irrefl _ (habove x.2 (List.mem_append_left _ hin))
  | move => exact hstep.elim
  | expunge snapshot jmapState =>
      cases snapshot with
      | none => exact .inl rfl
      | some snapshot =>
          exact .inr ⟨snapshot, hstep snapshot rfl, fun u hu ↦ .inr hu, fun x hx ↦ hx⟩

/-- **An edit by a snapshot** leaves the view linked to every later table. -/
theorem ViewStep.FromTable.linked (hstep : step.FromTable T) (hs : m.state.Ordered)
    (h : Linked [] m.state gone T) (hT : T.Later T') :
    Linked [] (m.apply step).state (gone ++ removedUids m.state (m.apply step).state) T' := by
  rcases hstep.apply_cases hs h with hsame | ⟨data, hdata, huids, hpairs⟩
  · rw [hsame]
    simpa using h.later hT
  · exact h.catchUp hdata hT huids hpairs

/-- **An edit by a snapshot** brings nothing back. -/
theorem ViewStep.FromTable.notMem (hstep : step.FromTable T) (hs : m.state.Ordered)
    (h : Linked [] m.state gone T) (hgone : ∀ u ∈ gone, u ∉ m.state.imapUids) :
    ∀ u ∈ gone ++ removedUids m.state (m.apply step).state,
      u ∉ (m.apply step).state.imapUids := by
  rcases hstep.apply_cases hs h with hsame | ⟨data, hdata, huids, -⟩
  · rw [hsame]
    simpa using hgone
  · exact h.notMem_catchUp hdata huids hgone

end SelectedMailbox

end

end ImapToJmap
