import ImapToJmap.Commands.Linked

/-!
# Snapshots that are applied late

SEARCH, SORT, THREAD, APPEND and MOVE run in tasks of their own, EXPUNGE and NOOP in the task that
reads the commands.  Each of them takes a snapshot of the mailbox with `synchronize_messages` and
applies it to the view at some later moment, and other tasks of the session may edit the view in
between.  Here the taking of a snapshot and its application are separate steps, in any order.

A snapshot says nothing of what has happened since it was taken, and nothing in the code compares
the two moments.  `view_never_regresses`: the view stays in order and never regains a message that
has been expunged from it, in every run in which

* a snapshot is applied only if no snapshot taken after it has been applied before, and
* it does not list an email that a MOVE has taken out of the view, unless the MOVE had deleted the
  email from the UID database before the snapshot was taken.

Without the first, a search that is slower than an EXPUNGE brings the expunged message back, at the
end of the list (`stale_snapshot_regains`).
-/

namespace ImapToJmap

open SelectedMailbox

/-- A snapshot that a task holds. -/
structure Snapshot where
  data : MailboxData
  /-- The emails that MOVE commands have taken out of the view, and had not deleted from the
  database when the snapshot was taken. -/
  moved : List String

/-- A session with its running tasks. -/
structure Tasks where
  db : Db
  selected : SelectedMailbox
  /-- All snapshots, in the order in which they were taken. -/
  snapshots : List Snapshot
  /-- The emails that running MOVE commands have taken out of the view and not yet deleted from the
  database. -/
  moving : List (List String)
  /-- The UIDs that have left the view, and so have been or are about to be announced by EXPUNGE or
  VANISHED. -/
  expunged : List ℕ
  /-- The last of the snapshots that have been applied. -/
  latest : ℕ

namespace Tasks

/-- One step of one of the tasks, or of another session. -/
inductive Step where
  | other (op : UidOp)
  | /-- `Core::uids`, by any session. -/
    uids (mailbox : MailboxId) (now : ℕ)
  | /-- `synchronize_messages`, given the listing the server returns. -/
    take (clock : Clock) (listing : List String)
  | /-- `synchronize_uids` with a snapshot. -/
    synchronize (snapshot : ℕ) (removeMissing : Bool)
  | /-- EXPUNGE replaces the view by a snapshot. -/
    expunge (snapshot : ℕ) (jmapState : String)
  | /-- MOVE takes its messages out of the view. -/
    move (destroyedIds : List String)
  | /-- The `delete_ids` of a running MOVE. -/
    deleteIds (move : ℕ) (clock : Clock)

/-- Edit the view. -/
def edit (s : Tasks) (step : ViewStep) : Tasks :=
  { s with
    selected := s.selected.apply step
    expunged := s.expunged ++ removedUids s.selected.state (s.selected.apply step).state }

/-- Apply a snapshot. -/
def applySnapshot (s : Tasks) (i : ℕ) (step : MailboxData → ViewStep) : Tasks :=
  match s.snapshots[i]? with
  | some snapshot => { s.edit (step snapshot.data) with latest := max s.latest i }
  | none => s

def apply (s : Tasks) : Step → Tasks
  | .other op => { s with db := op.apply s.db }
  | .uids mailbox now => { s with db := ((Db.uids mailbox now).run s.db).2 }
  | .take clock listing =>
      match (Db.updateUids s.selected.id clock listing).run s.db with
      | (some data, db) =>
          { s with
            db := db
            snapshots := s.snapshots ++ [⟨data, s.moving.flatten⟩] }
      | (none, db) => { s with db := db }
  | .synchronize i removeMissing => s.applySnapshot i (.synchronize · removeMissing)
  | .expunge i jmapState => s.applySnapshot i fun data ↦ .expunge data jmapState
  | .move destroyedIds =>
      { s.edit (.move destroyedIds) with
        moving := destroyedIds :: s.moving
        snapshots := s.snapshots.map fun x ↦ { x with moved := destroyedIds ++ x.moved } }
  | .deleteIds k clock =>
      match s.moving[k]? with
      | some destroyedIds =>
          { s with
            db := (UidOp.deleteIds s.selected.id clock destroyedIds).apply s.db
            moving := s.moving.eraseIdx k }
      | none => s

/-- A snapshot may be applied. -/
def Current (s : Tasks) (i : ℕ) : Prop :=
  s.latest ≤ i ∧ ∀ snapshot ∈ s.snapshots[i]?, ∀ jmapId ∈ snapshot.moved,
    jmapId ∉ snapshot.data.jmapIds

instance (s : Tasks) (i : ℕ) : Decidable (s.Current i) :=
  inferInstanceAs (Decidable (s.latest ≤ i ∧ ∀ snapshot ∈ s.snapshots[i]?,
    ∀ jmapId ∈ snapshot.moved, jmapId ∉ snapshot.data.jmapIds))

/-- The condition on a step. -/
def InOrder (s : Tasks) : Step → Prop
  | .other op => op.Allowed s.selected.id s.db
  | .uids mailbox _ => mailbox.WellFormed
  | .take clock listing =>
      (UidOp.updateUids s.selected.id clock listing).Allowed s.selected.id s.db
  | .synchronize i _ | .expunge i _ => s.Current i
  | .move _ | .deleteIds .. => True

instance decidableInOrder (s : Tasks) : (step : Step) → Decidable (s.InOrder step)
  | .other op => inferInstanceAs (Decidable (op.Allowed s.selected.id s.db))
  | .uids mailbox _ => inferInstanceAs (Decidable mailbox.WellFormed)
  | .take clock listing => inferInstanceAs (Decidable
      ((UidOp.updateUids s.selected.id clock listing).Allowed s.selected.id s.db))
  | .synchronize i _ | .expunge i _ => inferInstanceAs (Decidable (s.Current i))
  | .move _ | .deleteIds .. => .isTrue trivial

/-! ## The invariant -/

/-- The view is in order, and what has left it stays away. -/
structure Sound (s : Tasks) : Prop where
  increasing : s.selected.state.imapUids.Pairwise (· < ·)
  notMem : ∀ u ∈ s.expunged, u ∉ s.selected.state.imapUids

/-- The tables behind a state: one for every mailbox now, and the ones the snapshots were taken of,
each later than the ones before. -/
structure History (s : Tasks) (T : MailboxId → UidTable String) (tables : List (UidTable String)) :
    Prop where
  now : Tables s.db T
  taken : List.Forall₂ (fun snapshot table ↦ IsSnapshot snapshot.data table) s.snapshots tables
  pairwise : tables.Pairwise UidTable.Later
  later : ∀ table ∈ tables, table.Later (T s.selected.id)
  linked : Linked s.moving.flatten s.selected.state s.expunged (T s.selected.id)
  /-- The view is linked to the tables of all snapshots that may still be applied. -/
  linked_snapshot : ∀ i snapshot table, s.latest ≤ i → s.snapshots[i]? = some snapshot →
    tables[i]? = some table → Linked snapshot.moved s.selected.state s.expunged table

structure Invariant (s : Tasks) : Prop where
  wellFormed : s.selected.id.WellFormed
  ordered : s.selected.state.Ordered
  notMem : ∀ u ∈ s.expunged, u ∉ s.selected.state.imapUids
  history : ∃ T tables, History s T tables

variable {s : Tasks}

theorem Invariant.sound (h : s.Invariant) : s.Sound := ⟨h.ordered.increasing, h.notMem⟩

/-- The database moves on. -/
theorem History.of_later {T T' : MailboxId → UidTable String} {tables : List (UidTable String)}
    (h : History s T tables) {db' : Db} (hT' : Tables db' T')
    (hlater : (T s.selected.id).Later (T' s.selected.id)) :
    History { s with db := db' } T' tables where
  now := hT'
  taken := h.taken
  pairwise := h.pairwise
  later table hmem := (h.later table hmem).trans hlater
  linked := h.linked.later hlater
  linked_snapshot := h.linked_snapshot

/-- **A snapshot is applied.** -/
theorem Invariant.applySnapshot (h : s.Invariant) {i : ℕ} (hi : s.Current i)
    (step : MailboxData → ViewStep) (hstep : ∀ data T, IsSnapshot data T → (step data).FromTable T)
    (hid : ∀ data, (s.selected.apply (step data)).id = s.selected.id) :
    (s.applySnapshot i step).Invariant := by
  rw [Tasks.applySnapshot]
  cases hget : s.snapshots[i]? with
  | none => exact h
  | some snapshot =>
      obtain ⟨T, tables, hist⟩ := h.history
      obtain ⟨hlt, hsnap⟩ := List.getElem?_eq_some_iff.mp hget
      have hlen := hist.taken.length_eq
      have hlt' : i < tables.length := hlen ▸ hlt
      have hget' : tables[i]? = some tables[i] := List.getElem?_eq_getElem hlt'
      have hdata : IsSnapshot snapshot.data tables[i] := by
        have := (List.forall₂_iff_get.mp hist.taken).2 i hlt hlt'
        simpa [hsnap] using this
      -- nothing in the snapshot waits to be deleted
      have hlink : Linked [] s.selected.state s.expunged tables[i] := by
        refine (hist.linked_snapshot i snapshot _ hi.1 hget hget').of_disjoint fun e he hmem ↦ ?_
        refine hi.2 snapshot hget e.2 hmem ?_
        rw [hdata.jmapIds]
        exact UidTable.mem_ids.mpr ⟨e.1, he⟩
      have hfrom := hstep snapshot.data _ hdata
      have hnow : tables[i].Later (T s.selected.id) := hist.later _ (List.getElem_mem hlt')
      refine ⟨(hid _).symm ▸ h.wellFormed, ordered_apply h.ordered (hfrom.continues hlink),
        hfrom.notMem h.ordered hlink h.notMem, T, tables, hist.now, hist.taken, hist.pairwise, ?_,
        ?_, ?_⟩
      · exact fun table hmem ↦ (hid _).symm ▸ hist.later table hmem
      · have := (hfrom.linked h.ordered hlink hnow).of_nil s.moving.flatten
        exact (hid _).symm ▸ this
      · intro j snapshot' table hj hget₁ hget₂
        obtain ⟨hlt₂, rfl⟩ := List.getElem?_eq_some_iff.mp hget₂
        have hij : i ≤ j := (le_max_right _ _).trans hj
        have hlater : tables[i].Later tables[j] := by
          rcases hij.eq_or_lt with rfl | hij
          · exact .refl _
          · exact List.pairwise_iff_getElem.mp hist.pairwise i j hlt' hlt₂ hij
        exact (hfrom.linked h.ordered hlink hlater).of_nil _

/-- **One step.** -/
theorem Invariant.apply (h : s.Invariant) {step : Step} (hstep : s.InOrder step) :
    (s.apply step).Invariant := by
  cases step with
  | other op =>
      obtain ⟨T, tables, hist⟩ := h.history
      obtain ⟨T', hT', hlater⟩ := hstep.tables hist.now h.wellFormed
      exact ⟨h.wellFormed, h.ordered, h.notMem, T', tables, hist.of_later hT' hlater⟩
  | uids mailbox now =>
      obtain ⟨T, tables, hist⟩ := h.history
      exact ⟨h.wellFormed, h.ordered, h.notMem, T, tables,
        hist.of_later (hist.now.uids hstep now) (.refl _)⟩
  | take clock listing =>
      obtain ⟨T, tables, hist⟩ := h.history
      obtain ⟨data, db', T', hrun, hT', hlater, hdata⟩ := hist.now.updateUids h.wellFormed hstep
      rw [Tasks.apply, hrun]
      refine ⟨h.wellFormed, h.ordered, h.notMem, T', tables ++ [T' s.selected.id], ?_⟩
      have hist' := hist.of_later hT' hlater
      refine ⟨hT', List.rel_append hist.taken (.cons hdata .nil), ?_, ?_, hist'.linked, ?_⟩
      · rw [List.pairwise_append]
        refine ⟨hist.pairwise, by simp, fun a ha b hb ↦ ?_⟩
        rw [List.mem_singleton.mp hb]
        exact hist'.later a ha
      · intro table hmem
        rcases List.mem_append.mp hmem with hmem | hmem
        · exact hist'.later table hmem
        · rw [List.mem_singleton.mp hmem]
          exact .refl _
      · intro i snapshot table hi hget₁ hget₂
        have hlen := hist.taken.length_eq
        by_cases hlt : i < s.snapshots.length
        · rw [List.getElem?_append_left hlt] at hget₁
          rw [List.getElem?_append_left (hlen ▸ hlt)] at hget₂
          exact hist.linked_snapshot i snapshot table hi hget₁ hget₂
        · -- the new snapshot is one of the table as it is now
          rw [not_lt] at hlt
          rw [List.getElem?_append_right hlt, List.getElem?_singleton] at hget₁
          rw [List.getElem?_append_right (hlen ▸ hlt), List.getElem?_singleton] at hget₂
          split at hget₁
          · rw [if_pos (by omega)] at hget₂
            obtain rfl := Option.some.inj hget₁
            obtain rfl := Option.some.inj hget₂
            exact hist'.linked
          · exact absurd hget₁ (by simp)
  | synchronize i removeMissing =>
      exact h.applySnapshot hstep (.synchronize · removeMissing) (fun data T hdata ↦ hdata)
        fun _ ↦ rfl
  | expunge i jmapState =>
      exact h.applySnapshot hstep (fun data ↦ .expunge data jmapState)
        (fun data T hdata data' hdata' ↦ Option.some.inj hdata' ▸ hdata) fun _ ↦ rfl
  | move destroyedIds =>
      obtain ⟨T, tables, hist⟩ := h.history
      refine ⟨h.wellFormed, ordered_apply h.ordered trivial, ?_, T, tables, hist.now, ?_,
        hist.pairwise, hist.later, hist.linked.removeMessages destroyedIds, ?_⟩
      · intro u hu hmem
        rcases List.mem_append.mp hu with hu | hu
        · exact h.notMem u hu (MailboxData.mem_of_mem_removeMessages hmem)
        · exact decide_eq_true_eq.mp (List.mem_filter.mp hu).2 hmem
      · exact List.forall₂_map_left_iff.mpr hist.taken
      · intro i snapshot table hi hget₁ hget₂
        dsimp only [Tasks.apply] at hget₁
        rw [List.getElem?_map, Option.map_eq_some_iff] at hget₁
        obtain ⟨snapshot', hget₁, rfl⟩ := hget₁
        exact (hist.linked_snapshot i snapshot' table hi hget₁ hget₂).removeMessages destroyedIds
  | deleteIds k clock =>
      rw [Tasks.apply]
      cases hget : s.moving[k]? with
      | none => exact h
      | some destroyedIds =>
          obtain ⟨T, tables, hist⟩ := h.history
          obtain ⟨db', hdb', hT'⟩ := hist.now.deleteIds h.wellFormed clock destroyedIds
          have hsub : ∀ i ∈ s.moving.flatten, i ∈ (s.moving.eraseIdx k).flatten ∨
              i ∈ destroyedIds := by
            intro i hi
            obtain ⟨l, hl, hil⟩ := List.mem_flatten.mp hi
            obtain ⟨j, hj⟩ := List.mem_iff_getElem?.mp hl
            by_cases hjk : j = k
            · subst hjk
              rw [hget] at hj
              exact .inr (Option.some.inj hj ▸ hil)
            · refine .inl (List.mem_flatten.mpr ⟨l, ?_, hil⟩)
              exact List.mem_eraseIdx_iff_getElem?.mpr ⟨j, hjk, hj⟩
          dsimp only
          rw [hdb']
          refine ⟨h.wellFormed, h.ordered, h.notMem, _, tables, hT', hist.taken, hist.pairwise,
            fun table hmem ↦ ?_, ?_, hist.linked_snapshot⟩
          · rw [Function.update_self]
            exact (hist.later table hmem).trans (UidTable.later_restrict _ _)
          · rw [Function.update_self]
            exact hist.linked.restrict hsub

/-- A session right after SELECT. -/
def select (db : Db) (mailbox : MailboxId) (isSelect : Bool) (clock : Clock)
    (listing : List String) : Option Tasks :=
  match (Db.updateUids mailbox clock listing).run db with
  | (some state, db) => some {
      db := db
      selected := ⟨mailbox, state, .none, isSelect⟩
      snapshots := []
      moving := []
      expunged := []
      latest := 0 }
  | (none, _) => none

end Tasks

/-- **Snapshots in order.**  In every run whose snapshots are applied in the order in which they
were taken, and not across a MOVE of a message they list, the view stays in increasing order and
never regains a message that has left it. -/
theorem view_never_regresses (before : List UidOp) (hbefore : ∀ op ∈ before, op.WellFormed)
    (hlt : ∀ m : MailboxId, m.WellFormed → allocated m ∅ before < 2 ^ 32 - 1)
    (mailbox : MailboxId) (isSelect : Bool) (clock : Clock) (listing : List String)
    (hselect : (UidOp.updateUids mailbox clock listing).Allowed mailbox
      (Run.exec UidOp.apply ∅ before)) :
    ∃ s, Tasks.select (Run.exec UidOp.apply ∅ before) mailbox isSelect clock listing = some s ∧
      ∀ steps, Run.Along Tasks.apply Tasks.InOrder s steps →
        (Run.exec Tasks.apply s steps).Sound := by
  have hm : mailbox.WellFormed := hselect.wellFormed.1
  obtain ⟨T, hT⟩ := exec_tables before hbefore hlt
  obtain ⟨data, db', T', hrun, hT', -, hdata⟩ := hT.updateUids hm hselect
  refine ⟨_, by rw [Tasks.select, hrun], fun steps hsteps ↦ ?_⟩
  refine (Run.exec_induct Tasks.Invariant ?_ (fun s step h hc ↦ h.apply hc) hsteps).sound
  refine ⟨hm, hdata.ordered, by simp, T', [], hT', .nil, .nil, by simp, .of_isSnapshot hdata, ?_⟩
  simp

/-- A mailbox with three messages is selected. -/
def selectThree : Option Tasks :=
  Tasks.select (Run.exec UidOp.apply ∅ []) ⟨"u1", some "X"⟩ true (fun _ ↦ 1660000000)
    ["M1", "M2", "M3"]

/-- A search takes a snapshot and a MOVE of `M1` runs before it applies it, which the snapshot does
not list any more; then an EXPUNGE. -/
def orderedRun : List Tasks.Step := [
  .take (fun _ ↦ 1660000001) ["M2", "M3", "M4"],
  .move ["M1"],
  .deleteIds 0 (fun _ ↦ 1660000002),
  .synchronize 0 false,
  .other (.updateUids ⟨"u1", some "X"⟩ (fun _ ↦ 1660000003) ["M3", "M4", "M5"]),
  .take (fun _ ↦ 1660000004) ["M3", "M4", "M5"],
  .expunge 1 "s1"]

theorem view_never_regresses_ordered :
    ∃ s, selectThree = some s ∧ (Run.exec Tasks.apply s orderedRun).Sound := by
  obtain ⟨s, hs, hall⟩ := view_never_regresses [] (by simp) (fun m _ ↦ by simp [allocated])
    ⟨"u1", some "X"⟩ true (fun _ ↦ 1660000000) ["M1", "M2", "M3"] (by decide +kernel)
  have hin : selectThree.all (fun s ↦
      decide (Run.Along Tasks.apply Tasks.InOrder s orderedRun)) = true := by decide +kernel
  rw [selectThree, hs] at hin
  exact ⟨s, hs, hall _ (by simpa using hin)⟩

/-- A search finds the new `M4` and takes a snapshot.  Before it gets to apply it, EXPUNGE has
removed `M2` from the mailbox, the view and the client's list. -/
def staleRun : List Tasks.Step := [
  .take (fun _ ↦ 1660000001) ["M1", "M2", "M3", "M4"],
  .take (fun _ ↦ 1660000002) ["M1", "M3", "M4"],
  .expunge 1 "s1",
  .synchronize 0 false]

/-- **A late snapshot brings an expunged message back.** -/
theorem stale_snapshot_regains :
    ∃ s, selectThree = some s ∧ (Run.exec Tasks.apply s staleRun).expunged = [2] ∧
      (Run.exec Tasks.apply s staleRun).selected.state.imapUids = [1, 3, 4, 2] ∧
      ¬ (Run.exec Tasks.apply s staleRun).Sound := by
  have hrun : selectThree.map (fun s ↦ ((Run.exec Tasks.apply s staleRun).expunged,
      (Run.exec Tasks.apply s staleRun).selected.state.imapUids)) =
        some ([2], [1, 3, 4, 2]) := by decide +kernel
  obtain ⟨s, hs, hrun⟩ := Option.map_eq_some_iff.mp hrun
  obtain ⟨hexp, huids⟩ := Prod.mk.inj hrun
  refine ⟨s, hs, hexp, huids, fun h ↦ ?_⟩
  have hinc := h.increasing
  rw [huids] at hinc
  exact absurd hinc (by decide)

end ImapToJmap
