import ImapToJmap.Core.View
import ImapToJmap.Parser.SequenceSet

/-!
# STORE UNCHANGEDSINCE

The first half of `SessionData::store`: which messages are sent for update, and what stands in the
response code MODIFIED.  The sequence set is read twice, once by asking for each message of the view
and once as a set of numbers; what the second reading has and the first does not is taken for
messages that are gone, and listed as modified along with those the server reports as changed.

`Partition` says that the two lists divide the sequence set; `store_unchangedSince` is that for
every view, set and report.
-/

namespace ImapToJmap

/-- The response to `Email/changes`. -/
structure EmailChanges where
  created : List String
  updated : List String
  destroyed : List String

/-- The email is reported as changed. -/
def EmailChanges.Reports (changes : EmailChanges) (jmapId : String) : Prop :=
  jmapId ∈ changes.created ∨ jmapId ∈ changes.updated ∨ jmapId ∈ changes.destroyed

instance (changes : EmailChanges) (jmapId : String) : Decidable (changes.Reports jmapId) :=
  inferInstanceAs (Decidable (_ ∨ _ ∨ _))

/-- The number by which the client addresses the message. -/
def ImapId.number (imapId : ImapId) (isUid : Bool) : ℕ :=
  if isUid then imapId.uid else imapId.seqnum

/-- The greatest number of the view. -/
def MailboxData.maxNumber (state : MailboxData) (isUid : Bool) : ℕ :=
  if isUid then state.imapUids.getLast?.getD 0 else state.imapUids.length

/-! ## The loop -/

/-- The variables of the loop over the messages. -/
structure UnchangedSince where
  sequenceSet : Finset ℕ
  modified : List ℕ := []
  unchangedIds : IdMap := []
  unchangedFailed : Bool := false

namespace UnchangedSince

/-- One round of the loop. -/
def visit (changes : EmailChanges) (isUid : Bool) (u : UnchangedSince) (e : String × ImapId) :
    UnchangedSince :=
  let wasDestroyed := changes.destroyed.contains e.1
  let id := e.2.number isUid
  let u := { u with
    unchangedFailed := u.unchangedFailed || wasDestroyed
    sequenceSet := u.sequenceSet.erase id }
  if changes.updated.contains e.1 || changes.created.contains e.1 || wasDestroyed then
    { u with modified := u.modified ++ [id] }
  else { u with unchangedIds := u.unchangedIds.insert e.1 e.2 }

/-- After the loop: what is left of the sequence set is modified as well. -/
def addRemoved (u : UnchangedSince) : UnchangedSince :=
  { u with
    modified := sortNumbers (u.modified ++ u.sequenceSet.sort)
    unchangedFailed := u.unchangedFailed || u.sequenceSet ≠ ∅ }

variable {changes : EmailChanges} {isUid : Bool}

theorem visit_sequenceSet (u : UnchangedSince) (e : String × ImapId) :
    (u.visit changes isUid e).sequenceSet = u.sequenceSet.erase (e.2.number isUid) := by
  rw [visit]
  split <;> rfl

theorem visit_of_reports {u : UnchangedSince} {e : String × ImapId} (h : changes.Reports e.1) :
    (u.visit changes isUid e).modified = u.modified ++ [e.2.number isUid] ∧
      (u.visit changes isUid e).unchangedIds = u.unchangedIds := by
  rw [visit]
  have hcond : (changes.updated.contains e.1 || changes.created.contains e.1 ||
      changes.destroyed.contains e.1) = true := by
    simp only [List.contains_iff_mem, Bool.or_eq_true]
    rcases h with h | h | h
    · exact .inl (.inr h)
    · exact .inl (.inl h)
    · exact .inr h
  rw [if_pos hcond]
  exact ⟨rfl, rfl⟩

theorem visit_of_not_reports {u : UnchangedSince} {e : String × ImapId}
    (h : ¬ changes.Reports e.1) :
    (u.visit changes isUid e).modified = u.modified ∧
      (u.visit changes isUid e).unchangedIds = u.unchangedIds.insert e.1 e.2 := by
  rw [visit]
  have hcond : ¬ (changes.updated.contains e.1 || changes.created.contains e.1 ||
      changes.destroyed.contains e.1) = true := by
    simp only [List.contains_iff_mem, Bool.or_eq_true]
    rintro ((hu | hc) | hd)
    · exact h (.inr (.inl hu))
    · exact h (.inl hc)
    · exact h (.inr (.inr hd))
  rw [if_neg hcond]
  exact ⟨rfl, rfl⟩

/-- What the loop leaves of the sequence set. -/
theorem mem_sequenceSet_foldl {ids : IdMap} {u : UnchangedSince} {n : ℕ} :
    n ∈ (ids.foldl (visit changes isUid) u).sequenceSet ↔
      n ∈ u.sequenceSet ∧ ∀ e ∈ ids, e.2.number isUid ≠ n := by
  induction ids generalizing u with
  | nil => simp
  | cons e ids ih =>
      rw [List.foldl_cons, ih, visit_sequenceSet, Finset.mem_erase, List.forall_mem_cons]
      constructor
      · rintro ⟨⟨hne, hn⟩, hrest⟩
        exact ⟨hn, hne.symm, hrest⟩
      · rintro ⟨hn, hne, hrest⟩
        exact ⟨⟨hne.symm, hn⟩, hrest⟩

/-- The messages the loop takes for modified, in its order. -/
theorem modified_foldl (ids : IdMap) (u : UnchangedSince) :
    (ids.foldl (visit changes isUid) u).modified = u.modified ++
      (ids.filter fun e ↦ changes.Reports e.1).map fun e ↦ e.2.number isUid := by
  induction ids generalizing u with
  | nil => simp
  | cons e ids ih =>
      rw [List.foldl_cons, ih]
      by_cases h : changes.Reports e.1
      · rw [(visit_of_reports h).1, List.filter_cons_of_pos (by simpa using h)]
        simp
      · rw [(visit_of_not_reports h).1, List.filter_cons_of_neg (by simpa using h)]

/-- The messages the loop keeps; the keys of a map are different. -/
theorem mem_unchangedIds_foldl {ids : IdMap} {u : UnchangedSince} (hnd : ids.keys.Nodup)
    (hu : ∀ e ∈ u.unchangedIds, e.1 ∉ ids.keys) {e : String × ImapId} :
    e ∈ (ids.foldl (visit changes isUid) u).unchangedIds ↔
      e ∈ u.unchangedIds ∨ (e ∈ ids ∧ ¬ changes.Reports e.1) := by
  induction ids generalizing u with
  | nil => simp
  | cons x ids ih =>
      obtain ⟨hx, hnd'⟩ := List.nodup_cons.mp hnd
      rw [List.foldl_cons]
      by_cases h : changes.Reports x.1
      · rw [ih hnd' ?_, (visit_of_reports h).2, List.mem_cons]
        · constructor
          · rintro (he | ⟨he, hn⟩)
            · exact .inl he
            · exact .inr ⟨.inr he, hn⟩
          · rintro (he | ⟨rfl | he, hn⟩)
            · exact .inl he
            · exact absurd h hn
            · exact .inr ⟨he, hn⟩
        · rw [(visit_of_reports h).2]
          exact fun y hy hmem ↦ hu y hy (List.mem_cons_of_mem _ hmem)
      · rw [ih hnd' ?_, (visit_of_not_reports h).2, IdMap.mem_insert, List.mem_cons]
        · constructor
          · rintro ((⟨he, -⟩ | rfl) | ⟨he, hn⟩)
            · exact .inl he
            · exact .inr ⟨.inl rfl, h⟩
            · exact .inr ⟨.inr he, hn⟩
          · rintro (he | ⟨rfl | he, hn⟩)
            · exact .inl (.inl ⟨he, fun hc ↦ hu e he (hc ▸ List.mem_cons_self)⟩)
            · exact .inl (.inr rfl)
            · exact .inr ⟨he, hn⟩
        · rw [(visit_of_not_reports h).2]
          intro y hy hmem
          rcases IdMap.mem_insert.mp hy with ⟨hy, -⟩ | rfl
          · exact hu y hy (List.mem_cons_of_mem _ hmem)
          · exact hx hmem

end UnchangedSince

/-! ## The command -/

/-- What `store` stops with before it asks the server for an update. -/
inductive StoreError where
  | sequence (error : SequenceError)
  | /-- The set names no message: `OK`. -/
    completed
  | /-- `MODSEQ '{}' does not exist.` -/
    unknownModseq (modseq : ℕ)
  | databaseFailure
  | /-- The request for the changes has failed. -/
    server

/-- The messages sent for update, and the list of the response code MODIFIED. -/
structure StoreRequest where
  ids : IdMap
  modified : List ℕ := []
  unchangedFailed : Bool := false

/-- `SessionData::store` with UNCHANGEDSINCE, once the changes since that state are known. -/
def unchangedSince (m : SelectedMailbox) (sequence : Sequence) (isUid : Bool)
    (changes : EmailChanges) (ids : IdMap) : StoreRequest :=
  let u := (ids.foldl (UnchangedSince.visit changes isUid)
    { sequenceSet := sequence.expand (m.state.maxNumber isUid) }).addRemoved
  ⟨u.unchangedIds, u.modified, u.unchangedFailed⟩

/-- `SessionData::store` up to the update.  `order` is the order in which the map is gone over,
`modseqToState` the state of a modseq in the database, `none` if the call fails, and `changesEmail`
asks the server for the changes since a state. -/
def store (order : IdMap → IdMap) (modseqToState : ℕ → Option (Option String))
    (changesEmail : String → Option EmailChanges) (m : SelectedMailbox) (sequence : Sequence)
    (isUid : Bool) (unchanged : Option ℕ) : Except StoreError StoreRequest :=
  match m.sequenceToJmap sequence isUid with
  | .error e => .error (.sequence e)
  | .ok [] => .error .completed
  | .ok ids =>
      match unchanged with
      | none => .ok ⟨ids, [], false⟩
      | some modseq =>
          match modseqToState (modseq % 2 ^ 32) with
          | none => .error .databaseFailure
          | some none => .error (.unknownModseq modseq)
          | some (some state) =>
              match changesEmail state with
              | none => .error .server
              | some changes => .ok (unchangedSince m sequence isUid changes (order ids))

/-- It gets to the update only by way of the changes. -/
theorem store_eq_ok {order : IdMap → IdMap} {modseqToState : ℕ → Option (Option String)}
    {changesEmail : String → Option EmailChanges} {m : SelectedMailbox} {sequence : Sequence}
    {isUid : Bool} {modseq : ℕ} {request : StoreRequest}
    (h : store order modseqToState changesEmail m sequence isUid (some modseq) = .ok request) :
    ∃ ids state changes, m.sequenceToJmap sequence isUid = .ok ids ∧
      modseqToState (modseq % 2 ^ 32) = some (some state) ∧ changesEmail state = some changes ∧
        request = unchangedSince m sequence isUid changes (order ids) := by
  rw [store] at h
  split at h
  · cases h
  · cases h
  · rename_i ids _ hids
    dsimp only at h
    split at h
    · cases h
    · cases h
    · rename_i state hstate
      split at h
      · cases h
      · rename_i changes hchanges
        exact ⟨ids, state, changes, hids, hstate, hchanges, (Except.ok.inj h).symm⟩

/-- The numbers sent for update and the numbers listed as modified divide the numbers of the
sequence set: what is unchanged is sent, what has changed is listed. -/
structure StoreRequest.Partition (r : StoreRequest) (m : SelectedMailbox) (sequence : Sequence)
    (isUid : Bool) (changes : EmailChanges) : Prop where
  increasing : r.modified.Pairwise (· < ·)
  disjoint : ∀ e ∈ r.ids, e.2.number isUid ∉ r.modified
  covers : ∀ n, (n ∈ r.modified ∨ ∃ e ∈ r.ids, e.2.number isUid = n) ↔
    n ∈ sequence.expand (m.state.maxNumber isUid)
  unchanged : ∀ e ∈ r.ids, ¬ changes.Reports e.1
  changed : ∀ x ∈ SelectedMailbox.matchedMessages m.state sequence isUid, ∀ jmapId,
    m.state.jmapIds[x.1]? = some jmapId → changes.Reports jmapId → x.2.number isUid ∈ r.modified
  sent : ∀ x ∈ SelectedMailbox.matchedMessages m.state sequence isUid, ∀ jmapId,
    m.state.jmapIds[x.1]? = some jmapId → ¬ changes.Reports jmapId → ∃ e ∈ r.ids, e.1 = jmapId

namespace SelectedMailbox

variable {m : SelectedMailbox} {sequence : Sequence} {isUid : Bool}

/-- A message that the set names, at its position. -/
theorem mem_matchedMessages {x : ℕ × ImapId} :
    x ∈ matchedMessages m.state sequence isUid ↔
      m.state.imapUids[x.1]? = some x.2.uid ∧ x.2.seqnum = x.1 + 1 ∧ x.2.uid ≠ 0 ∧
        sequence.contains (x.2.number isUid) (m.state.maxNumber isUid) = true := by
  obtain ⟨pos, uid, seqnum⟩ := x
  simp only [matchedMessages, List.mem_map, List.mem_filter, List.mem_zipIdx_iff_getElem?,
    Bool.and_eq_true, decide_eq_true_eq, Prod.exists, Prod.mk.injEq, ImapId.mk.injEq,
    ImapId.number, MailboxData.maxNumber]
  constructor
  · rintro ⟨uid', pos', ⟨hget, hne, hmatch⟩, rfl, rfl, rfl⟩
    refine ⟨hget, rfl, hne, ?_⟩
    cases isUid <;> exact hmatch
  · rintro ⟨hget, rfl, hne, hmatch⟩
    refine ⟨uid, pos, ⟨hget, hne, ?_⟩, rfl, rfl, rfl⟩
    cases isUid <;> exact hmatch

/-- Different messages have different numbers. -/
theorem eq_of_number_eq (hinc : m.state.imapUids.Pairwise (· < ·)) {x y : ℕ × ImapId}
    (hx : x ∈ matchedMessages m.state sequence isUid)
    (hy : y ∈ matchedMessages m.state sequence isUid)
    (h : x.2.number isUid = y.2.number isUid) : x = y := by
  obtain ⟨hxu, hxs, -, -⟩ := mem_matchedMessages.mp hx
  obtain ⟨hyu, hys, -, -⟩ := mem_matchedMessages.mp hy
  have hpos : x.1 = y.1 := by
    cases isUid with
    | false =>
        have hs : x.2.seqnum = y.2.seqnum := h
        omega
    | true =>
        have hu : x.2.uid = y.2.uid := h
        have hnd : m.state.imapUids.Nodup := hinc.imp (fun hlt ↦ ne_of_lt hlt)
        obtain ⟨hlx, hxu⟩ := List.getElem?_eq_some_iff.mp hxu
        obtain ⟨hly, hyu⟩ := List.getElem?_eq_some_iff.mp hyu
        exact (List.Nodup.getElem_inj_iff hnd).mp (hxu.trans (hu.trans hyu.symm))
  have huid : x.2.uid = y.2.uid := by
    rw [hpos, hyu] at hxu
    exact (Option.some.inj hxu).symm
  have hseq : x.2.seqnum = y.2.seqnum := by omega
  obtain ⟨px, ux, sx⟩ := x
  obtain ⟨py, uy, sy⟩ := y
  simp_all

/-- The keys of a map are different. -/
theorem sequenceToJmap_nodup {ids : IdMap} (h : m.sequenceToJmap sequence isUid = .ok ids) :
    ids.keys.Nodup := by
  have hmain : ∀ matched, insertMatches m.state.jmapIds matched = .ok ids → ids.keys.Nodup := by
    intro matched hok
    obtain ⟨ids', hok', -, hnd, -⟩ | ⟨herr, -⟩ := insertMatches_spec m.state.jmapIds matched
    · obtain rfl := Except.ok.inj (hok'.symm.trans hok)
      exact hnd
    · cases herr.symm.trans hok
  rw [sequenceToJmap] at h
  split at h
  · exact hmain _ h
  · split at h
    · cases h
    · exact hmain _ h

/-- What `sequence_to_jmap` resolves a set without `$` to. -/
theorem sequenceToJmap_matched {ids : IdMap} (hsaved : sequence.isSavedSearch = false)
    (h : m.sequenceToJmap sequence isUid = .ok ids) :
    ids.keys.Nodup ∧
      (∀ e ∈ ids, ∃ x ∈ matchedMessages m.state sequence isUid,
        m.state.jmapIds[x.1]? = some e.1 ∧ x.2 = e.2) ∧
      ∀ x ∈ matchedMessages m.state sequence isUid, ∀ jmapId,
        m.state.jmapIds[x.1]? = some jmapId → ∃ e ∈ ids, e.1 = jmapId := by
  rw [sequenceToJmap, hsaved] at h
  have hok : insertMatches m.state.jmapIds (matchedMessages m.state sequence isUid) = .ok ids := h
  obtain ⟨ids', hok', -, hnd, hmem⟩ | ⟨herr, -⟩ :=
    insertMatches_spec m.state.jmapIds (matchedMessages m.state sequence isUid)
  · obtain rfl : ids' = ids := by simpa [hok] using hok'.symm
    refine ⟨hnd, fun e he ↦ ?_, fun x hx jmapId hget ↦ ?_⟩
    · obtain ⟨pre, x, post, hx, hget, hxe, -⟩ := (hmem e).mp he
      exact ⟨x, by simp [hx], hget, hxe⟩
    · obtain ⟨pre, y, post, hy, hyget, hlast⟩ :=
        exists_last (P := fun z : ℕ × ImapId ↦ m.state.jmapIds[z.1]? = some jmapId) ⟨x, hx, hget⟩
      exact ⟨(jmapId, y.2), (hmem _).mpr ⟨pre, y, post, hy, hyget, rfl, hlast⟩, rfl⟩
  · rw [hok] at herr
    cases herr

end SelectedMailbox

/-- What is listed as modified. -/
theorem mem_unchangedSince_modified (m : SelectedMailbox) (sequence : Sequence) (isUid : Bool)
    (changes : EmailChanges) (visited : IdMap) (n : ℕ) :
    n ∈ (unchangedSince m sequence isUid changes visited).modified ↔
      (∃ e ∈ visited, changes.Reports e.1 ∧ e.2.number isUid = n) ∨
        (n ∈ sequence.expand (m.state.maxNumber isUid) ∧
          ∀ e ∈ visited, e.2.number isUid ≠ n) := by
  show n ∈ sortNumbers _ ↔ _
  rw [(perm_sortNumbers _).mem_iff, List.mem_append, Finset.mem_sort,
    UnchangedSince.mem_sequenceSet_foldl, UnchangedSince.modified_foldl, List.nil_append]
  simp only [List.mem_map, List.mem_filter, decide_eq_true_eq, and_assoc]

/-- What is sent for update. -/
theorem mem_unchangedSince_ids (m : SelectedMailbox) (sequence : Sequence) (isUid : Bool)
    (changes : EmailChanges) {visited : IdMap} (hnd : visited.keys.Nodup) (e : String × ImapId) :
    e ∈ (unchangedSince m sequence isUid changes visited).ids ↔
      e ∈ visited ∧ ¬ changes.Reports e.1 := by
  show e ∈ UnchangedSince.unchangedIds (visited.foldl _ _) ↔ _
  rw [UnchangedSince.mem_unchangedIds_foldl hnd (by simp)]
  simp

/-- What the loop makes of a view and a set that the parser accepts, whichever way it goes over the
messages. -/
theorem partition_unchangedSince {m : SelectedMailbox}
    (hinc : m.state.imapUids.Pairwise (· < ·)) {sequence : Sequence} (hflat : sequence.Flat)
    (hsaved : sequence.isSavedSearch = false) {isUid : Bool} {ids visited : IdMap}
    (hids : m.sequenceToJmap sequence isUid = .ok ids) (hvisited : visited.Perm ids)
    (changes : EmailChanges) :
    (unchangedSince m sequence isUid changes visited).Partition m sequence isUid changes := by
  obtain ⟨hkeys, hmatched, hresolved⟩ := SelectedMailbox.sequenceToJmap_matched hsaved hids
  have hnd : visited.keys.Nodup := (hvisited.map Prod.fst).nodup_iff.mpr hkeys
  -- the numbers of the messages are different, and all of them are in the expansion
  have hinj : ∀ e ∈ visited, ∀ e' ∈ visited, e.2.number isUid = e'.2.number isUid → e = e' := by
    intro e he e' he' hnum
    obtain ⟨x, hx, hxe, hxi⟩ := hmatched e (hvisited.mem_iff.mp he)
    obtain ⟨y, hy, hye, hyi⟩ := hmatched e' (hvisited.mem_iff.mp he')
    obtain rfl := SelectedMailbox.eq_of_number_eq hinc hx hy (by rw [hxi, hyi, hnum])
    rw [hxe] at hye
    exact Prod.ext (Option.some.inj hye) (hxi.symm.trans hyi)
  have hexpand : ∀ e ∈ visited,
      e.2.number isUid ∈ sequence.expand (m.state.maxNumber isUid) := by
    intro e he
    obtain ⟨x, hx, -, hxi⟩ := hmatched e (hvisited.mem_iff.mp he)
    obtain ⟨-, -, -, hcontains⟩ := SelectedMailbox.mem_matchedMessages.mp hx
    exact hxi ▸ hflat.contains_iff.mp hcontains
  have hmod := mem_unchangedSince_modified m sequence isUid changes visited
  have hkept := mem_unchangedSince_ids m sequence isUid changes hnd
  constructor
  case increasing =>
    show (sortNumbers _).Pairwise _
    have hnodup : (sortNumbers ((visited.foldl (UnchangedSince.visit changes isUid)
        { sequenceSet := sequence.expand (m.state.maxNumber isUid) }).modified ++
        (visited.foldl (UnchangedSince.visit changes isUid)
            { sequenceSet := sequence.expand (m.state.maxNumber isUid) }
          ).sequenceSet.sort)).Nodup := by
      rw [(perm_sortNumbers _).nodup_iff, List.nodup_append, UnchangedSince.modified_foldl,
        List.nil_append]
      refine ⟨?_, Finset.sort_nodup _ _, ?_⟩
      · refine List.Nodup.map_on (fun e he e' he' ↦ ?_) (List.Nodup.of_map _ hnd |>.filter _)
        exact hinj e (List.mem_of_mem_filter he) e' (List.mem_of_mem_filter he')
      · rintro n hn n' hn' rfl
        obtain ⟨e, he, rfl⟩ := List.mem_map.mp hn
        rw [Finset.mem_sort, UnchangedSince.mem_sequenceSet_foldl] at hn'
        exact hn'.2 e (List.mem_of_mem_filter he) rfl
    exact ((pairwise_sortNumbers _).and hnodup).imp fun h ↦ lt_of_le_of_ne h.1 h.2
  case disjoint =>
    intro e he hn
    obtain ⟨he, hnot⟩ := (hkept e).mp he
    rcases (hmod _).mp hn with ⟨e', he', hrep, hnum⟩ | ⟨-, hfree⟩
    · obtain rfl := hinj e' he' e he hnum
      exact hnot hrep
    · exact hfree e he rfl
  case covers =>
    intro n
    constructor
    · rintro (hn | ⟨e, he, rfl⟩)
      · rcases (hmod n).mp hn with ⟨e, he, -, rfl⟩ | ⟨hn, -⟩
        · exact hexpand e he
        · exact hn
      · exact hexpand e ((hkept e).mp he).1
    · intro hn
      by_cases hfree : ∀ e ∈ visited, e.2.number isUid ≠ n
      · exact .inl ((hmod n).mpr (.inr ⟨hn, hfree⟩))
      · push Not at hfree
        obtain ⟨e, he, rfl⟩ := hfree
        by_cases hrep : changes.Reports e.1
        · exact .inl ((hmod _).mpr (.inl ⟨e, he, hrep, rfl⟩))
        · exact .inr ⟨e, (hkept e).mpr ⟨he, hrep⟩, rfl⟩
  case unchanged => exact fun e he ↦ ((hkept e).mp he).2
  case changed =>
    intro x hx jmapId hget hrep
    obtain ⟨-, -, -, hcontains⟩ := SelectedMailbox.mem_matchedMessages.mp hx
    rw [hmod]
    by_cases hfree : ∀ e ∈ visited, e.2.number isUid ≠ x.2.number isUid
    · exact .inr ⟨hflat.contains_iff.mp hcontains, hfree⟩
    · push Not at hfree
      obtain ⟨e, he, hnum⟩ := hfree
      obtain ⟨y, hy, hye, hyi⟩ := hmatched e (hvisited.mem_iff.mp he)
      obtain rfl := SelectedMailbox.eq_of_number_eq hinc hy hx (by rw [hyi, hnum])
      rw [hget] at hye
      exact .inl ⟨e, he, Option.some.inj hye ▸ hrep, hnum⟩
  case sent =>
    intro x hx jmapId hget hno
    obtain ⟨e, he, rfl⟩ := hresolved x hx jmapId hget
    exact ⟨e, (hkept e).mpr ⟨hvisited.mem_iff.mpr he, hno⟩, rfl⟩

/-- **STORE UNCHANGEDSINCE**: for every view, every set the parser accepts and every report of the
server, the messages sent for update and those listed as modified divide the sequence set. -/
theorem store_unchangedSince {order : IdMap → IdMap} (horder : ∀ ids, (order ids).Perm ids)
    {modseqToState : ℕ → Option (Option String)} {changesEmail : String → Option EmailChanges}
    {m : SelectedMailbox} (hinc : m.state.imapUids.Pairwise (· < ·)) {value : Bytes}
    {sequence : Sequence} (hparse : parseSequenceSet value = .ok sequence)
    (hsaved : sequence.isSavedSearch = false) {isUid : Bool} {ids : IdMap}
    (hids : m.sequenceToJmap sequence isUid = .ok ids) (hne : ids ≠ []) {modseq : ℕ}
    {state : String} (hstate : modseqToState (modseq % 2 ^ 32) = some (some state))
    {changes : EmailChanges} (hchanges : changesEmail state = some changes) :
    ∃ r, store order modseqToState changesEmail m sequence isUid (some modseq) = .ok r ∧
      r.Partition m sequence isUid changes := by
  refine ⟨unchangedSince m sequence isUid changes (order ids), ?_,
    partition_unchangedSince hinc (flat_parseSequenceSet hparse) hsaved hids (horder ids) changes⟩
  cases ids with
  | nil => exact absurd rfl hne
  | cons e ids => simp only [store, hids, hstate, hchanges]

/-- Four messages, the second of which another client has changed. -/
def fourMessages : SelectedMailbox where
  id := ⟨"u1", some "A"⟩
  state := ⟨10, 1, ["M1", "M2", "M3", "M4"], [2, 3, 5, 9], 4, ""⟩
  savedSearch := .none
  isSelect := true

/-- `UID STORE *:3,7 (UNCHANGEDSINCE 1)` -/
theorem store_unchangedSince_four :
    ∃ r, store id (fun _ ↦ some (some "s")) (fun _ ↦ some ⟨[], ["M2"], []⟩) fourMessages
        (.list [.range none (some 3), .number 7]) true (some 1) = .ok r ∧
      r.Partition fourMessages (.list [.range none (some 3), .number 7]) true ⟨[], ["M2"], []⟩ := by
  have hparse : parseSequenceSet [42, 58, 51, 44, 55] =
      .ok (.list [.range none (some 3), .number 7]) := rfl
  have hids : fourMessages.sequenceToJmap (.list [.range none (some 3), .number 7]) true =
      .ok [("M2", ⟨3, 2⟩), ("M3", ⟨5, 3⟩), ("M4", ⟨9, 4⟩)] := rfl
  exact store_unchangedSince (fun ids ↦ List.Perm.refl ids) (by decide) hparse rfl hids (by simp)
    rfl rfl

end ImapToJmap
