import ImapToJmap.Core.Message
import ImapToJmap.Data.List
import ImapToJmap.Protocol.Basic

/-!
# The view of a selected mailbox

`SelectedMailbox` of `core/client.rs` with the operations `core/message.rs` defines on it.  The
view is a `MailboxData`: two lists of equal length, the email ids and the UIDs, in the order of the
sequence numbers.

The code indexes these lists, and an index out of range is a panic.  `sequenceToJmap` keeps that
apart from the `NO` response (`SequenceError`).  A saved search that is still running is waited for
by everyone who reads it, so the model has no value for it.
-/

namespace ImapToJmap

/-! ## Email ids with their IMAP numbers -/

/-- `ImapId` -/
structure ImapId where
  uid : ℕ
  seqnum : ℕ
deriving DecidableEq

/-- `AHashMap<String, ImapId>`, as the list of its bindings; nothing that is done with it depends on
their order, unless the code iterates over it. -/
abbrev IdMap := List (String × ImapId)

namespace IdMap

/-- `AHashMap::insert`: the value under a key is replaced. -/
def insert (m : IdMap) (k : String) (v : ImapId) : IdMap := m.filter (fun e ↦ e.1 ≠ k) ++ [(k, v)]

/-- `AHashMap::get` -/
def get? (m : IdMap) (k : String) : Option ImapId := (m.find? fun e ↦ e.1 = k).map Prod.snd

def keys (m : IdMap) : List String := m.map Prod.fst

theorem mem_insert {m : IdMap} {k : String} {v : ImapId} {e : String × ImapId} :
    e ∈ m.insert k v ↔ (e ∈ m ∧ e.1 ≠ k) ∨ e = (k, v) := by
  simp [insert]

theorem nodup_keys_insert {m : IdMap} (h : m.keys.Nodup) (k : String) (v : ImapId) :
    (m.insert k v).keys.Nodup := by
  rw [keys, insert, List.map_append, List.nodup_append]
  refine ⟨h.sublist (List.filter_sublist.map _), by simp, fun a ha b hb hab ↦ ?_⟩
  obtain ⟨e, he, rfl⟩ := List.mem_map.mp ha
  rw [List.map_singleton, List.mem_singleton] at hb
  have hne : e.1 ≠ k := by simpa using (List.mem_filter.mp he).2
  exact hne (hab.trans hb)

/-- A map read by key. -/
theorem get?_eq_some {m : IdMap} (h : m.keys.Nodup) {k : String} {v : ImapId} :
    m.get? k = some v ↔ (k, v) ∈ m := by
  rw [get?, Option.map_eq_some_iff]
  constructor
  · rintro ⟨e, he, rfl⟩
    have hk : e.1 = k := by simpa using List.find?_some he
    exact hk ▸ List.mem_of_find?_eq_some he
  · intro hmem
    cases hfind : m.find? fun e ↦ e.1 = k with
    | none => simpa using List.find?_eq_none.mp hfind (k, v) hmem
    | some e =>
        have hk : e.1 = k := by simpa using List.find?_some hfind
        exact ⟨e, rfl, congrArg Prod.snd
          (List.inj_on_of_nodup_map h (List.mem_of_find?_eq_some hfind) hmem hk)⟩

end IdMap

/-! ## The selected mailbox -/

/-- `SavedSearch` -/
inductive SavedSearch where
  | none
  | results (items : List ImapId)
deriving DecidableEq

/-- `SelectedMailbox`; the flag for CONDSTORE is not read here. -/
structure SelectedMailbox where
  id : MailboxId
  state : MailboxData
  savedSearch : SavedSearch
  isSelect : Bool

/-- Why a sequence set could not be resolved. -/
inductive SequenceError where
  | /-- The response `NO No saved search found.` -/
    noSavedSearch
  | /-- The code indexes past the end of `jmap_ids`. -/
    outOfBounds
deriving DecidableEq

namespace SelectedMailbox

/-- Insert a message under the email id at its position. -/
def insertMatch (jmapIds : List String) (ids : IdMap) (x : ℕ × ImapId) :
    Except SequenceError IdMap :=
  match jmapIds[x.1]? with
  | some jmapId => .ok (ids.insert jmapId x.2)
  | none => .error .outOfBounds

/-- The loops of `sequence_to_jmap`: insert each matched message. -/
def insertMatches (jmapIds : List String) (matched : List (ℕ × ImapId)) :
    Except SequenceError IdMap :=
  matched.foldlM (insertMatch jmapIds) []

theorem insertMatches_append (jmapIds : List String) (matched : List (ℕ × ImapId))
    (x : ℕ × ImapId) :
    insertMatches jmapIds (matched ++ [x]) =
      insertMatches jmapIds matched >>= fun ids ↦ insertMatch jmapIds ids x := by
  simp [insertMatches, List.foldlM_append]

/-- **What the loops of `sequence_to_jmap` build**: they succeed if every position is in range, and
an email id is then bound to the last of the matched messages at whose position it stands. -/
theorem insertMatches_spec (jmapIds : List String) (matched : List (ℕ × ImapId)) :
    (∃ ids, insertMatches jmapIds matched = .ok ids ∧ (∀ x ∈ matched, x.1 < jmapIds.length) ∧
      ids.keys.Nodup ∧ ∀ e, e ∈ ids ↔ ∃ pre x post, matched = pre ++ x :: post ∧
        jmapIds[x.1]? = some e.1 ∧ x.2 = e.2 ∧ ∀ y ∈ post, jmapIds[y.1]? ≠ some e.1) ∨
    (insertMatches jmapIds matched = .error .outOfBounds ∧
      ∃ x ∈ matched, jmapIds.length ≤ x.1) := by
  induction matched using List.reverseRecOn with
  | nil => exact .inl ⟨[], rfl, by simp, List.nodup_nil, by simp⟩
  | append_singleton matched x ih =>
      rw [insertMatches_append]
      rcases ih with ⟨ids, hok, hlt, hnd, hmem⟩ | ⟨herr, y, hy, hle⟩
      · rw [hok]
        rw [show ((Except.ok ids : Except SequenceError IdMap) >>= fun ids ↦
          insertMatch jmapIds ids x) = insertMatch jmapIds ids x from rfl]
        cases hget : jmapIds[x.1]? with
        | none =>
            refine .inr ⟨by rw [insertMatch, hget], x, by simp, ?_⟩
            exact List.getElem?_eq_none_iff.mp hget
        | some jmapId =>
            have hx : x.1 < jmapIds.length := (List.getElem?_eq_some_iff.mp hget).1
            refine .inl ⟨ids.insert jmapId x.2, by rw [insertMatch, hget], ?_,
              IdMap.nodup_keys_insert hnd _ _, fun e ↦ ?_⟩
            · intro y hy
              rcases List.mem_append.mp hy with hy | hy
              · exact hlt y hy
              · rw [List.mem_singleton.mp hy]
                exact hx
            · rw [IdMap.mem_insert, hmem]
              constructor
              · rintro (⟨⟨pre, y, post, rfl, hy, hye, hpost⟩, hne⟩ | rfl)
                · refine ⟨pre, y, post ++ [x], by simp, hy, hye, fun z hz ↦ ?_⟩
                  rcases List.mem_append.mp hz with hz | hz
                  · exact hpost z hz
                  · rw [List.mem_singleton.mp hz, hget]
                    exact fun hc ↦ hne (Option.some.inj hc).symm
                · exact ⟨matched, x, [], by simp, hget, rfl, by simp⟩
              · rintro ⟨pre, y, post, heq, hy, hye, hpost⟩
                rcases List.eq_nil_or_concat post with rfl | ⟨post, z, rfl⟩
                · obtain ⟨rfl, hxy⟩ := List.append_inj' heq rfl
                  obtain rfl := (List.cons.inj hxy).1
                  rw [hget] at hy
                  exact .inr (Prod.ext (Option.some.inj hy).symm hye.symm)
                · have heq' : matched ++ [x] = (pre ++ y :: post) ++ [z] := by simpa using heq
                  obtain ⟨rfl, hxz⟩ := List.append_inj' heq' rfl
                  obtain rfl := (List.cons.inj hxz).1
                  refine .inl ⟨⟨pre, y, post, rfl, hy, hye, fun w hw ↦ hpost w (by simp [hw])⟩, ?_⟩
                  intro hc
                  exact hpost x (by simp) (hc ▸ hget)
      · refine .inr ⟨by rw [herr]; rfl, y, List.mem_append_left _ hy, hle⟩

/-- If the messages inserted under one email id agree, the order of the insertions does not
matter. -/
theorem mem_insertMatches {jmapIds : List String} {matched : List (ℕ × ImapId)} {ids : IdMap}
    (hok : insertMatches jmapIds matched = .ok ids)
    (hsame : ∀ x ∈ matched, ∀ y ∈ matched, ∀ i, jmapIds[x.1]? = some i → jmapIds[y.1]? = some i →
      x.2 = y.2) (e : String × ImapId) :
    e ∈ ids ↔ ∃ x ∈ matched, jmapIds[x.1]? = some e.1 ∧ x.2 = e.2 := by
  obtain ⟨ids', hok', -, -, hspec⟩ | ⟨herr, -⟩ := insertMatches_spec jmapIds matched
  · obtain rfl : ids' = ids := by simpa [hok] using hok'.symm
    rw [hspec]
    constructor
    · rintro ⟨pre, x, post, rfl, hget, hxe, -⟩
      exact ⟨x, by simp, hget, hxe⟩
    · rintro ⟨x, hx, hget, hxe⟩
      obtain ⟨pre, y, post, hy, hyget, hlast⟩ :=
        exists_last (P := fun z : ℕ × ImapId ↦ jmapIds[z.1]? = some e.1) ⟨x, hx, hget⟩
      exact ⟨pre, y, post, hy, hyget,
        (hsame y (by simp [hy]) x hx e.1 hyget hget).trans hxe, hlast⟩
  · rw [hok] at herr
    exact absurd herr (by simp)

/-- The messages of the view that a sequence set names, with their positions. -/
def matchedMessages (state : MailboxData) (sequence : Sequence) (isUid : Bool) :
    List (ℕ × ImapId) :=
  let maxUid := state.imapUids.getLast?.getD 0
  let maxSeqnum := state.imapUids.length
  (state.imapUids.zipIdx.filter fun (uid, pos) ↦ uid ≠ 0 &&
    if isUid then sequence.contains uid maxUid else sequence.contains (pos + 1) maxSeqnum).map
      fun (uid, pos) ↦ (pos, ⟨uid, pos + 1⟩)

/-- The saved messages that are still in the view, at the positions they had when saved. -/
def matchedSaved (state : MailboxData) (items : List ImapId) : List (ℕ × ImapId) :=
  (items.filter fun imapId ↦ imapId.uid ∈ state.imapUids).map
    fun imapId ↦ (imapId.seqnum - 1, imapId)

/-- `SelectedMailbox::sequence_to_jmap` -/
def sequenceToJmap (m : SelectedMailbox) (sequence : Sequence) (isUid : Bool) :
    Except SequenceError IdMap :=
  if !sequence.isSavedSearch then
    insertMatches m.state.jmapIds (matchedMessages m.state sequence isUid)
  else
    match m.savedSearch with
    | .none => .error .noSavedSearch
    | .results items => insertMatches m.state.jmapIds (matchedSaved m.state items)

/-- Every saved message that is still in the view is where it was when it was saved. -/
def SavedInPlace (m : SelectedMailbox) : Prop :=
  ∀ items, m.savedSearch = .results items → ∀ imapId ∈ items, imapId.uid ∈ m.state.imapUids →
    m.state.imapUids[imapId.seqnum - 1]? = some imapId.uid

/-- What a sequence set resolves to: distinct email ids, each with the UID it has in the view. -/
theorem sequenceToJmap_pairs {m : SelectedMailbox} {sequence : Sequence} {isUid : Bool}
    {ids : IdMap} (hsaved : sequence.isSavedSearch = true → m.SavedInPlace)
    (h : m.sequenceToJmap sequence isUid = .ok ids) :
    ids.keys.Nodup ∧ ∀ e ∈ ids, (e.1, e.2.uid) ∈ m.state.jmapIds.zip m.state.imapUids := by
  have hmain : ∀ matched, insertMatches m.state.jmapIds matched = .ok ids →
      (∀ x ∈ matched, m.state.imapUids[x.1]? = some x.2.uid) →
      ids.keys.Nodup ∧ ∀ e ∈ ids, (e.1, e.2.uid) ∈ m.state.jmapIds.zip m.state.imapUids := by
    intro matched hok huid
    obtain ⟨ids', hok', -, hnd, hmem⟩ | ⟨herr, -⟩ := insertMatches_spec m.state.jmapIds matched
    · obtain rfl : ids' = ids := by simpa [hok] using hok'.symm
      refine ⟨hnd, fun e he ↦ ?_⟩
      obtain ⟨pre, x, post, hx, hget, hxe, -⟩ := (hmem e).mp he
      have hxu := huid x (by simp [hx])
      refine List.mem_of_getElem? (i := x.1) ?_
      rw [List.getElem?_zip_eq_some]
      exact ⟨hget, hxe ▸ hxu⟩
    · rw [hok] at herr
      exact absurd herr (by simp)
  rw [sequenceToJmap] at h
  split at h
  · refine hmain _ h fun x hx ↦ ?_
    obtain ⟨y, hy, rfl⟩ := List.mem_map.mp hx
    exact List.mem_zipIdx_iff_getElem?.mp (List.mem_of_mem_filter hy)
  · rename_i hs
    cases hitems : m.savedSearch with
    | none => simp [hitems] at h
    | results items =>
        rw [hitems] at h
        refine hmain _ h fun x hx ↦ ?_
        obtain ⟨i, hi, rfl⟩ := List.mem_map.mp hx
        obtain ⟨hi, hin⟩ := List.mem_filter.mp hi
        exact hsaved (by simpa using hs) items hitems i hi (by simpa using hin)

/-- `SelectedMailbox::jmap_to_imap` -/
def jmapToImap (state : MailboxData) (jmapIds : List String) : List ImapId :=
  jmapIds.filterMap fun jmapId ↦
    (state.jmapIds.idxOf? jmapId).bind fun pos ↦
      (state.imapUids[pos]?).map fun uid ↦ ⟨uid, pos + 1⟩

/-- `SelectedMailbox::imap_to_jmap` -/
def imapToJmap (state : MailboxData) (imapIds : List ImapId) : List String :=
  imapIds.filterMap fun imapId ↦
    (state.imapUids.idxOf? imapId.uid).bind fun pos ↦ state.jmapIds[pos]?

end SelectedMailbox

/-! ## Synchronization -/

namespace MailboxData

/-- The pairs of email id and UID of a view. -/
def pairs (state : MailboxData) : List (String × ℕ) := state.jmapIds.zip state.imapUids

theorem mem_pairs {state : MailboxData} {i : String} {u : ℕ} :
    (i, u) ∈ state.pairs ↔ ∃ pos : ℕ, state.jmapIds[pos]? = some i ∧
      state.imapUids[pos]? = some u := by
  simp [pairs, List.mem_iff_getElem?, List.getElem?_zip_eq_some]

/-- A UID belongs to one message of the view. -/
theorem pairs_unique {state : MailboxData} (h : state.imapUids.Nodup) {i j : String} {u : ℕ}
    (hi : (i, u) ∈ state.pairs) (hj : (j, u) ∈ state.pairs) : i = j := by
  obtain ⟨p, hpi, hpu⟩ := mem_pairs.mp hi
  obtain ⟨q, hqj, hqu⟩ := mem_pairs.mp hj
  obtain ⟨hp, hpu'⟩ := List.getElem?_eq_some_iff.mp hpu
  obtain ⟨hq, hqu'⟩ := List.getElem?_eq_some_iff.mp hqu
  obtain rfl : p = q := (List.Nodup.getElem_inj_iff h).mp (hpu'.trans hqu'.symm)
  exact Option.some.inj (hpi.symm.trans hqj)

/-- Replace the messages of a view. -/
def withPairs (state : MailboxData) (pairs : List (String × ℕ)) (totalMessages : ℕ) :
    MailboxData :=
  { state with
    jmapIds := pairs.map Prod.fst
    imapUids := pairs.map Prod.snd
    totalMessages := totalMessages }

/-- The removal loop of `synchronize_uids`, of MOVE and of EXPUNGE: the messages that are kept, and
the others with the positions they had. -/
def deletions (state : MailboxData) (keep : String × ℕ → Bool) : List ImapId :=
  (state.pairs.zipIdx.filter fun x ↦ !keep x.1).map fun x ↦ ⟨x.1.2, x.2 + 1⟩

def removeMessages (state : MailboxData) (keep : String × ℕ → Bool) : MailboxData :=
  state.withPairs (state.pairs.filter keep)
    (state.totalMessages - (state.deletions keep).length)

/-- The insertion loop of `synchronize_uids`, with its flag `has_inserts`. -/
def insertMissing : List (String × ℕ) → MailboxData → Bool → MailboxData × Bool
  | [], state, hasInserts => (state, hasInserts)
  | (jmapId, uid) :: listed, state, hasInserts =>
      if uid ∈ state.imapUids then insertMissing listed state hasInserts
      else insertMissing listed { state with
        imapUids := state.imapUids ++ [uid]
        jmapIds := state.jmapIds ++ [jmapId]
        totalMessages := state.totalMessages + 1 } true

/-- `SelectedMailbox::synchronize_uids`: the new view, the new number of messages if anything
changed, and the messages that were removed, if any.  The two lists come from one snapshot and have
the same length. -/
def synchronizeUids (state : MailboxData) (jmapIds : List String) (imapUids : List ℕ)
    (removeMissing : Bool) : MailboxData × Option ℕ × Option (List ImapId) :=
  let keep := fun x : String × ℕ ↦ decide (x.2 ∈ imapUids)
  let deletions := if removeMissing then state.deletions keep else []
  let kept := if removeMissing then state.removeMessages keep else state
  let (new, hasInserts) := insertMissing (jmapIds.zip imapUids) kept false
  (new, if hasInserts || !deletions.isEmpty then some new.totalMessages else none,
    if deletions.isEmpty then none else some deletions)

/-! ### What the loops do to a view -/

/-- The two lists of a view belong together. -/
structure Aligned (state : MailboxData) : Prop where
  length_eq : state.jmapIds.length = state.imapUids.length
  nodup : state.imapUids.Nodup

section

variable {state : MailboxData}

@[simp] theorem withPairs_jmapIds (pairs : List (String × ℕ)) (n : ℕ) :
    (state.withPairs pairs n).jmapIds = pairs.map Prod.fst := rfl

@[simp] theorem withPairs_imapUids (pairs : List (String × ℕ)) (n : ℕ) :
    (state.withPairs pairs n).imapUids = pairs.map Prod.snd := rfl

@[simp] theorem withPairs_totalMessages (pairs : List (String × ℕ)) (n : ℕ) :
    (state.withPairs pairs n).totalMessages = n := rfl

theorem Aligned.map_fst_pairs (h : state.Aligned) : state.pairs.map Prod.fst = state.jmapIds :=
  List.map_fst_zip h.length_eq.le

theorem Aligned.map_snd_pairs (h : state.Aligned) : state.pairs.map Prod.snd = state.imapUids :=
  List.map_snd_zip h.length_eq.ge

theorem Aligned.length_pairs (h : state.Aligned) : state.pairs.length = state.imapUids.length := by
  rw [← h.map_snd_pairs, List.length_map]

theorem pairs_withPairs (pairs : List (String × ℕ)) (n : ℕ) :
    (state.withPairs pairs n).pairs = pairs := by
  rw [MailboxData.pairs, withPairs_jmapIds, withPairs_imapUids, List.zip_map']
  exact List.map_id _

/-- Removing messages keeps the two lists together. -/
theorem Aligned.removeMessages (h : state.Aligned) (keep : String × ℕ → Bool) :
    (state.removeMessages keep).Aligned where
  length_eq := by simp [MailboxData.removeMessages]
  nodup := by
    rw [MailboxData.removeMessages, withPairs_imapUids]
    exact (h.map_snd_pairs ▸ h.nodup).sublist (List.filter_sublist.map _)

theorem pairs_removeMessages (keep : String × ℕ → Bool) :
    (state.removeMessages keep).pairs = state.pairs.filter keep := pairs_withPairs _ _

/-- The messages of a snapshot that are not in the view. -/
def missing (state : MailboxData) (listed : List (String × ℕ)) : List (String × ℕ) :=
  listed.filter fun x ↦ x.2 ∉ state.imapUids

/-- **The insertion loop** appends what is missing. -/
theorem insertMissing_eq {listed : List (String × ℕ)} (hnd : (listed.map Prod.snd).Nodup)
    (state : MailboxData) (hasInserts : Bool) :
    insertMissing listed state hasInserts =
      ({ state with
        imapUids := state.imapUids ++ (state.missing listed).map Prod.snd
        jmapIds := state.jmapIds ++ (state.missing listed).map Prod.fst
        totalMessages := state.totalMessages + (state.missing listed).length },
        hasInserts || !(state.missing listed).isEmpty) := by
  induction listed generalizing state hasInserts with
  | nil => simp [insertMissing, missing]
  | cons x listed ih =>
      obtain ⟨i, u⟩ := x
      obtain ⟨hu, hnd'⟩ := List.nodup_cons.mp hnd
      by_cases hmem : u ∈ state.imapUids
      · simp [insertMissing, hmem, ih hnd', missing]
      · -- the UIDs that follow are different, so inserting this one changes nothing for them
        have hrest : (listed.filter fun x ↦ x.2 ∉ state.imapUids ++ [u]) =
            listed.filter fun x ↦ x.2 ∉ state.imapUids := by
          refine List.filter_congr fun y hy ↦ ?_
          have hyu : y.2 ≠ u := fun hc ↦ hu (hc ▸ List.mem_map.mpr ⟨y, hy, rfl⟩)
          simp [hyu]
        rw [insertMissing, if_neg hmem, ih hnd']
        simp only [missing, List.filter_cons, hmem, hrest]
        simp [Nat.add_assoc, Nat.add_comm]

/-- Inserting what is missing keeps the two lists together. -/
theorem Aligned.insertMissing (h : state.Aligned) {listed : List (String × ℕ)}
    (hnd : (listed.map Prod.snd).Nodup) (hasInserts : Bool) :
    (insertMissing listed state hasInserts).1.Aligned := by
  rw [insertMissing_eq hnd]
  refine ⟨by simp [h.length_eq], ?_⟩
  rw [List.nodup_append]
  refine ⟨h.nodup, hnd.sublist (List.filter_sublist.map _), fun a ha b hb hab ↦ ?_⟩
  obtain ⟨x, hx, rfl⟩ := List.mem_map.mp hb
  have hx' : x.2 ∉ state.imapUids := by simpa using (List.mem_filter.mp hx).2
  exact hx' (hab ▸ ha)

/-- `synchronize_uids` keeps the two lists together. -/
theorem Aligned.synchronizeUids (h : state.Aligned) {jmapIds : List String} {imapUids : List ℕ}
    (hlen : jmapIds.length = imapUids.length) (hnd : imapUids.Nodup) (removeMissing : Bool) :
    (state.synchronizeUids jmapIds imapUids removeMissing).1.Aligned := by
  have hsnd : ((jmapIds.zip imapUids).map Prod.snd).Nodup := by
    rwa [List.map_snd_zip hlen.ge]
  rw [MailboxData.synchronizeUids]
  cases removeMissing with
  | true => exact (h.removeMessages _).insertMissing hsnd _
  | false => exact h.insertMissing hsnd _

end

end MailboxData

end ImapToJmap
