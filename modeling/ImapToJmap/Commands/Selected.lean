import ImapToJmap.Core.View
import ImapToJmap.Protocol.Client

/-!
# Commands on a selected mailbox

The view of a selected mailbox is edited in four places: `synchronize_uids`, which SEARCH, SORT,
THREAD and APPEND call to add what is new and NOOP and IDLE to remove what is gone as well, the end
of MOVE, the end of EXPUNGE, and the saving of a search.  `ViewStep` are these edits, `apply` what
they do to the view, and `responses` what the command then writes.

`ordered_apply` and `agrees_apply`: if a snapshot continues the view (the messages it has and the
view has not come after the whole view), the view stays in increasing order of the UIDs, and a
client that follows the responses keeps the same list as the server.
-/

namespace ImapToJmap

namespace SelectedMailbox

/-! ## The steps of a selected mailbox -/

/-- The number of a message in a response. -/
def number (isUid : Bool) (imapId : ImapId) : ℕ := if isUid then imapId.uid else imapId.seqnum

/-- The results `SessionData::search` saves: all of them, or the smallest and the largest if both
were asked for. -/
def searchResults (state : MailboxData) (jmapIds : List String) (isUid hasMin hasMax : Bool) :
    List ImapId :=
  let imapIds := jmapToImap state jmapIds
  let min := if hasMin then (imapIds.map (number isUid)).min? else none
  let max := if hasMax then (imapIds.map (number isUid)).max? else none
  match min, max with
  | some min, some max => [min, max].filterMap fun n ↦ imapIds.find? fun i ↦ number isUid i = n
  | _, _ => imapIds

/-- What happens to a selected mailbox. -/
inductive ViewStep where
  | /-- A search finds `jmapIds` and saves the result. -/
    saveSearch (jmapIds : List String) (isUid hasMin hasMax : Bool)
  | /-- `synchronize_uids` with a snapshot. -/
    synchronize (snapshot : MailboxData) (removeMissing : Bool)
  | /-- MOVE removes messages. -/
    move (destroyedIds : List String)
  | /-- EXPUNGE forgets the saved search, and replaces the view unless the snapshot fails. -/
    expunge (snapshot : Option MailboxData) (jmapState : String)

/-- The effect of a step. -/
def apply (m : SelectedMailbox) : ViewStep → SelectedMailbox
  | .saveSearch jmapIds isUid hasMin hasMax =>
      { m with savedSearch := .results (searchResults m.state jmapIds isUid hasMin hasMax) }
  | .synchronize snapshot removeMissing =>
      { m with
        state := (m.state.synchronizeUids snapshot.jmapIds snapshot.imapUids removeMissing).1 }
  | .move destroyedIds =>
      { m with state := m.state.removeMessages fun x ↦ x.1 ∉ destroyedIds }
  | .expunge (some snapshot) jmapState =>
      { m with
        savedSearch := .none
        state := { snapshot with lastState := jmapState } }
  | .expunge none _ => { m with savedSearch := .none }

/-- The EXPUNGE or VANISHED of EXPUNGE: the messages of the view that a snapshot does not have. -/
def deletedIds (state snapshot : MailboxData) (isQresync : Bool) : List ℕ :=
  sortNumbers ((state.imapUids.zipIdx.filter fun x ↦ x.1 ∉ snapshot.imapUids).map
    fun (uid, seqnum) ↦ if isQresync then uid else seqnum + 1)

/-- What the command that made the edit writes about it. -/
def responses (isQresync : Bool) (m : SelectedMailbox) : ViewStep → List Untagged
  | .saveSearch .. => []
  | .synchronize snapshot removeMissing =>
      let (_, newMessageCount, deletions) :=
        m.state.synchronizeUids snapshot.jmapIds snapshot.imapUids removeMissing
      (match deletions with
        | some deletions => expungeResponse isQresync (deletions.map (number isQresync))
        | none => []) ++
      match newMessageCount with
        | some newMessageCount => [.exist newMessageCount]
        | none => []
  | .move destroyedIds =>
      expungeResponse isQresync (sortNumbers
        ((m.state.deletions fun x ↦ x.1 ∉ destroyedIds).map (number isQresync)))
  | .expunge (some snapshot) _ =>
      let deleted := deletedIds m.state snapshot isQresync
      if !deleted.isEmpty || m.state.totalMessages != snapshot.totalMessages then
        (if deleted.isEmpty then [] else expungeResponse isQresync deleted) ++
          [.exist snapshot.totalMessages]
      else []
  | .expunge none _ => []

/-! ## Views in order -/

end SelectedMailbox

namespace MailboxData

/-- A view as it should be: two lists of one length, in the order of the UIDs, and counted. -/
structure Ordered (state : MailboxData) : Prop where
  length_eq : state.jmapIds.length = state.imapUids.length
  increasing : state.imapUids.Pairwise (· < ·)
  total : state.totalMessages = state.imapUids.length

theorem Ordered.aligned {state : MailboxData} (h : state.Ordered) : state.Aligned :=
  ⟨h.length_eq, h.increasing.imp Nat.ne_of_lt⟩

/-- What a snapshot has and the view has not comes after the whole view. -/
def Continues (state snapshot : MailboxData) : Prop :=
  ∀ u ∈ snapshot.imapUids, u ∈ state.imapUids ∨ ∀ v ∈ state.imapUids, v < u

section

variable {state snapshot : MailboxData} {client : Client}

/-- The UIDs of a snapshot that the view does not have. -/
def newUids (state snapshot : MailboxData) : List ℕ :=
  snapshot.imapUids.filter (· ∉ state.imapUids)

/-- A snapshot that continues the view is what it keeps of the view, and then the new messages. -/
theorem Continues.imapUids_eq (h : state.Continues snapshot) (hs : state.Ordered)
    (hsnap : snapshot.Ordered) :
    snapshot.imapUids =
      state.imapUids.filter (· ∈ snapshot.imapUids) ++ state.newUids snapshot := by
  have hsorted : (state.imapUids.filter (· ∈ snapshot.imapUids) ++
      state.newUids snapshot).Pairwise (· < ·) := by
    rw [List.pairwise_append]
    refine ⟨hs.increasing.filter _, hsnap.increasing.filter _, fun a ha b hb ↦ ?_⟩
    obtain ⟨hb, hnot⟩ := List.mem_filter.mp hb
    exact (h b hb).resolve_left (by simpa using hnot) a (List.mem_of_mem_filter ha)
  refine List.Perm.eq_of_pairwise (fun a b _ _ hab hba ↦ absurd hab (by omega)) hsnap.increasing
    hsorted ?_
  refine (List.perm_ext_iff_of_nodup hsnap.aligned.nodup (hsorted.imp Nat.ne_of_lt)).mpr fun u ↦ ?_
  rw [List.mem_append, newUids, List.mem_filter, List.mem_filter, decide_eq_true_eq,
    decide_eq_true_eq]
  tauto

/-- The positions and the UIDs of the messages that go are in increasing order. -/
theorem Ordered.pairwise_deletions (h : state.Ordered) (keep : String × ℕ → Bool)
    (isQresync : Bool) :
    ((state.deletions keep).map (SelectedMailbox.number isQresync)).Pairwise (· < ·) := by
  have hidx : state.pairs.zipIdx.Pairwise fun a b ↦ a.1.2 < b.1.2 ∧ a.2 < b.2 := by
    have hinc : (state.pairs.map Prod.snd).Pairwise (· < ·) :=
      h.aligned.map_snd_pairs.symm ▸ h.increasing
    rw [List.pairwise_map, List.pairwise_iff_getElem] at hinc
    rw [List.pairwise_iff_getElem]
    intro i j hi hj hij
    simp only [List.length_zipIdx] at hi hj
    simpa using ⟨hinc i j hi hj hij, hij⟩
  rw [deletions, List.map_map, List.pairwise_map]
  refine (hidx.filter _).imp fun {a b} hab ↦ ?_
  cases isQresync with
  | true => simpa [SelectedMailbox.number] using hab.1
  | false => simpa [SelectedMailbox.number] using hab.2

theorem Ordered.sortNumbers_deletions (h : state.Ordered) (keep : String × ℕ → Bool)
    (isQresync : Bool) :
    sortNumbers ((state.deletions keep).map (SelectedMailbox.number isQresync)) =
      (state.deletions keep).map (SelectedMailbox.number isQresync) :=
  sortNumbers_eq (.refl _) ((h.pairwise_deletions keep isQresync).imp le_of_lt)

/-- EXPUNGE finds the same messages as the removal loop. -/
theorem Ordered.deletedIds_eq (h : state.Ordered) (isQresync : Bool) :
    SelectedMailbox.deletedIds state snapshot isQresync =
      (state.deletions fun x ↦ x.2 ∈ snapshot.imapUids).map (SelectedMailbox.number isQresync) := by
  rw [← h.sortNumbers_deletions, SelectedMailbox.deletedIds]
  refine congrArg sortNumbers ?_
  rw [deletions, ← h.aligned.map_snd_pairs, List.zipIdx_map, List.filter_map, List.map_map,
    List.map_map]
  have hkeep : (fun x : ℕ × ℕ ↦ decide (x.1 ∉ snapshot.imapUids)) ∘ Prod.map Prod.snd id =
      fun x : (String × ℕ) × ℕ ↦ !decide (x.1.2 ∈ snapshot.imapUids) := by
    funext x
    simp
  rw [hkeep]
  exact List.map_congr_left fun x _ ↦ rfl

variable (state) in
/-- The UIDs of the messages that go. -/
theorem map_uid_deletions (keep : String × ℕ → Bool) :
    (state.deletions keep).map ImapId.uid = (state.pairs.filter fun x ↦ !keep x).map Prod.snd := by
  have hmap := List.filter_map (f := Prod.fst) (l := state.pairs.zipIdx) (p := fun x ↦ !keep x)
  rw [List.zipIdx_map_fst] at hmap
  rw [deletions, List.map_map, hmap, List.map_map]
  rfl

/-- **The removal of messages** and what is written about it. -/
theorem agrees_deletions (h : state.Ordered) (hc : client.Agrees state.imapUids)
    (keep : String × ℕ → Bool) (isQresync : Bool) :
    (client.receiveAll (expungeResponse isQresync
      ((state.deletions keep).map (SelectedMailbox.number isQresync)))).Agrees
        ((state.pairs.filter keep).map Prod.snd) := by
  have hsnd := h.aligned.map_snd_pairs
  rw [← hsnd] at hc
  cases isQresync with
  | false =>
      have hnum : (state.deletions keep).map (SelectedMailbox.number false) =
          (state.pairs.zipIdx.filter fun x ↦ !keep x.1).map fun x ↦ x.2 + 1 := by
        simp [deletions, SelectedMailbox.number]
      rw [hnum]
      exact Client.agrees_expunge Prod.snd hc keep
  | true =>
      have hnum : (state.deletions keep).map (SelectedMailbox.number true) =
          (state.pairs.filter fun x ↦ !keep x).map Prod.snd := map_uid_deletions state keep
      have hinc : (state.pairs.map Prod.snd).Pairwise (· < ·) := hsnd.symm ▸ h.increasing
      have hinj := List.inj_on_of_nodup_map (hinc.imp Nat.ne_of_lt)
      have hkept : (state.pairs.map Prod.snd).filter
          (· ∉ (state.pairs.filter fun x ↦ !keep x).map Prod.snd) =
            (state.pairs.filter keep).map Prod.snd := by
        rw [List.filter_map]
        refine congrArg (List.map Prod.snd) (List.filter_congr fun x hx ↦ ?_)
        rw [Bool.eq_iff_iff, Function.comp_apply, decide_eq_true_eq, List.mem_map]
        constructor
        · intro hnot
          by_contra hk
          exact hnot ⟨x, List.mem_filter.mpr ⟨hx, by simpa using hk⟩, rfl⟩
        · rintro hk ⟨y, hy, hxy⟩
          obtain ⟨hy, hky⟩ := List.mem_filter.mp hy
          rw [hinj hy hx hxy, hk] at hky
          exact absurd hky (by decide)
      rw [hnum, ← hkept]
      refine Client.agrees_vanished hc hinc ?_ ((List.filter_sublist.map _).subset)
      exact (hinc.imp Nat.ne_of_lt).sublist (List.filter_sublist.map _)

/-- Nothing is written if nothing is removed. -/
theorem agrees_deletions_if (h : state.Ordered) (hc : client.Agrees state.imapUids)
    (keep : String × ℕ → Bool) (isQresync : Bool) :
    (client.receiveAll (if (state.deletions keep).isEmpty then [] else expungeResponse isQresync
      ((state.deletions keep).map (SelectedMailbox.number isQresync)))).Agrees
        ((state.pairs.filter keep).map Prod.snd) := by
  split
  · rename_i hempty
    have hnone := map_uid_deletions state keep
    rw [List.isEmpty_iff.mp hempty, List.map_nil, eq_comm, List.map_eq_nil_iff,
      List.filter_eq_nil_iff] at hnone
    rw [List.filter_eq_self.mpr fun x hx ↦ by simpa using hnone x hx, h.aligned.map_snd_pairs]
    exact hc
  · exact agrees_deletions h hc keep isQresync

/-! ## The view after an edit -/

theorem mem_of_mem_removeMessages {keep : String × ℕ → Bool} {u : ℕ}
    (h : u ∈ (state.removeMessages keep).imapUids) : u ∈ state.imapUids := by
  rw [MailboxData.removeMessages, withPairs_imapUids] at h
  obtain ⟨x, hx, rfl⟩ := List.mem_map.mp h
  exact (List.of_mem_zip (List.mem_of_mem_filter hx)).2

theorem Ordered.removeMessages (h : state.Ordered) (keep : String × ℕ → Bool) :
    (state.removeMessages keep).Ordered where
  length_eq := (h.aligned.removeMessages keep).length_eq
  increasing := by
    rw [MailboxData.removeMessages, withPairs_imapUids]
    exact (h.aligned.map_snd_pairs ▸ h.increasing).sublist (List.filter_sublist.map _)
  total := by
    have hlen : (state.deletions keep).length = (state.pairs.filter fun x ↦ !keep x).length := by
      simpa using congrArg List.length (map_uid_deletions state keep)
    have hsplit := List.length_eq_length_filter_add (l := state.pairs) keep
    rw [MailboxData.removeMessages, withPairs_totalMessages, withPairs_imapUids, List.length_map,
      h.total, ← h.aligned.length_pairs, hlen]
    omega

/-- Removing nothing changes nothing. -/
theorem Aligned.removeMessages_all (h : state.Aligned) (keep : String × ℕ → Bool)
    (hkeep : ∀ x, keep x = true) : state.deletions keep = [] ∧
      state.removeMessages keep = state := by
  have hdel : state.deletions keep = [] := by simp [deletions, hkeep]
  refine ⟨hdel, ?_⟩
  rw [MailboxData.removeMessages, hdel, List.filter_eq_self.mpr fun x _ ↦ hkeep x, withPairs,
    h.map_fst_pairs, h.map_snd_pairs]
  rfl

/-- The messages `synchronize_uids` keeps. -/
def keeps (snapshot : MailboxData) (removeMissing : Bool) (x : String × ℕ) : Bool :=
  !removeMissing || decide (x.2 ∈ snapshot.imapUids)

/-- The view before `synchronize_uids` inserts what is new. -/
def kept (state snapshot : MailboxData) (removeMissing : Bool) : MailboxData :=
  state.removeMessages (snapshot.keeps removeMissing)

/-- What `synchronize_uids` inserts. -/
def inserted (state snapshot : MailboxData) (removeMissing : Bool) : List (String × ℕ) :=
  (state.kept snapshot removeMissing).missing snapshot.pairs

/-- The view after `synchronize_uids`: what is kept, and then what is new. -/
def synchronized (state snapshot : MailboxData) (removeMissing : Bool) : MailboxData :=
  let kept := state.kept snapshot removeMissing
  let inserted := state.inserted snapshot removeMissing
  { kept with
    imapUids := kept.imapUids ++ inserted.map Prod.snd
    jmapIds := kept.jmapIds ++ inserted.map Prod.fst
    totalMessages := kept.totalMessages + inserted.length }

/-- `synchronize_uids` with and without removal in one. -/
theorem Aligned.synchronizeUids_eq (h : state.Aligned) (hsnap : snapshot.Aligned)
    (removeMissing : Bool) :
    state.synchronizeUids snapshot.jmapIds snapshot.imapUids removeMissing =
      let deletions := state.deletions (snapshot.keeps removeMissing)
      let new := state.synchronized snapshot removeMissing
      (new,
        if !(state.inserted snapshot removeMissing).isEmpty || !deletions.isEmpty then
          some new.totalMessages else none,
        if deletions.isEmpty then none else some deletions) := by
  have hnd : (snapshot.pairs.map Prod.snd).Nodup := hsnap.map_snd_pairs.symm ▸ hsnap.nodup
  have hpairs : snapshot.jmapIds.zip snapshot.imapUids = snapshot.pairs := rfl
  rw [MailboxData.synchronizeUids, synchronized, inserted, kept]
  cases removeMissing with
  | true =>
      have hkeep : snapshot.keeps true = fun x ↦ decide (x.2 ∈ snapshot.imapUids) := by
        funext x
        simp [keeps]
      simp only [if_true, hkeep, hpairs, insertMissing_eq hnd, Bool.false_or]
  | false =>
      obtain ⟨hdel, hsame⟩ := h.removeMessages_all (snapshot.keeps false) (by simp [keeps])
      simp [hdel, hsame, hpairs, insertMissing_eq hnd]

theorem pairs_synchronized (removeMissing : Bool) :
    (state.synchronized snapshot removeMissing).pairs =
      state.pairs.filter (snapshot.keeps removeMissing) ++
        state.inserted snapshot removeMissing := by
  have hlen : (state.kept snapshot removeMissing).jmapIds.length =
      (state.kept snapshot removeMissing).imapUids.length := by
    simp [kept, MailboxData.removeMessages]
  rw [synchronized, pairs, List.zip_append hlen, List.zip_map', ← pairs, kept,
    pairs_removeMessages]
  simp

/-- A message that a snapshot has and the view has not. -/
theorem Continues.lt_of_mem_inserted (hcont : state.Continues snapshot) (h : state.Aligned)
    {removeMissing : Bool} {x : String × ℕ} (hx : x ∈ state.inserted snapshot removeMissing) :
    x ∈ snapshot.pairs ∧ ∀ v ∈ state.imapUids, v < x.2 := by
  obtain ⟨hmem, hnot⟩ := List.mem_filter.mp hx
  have huid : x.2 ∈ snapshot.imapUids := (List.of_mem_zip hmem).2
  refine ⟨hmem, (hcont x.2 huid).resolve_left fun hin ↦ ?_⟩
  -- a message of the view that the snapshot has is kept
  rw [← h.map_snd_pairs] at hin
  obtain ⟨y, hy, hyx⟩ := List.mem_map.mp hin
  rw [decide_eq_true_eq, kept, MailboxData.removeMessages, withPairs_imapUids] at hnot
  refine hnot (List.mem_map.mpr ⟨y, List.mem_filter.mpr ⟨hy, ?_⟩, hyx⟩)
  simp [keeps, hyx, huid]

/-- `synchronize_uids` keeps the view in order. -/
theorem Ordered.synchronized (h : state.Ordered) (hsnap : snapshot.Ordered)
    (hcont : state.Continues snapshot) (removeMissing : Bool) :
    (state.synchronized snapshot removeMissing).Ordered where
  length_eq := by simp [MailboxData.synchronized, kept, MailboxData.removeMessages]
  increasing := by
    have hkept := (h.removeMessages (snapshot.keeps removeMissing)).increasing
    rw [MailboxData.synchronized, List.pairwise_append]
    refine ⟨hkept, ?_, fun a ha b hb ↦ ?_⟩
    · exact (hsnap.aligned.map_snd_pairs ▸ hsnap.increasing).sublist (List.filter_sublist.map _)
    · obtain ⟨x, hx, rfl⟩ := List.mem_map.mp hb
      refine (hcont.lt_of_mem_inserted h.aligned hx).2 a ?_
      rw [kept, MailboxData.removeMessages, withPairs_imapUids] at ha
      rw [← h.aligned.map_snd_pairs]
      exact (List.filter_sublist.map _).subset ha
  total := by
    have hkept := (h.removeMessages (snapshot.keeps removeMissing)).total
    simp only [MailboxData.synchronized, kept, hkept, List.length_append, List.length_map]

end

end MailboxData

/-! ## The edits and their responses -/

namespace SelectedMailbox

/-- The snapshot of an edit is in order and continues the view. -/
def ViewStep.Continues (state : MailboxData) : ViewStep → Prop
  | .synchronize snapshot _ => snapshot.Ordered ∧ state.Continues snapshot
  | .expunge snapshot _ => ∀ data ∈ snapshot, data.Ordered ∧ state.Continues data
  | _ => True

variable {m : SelectedMailbox} {step : ViewStep}

/-- The view after a synchronization. -/
theorem apply_synchronize (h : m.state.Ordered) {snapshot : MailboxData} (hsnap : snapshot.Ordered)
    (removeMissing : Bool) :
    (m.apply (.synchronize snapshot removeMissing)).state =
      m.state.synchronized snapshot removeMissing := by
  rw [apply, h.aligned.synchronizeUids_eq hsnap.aligned]

/-- The responses to a synchronization. -/
theorem responses_synchronize (h : m.state.Ordered) {snapshot : MailboxData}
    (hsnap : snapshot.Ordered) (removeMissing isQresync : Bool) :
    let deletions := m.state.deletions (snapshot.keeps removeMissing)
    m.responses isQresync (.synchronize snapshot removeMissing) =
      (if deletions.isEmpty then [] else
        expungeResponse isQresync (deletions.map (number isQresync))) ++
      if !(m.state.inserted snapshot removeMissing).isEmpty || !deletions.isEmpty then
        [.exist (m.state.synchronized snapshot removeMissing).totalMessages] else [] := by
  rw [responses, h.aligned.synchronizeUids_eq hsnap.aligned]
  dsimp only
  split_ifs <;> rfl

/-- The responses to EXPUNGE. -/
theorem responses_expunge (h : m.state.Ordered) (snapshot : MailboxData) (jmapState : String)
    (isQresync : Bool) :
    let deletions := m.state.deletions fun x ↦ x.2 ∈ snapshot.imapUids
    m.responses isQresync (.expunge (some snapshot) jmapState) =
      (if deletions.isEmpty then [] else
        expungeResponse isQresync (deletions.map (number isQresync))) ++
      if !deletions.isEmpty || m.state.totalMessages != snapshot.totalMessages then
        [.exist snapshot.totalMessages] else [] := by
  rw [responses, h.deletedIds_eq]
  cases hdel : m.state.deletions fun x ↦ x.2 ∈ snapshot.imapUids with
  | nil => simp
  | cons d ds => simp

/-- **The view stays in order.** -/
theorem ordered_apply (h : m.state.Ordered) (hstep : step.Continues m.state) :
    (m.apply step).state.Ordered := by
  cases step with
  | saveSearch => exact h
  | synchronize snapshot removeMissing =>
      rw [apply_synchronize h hstep.1]
      exact h.synchronized hstep.1 hstep.2 removeMissing
  | move destroyedIds => exact h.removeMessages _
  | expunge snapshot jmapState =>
      cases snapshot with
      | none => exact h
      | some snapshot =>
          obtain ⟨hlen, hinc, htotal⟩ := (hstep snapshot rfl).1
          exact ⟨hlen, hinc, htotal⟩

/-- **The client keeps the server's list** if it follows the responses. -/
theorem agrees_apply (h : m.state.Ordered) (hstep : step.Continues m.state) {client : Client}
    (hc : client.Agrees m.state.imapUids) (isQresync : Bool) :
    (client.receiveAll (m.responses isQresync step)).Agrees (m.apply step).state.imapUids := by
  cases step with
  | saveSearch => exact hc
  | synchronize snapshot removeMissing =>
      obtain ⟨hsnap, -⟩ := hstep
      have hkept := MailboxData.agrees_deletions_if h hc (snapshot.keeps removeMissing) isQresync
      have htotal := (h.removeMessages (snapshot.keeps removeMissing)).total
      rw [apply_synchronize h hsnap, responses_synchronize h hsnap, Client.receiveAll_append]
      refine Client.agrees_exist_if hkept (fun hsent ↦ ?_) ?_
      · rw [Bool.or_eq_false_iff, Bool.not_eq_false', List.isEmpty_iff] at hsent
        rw [hsent.1, List.map_nil]
      · simp only [MailboxData.synchronized, MailboxData.kept, htotal]
        simp [MailboxData.removeMessages]
  | move destroyedIds =>
      rw [responses, h.sortNumbers_deletions]
      exact MailboxData.agrees_deletions h hc _ isQresync
  | expunge snapshot jmapState =>
      cases snapshot with
      | none => exact hc
      | some snapshot =>
          obtain ⟨hsnap, hcont⟩ := hstep snapshot rfl
          have hkept := MailboxData.agrees_deletions_if h hc
            (fun x ↦ x.2 ∈ snapshot.imapUids) isQresync
          have hmap : (m.state.pairs.filter fun x ↦ x.2 ∈ snapshot.imapUids).map Prod.snd =
              m.state.imapUids.filter (· ∈ snapshot.imapUids) := by
            rw [← h.aligned.map_snd_pairs, List.filter_map]
            rfl
          have huids := hcont.imapUids_eq h hsnap
          have hlen := congrArg List.length huids
          rw [List.length_append, ← hsnap.total] at hlen
          rw [hmap] at hkept
          rw [responses_expunge h, Client.receiveAll_append, apply]
          refine (congrArg (Client.Agrees _) huids).mpr
            (Client.agrees_exist_if hkept (fun hsent ↦ ?_) hlen)
          -- nothing was removed and the number of messages is the same
          rw [Bool.or_eq_false_iff, Bool.not_eq_false', bne_eq_false_iff_eq] at hsent
          have hsame := MailboxData.agrees_deletions_if h hc
            (fun x ↦ x.2 ∈ snapshot.imapUids) isQresync
          rw [if_pos hsent.1, hmap] at hsame
          have hsame' := hsame.length_eq
          have hcl := hc.length_eq
          have htotal := h.total
          refine List.eq_nil_of_length_eq_zero ?_
          simp only [Client.receiveAll, List.foldl_nil] at hsame'
          omega

end SelectedMailbox

end ImapToJmap
