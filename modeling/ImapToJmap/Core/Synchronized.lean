import ImapToJmap.Core.Vanished
import ImapToJmap.Core.View

/-!
# One call of `update_uids`

What a caller may rely on, for any database that holds the numbered table of the mailbox and any
listing: `Synchronized` has one field for each promise, about what the call returns and about what
it leaves in the database.

The counter is a `u32`.  `updateUids_synchronized` asks for as many numbers above it as there are
new messages, and one more for `uid_next`; `updateUids_wraps` is a call without that room.
-/

namespace ImapToJmap

open Kv

/-- What `update_uids` makes of a listing, in a mailbox that had the table `T`. -/
structure Synchronized (mailbox : MailboxId) (T : UidTable String) (listing : List String)
    (db db' : Db) (data : MailboxData) : Prop where
  length_eq : data.jmapIds.length = data.imapUids.length
  perm : data.jmapIds.Perm listing
  increasing : data.imapUids.Pairwise (· < ·)
  /-- Position by position, an id and the UID stored for it. -/
  stored : ∀ i u, (i, u) ∈ data.pairs →
    record db' mailbox Sep.jmapToUid (asBytes i) = some (toBeBytes 4 u) ∧
      record db' mailbox Sep.uidToJmap (toBeBytes 4 u) = some (asBytes i)
  kept : ∀ i u, (u, i) ∈ T.entries → i ∈ listing → (i, u) ∈ data.pairs
  /-- New UIDs lie above everything given out before. -/
  above : ∀ i u, (i, u) ∈ data.pairs → i ∉ T.ids → T.next < u
  listingOrder : ∀ i u j v, (i, u) ∈ data.pairs → (j, v) ∈ data.pairs → i ∉ T.ids → j ∉ T.ids →
    (u < v ↔ listing.idxOf i < listing.idxOf j)
  uidNext : T.next < data.uidNext ∧ ∀ u ∈ data.imapUids, u < data.uidNext
  /-- What is not listed is unmapped, and recorded as deleted with the UID it had. -/
  removed : ∀ i u, (u, i) ∈ T.entries → i ∉ listing →
    record db' mailbox Sep.jmapToUid (asBytes i) = none ∧
    record db' mailbox Sep.uidToJmap (toBeBytes 4 u) = none ∧
    ∃ now, record db' mailbox Sep.jmapDeletedIds (asBytes i) =
      some (toBeBytes 4 u ++ toBeBytes 8 now)
  others : ∀ other : MailboxId, other.WellFormed → other ≠ mailbox → ∀ s ≤ Sep.jmapDeletedIds, ∀ b,
    record db' other s b = record db other s b

namespace UidTable

variable {ι : Type*} [DecidableEq ι]

/-- The ids of a synchronized table are the listed ones. -/
theorem perm_ids_sync (T : UidTable ι) {l : List ι} (hl : l.Nodup) : (T.sync l).ids.Perm l := by
  refine (List.perm_ext_iff_of_nodup (T.sync l).nodup hl).mpr fun i ↦ ?_
  show i ∈ ((T.restrict (· ∈ l)).ensureAll l).ids ↔ i ∈ l
  rw [mem_ids_ensureAll, mem_ids_restrict]
  simp

/-- As many numbers are given out as there are newcomers. -/
theorem next_sync (T : UidTable ι) {l : List ι} (hl : l.Nodup) :
    (T.sync l).next = T.next + (l.filter fun i ↦ i ∉ T.ids).length := by
  obtain ⟨new, hnew, hlen, -⟩ := (T.restrict (· ∈ l)).ensureAll_entries l
  obtain ⟨new', hnew', hids⟩ := (T.restrict (· ∈ l)).ensureAll_new hl
  obtain rfl : new = new' := List.append_cancel_left (hnew.symm.trans hnew')
  have hfilter : (l.filter fun i ↦ i ∉ (T.restrict (· ∈ l)).ids) = l.filter fun i ↦ i ∉ T.ids := by
    refine List.filter_congr fun i hi ↦ ?_
    simp [mem_ids_restrict, hi]
  rw [sync, ← hlen, restrict_next, ← hfilter, ← hids, List.length_map]

theorem mem_sync_of_mem {T : UidTable ι} {l : List ι} {e : ℕ × ι} (he : e ∈ T.entries)
    (hl : e.2 ∈ l) : e ∈ (T.sync l).entries := by
  obtain ⟨new, hnew, -, -⟩ := T.sync_entries l
  rw [hnew]
  exact List.mem_append_left _ (List.mem_filter.mpr ⟨he, by simpa using hl⟩)

/-- A number that is not of the old table is new. -/
theorem lt_of_mem_sync {T : UidTable ι} {l : List ι} {u : ℕ} {i : ι}
    (h : (u, i) ∈ (T.sync l).entries) (hi : i ∉ T.ids) : T.next < u := by
  obtain ⟨new, hnew, -, habove⟩ := T.sync_entries l
  rw [hnew] at h
  rcases List.mem_append.mp h with h | h
  · exact absurd (mem_ids.mpr ⟨u, List.mem_of_mem_filter h⟩) hi
  · exact habove _ h

end UidTable

namespace Db

variable {db : Db} {mailbox : MailboxId} {T : UidTable String} {listing : List String}

/-- The record of an entry that the batch of the scan removes. -/
theorem Deletes.remembers {gone : List (ℕ × String)} {batch : List (Edit UInt8 Bytes)}
    (h : Deletes mailbox gone batch) (hgone : ∀ e ∈ gone, e ∈ T.entries) {u : ℕ} {i : String}
    (hmem : (u, i) ∈ gone) :
    Remembers (record (db.applyBatch batch) mailbox Sep.jmapDeletedIds (asBytes i)) (some u) := by
  rcases Tree.applyBatch_cases db batch (serializeKeyPrefix mailbox Sep.jmapDeletedIds ++ asBytes i)
    with ⟨ed, hed, hkey, hres⟩ | ⟨hno, -⟩
  · obtain ⟨e, he, ⟨now, rfl⟩ | rfl | rfl⟩ := h.edits ed hed
    · obtain rfl : e.2 = i := asBytes_injective (serializeKeyPrefix_append_iff.mp hkey).2
      obtain rfl : e.1 = u := UidTable.uid_unique (hgone _ he) (hgone _ hmem)
      exact ⟨now, hres⟩
    · exact absurd (serializeKeyPrefix_append_iff.mp hkey).1 (by decide)
    · exact absurd (serializeKeyPrefix_append_iff.mp hkey).1 (by decide)
  · obtain ⟨now, hdeleted⟩ := h.deleted _ hmem
    exact absurd rfl (hno _ hdeleted)

/-- `update_uids` records what it removes. -/
theorem updateUids_remembers (h : Represents db mailbox T) (clock : Clock)
    {u : ℕ} {i : String} (hmem : (u, i) ∈ T.entries) (hi : i ∉ listing) :
    Remembers (record ((updateUids mailbox clock listing).run db).2 mailbox Sep.jmapDeletedIds
      (asBytes i)) (some u) := by
  obtain ⟨v, db₁, st, db₂, -, hbatch, hst, hrest⟩ := updateUids_rest h clock listing
  have hgone : (u, i) ∈ T.entries.filter fun e ↦ e.2 ∉ listing :=
    List.mem_filter.mpr ⟨hmem, by simpa using hi⟩
  have hdel : st.hasDeletions = true := by
    by_contra hc
    rw [hst.hasDeletions (by simpa using hc)] at hgone
    exact absurd hgone List.not_mem_nil
  obtain rfl : db₁.applyBatch st.batch = db₂ := by simpa [applyDeletions, hdel] using hbatch
  have hrec : Remembers (record (db₁.applyBatch st.batch) mailbox Sep.jmapDeletedIds (asBytes i))
      (some u) := hst.batch.remembers (fun e he ↦ List.mem_of_mem_filter he) hgone
  rw [hrest _ (by decide)]
  exact hrec

end Db

/-- **`update_uids`**: as long as the counter has room, one call keeps every promise. -/
theorem updateUids_synchronized {db : Db} {mailbox : MailboxId} (hm : mailbox.WellFormed)
    {T : UidTable String} (h : Represents db mailbox T) (clock : Clock) {listing : List String}
    (hid : ∀ i ∈ listing, IsJmapId i) (hnd : listing.Nodup)
    (hlt : T.next + (listing.filter fun i ↦ i ∉ T.ids).length + 1 < 2 ^ 32) :
    ∃ data db', (Db.updateUids mailbox clock listing).run db = (some data, db') ∧
      Synchronized mailbox T listing db db' data := by
  rw [← T.next_sync hnd] at hlt
  obtain ⟨data, db', hrun, hrep, hf, hids, huids, -, hnext⟩ :=
    Db.updateUids_run h clock hid hnd hlt
  refine ⟨data, db', hrun, ?_⟩
  have hpairs : ∀ i u, (i, u) ∈ data.pairs ↔ (u, i) ∈ (T.sync listing).entries := by
    intro i u
    rw [MailboxData.pairs, hids, huids, UidTable.ids, UidTable.uids, List.zip_map', List.mem_map]
    constructor
    · rintro ⟨e, he, heq⟩
      obtain ⟨rfl, rfl⟩ := Prod.mk.inj heq
      exact he
    · intro he
      exact ⟨(u, i), he, rfl⟩
  have hgone : ∀ i u, (u, i) ∈ T.entries → i ∉ listing → (u, i) ∉ (T.sync listing).entries := by
    intro i u _ hi hmem
    have hin := (T.perm_ids_sync hnd).mem_iff.mp (UidTable.mem_ids.mpr ⟨u, hmem⟩)
    exact hi hin
  constructor
  case length_eq => rw [hids, huids, UidTable.ids, UidTable.uids, List.length_map, List.length_map]
  case perm => exact hids ▸ T.perm_ids_sync hnd
  case increasing => exact huids ▸ (T.sync listing).pairwise_uids
  case stored =>
    intro i u hmem
    have he := (hpairs i u).mp hmem
    exact ⟨(hrep.jmapToUid _ _).mpr ⟨_, he, rfl, rfl⟩, (hrep.uidToJmap _ _).mpr ⟨_, he, rfl, rfl⟩⟩
  case kept =>
    intro i u hmem hi
    exact (hpairs i u).mpr (UidTable.mem_sync_of_mem hmem hi)
  case above =>
    intro i u hmem hi
    exact UidTable.lt_of_mem_sync ((hpairs i u).mp hmem) hi
  case listingOrder =>
    intro i u j v hiu hjv hi hj
    have hrest : ∀ k, k ∉ T.ids → (T.restrict (· ∈ listing)).uid? k = none := by
      intro k hk
      rw [UidTable.uid?_eq_none, UidTable.mem_ids_restrict]
      exact fun hc ↦ hk hc.1
    rw [UidTable.lt_iff_before hnd ((hpairs i u).mp hiu) ((hpairs j v).mp hjv), UidTable.Before,
      hrest i hi, hrest j hj]
  case uidNext =>
    rw [hnext, huids]
    refine ⟨Nat.lt_succ_of_le (T.next_le_sync listing), fun u hu ↦ ?_⟩
    obtain ⟨i, hi⟩ := UidTable.mem_uids.mp hu
    exact Nat.lt_succ_of_le (UidTable.le_next hi)
  case removed =>
    intro i u hmem hi
    refine ⟨?_, ?_, ?_⟩
    · rw [Option.eq_none_iff_forall_ne_some]
      intro b hb
      obtain ⟨e, he, hie, -⟩ := (hrep.jmapToUid _ _).mp hb
      have hin := (T.perm_ids_sync hnd).mem_iff.mp (UidTable.mem_ids.mpr ⟨e.1, he⟩)
      exact hi (asBytes_injective hie ▸ hin)
    · rw [Option.eq_none_iff_forall_ne_some]
      intro b hb
      obtain ⟨e, he, hue, -⟩ := (hrep.uidToJmap _ _).mp hb
      have hu : u = e.1 := (toBeBytes_inj (h.lt_of_mem hmem) (hrep.lt_of_mem he)).mp hue
      obtain ⟨new, hnew, -, habove⟩ := T.sync_entries listing
      rw [hnew] at he
      rcases List.mem_append.mp he with he' | he'
      · have hei : e.2 = i := UidTable.id_unique (u := e.1) (List.mem_of_mem_filter he') (hu ▸ hmem)
        have hlisted := (List.mem_filter.mp he').2
        rw [hei] at hlisted
        exact hi (by simpa using hlisted)
      · have hlt' := habove e he'
        exact absurd (UidTable.le_next hmem) (by omega)
    · have hrec := Db.updateUids_remembers h clock hmem hi
      rwa [hrun] at hrec
  case others =>
    intro other ho hne s hs b
    have hs' : s ≤ 7 := hs
    exact hf.record_eq hm ho (Ne.symm hne) hs' b

/-- The database behind the first listing of a mailbox. -/
def listedDb : Db :=
  ((Db.updateUids ⟨"u1", some "inbox"⟩ (fun _ ↦ 1660000000) ["M1", "M2"]).run ∅).2

theorem represents_listedDb :
    Represents listedDb ⟨"u1", some "inbox"⟩ (UidTable.empty.sync ["M1", "M2"]) := by
  have hid : ∀ i ∈ ["M1", "M2"], IsJmapId i := by decide +kernel
  obtain ⟨data, db', hrun, hrep, -⟩ := Db.updateUids_run (Represents.empty ⟨"u1", some "inbox"⟩)
    (fun _ ↦ 1660000000) hid (by decide) (by decide)
  rw [listedDb, hrun]
  exact hrep

/-- The second one: a message is gone, one stays, and one is new. -/
theorem updateUids_synchronized_listed :
    (UidTable.empty.sync ["M1", "M2"]).entries = [(1, "M1"), (2, "M2")] ∧
      ∃ data db', (Db.updateUids ⟨"u1", some "inbox"⟩ (fun _ ↦ 1660000000) ["M3", "M2"]).run
          listedDb = (some data, db') ∧
        Synchronized ⟨"u1", some "inbox"⟩ (UidTable.empty.sync ["M1", "M2"]) ["M3", "M2"] listedDb
          db' data := by
  have hm : MailboxId.WellFormed ⟨"u1", some "inbox"⟩ :=
    ⟨by decide +kernel, by simp; decide +kernel⟩
  exact ⟨rfl, updateUids_synchronized hm represents_listedDb _ (by decide +kernel) (by decide)
    (by decide)⟩

/-- A mailbox of one message, which has the last UID there is. -/
def lastTable : UidTable String where
  entries := [(4294967295, "M1")]
  next := 4294967295
  sorted := by simp
  nodup := by simp
  bounds := by simp

def lastDb : Db :=
  put (put (put ∅ ⟨"u1", some "inbox"⟩ Sep.uidNext [] (toBeBytes 4 4294967295))
    ⟨"u1", some "inbox"⟩ Sep.jmapToUid (asBytes "M1") (toBeBytes 4 4294967295))
    ⟨"u1", some "inbox"⟩ Sep.uidToJmap (toBeBytes 4 4294967295) (asBytes "M1")

theorem record_lastDb (s : UInt8) (b : Bytes) :
    record lastDb ⟨"u1", some "inbox"⟩ s b =
      if Sep.uidToJmap = s ∧ toBeBytes 4 4294967295 = b then some (asBytes "M1")
      else if Sep.jmapToUid = s ∧ asBytes "M1" = b then some (toBeBytes 4 4294967295)
      else if Sep.uidNext = s ∧ [] = b then some (toBeBytes 4 4294967295) else none := by
  have hempty : record ∅ ⟨"u1", some "inbox"⟩ s b = none := by simp [record]
  rw [lastDb, record_put, record_put, record_put, hempty]

theorem represents_lastDb : Represents lastDb ⟨"u1", some "inbox"⟩ lastTable where
  isJmapId := by decide +kernel
  next_lt := by decide
  uidToJmap b v := by
    rw [record_lastDb]
    simp [lastTable, Sep.uidToJmap, Sep.jmapToUid, Sep.uidNext, eq_comm]
  jmapToUid b v := by
    rw [record_lastDb]
    simp [lastTable, Sep.uidToJmap, Sep.jmapToUid, Sep.uidNext, eq_comm]
  counter := by
    rw [record_lastDb]
    simp [lastTable, Sep.uidToJmap, Sep.jmapToUid, Sep.uidNext]
  validity v hv := by
    rw [record_lastDb] at hv
    simp [Sep.uidToJmap, Sep.jmapToUid, Sep.uidNext, Sep.uidValidity] at hv

/-- The counter stands at the last `u32`, and a message is new. -/
theorem updateUids_wraps : ¬ ∀ (db : Db) (mailbox : MailboxId) (T : UidTable String)
    (clock : Clock) (listing : List String), mailbox.WellFormed → Represents db mailbox T →
    (∀ i ∈ listing, IsJmapId i) → listing.Nodup →
    ∃ data db', (Db.updateUids mailbox clock listing).run db = (some data, db') ∧
      Synchronized mailbox T listing db db' data := by
  intro h
  obtain ⟨data, db', hrun, hsync⟩ := h lastDb ⟨"u1", some "inbox"⟩ lastTable (fun _ ↦ 1660000000)
    ["M1", "M2"] ⟨by decide +kernel, by simp; decide +kernel⟩ represents_lastDb
    (by decide +kernel) (by decide)
  have huids : ((Db.updateUids ⟨"u1", some "inbox"⟩ (fun _ ↦ 1660000000) ["M1", "M2"]).run
      lastDb).1.map MailboxData.imapUids = some [4294967295, 0] := by decide +kernel
  rw [hrun] at huids
  have heq : data.imapUids = [4294967295, 0] := Option.some.inj huids
  have hinc := hsync.increasing
  rw [heq] at hinc
  exact absurd hinc (by decide)

end ImapToJmap
