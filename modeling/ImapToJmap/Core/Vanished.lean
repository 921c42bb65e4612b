import ImapToJmap.Core.Ledger
import ImapToJmap.Core.UidMap
import ImapToJmap.Kv.Writes

/-!
# What a resynchronizing client is told

A QRESYNC client learns which of its UIDs are gone from the `JMAP_DELETED_IDS` records, through
`jmap_to_imap` with `OnlyIncludeDeleted`.  There is one such record per email id.  `Deletions` says
which numbers the records of a mailbox hold, and with it every operation becomes a step of a
`Ledger`; `vanished_exact_iff` is then a statement about ledgers.
-/

namespace ImapToJmap

open Kv

/-! ## The records of deleted ids -/

/-- A record of a deleted id holds its last UID, with some time of removal. -/
def Remembers (r : Option Bytes) : Option ℕ → Prop
  | none => r = none
  | some u => ∃ now, r = some (toBeBytes 4 u ++ toBeBytes 8 now)

/-- The deleted-id records of a mailbox. -/
def Deletions (db : Db) (mailbox : MailboxId) (gone : String → Option ℕ) : Prop :=
  ∀ i, Remembers (record db mailbox Sep.jmapDeletedIds (asBytes i)) (gone i)

theorem Deletions.congr {db db' : Db} {mailbox : MailboxId} {gone : String → Option ℕ}
    (h : Deletions db mailbox gone) (hsame : ∀ b, record db' mailbox Sep.jmapDeletedIds b =
      record db mailbox Sep.jmapDeletedIds b) : Deletions db' mailbox gone := fun i ↦ by
  rw [hsame]
  exact h i

namespace Db

variable {db : Db} {mailbox : MailboxId} {T : UidTable String} {listing : List String}

/-- Removing entries records them, each under its id. -/
theorem Deletes.deletions {gone : List (ℕ × String)} {batch : List (Edit UInt8 Bytes)}
    (h : Deletes mailbox gone batch) {p : String → Bool}
    (hgone : ∀ e, e ∈ gone ↔ e ∈ T.entries ∧ p e.2 = false) {g : String → Option ℕ}
    (hg : Deletions db mailbox g) :
    Deletions (db.applyBatch batch) mailbox
      fun i ↦ if p i then g i else (T.uid? i).or (g i) := by
  intro i
  rcases Tree.applyBatch_cases db batch (serializeKeyPrefix mailbox Sep.jmapDeletedIds ++ asBytes i)
    with ⟨ed, hed, hkey, hres⟩ | ⟨hno, hsame⟩
  · obtain ⟨e, he, ⟨now, rfl⟩ | rfl | rfl⟩ := h.edits ed hed
    · obtain ⟨hmem, hp⟩ := (hgone e).mp he
      obtain rfl : e.2 = i := asBytes_injective (serializeKeyPrefix_append_iff.mp hkey).2
      simp only [hp, UidTable.uid?_eq_some.mpr hmem]
      exact ⟨now, hres⟩
    · exact absurd (serializeKeyPrefix_append_iff.mp hkey).1 (by decide)
    · exact absurd (serializeKeyPrefix_append_iff.mp hkey).1 (by decide)
  · have hkeep : (if p i then g i else (T.uid? i).or (g i)) = g i := by
      cases hp : p i with
      | true => rfl
      | false =>
          cases huid : T.uid? i with
          | none => rfl
          | some u =>
              have he := (hgone (u, i)).mpr ⟨UidTable.uid?_eq_some.mp huid, hp⟩
              obtain ⟨now, hmem⟩ := h.deleted _ he
              exact absurd rfl (hno _ hmem)
    show Remembers _ (if p i then g i else (T.uid? i).or (g i))
    rw [hkeep, record, hsame]
    exact hg i

/-! ## What leaves them alone -/

/-- The keys of the map and the counters. -/
def MapKey (mailbox : MailboxId) (k : Bytes) : Prop :=
  ∃ s ≤ Sep.uidValidity, serializeKeyPrefix mailbox s <+: k

theorem mapKey_append (mailbox : MailboxId) {s : UInt8} (hs : s ≤ Sep.uidValidity) (b : Bytes) :
    MapKey mailbox (serializeKeyPrefix mailbox s ++ b) := ⟨s, hs, List.prefix_append _ _⟩

theorem not_mapKey_deleted (b : Bytes) :
    ¬ MapKey mailbox (serializeKeyPrefix mailbox Sep.jmapDeletedIds ++ b) := by
  rintro ⟨s, hs, r, hr⟩
  rw [(serializeKeyPrefix_append_iff.mp hr).1] at hs
  exact absurd hs (by decide)

/-- A program that only writes the map and the counters keeps the records of deleted ids. -/
theorem deletions_of_writesOnly {R : Type} {p : DbM R} (hp : p.WritesOnly (MapKey mailbox))
    {g : String → Option ℕ} (hg : Deletions db mailbox g) : Deletions (p.run db).2 mailbox g :=
  hg.congr fun b ↦ Prog.run_of_writesOnly hp (not_mapKey_deleted b) db

section

variable {P : Bytes → Prop}
  (hP : ∀ s ≤ Sep.uidNext, ∀ b, P (serializeKeyPrefix mailbox s ++ b))

include hP

theorem writesOnly_insertJmapId (jmapId : Bytes) :
    (insertJmapId mailbox jmapId (serializeUidNextKey mailbox)).WritesOnly P := by
  rw [serializeUidNextKey_eq]
  refine Prog.writesOnly_bind (Prog.writesOnly_update.mpr (hP _ (by decide) [])) fun o ↦ ?_
  refine Prog.writesOnly_bind (Prog.writesOnly_ofOption _) fun uid ↦ ?_
  refine Prog.writesOnly_bind (Prog.writesOnly_write.mpr (hP _ (by decide) _)) fun _ ↦ ?_
  exact Prog.writesOnly_bind (Prog.writesOnly_write.mpr (hP _ (by decide) _)) fun _ ↦ trivial

theorem writesOnly_addMissing (rest : List (String × Bool)) (ids : List String) (uids : List ℕ) :
    (addMissing mailbox (serializeUidNextKey mailbox) rest ids uids).WritesOnly P := by
  induction rest generalizing ids uids with
  | nil => trivial
  | cons x rest ih =>
      obtain ⟨i, found⟩ := x
      cases found with
      | true => exact ih ids uids
      | false =>
          refine Prog.writesOnly_bind (writesOnly_insertJmapId hP _) fun b ↦ ?_
          exact Prog.writesOnly_bind (Prog.writesOnly_ofOption _) fun u ↦ ih _ _

theorem writesOnly_addNewIds (st : UpdateScan) :
    (addNewIds mailbox listing st).WritesOnly P := by
  unfold addNewIds
  split
  · trivial
  · exact writesOnly_addMissing hP _ _ _

theorem writesOnly_mapIds (options : MappingOptions) (rest ids : List String) (uids : List ℕ) :
    (mapIds mailbox options rest ids uids).WritesOnly P := by
  induction rest generalizing ids uids with
  | nil => trivial
  | cons i rest ih =>
      have hlook : (lookUp mailbox options i).WritesOnly P := by
        unfold lookUp
        split
        · trivial
        · exact Prog.writesOnly_read _
      refine Prog.writesOnly_bind hlook fun o ↦ ?_
      cases o with
      | some b => exact Prog.writesOnly_bind (Prog.writesOnly_ofOption _) fun u ↦ ih _ _
      | none =>
          dsimp only
          split
          · refine Prog.writesOnly_bind (writesOnly_insertJmapId hP _) fun b ↦ ?_
            exact Prog.writesOnly_bind (Prog.writesOnly_ofOption _) fun u ↦ ih _ _
          · split
            · exact ih _ _
            · refine Prog.writesOnly_bind (Prog.writesOnly_read _) fun o ↦ ?_
              cases o with
              | some b => exact Prog.writesOnly_bind (Prog.writesOnly_ofOption _) fun u ↦ ih _ _
              | none => exact ih _ _

end

theorem writesOnly_uidNext (P : Bytes → Prop) : (uidNext mailbox).WritesOnly P := by
  refine Prog.writesOnly_bind (Prog.writesOnly_read _) fun o ↦ ?_
  cases o with
  | none => trivial
  | some b => exact Prog.writesOnly_bind (Prog.writesOnly_ofOption _) fun _ ↦ trivial

theorem writesOnly_uidValidity (now : ℕ) :
    (uidValidity mailbox now).WritesOnly (MapKey mailbox) := by
  refine Prog.writesOnly_bind (Prog.writesOnly_read _) fun o ↦ ?_
  cases o with
  | some b => exact Prog.writesOnly_ofOption _
  | none =>
      rw [serializeUidValidityKey_eq]
      exact Prog.writesOnly_bind
        (Prog.writesOnly_write.mpr (mapKey_append mailbox (by decide) [])) fun _ ↦ trivial

/-- After the deletions nothing but the map and its counter is written. -/
theorem writesOnly_rest (mailbox : MailboxId) (v : ℕ) (listing : List String) (st : UpdateScan)
    {s : UInt8} (hs : ¬ s ≤ Sep.uidNext) (b : Bytes) :
    (do
      let (jmapIds, imapUids) ← addNewIds mailbox listing st
      pure { uidValidity := v, uidNext := ← uidNext mailbox, totalMessages := imapUids.length
             jmapIds := jmapIds, imapUids := imapUids, lastState := "" } :
               DbM MailboxData).WritesOnly
      fun k ↦ k ≠ serializeKeyPrefix mailbox s ++ b := by
  refine Prog.writesOnly_bind (writesOnly_addNewIds (fun s' hs' b' heq ↦ ?_) st) fun _ ↦
    Prog.writesOnly_bind (writesOnly_uidNext _) fun _ ↦ trivial
  exact hs ((serializeKeyPrefix_append_iff.mp heq).1 ▸ hs')

/-- After its deletions `update_uids` touches only the map and its counter. -/
theorem updateUids_rest (h : Represents db mailbox T) (clock : Clock) (listing : List String) :
    ∃ v db₁ st db₂, (uidValidity mailbox (clock 0)).run db = (some v, db₁) ∧
      (applyDeletions st).run db₁ = (some (), db₂) ∧ Scanned mailbox listing T.entries st ∧
      ∀ s, ¬ s ≤ Sep.uidNext → ∀ b,
        record ((updateUids mailbox clock listing).run db).2 mailbox s b =
          record db₂ mailbox s b := by
  obtain ⟨v, db₁, st, db₂, hval, hscan, hbatch, hst, -⟩ := updateUids_scan_run h clock
  refine ⟨v, db₁, st, db₂, hval, hbatch, hst, fun s hs b ↦ ?_⟩
  have hrest := writesOnly_rest mailbox v listing st hs b
  rw [updateUids, Prog.run_bind_of_eq hval]
  dsimp only
  rw [Prog.run_bind_of_eq hscan, Prog.run_bind_of_eq hbatch, record,
    Prog.run_of_writesOnly hrest (not_not.mpr rfl)]
  rfl

/-! ## The operations -/

/-- What the first part of `update_uids` leaves of the deleted-id records. -/
theorem applyDeletions_deletions {st : UpdateScan} (hst : Scanned mailbox listing T.entries st)
    {g : String → Option ℕ} (hg : Deletions db mailbox g) :
    Deletions ((applyDeletions st).run db).2 mailbox
      fun i ↦ if i ∈ listing then g i else (T.uid? i).or (g i) := by
  have hgone : ∀ e, e ∈ T.entries.filter (fun e ↦ e.2 ∉ listing) ↔
      e ∈ T.entries ∧ decide (e.2 ∈ listing) = false := by
    simp [List.mem_filter]
  cases hdel : st.hasDeletions with
  | true =>
      have h := hst.batch.deletions (p := fun i ↦ i ∈ listing) hgone hg
      simpa [applyDeletions, hdel] using h
  | false =>
      have hnone := hst.hasDeletions hdel
      have hkeep : ∀ i, (if i ∈ listing then g i else (T.uid? i).or (g i)) = g i := by
        intro i
        split
        · rfl
        · rename_i hi
          cases huid : T.uid? i with
          | none => rfl
          | some u =>
              have hmem := (hgone (u, i)).mpr ⟨UidTable.uid?_eq_some.mp huid, by simpa using hi⟩
              rw [hnone] at hmem
              exact absurd hmem List.not_mem_nil
      simpa [applyDeletions, hdel, hkeep] using hg

/-- **`update_uids`** records what is not listed any more. -/
theorem updateUids_deletions (h : Represents db mailbox T) (clock : Clock) (listing : List String)
    {g : String → Option ℕ} (hg : Deletions db mailbox g) :
    Deletions ((updateUids mailbox clock listing).run db).2 mailbox
      fun i ↦ if i ∈ listing then g i else (T.uid? i).or (g i) := by
  obtain ⟨v, db₁, st, db₂, hval, hbatch, hst, hrest⟩ := updateUids_rest h clock listing
  have hg₁ : Deletions db₁ mailbox g := by
    have hw := deletions_of_writesOnly (writesOnly_uidValidity (clock 0)) hg
    rwa [hval] at hw
  have hg₂ := applyDeletions_deletions hst hg₁
  rw [hbatch] at hg₂
  exact hg₂.congr fun b ↦ hrest _ (by decide) b

/-- **`delete_ids`** records the ids it drops. -/
theorem deleteIds_deletions (h : Represents db mailbox T) (clock : Clock) (ids : List String)
    {g : String → Option ℕ} (hg : Deletions db mailbox g) :
    Deletions ((deleteIds mailbox clock ids).run db).2 mailbox
      fun i ↦ if i ∉ ids then g i else (T.uid? i).or (g i) := by
  obtain ⟨gone, batch, hrun, hdel, hgone⟩ :=
    collectDeletions_run h clock ids (.nil mailbox) 0
  have hgone' : ∀ e, e ∈ gone ↔ e ∈ T.entries ∧ decide (e.2 ∉ ids) = false := by
    simpa using hgone
  have hbatch := hdel.deletions (p := fun i ↦ i ∉ ids) hgone' hg
  have hrun' : ((deleteIds mailbox clock ids).run db).2 = db.applyBatch batch := by
    rw [deleteIds, Prog.run_bind_of_eq hrun]
    cases batch with
    | nil => rfl
    | cons e batch => rfl
  rw [hrun']
  simpa using hbatch

/-- `jmap_to_imap` with `OnlyIncludeDeleted` returns the UIDs in the records, in the order of the
list. -/
theorem jmapToImap_deleted {g : String → Option ℕ} (hg : Deletions db mailbox g)
    (hlt : ∀ i u, g i = some u → u < 2 ^ 32) (ids : List String) :
    (jmapToImap mailbox ids .onlyIncludeDeleted).run db = (some ([], ids.filterMap g), db) := by
  have hloop : ∀ (ids jmapIds : List String) (imapUids : List ℕ),
      (mapIds mailbox .onlyIncludeDeleted ids jmapIds imapUids).run db =
        (some (jmapIds, imapUids ++ ids.filterMap g), db) := by
    intro ids
    induction ids with
    | nil => intro jmapIds imapUids; simp [mapIds]
    | cons i ids ih =>
        intro jmapIds imapUids
        have hlook : (lookUp mailbox .onlyIncludeDeleted i).run db = (some none, db) := rfl
        rw [mapIds, Prog.run_bind_of_eq hlook]
        dsimp only
        rw [if_neg (by decide), if_neg (by decide), Prog.run_bind_of_eq (Prog.run_read _ _),
          getElem?_serializeKey]
        have hrec := hg i
        cases hgi : g i with
        | none =>
            rw [hgi] at hrec
            rw [show record db mailbox Sep.jmapDeletedIds (asBytes i) = none from hrec]
            simp [ih, hgi]
        | some u =>
            rw [hgi] at hrec
            obtain ⟨now, hnow⟩ := hrec
            rw [hnow]
            dsimp only
            have htake : (toBeBytes 4 u ++ toBeBytes 8 now).take 4 = toBeBytes 4 u :=
              List.take_left' (length_toBeBytes 4 u)
            rw [htake, u32FromBe_toBeBytes, Prog.run_bind_of_eq (Prog.run_ofOption _ _), ih,
              Nat.mod_eq_of_lt (hlt i u hgi)]
            simp [hgi]
  exact hloop ids [] []

end Db

/-! ## Operations as steps of a ledger -/

namespace UidOp

/-- The calls that keep the records: they synchronize, number and delete, and purge nothing. -/
def Keeps : UidOp → Prop
  | updateUids .. | jmapToImap .. | deleteIds .. => True
  | deleteMailbox .. | purgeDeletedMailboxes .. | purgeDeletedIds .. => False

/-- The call takes an email id out of a mailbox, if it is there. -/
def Removes (mailbox : MailboxId) (i : String) : UidOp → Prop
  | updateUids m _ listing => m = mailbox ∧ i ∉ listing
  | deleteIds m _ ids => m = mailbox ∧ i ∈ ids
  | _ => False

instance decidableRemoves (mailbox : MailboxId) (i : String) :
    (op : UidOp) → Decidable (op.Removes mailbox i)
  | updateUids m _ listing => inferInstanceAs (Decidable (m = mailbox ∧ i ∉ listing))
  | deleteIds m _ ids => inferInstanceAs (Decidable (m = mailbox ∧ i ∈ ids))
  | jmapToImap .. | deleteMailbox .. | purgeDeletedMailboxes .. | purgeDeletedIds .. => .isFalse id

variable {db : Db} {mailbox : MailboxId} {L : Ledger String}

/-- A step in which nothing happens. -/
theorem advance_true (L : Ledger String) : L.advance (fun _ ↦ true) [] = L := by
  have htable : (L.table.restrict fun _ ↦ true) = L.table :=
    UidTable.ext (List.filter_eq_self.mpr fun _ _ ↦ rfl) rfl
  show Ledger.mk (L.table.restrict fun _ ↦ true) L.gone = L
  rw [htable]

/-- A call on another mailbox. -/
theorem ledger_of_frame {other : MailboxId} {db' : Db} (hf : Frame other db db')
    (hm : mailbox.WellFormed) (ho : other.WellFormed) (hne : other ≠ mailbox)
    (hrep : Represents db mailbox L.table) (hg : Deletions db mailbox L.gone) :
    Represents db' mailbox (L.advance (fun _ ↦ true) []).table ∧
      Deletions db' mailbox (L.advance (fun _ ↦ true) []).gone := by
  rw [advance_true]
  exact ⟨hrep.frame hf hm ho hne, hg.congr fun b ↦ hf.record_eq ho hm hne (by decide) b⟩

/-- **One call** is one step of the ledger of every mailbox. -/
theorem apply_ledger (op : UidOp) (hkeeps : op.Keeps) (hop : op.WellFormed)
    (T : MailboxId → UidTable String) (h : ∀ m : MailboxId, m.WellFormed → Represents db m (T m))
    (hlt : ∀ m ∈ op.target, (T m).next + op.allocations m db + 1 < 2 ^ 32)
    (hm : mailbox.WellFormed) (hT : T mailbox = L.table) (hg : Deletions db mailbox L.gone) :
    ∃ p l, Represents (op.apply db) mailbox (L.advance p l).table ∧
      Deletions (op.apply db) mailbox (L.advance p l).gone ∧
      ∀ i, p i = false ↔ op.Removes mailbox i := by
  have hrep : Represents db mailbox L.table := hT ▸ h mailbox hm
  cases op with
  | updateUids m clock listing =>
      obtain ⟨hwf, hid, hnd⟩ := hop
      have hlt' := hlt m rfl
      have hnext := Db.updateUids_next (h m hwf) hid hnd clock (Nat.lt_of_succ_lt hlt')
      obtain ⟨data, db', hrun, hrep', hf, -⟩ := Db.updateUids_run (h m hwf) clock hid hnd
        (by rw [hnext]; exact hlt')
      have happly : (updateUids m clock listing).apply db = db' := by rw [apply, hrun]
      by_cases heq : m = mailbox
      · subst heq
        have hdel := Db.updateUids_deletions hrep clock listing hg
        refine ⟨fun i ↦ i ∈ listing, listing, ?_, ?_, fun i ↦ by simp [Removes]⟩
        · rw [happly]
          rw [hT] at hrep'
          exact hrep'
        · simpa [Ledger.advance, apply] using hdel
      · obtain ⟨hr, hd⟩ := ledger_of_frame hf hm hwf heq hrep hg
        rw [happly]
        exact ⟨fun _ ↦ true, [], hr, hd, fun i ↦ by simp [Removes, heq]⟩
  | jmapToImap m ids options =>
      obtain ⟨hwf, hid⟩ := hop
      by_cases hadd : options = .addIfMissing
      · subst hadd
        have hlt' := hlt m rfl
        have hnext := Db.mapIds_next (h m hwf) hid [] [] (Nat.lt_of_succ_lt hlt')
        obtain ⟨uids, db', hrun, hrep', hf, -⟩ := Db.mapIds_run_add (h m hwf) hid [] []
          (by rw [hnext]; exact Nat.lt_of_succ_lt hlt')
        have happly : (jmapToImap m ids .addIfMissing).apply db = db' := by
          rw [apply, Db.jmapToImap, hrun]
        by_cases heq : m = mailbox
        · subst heq
          have hdel := Db.deletions_of_writesOnly (Db.writesOnly_mapIds (fun s hs b ↦
            Db.mapKey_append m (UInt8.le_trans hs (by decide)) b) .addIfMissing ids [] []) hg
          rw [hrun] at hdel
          have htable : (L.advance (fun _ ↦ true) ids).table = (T m).ensureAll ids := by
            have htrue := congrArg Ledger.table (advance_true L)
            rw [hT]
            exact congrArg (·.ensureAll ids) htrue
          rw [happly]
          exact ⟨fun _ ↦ true, ids, htable ▸ hrep', hdel, fun i ↦ by simp [Removes]⟩
        · obtain ⟨hr, hd⟩ := ledger_of_frame hf hm hwf heq hrep hg
          rw [happly]
          exact ⟨fun _ ↦ true, [], hr, hd, fun i ↦ by simp [Removes]⟩
      · have happly : (jmapToImap m ids options).apply db = db :=
          Db.mapIds_run_state hadd ids [] []
        refine ⟨fun _ ↦ true, [], ?_, ?_, fun i ↦ by simp [Removes]⟩
        · rw [happly, advance_true]
          exact hrep
        · rw [happly, advance_true]
          exact hg
  | deleteIds m clock ids =>
      obtain ⟨db', hrun, hrep', hf⟩ := Db.deleteIds_run (h m hop.1) clock ids
      have happly : (deleteIds m clock ids).apply db = db' := by rw [apply, hrun]
      by_cases heq : m = mailbox
      · subst heq
        have hdel := Db.deleteIds_deletions hrep clock ids hg
        refine ⟨fun i ↦ i ∉ ids, [], ?_, ?_, fun i ↦ by simp [Removes]⟩
        · rw [happly]
          rw [hT] at hrep'
          exact hrep'
        · simpa [Ledger.advance, apply] using hdel
      · obtain ⟨hr, hd⟩ := ledger_of_frame hf hm hop.1 heq hrep hg
        rw [happly]
        exact ⟨fun _ ↦ true, [], hr, hd, fun i ↦ by simp [Removes, heq]⟩
  | deleteMailbox => exact absurd hkeeps id
  | purgeDeletedMailboxes => exact absurd hkeeps id
  | purgeDeletedIds => exact absurd hkeeps id

end UidOp

/-! ## Runs -/

/-- The UIDs that `jmap_to_imap` with `OnlyIncludeDeleted` returns for some email ids. -/
def vanished (db : Db) (mailbox : MailboxId) (ids : List String) : Option (List ℕ) :=
  ((Db.jmapToImap mailbox ids .onlyIncludeDeleted).run db).1.map Prod.snd

/-- The UID belongs to the email. -/
def Carries (db : Db) (mailbox : MailboxId) (uid : ℕ) (jmapId : String) : Prop :=
  db[serializeKey mailbox Sep.uidToJmap (toBeBytes 4 uid)]? = some (asBytes jmapId)

/-- The UID belongs to some email. -/
def InUse (db : Db) (mailbox : MailboxId) (uid : ℕ) : Prop :=
  db[serializeKey mailbox Sep.uidToJmap (toBeBytes 4 uid)]?.isSome

instance (db : Db) (mailbox : MailboxId) (uid : ℕ) (jmapId : String) :
    Decidable (Carries db mailbox uid jmapId) := inferInstanceAs (Decidable (_ = _))

instance (db : Db) (mailbox : MailboxId) (uid : ℕ) : Decidable (InUse db mailbox uid) :=
  inferInstanceAs (Decidable (_ = _))

/-- After the run every UID that was ever given out in the mailbox and is not in use is reported for
the email that carried it, and nothing in use is reported. -/
structure VanishedExact (mailbox : MailboxId) (ops : List UidOp) : Prop where
  complete : ∀ pre, pre <+: ops → ∀ uid < 2 ^ 32, ∀ jmapId,
    Carries (Run.exec UidOp.apply ∅ pre) mailbox uid jmapId →
      ¬ InUse (Run.exec UidOp.apply ∅ ops) mailbox uid →
        ∃ uids, vanished (Run.exec UidOp.apply ∅ ops) mailbox [jmapId] = some uids ∧ uid ∈ uids
  sound : ∀ jmapIds, ∃ uids, vanished (Run.exec UidOp.apply ∅ ops) mailbox jmapIds = some uids ∧
    ∀ uid ∈ uids, ¬ InUse (Run.exec UidOp.apply ∅ ops) mailbox uid

/-- The call takes nothing out of the mailbox that has a deleted-id record already. -/
def FirstLeave (mailbox : MailboxId) (db : Db) (op : UidOp) : Prop :=
  ∀ i, op.Removes mailbox i → db[serializeKey mailbox Sep.jmapToUid (asBytes i)]?.isSome →
    db[serializeKey mailbox Sep.jmapDeletedIds (asBytes i)]? = none

/-- All that the mailbox's map has held during the run. -/
def history (mailbox : MailboxId) (ops : List UidOp) : Set (ℕ × String) :=
  {e | e.1 < 2 ^ 32 ∧ ∃ pre, pre <+: ops ∧ Carries (Run.exec UidOp.apply ∅ pre) mailbox e.1 e.2}

theorem allocated_append (mailbox : MailboxId) (db : Db) (ops ops' : List UidOp) :
    allocated mailbox db (ops ++ ops') =
      allocated mailbox db ops + allocated mailbox (Run.exec UidOp.apply db ops) ops' := by
  induction ops generalizing db with
  | nil => simp [allocated]
  | cons op ops ih =>
      rw [List.cons_append, allocated, ih, allocated, Run.exec_cons]
      omega

namespace Represents

variable {db : Db} {mailbox : MailboxId} {T : UidTable String}

theorem carries_iff (h : Represents db mailbox T) {u : ℕ} (hu : u < 2 ^ 32) {i : String} :
    Carries db mailbox u i ↔ (u, i) ∈ T.entries := by
  rw [Carries, getElem?_serializeKey, h.uidToJmap]
  constructor
  · rintro ⟨e, he, huid, hid⟩
    rw [(toBeBytes_inj hu (h.lt_of_mem he)).mp huid, asBytes_injective hid]
    exact he
  · intro hmem
    exact ⟨_, hmem, rfl, rfl⟩

theorem inUse_iff (h : Represents db mailbox T) {u : ℕ} (hu : u < 2 ^ 32) :
    InUse db mailbox u ↔ u ∈ T.uids := by
  rw [InUse, getElem?_serializeKey, Option.isSome_iff_exists, UidTable.mem_uids]
  constructor
  · rintro ⟨v, hv⟩
    obtain ⟨e, he, huid, -⟩ := (h.uidToJmap _ _).mp hv
    exact ⟨e.2, (toBeBytes_inj hu (h.lt_of_mem he)).mp huid ▸ he⟩
  · rintro ⟨i, hi⟩
    exact ⟨_, (h.uidToJmap _ _).mpr ⟨_, hi, rfl, rfl⟩⟩

end Represents

/-- The counter of a table is the stored one. -/
theorem Represents.next_eq {db : Db} {mailbox : MailboxId} {T T' : UidTable String}
    (h : Represents db mailbox T) (h' : Represents db mailbox T') : T.next = T'.next := by
  have hcounter := h.counter.symm.trans h'.counter
  split at hcounter
  · split at hcounter
    · omega
    · exact absurd hcounter (by simp)
  · split at hcounter
    · exact absurd hcounter (by simp)
    · exact (toBeBytes_inj h.next_lt h'.next_lt).mp (Option.some.inj hcounter)

/-- A run that has led to a ledger. -/
structure Led (mailbox : MailboxId) (ops : List UidOp) (L : Ledger String) : Prop where
  represents : Represents (Run.exec UidOp.apply ∅ ops) mailbox L.table
  deletions : Deletions (Run.exec UidOp.apply ∅ ops) mailbox L.gone
  tracks : L.Tracks (history mailbox ops)

namespace Led

variable {mailbox : MailboxId} {ops : List UidOp} {L : Ledger String}

theorem nil (mailbox : MailboxId) : Led mailbox [] .empty where
  represents := .empty mailbox
  deletions i := by simp [Remembers, Ledger.empty, record]
  tracks := by
    have hnone : history mailbox [] = ∅ := by
      refine Set.eq_empty_iff_forall_notMem.mpr ?_
      rintro e ⟨-, pre, hpre, hcarries⟩
      obtain rfl := List.prefix_nil.mp hpre
      simp [Carries] at hcarries
    rw [hnone]
    exact Ledger.tracks_empty

theorem vanished_eq (h : Led mailbox ops L) (ids : List String) :
    vanished (Run.exec UidOp.apply ∅ ops) mailbox ids = some (ids.filterMap L.gone) := by
  have hlt : ∀ i u, L.gone i = some u → u < 2 ^ 32 := fun i u hu ↦
    (h.tracks.bounded _ (h.tracks.gone i u hu).1).trans_lt h.represents.next_lt
  rw [vanished, Db.jmapToImap_deleted h.deletions hlt]
  rfl

/-- What a client is told is exact if and only if the memory is complete. -/
theorem vanishedExact_iff (h : Led mailbox ops L) :
    VanishedExact mailbox ops ↔ L.Complete (history mailbox ops) := by
  constructor
  · rintro hv ⟨u, i⟩ ⟨hu, pre, hpre, hcarries⟩
    by_cases huse : u ∈ L.table.uids
    · exact .inl huse
    · obtain ⟨uids, huids, hmem⟩ := hv.complete pre hpre u hu i hcarries
        ((h.represents.inUse_iff hu).not.mpr huse)
      rw [h.vanished_eq] at huids
      obtain rfl := Option.some.inj huids
      exact .inr (by simpa using hmem)
  · intro hc
    refine ⟨fun pre hpre u hu i hcarries huse ↦ ?_, fun ids ↦ ?_⟩
    · refine ⟨_, h.vanished_eq [i], ?_⟩
      rcases hc (u, i) ⟨hu, pre, hpre, hcarries⟩ with hin | hgone
      · exact absurd ((h.represents.inUse_iff hu).mpr hin) huse
      · simpa using hgone
    · refine ⟨_, h.vanished_eq ids, fun u hu ↦ ?_⟩
      obtain ⟨i, -, hgone⟩ := List.mem_filterMap.mp hu
      obtain ⟨hmem, hnot⟩ := h.tracks.gone i u hgone
      exact (h.represents.inUse_iff hmem.1).not.mpr hnot

/-- The step condition, on the ledger. -/
theorem firstLeave_iff (h : Led mailbox ops L) {op : UidOp} {p : String → Bool}
    (hp : ∀ i, p i = false ↔ op.Removes mailbox i) :
    FirstLeave mailbox (Run.exec UidOp.apply ∅ ops) op ↔
      ∀ i, i ∈ L.table.ids → p i = false → L.gone i = none := by
  have hmapped : ∀ i, (Run.exec UidOp.apply ∅ ops)[serializeKey mailbox Sep.jmapToUid
      (asBytes i)]?.isSome ↔ i ∈ L.table.ids := by
    intro i
    rw [getElem?_serializeKey]
    by_cases hi : i ∈ L.table.ids
    · obtain ⟨u, hu⟩ := UidTable.mem_ids.mp hi
      simp [h.represents.record_jmapToUid hu, hi]
    · simp [h.represents.record_jmapToUid_none hi, hi]
  have hgone : ∀ i, (Run.exec UidOp.apply ∅ ops)[serializeKey mailbox Sep.jmapDeletedIds
      (asBytes i)]? = none ↔ L.gone i = none := by
    intro i
    have hi := h.deletions i
    rw [getElem?_serializeKey]
    cases hg : L.gone i with
    | none =>
        rw [hg] at hi
        exact iff_of_true hi rfl
    | some u =>
        rw [hg] at hi
        obtain ⟨now, hnow⟩ := hi
        simp [hnow]
  constructor
  · intro hf i hi hpi
    exact (hgone i).mp (hf i ((hp i).mp hpi) ((hmapped i).mpr hi))
  · intro hf i hrem hi
    exact (hgone i).mpr (hf i ((hmapped i).mp hi) ((hp i).mpr hrem))

/-- One more call. -/
theorem snoc (h : Led mailbox ops L) {op : UidOp} {p : String → Bool} {l : List String}
    (hrep : Represents (op.apply (Run.exec UidOp.apply ∅ ops)) mailbox (L.advance p l).table)
    (hdel : Deletions (op.apply (Run.exec UidOp.apply ∅ ops)) mailbox (L.advance p l).gone) :
    Led mailbox (ops ++ [op]) (L.advance p l) ∧
      history mailbox (ops ++ [op]) = Ledger.extend (history mailbox ops) (L.advance p l) := by
  have hexec : Run.exec UidOp.apply ∅ (ops ++ [op]) =
      op.apply (Run.exec UidOp.apply ∅ ops) := Run.exec_append _ _ _
  have hhist : history mailbox (ops ++ [op]) =
      Ledger.extend (history mailbox ops) (L.advance p l) := by
    ext ⟨u, i⟩
    constructor
    · rintro ⟨hu, pre, hpre, hcarries⟩
      rcases List.prefix_concat_iff.mp hpre with rfl | hpre
      · rw [hexec, hrep.carries_iff hu] at hcarries
        exact .inr hcarries
      · exact .inl ⟨hu, pre, hpre, hcarries⟩
    · rintro (⟨hu, pre, hpre, hcarries⟩ | hmem)
      · exact ⟨hu, pre, hpre.trans (List.prefix_append _ _), hcarries⟩
      · have hu : u < 2 ^ 32 := hrep.lt_of_mem hmem
        refine ⟨hu, _, List.prefix_refl _, ?_⟩
        rw [hexec, hrep.carries_iff hu]
        exact hmem
  refine ⟨⟨?_, ?_, ?_⟩, hhist⟩
  · rw [hexec]
    exact hrep
  · rw [hexec]
    exact hdel
  · rw [hhist]
    exact Ledger.tracks_advance h.tracks

end Led

/-- What the induction over the run carries along: a table for every mailbox, and the ledger of this
one. -/
structure RunInv (mailbox : MailboxId) (ops : List UidOp) (T : MailboxId → UidTable String)
    (L : Ledger String) : Prop where
  tables : ∀ m : MailboxId, m.WellFormed → Represents (Run.exec UidOp.apply ∅ ops) m (T m)
  next : ∀ m : MailboxId, m.WellFormed → (T m).next ≤ allocated m ∅ ops
  table : T mailbox = L.table
  led : Led mailbox ops L
  exact_iff : (∀ pre, pre <+: ops → VanishedExact mailbox pre) ↔
    Run.Along UidOp.apply (FirstLeave mailbox) ∅ ops

section Runs

variable {mailbox : MailboxId} {ops : List UidOp}

/-- The prefixes of a longer run. -/
theorem forall_prefix_snoc {P : List UidOp → Prop} {op : UidOp} :
    (∀ pre, pre <+: ops ++ [op] → P pre) ↔ (∀ pre, pre <+: ops → P pre) ∧ P (ops ++ [op]) := by
  simp only [List.prefix_concat_iff, or_imp, forall_and, forall_eq]
  exact and_comm

theorem runInv_nil (mailbox : MailboxId) : RunInv mailbox [] (fun _ ↦ .empty) .empty where
  tables m _ := .empty m
  next _ _ := Nat.zero_le _
  table := rfl
  led := .nil mailbox
  exact_iff := by
    refine iff_of_true (fun pre hpre ↦ ?_) trivial
    rw [List.prefix_nil.mp hpre, (Led.nil mailbox).vanishedExact_iff]
    rintro e ⟨hu, pre, hpre, hcarries⟩
    rw [List.prefix_nil.mp hpre] at hcarries
    simp [Carries] at hcarries

/-- One more call keeps the invariant of the run. -/
theorem RunInv.snoc {T : MailboxId → UidTable String} {L : Ledger String}
    (h : RunInv mailbox ops T L) (hm : mailbox.WellFormed) {op : UidOp} (hkeeps : op.Keeps)
    (hop : op.WellFormed)
    (hlt : ∀ m : MailboxId, m.WellFormed → allocated m ∅ (ops ++ [op]) < 2 ^ 32 - 1) :
    ∃ T' L', RunInv mailbox (ops ++ [op]) T' L' := by
  have hexec : Run.exec UidOp.apply ∅ (ops ++ [op]) =
      op.apply (Run.exec UidOp.apply ∅ ops) := Run.exec_append _ _ _
  have halloc : ∀ m, allocated m ∅ (ops ++ [op]) =
      allocated m ∅ ops + op.allocations m (Run.exec UidOp.apply ∅ ops) := fun m ↦ by
    rw [allocated_append]
    rfl
  have hlt₁ : ∀ m ∈ op.target,
      (T m).next + op.allocations m (Run.exec UidOp.apply ∅ ops) + 1 < 2 ^ 32 := by
    intro m hmem
    have hwf := UidOp.target_wellFormed hop hmem
    have h₁ := hlt m hwf
    have h₂ := h.next m hwf
    rw [halloc] at h₁
    omega
  obtain ⟨p, l, hrep, hdel, hp⟩ := op.apply_ledger hkeeps hop T h.tables hlt₁ hm h.table
    h.led.deletions
  obtain ⟨hled, hhist⟩ := h.led.snoc hrep hdel
  have hstep : ∀ m : MailboxId, ∃ T', m.WellFormed →
      Represents (op.apply (Run.exec UidOp.apply ∅ ops)) m T' ∧
        T'.next ≤ (T m).next + op.allocations m (Run.exec UidOp.apply ∅ ops) ∧
          (m = mailbox → T' = (L.advance p l).table) := by
    intro m
    by_cases hwf : m.WellFormed
    · obtain ⟨T', hT', hle, -⟩ := op.apply_represents hop T h.tables hlt₁ m hwf
      by_cases heq : m = mailbox
      · subst heq
        refine ⟨(L.advance p l).table, fun _ ↦ ⟨hrep, ?_, fun _ ↦ rfl⟩⟩
        -- the counter of a represented table is the stored one
        rw [← hT'.next_eq hrep]
        exact hle
      · exact ⟨T', fun _ ↦ ⟨hT', hle, fun hc ↦ absurd hc heq⟩⟩
    · exact ⟨.empty, fun hc ↦ absurd hc hwf⟩
  choose T' hT' using hstep
  refine ⟨T', L.advance p l, ⟨fun m hwf ↦ ?_, fun m hwf ↦ ?_, (hT' mailbox hm).2.2 rfl, hled, ?_⟩⟩
  · rw [hexec]
    exact (hT' m hwf).1
  · rw [halloc]
    exact (hT' m hwf).2.1.trans (Nat.add_le_add_right (h.next m hwf) _)
  · rw [forall_prefix_snoc, Run.along_append, h.exact_iff]
    refine and_congr_right fun halong ↦ ?_
    have hall := h.exact_iff.mpr halong
    have hcomplete := h.led.vanishedExact_iff.mp (hall ops (List.prefix_refl _))
    rw [hled.vanishedExact_iff, hhist, Ledger.complete_advance h.led.tracks hcomplete,
      ← h.led.firstLeave_iff hp]
    exact (and_iff_left trivial).symm

/-- **What a resynchronizing client is told.**  In a run of the calls that purge nothing, exactly
the UIDs that have been given out and are no longer in use are reported at every moment, if and only
if no call takes an email out of the mailbox that has left it before: the one record of the email
then forgets the UID of the first time. -/
theorem vanished_exact_iff (mailbox : MailboxId) (hm : mailbox.WellFormed) (ops : List UidOp)
    (hops : ∀ op ∈ ops, op.WellFormed ∧ op.Keeps)
    (hlt : ∀ m : MailboxId, m.WellFormed → allocated m ∅ ops < 2 ^ 32 - 1) :
    (∀ pre, pre <+: ops → VanishedExact mailbox pre) ↔
      Run.Along UidOp.apply (FirstLeave mailbox) ∅ ops := by
  have hinv : ∃ T L, RunInv mailbox ops T L := by
    induction ops using List.reverseRecOn with
    | nil => exact ⟨_, _, runInv_nil mailbox⟩
    | append_singleton ops op ih =>
        obtain ⟨T, L, h⟩ := ih (fun op' hop' ↦ hops op' (List.mem_append_left _ hop'))
          fun m hwf ↦ by
            have := hlt m hwf
            rw [allocated_append] at this
            omega
        obtain ⟨hop, hkeeps⟩ := hops op (by simp)
        exact h.snoc hm hkeeps hop hlt
  obtain ⟨T, L, h⟩ := hinv
  exact h.exact_iff

end Runs

/-- An email that is listed and delisted by turns. -/
def comings (listings : List (List String)) : List UidOp :=
  listings.map fun listing ↦ .updateUids ⟨"u1", some "inbox"⟩ (fun _ ↦ 1660000000) listing

theorem vanished_exact_comings :
    (∀ pre, pre <+: comings [["M1"], [], ["M1", "M2"]] →
        VanishedExact ⟨"u1", some "inbox"⟩ pre) ↔
      Run.Along UidOp.apply (FirstLeave ⟨"u1", some "inbox"⟩) ∅
        (comings [["M1"], [], ["M1", "M2"]]) := by
  have hm : MailboxId.WellFormed ⟨"u1", some "inbox"⟩ := by decide +kernel
  refine vanished_exact_iff _ hm _ ?_ fun m _ ↦ (allocated_le m ∅ _).trans_lt (by decide)
  simp only [comings, List.map_cons, List.map_nil, List.forall_mem_cons, UidOp.Keeps, and_true]
  exact ⟨⟨hm, by decide +kernel, by decide +kernel⟩, ⟨hm, by simp, by simp⟩,
    ⟨hm, by decide +kernel, by decide +kernel⟩, by simp⟩

/-- After the second time the email leaves, UID 1 is reported no more. -/
theorem vanished_forgets :
    ¬ ∀ mailbox : MailboxId, mailbox.WellFormed → ∀ ops : List UidOp,
      (∀ op ∈ ops, op.WellFormed ∧ op.Keeps) → VanishedExact mailbox ops := by
  intro h
  have hm : MailboxId.WellFormed ⟨"u1", some "inbox"⟩ := by decide +kernel
  have hexact := h ⟨"u1", some "inbox"⟩ hm (comings [["M1"], [], ["M1"], []]) (by
    simp only [comings, List.map_cons, List.map_nil, List.forall_mem_cons, UidOp.Keeps, and_true]
    exact ⟨⟨hm, by decide +kernel, by decide +kernel⟩, ⟨hm, by simp, by simp⟩,
      ⟨hm, by decide +kernel, by decide +kernel⟩, ⟨hm, by simp, by simp⟩, by simp⟩)
  obtain ⟨uids, huids, hmem⟩ := hexact.complete (comings [["M1"]]) ⟨_, rfl⟩ 1 (by decide) "M1"
    (by decide +kernel) (by decide +kernel)
  have htold : vanished (Run.exec UidOp.apply ∅ (comings [["M1"], [], ["M1"], []]))
      ⟨"u1", some "inbox"⟩ ["M1"] = some [2] := by decide +kernel
  rw [htold] at huids
  rw [← Option.some.inj huids] at hmem
  exact absurd hmem (by decide)

end ImapToJmap
