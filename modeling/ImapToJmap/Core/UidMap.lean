import ImapToJmap.Core.Operations
import ImapToJmap.Run.Basic

/-!
# The UID map of a mailbox stays a bijection

The six operations on the UID database, in any order, on any mailboxes, from an empty database.
Every mailbox is represented by some table throughout (`apply_represents`), and a table is all
that `uid_map_bijective` says: the two directions of the map are inverse to each other, and every
UID lies between one and the stored counter.

The counter is a `u32` that wraps.  The results hold while fewer than `2 ^ 32 - 1` UIDs have been
allocated in each mailbox, where an allocation is counted as what it is in the code, an update of
the `UID_NEXT` key (`allocated`).
-/

namespace ImapToJmap

open Kv

namespace Db

variable {db : Db} {mailbox : MailboxId} {T : UidTable String}

/-! ## Counting allocations -/

/-- `insert_jmap_id` updates the counter, once. -/
theorem insertJmapId_updates (db : Db) (mailbox : MailboxId) (jmapId key k : Bytes) :
    (insertJmapId mailbox jmapId key).updates k db = if key = k then 1 else 0 := by
  rw [insertJmapId, Prog.updates_bind_of_eq (Prog.run_update _ _ _), Prog.updates_update,
    Prog.updates_bind]
  cases incrementUid db[key]? <;> simp [Prog.updates_bind]

/-- What follows an allocation in the two loops below. -/
theorem updates_ofOption_bind_le {R S : Type} {k : Bytes} (o : Option R) (f : R → DbM S) (db : Db)
    {n : ℕ} (h : ∀ r, (f r).updates k db ≤ n) :
    (Prog.ofOption o >>= f).updates k db ≤ n := by
  rw [Prog.updates_bind]
  cases o with
  | none => simp
  | some r => simpa using h r

/-- Sequencing adds. -/
theorem updates_bind_le {R S : Type} {k : Bytes} {p : DbM R} {f : R → DbM S} {db : Db} {m n : ℕ}
    (hp : p.updates k db ≤ m) (hf : ∀ r db', (f r).updates k db' ≤ n) :
    (p >>= f).updates k db ≤ m + n := by
  rw [Prog.updates_bind]
  split
  · exact Nat.add_le_add hp (hf _ _)
  · exact Nat.add_le_add hp (Nat.zero_le _)

/-- `update_uids` allocates at most one UID for each listed id. -/
theorem addMissing_updates_le (k key : Bytes) (rest : List (String × Bool)) (ids : List String)
    (uids : List ℕ) (db : Db) :
    (addMissing mailbox key rest ids uids).updates k db ≤ rest.length := by
  induction rest generalizing ids uids db with
  | nil => exact Nat.zero_le _
  | cons x rest ih =>
      obtain ⟨i, found⟩ := x
      cases found with
      | true => exact (ih ids uids db).trans (Nat.le_succ _)
      | false =>
          rw [addMissing, List.length_cons, Nat.add_comm]
          refine updates_bind_le ?_ fun b db' ↦ updates_ofOption_bind_le _ _ _ fun u ↦ ih _ _ _
          rw [insertJmapId_updates]
          split <;> simp

/-- `jmap_to_imap` allocates at most one UID for each listed id. -/
theorem mapIds_updates_le (k : Bytes) (options : MappingOptions) (rest ids : List String)
    (uids : List ℕ) (db : Db) :
    (mapIds mailbox options rest ids uids).updates k db ≤ rest.length := by
  induction rest generalizing ids uids db with
  | nil => exact Nat.zero_le _
  | cons i rest ih =>
      have hlook : (lookUp mailbox options i).updates k db ≤ 0 := by
        rw [lookUp]
        split <;> simp
      rw [mapIds, List.length_cons, ← Nat.zero_add (rest.length + 1)]
      refine updates_bind_le hlook fun o db' ↦ ?_
      cases o with
      | some uid =>
          exact (updates_ofOption_bind_le _ _ _ fun u ↦ ih _ _ _).trans (Nat.le_succ _)
      | none =>
          dsimp only
          split
          · rw [Nat.add_comm]
            refine updates_bind_le ?_ fun b db' ↦ updates_ofOption_bind_le _ _ _ fun u ↦ ih _ _ _
            rw [insertJmapId_updates]
            split <;> simp
          · refine le_trans ?_ (Nat.le_succ _)
            split
            · exact ih _ _ _
            · rw [← Nat.zero_add rest.length]
              refine updates_bind_le (Prog.updates_read _ _ _).le fun o db' ↦ ?_
              cases o with
              | some uid => exact updates_ofOption_bind_le _ _ _ fun u ↦ ih _ _ _
              | none => exact ih _ _ _

theorem uidValidity_updates (k : Bytes) (now : ℕ) (db : Db) :
    (uidValidity mailbox now).updates k db = 0 := by
  rw [uidValidity, Prog.updates_bind_of_eq (Prog.run_read _ _), Prog.updates_read]
  cases db[serializeUidValidityKey mailbox]? with
  | none => simp [Prog.updates_bind]
  | some b => simp

theorem uidNext_updates (k : Bytes) (db : Db) : (uidNext mailbox).updates k db = 0 := by
  rw [uidNext, Prog.updates_bind_of_eq (Prog.run_read _ _), Prog.updates_read]
  cases db[serializeUidNextKey mailbox]? with
  | none => simp
  | some b =>
      rw [Prog.updates_bind, Prog.run_ofOption]
      cases u32FromBe b <;> simp

theorem applyDeletions_updates (k : Bytes) (st : UpdateScan) (db : Db) :
    (applyDeletions st).updates k db = 0 := by
  rw [applyDeletions]
  split <;> simp

/-- What `update_uids` allocates, it allocates in its last loop. -/
theorem updateUids_updates_le (k : Bytes) (clock : Clock) (listing : List String) (db : Db) :
    (updateUids mailbox clock listing).updates k db ≤ listing.length := by
  rw [updateUids, ← Nat.zero_add listing.length]
  refine updates_bind_le (uidValidity_updates _ _ _).le fun v db₁ ↦ ?_
  rw [← Nat.zero_add listing.length]
  refine updates_bind_le (Prog.updates_fold _ _ _ _ _).le fun st db₂ ↦ ?_
  rw [← Nat.zero_add listing.length]
  refine updates_bind_le (applyDeletions_updates _ _ _).le fun _ db₃ ↦ ?_
  refine updates_bind_le (n := 0) ?_ fun r db₄ ↦ ?_
  · rw [addNewIds]
    split
    · simp
    · refine (addMissing_updates_le _ _ _ _ _ _).trans ?_
      rw [List.length_zip]
      exact Nat.min_le_left _ _
  · exact updates_bind_le (m := 0) (n := 0) (uidNext_updates _ _).le fun _ _ ↦ le_rfl

/-- Where the counter does not wrap, the loop of `update_uids` moves it by its allocations. -/
theorem addMissing_next (h : Represents db mailbox T) {rest : List (String × Bool)}
    (hid : ∀ x ∈ rest, IsJmapId x.1) (hnd : (rest.map Prod.fst).Nodup)
    (hflag : ∀ x ∈ rest, x.2 = true ↔ x.1 ∈ T.ids) (ids : List String) (uids : List ℕ)
    (hlt : T.next + (addMissing mailbox (serializeUidNextKey mailbox) rest ids uids).updates
      (serializeUidNextKey mailbox) db < 2 ^ 32) :
    (T.ensureAll (rest.map Prod.fst)).next =
      T.next + (addMissing mailbox (serializeUidNextKey mailbox) rest ids uids).updates
        (serializeUidNextKey mailbox) db := by
  induction rest generalizing db T ids uids with
  | nil => rfl
  | cons x rest ih =>
      obtain ⟨i, found⟩ := x
      have hcons : T.ensureAll (List.map Prod.fst ((i, found) :: rest)) =
          (T.ensure i).ensureAll (rest.map Prod.fst) := rfl
      have hid' : ∀ x ∈ rest, IsJmapId x.1 := fun x hx ↦ hid x (List.mem_cons_of_mem _ hx)
      have hflag' : ∀ x ∈ rest, x.2 = true ↔ x.1 ∈ (T.ensure i).ids := by
        intro x hx
        rw [hflag x (List.mem_cons_of_mem _ hx), UidTable.mem_ids_ensure]
        refine ⟨.inl, fun hor ↦ hor.elim id fun heq ↦ ?_⟩
        rw [List.map_cons, List.nodup_cons] at hnd
        exact absurd (List.mem_map.mpr ⟨x, hx, heq⟩) hnd.1
      have hnd' : (rest.map Prod.fst).Nodup := (List.nodup_cons.mp hnd).2
      rw [hcons]
      have hhead := hflag (i, found) List.mem_cons_self
      cases found with
      | true =>
          have hmem : i ∈ T.ids := hhead.mp rfl
          rw [UidTable.ensure_of_mem hmem] at hflag' ⊢
          exact ih h hid' hnd' hflag' ids uids hlt
      | false =>
          have hmem : i ∉ T.ids := fun hc ↦ by simpa using hhead.mpr hc
          rw [UidTable.ensure_of_notMem hmem] at hflag' ⊢
          have hge : 1 ≤ (addMissing mailbox (serializeUidNextKey mailbox) ((i, false) :: rest)
              ids uids).updates (serializeUidNextKey mailbox) db := by
            rw [addMissing, Prog.updates_bind, insertJmapId_updates, if_pos rfl]
            exact Nat.le_add_right _ _
          have hlt₁ : T.next + 1 < 2 ^ 32 := by omega
          obtain ⟨db₁, hrun, hrep, -⟩ := insertJmapId_run h (hid _ List.mem_cons_self) hmem hlt₁
          rw [addMissing, Prog.updates_bind_of_eq hrun, insertJmapId_updates, if_pos rfl,
            u32FromBe_toBeBytes, Prog.updates_bind_of_eq (Prog.run_ofOption _ _),
            Prog.updates_ofOption] at hlt ⊢
          have hnext := ih hrep hid' hnd' hflag' (ids ++ [i])
            (uids ++ [(T.next + 1) % 2 ^ 32]) (by rw [UidTable.push_next]; omega)
          rw [hnext, UidTable.push_next]
          omega

/-- Where the counter does not wrap, `jmap_to_imap` moves it by its allocations. -/
theorem mapIds_next (h : Represents db mailbox T) {rest : List String}
    (hid : ∀ i ∈ rest, IsJmapId i) (ids : List String) (uids : List ℕ)
    (hlt : T.next + (mapIds mailbox .addIfMissing rest ids uids).updates
      (serializeUidNextKey mailbox) db < 2 ^ 32) :
    (T.ensureAll rest).next = T.next + (mapIds mailbox .addIfMissing rest ids uids).updates
      (serializeUidNextKey mailbox) db := by
  induction rest generalizing db T ids uids with
  | nil => rfl
  | cons i rest ih =>
      have hcons : T.ensureAll (i :: rest) = (T.ensure i).ensureAll rest := rfl
      have hid' : ∀ j ∈ rest, IsJmapId j := fun j hj ↦ hid j (List.mem_cons_of_mem _ hj)
      have hlook : (lookUp mailbox .addIfMissing i).updates (serializeUidNextKey mailbox) db = 0 :=
        rfl
      rw [mapIds, Prog.updates_bind_of_eq (lookUp_run (by decide) i), hlook] at hlt ⊢
      rw [hcons]
      by_cases hmem : i ∈ T.ids
      · obtain ⟨u, hu⟩ := UidTable.mem_ids.mp hmem
        rw [UidTable.ensure_of_mem hmem]
        rw [h.record_jmapToUid hu] at hlt ⊢
        simp only [u32FromBe_toBeBytes, Prog.updates_bind_of_eq (Prog.run_ofOption _ _),
          Prog.updates_ofOption, Nat.zero_add] at hlt ⊢
        exact ih h hid' _ _ hlt
      · rw [UidTable.ensure_of_notMem hmem]
        rw [h.record_jmapToUid_none hmem] at hlt ⊢
        simp only [if_true, Nat.zero_add] at hlt ⊢
        have hlt₁ : T.next + 1 < 2 ^ 32 := by
          rw [Prog.updates_bind, insertJmapId_updates, if_pos rfl] at hlt
          omega
        obtain ⟨db₁, hrun, hrep, -⟩ := insertJmapId_run h (hid _ List.mem_cons_self) hmem hlt₁
        rw [Prog.updates_bind_of_eq hrun, insertJmapId_updates, if_pos rfl,
          u32FromBe_toBeBytes, Prog.updates_bind_of_eq (Prog.run_ofOption _ _),
          Prog.updates_ofOption] at hlt ⊢
        have hnext := ih hrep hid' (ids ++ [i]) (uids ++ [(T.next + 1) % 2 ^ 32])
          (by rw [UidTable.push_next]; omega)
        rw [hnext, UidTable.push_next]
        omega

/-- Where the counter does not wrap, `update_uids` moves it by its allocations. -/
theorem updateUids_next (h : Represents db mailbox T) {listing : List String}
    (hid : ∀ i ∈ listing, IsJmapId i) (hnd : listing.Nodup) (clock : Clock)
    (hlt : T.next + (updateUids mailbox clock listing).updates (serializeUidNextKey mailbox) db <
      2 ^ 32) :
    (T.sync listing).next =
      T.next + (updateUids mailbox clock listing).updates (serializeUidNextKey mailbox) db := by
  obtain ⟨v, db₁, st, db₂, hval, hscan, hbatch, hst, hrep₂, -⟩ :=
    updateUids_scan_run h clock
  -- all the updates are those of `addNewIds`
  have hupd : (updateUids mailbox clock listing).updates (serializeUidNextKey mailbox) db =
      (addNewIds mailbox listing st).updates (serializeUidNextKey mailbox) db₂ := by
    rw [updateUids, Prog.updates_bind_of_eq hval, uidValidity_updates]
    dsimp only
    rw [Prog.updates_bind_of_eq hscan, Prog.updates_bind_of_eq hbatch, Prog.updates_fold,
      applyDeletions_updates, Prog.updates_bind]
    split
    · rw [Prog.updates_bind, uidNext_updates]
      split <;> simp
    · simp
  rw [hupd, addNewIds] at hlt ⊢
  cases hempty : st.jmapIdsMap.isEmpty with
  | true => simp [hst.sync_of_isEmpty hempty]
  | false =>
      have hfst := hst.map_fst_zip
      rw [hempty, if_neg (by decide)] at hlt
      have hnext := addMissing_next hrep₂ (fun x hx ↦ hid x.1 (List.of_mem_zip hx).1)
        (hfst.symm ▸ hnd) (hst.flag_iff hnd) _ _ hlt
      rw [hfst] at hnext
      simpa [UidTable.sync] using hnext

end Db

/-! ## The operations -/

/-- A call of one of the operations on the UID database. -/
inductive UidOp where
  | updateUids (mailbox : MailboxId) (clock : Clock) (listing : List String)
  | jmapToImap (mailbox : MailboxId) (ids : List String) (options : MappingOptions)
  | deleteIds (mailbox : MailboxId) (clock : Clock) (ids : List String)
  | deleteMailbox (accountId mailboxId : String)
  | purgeDeletedMailboxes (accountId : String) (mailboxKeys : List String)
  | purgeDeletedIds (ttl now : ℕ)

namespace UidOp

/-- What the call leaves in the database. -/
def apply (db : Db) : UidOp → Db
  | updateUids mailbox clock listing => ((Db.updateUids mailbox clock listing).run db).2
  | jmapToImap mailbox ids options => ((Db.jmapToImap mailbox ids options).run db).2
  | deleteIds mailbox clock ids => ((Db.deleteIds mailbox clock ids).run db).2
  | deleteMailbox accountId mailboxId => ((Db.deleteMailbox accountId mailboxId).run db).2
  | purgeDeletedMailboxes accountId keys => ((Db.purgeDeletedMailboxes accountId keys).run db).2
  | purgeDeletedIds ttl now => ((Db.purgeDeletedIds ttl now).run db).2

/-- How many UIDs of `mailbox` the call allocates. -/
def allocations (mailbox : MailboxId) (db : Db) : UidOp → ℕ
  | updateUids m clock listing =>
      (Db.updateUids m clock listing).updates (serializeUidNextKey mailbox) db
  | jmapToImap m ids options => (Db.jmapToImap m ids options).updates
      (serializeUidNextKey mailbox) db
  | deleteIds m clock ids => (Db.deleteIds m clock ids).updates (serializeUidNextKey mailbox) db
  | deleteMailbox accountId mailboxId =>
      (Db.deleteMailbox accountId mailboxId).updates (serializeUidNextKey mailbox) db
  | purgeDeletedMailboxes accountId keys =>
      (Db.purgeDeletedMailboxes accountId keys).updates (serializeUidNextKey mailbox) db
  | purgeDeletedIds ttl now =>
      (Db.purgeDeletedIds ttl now).updates (serializeUidNextKey mailbox) db

/-- What the callers provide: ids are JMAP ids, a listing has no duplicates, and the clock is not
billions of years ahead. -/
def WellFormed : UidOp → Prop
  | updateUids mailbox _ listing =>
      mailbox.WellFormed ∧ (∀ i ∈ listing, IsJmapId i) ∧ listing.Nodup
  | jmapToImap mailbox ids _ => mailbox.WellFormed ∧ ∀ i ∈ ids, IsJmapId i
  | deleteIds mailbox _ ids => mailbox.WellFormed ∧ ∀ i ∈ ids, IsJmapId i
  | deleteMailbox accountId mailboxId => IsJmapId accountId ∧ IsJmapId mailboxId
  | purgeDeletedMailboxes accountId keys => IsJmapId accountId ∧ ∀ i ∈ keys, IsJmapId i
  | purgeDeletedIds _ now => now < 2 ^ 61

instance decidableWellFormed : (op : UidOp) → Decidable op.WellFormed
  | updateUids mailbox _ listing =>
      inferInstanceAs (Decidable (mailbox.WellFormed ∧ (∀ i ∈ listing, IsJmapId i) ∧ listing.Nodup))
  | jmapToImap mailbox ids _ | deleteIds mailbox _ ids =>
      inferInstanceAs (Decidable (mailbox.WellFormed ∧ ∀ i ∈ ids, IsJmapId i))
  | deleteMailbox accountId mailboxId =>
      inferInstanceAs (Decidable (IsJmapId accountId ∧ IsJmapId mailboxId))
  | purgeDeletedMailboxes accountId keys =>
      inferInstanceAs (Decidable (IsJmapId accountId ∧ ∀ i ∈ keys, IsJmapId i))
  | purgeDeletedIds _ now => inferInstanceAs (Decidable (now < 2 ^ 61))

/-- The mailbox whose counter the call may move. -/
def target : UidOp → Option MailboxId
  | updateUids mailbox _ _ | jmapToImap mailbox _ _ => some mailbox
  | _ => none

theorem target_wellFormed {op : UidOp} (h : op.WellFormed) {m : MailboxId} (hm : m ∈ op.target) :
    m.WellFormed := by
  cases op with
  | updateUids mailbox clock listing =>
      obtain rfl := Option.some.inj hm
      exact h.1
  | jmapToImap mailbox ids options =>
      obtain rfl := Option.some.inj hm
      exact h.1
  | deleteIds | deleteMailbox | purgeDeletedMailboxes | purgeDeletedIds => simp [target] at hm

/-- The call forgets the UIDs of a mailbox. -/
def Resets (mailbox : MailboxId) : UidOp → Prop
  | deleteMailbox accountId mailboxId => mailbox = ⟨accountId, some mailboxId⟩
  | purgeDeletedMailboxes accountId keys =>
      keys ≠ [] ∧ mailbox.accountId = accountId ∧ ∃ i ∈ mailbox.mailboxId, i ∉ keys
  | _ => False

instance decidableResets (mailbox : MailboxId) : (op : UidOp) → Decidable (op.Resets mailbox)
  | updateUids .. | jmapToImap .. | deleteIds .. | purgeDeletedIds .. => .isFalse id
  | deleteMailbox accountId mailboxId =>
      inferInstanceAs (Decidable (mailbox = ⟨accountId, some mailboxId⟩))
  | purgeDeletedMailboxes accountId keys =>
      inferInstanceAs (Decidable (keys ≠ [] ∧ mailbox.accountId = accountId ∧
        ∃ i ∈ mailbox.mailboxId, i ∉ keys))

/-- A table survives a call on another mailbox. -/
theorem represents_of_frame {db db' : Db} {mailbox : MailboxId} (hwf : mailbox.WellFormed)
    (hf : Frame mailbox db db') {T : MailboxId → UidTable String}
    (h : ∀ m : MailboxId, m.WellFormed → Represents db m (T m)) {T' : UidTable String} {n : ℕ}
    (h' : Represents db' mailbox T') (hle : T'.next ≤ (T mailbox).next + n)
    (hlater : (T mailbox).Later T') (a : MailboxId → ℕ) (ha : a mailbox = n) {P : Prop}
    (m : MailboxId) (hm : m.WellFormed) :
    ∃ T'', Represents db' m T'' ∧ T''.next ≤ (T m).next + a m ∧ (P → (T m).Later T'') := by
  by_cases heq : mailbox = m
  · subst heq
    exact ⟨T', h', ha ▸ hle, fun _ ↦ hlater⟩
  · exact ⟨T m, (h m hm).frame hf hm hwf heq, Nat.le_add_right _ _, fun _ ↦ .refl _⟩

/-- **One call.**  Every mailbox is represented by a table again, whose counter has moved by the
allocations of the call at most, and which continues the one before unless the call resets it. -/
theorem apply_represents {db : Db} (op : UidOp) (hop : op.WellFormed)
    (T : MailboxId → UidTable String) (h : ∀ m : MailboxId, m.WellFormed → Represents db m (T m))
    (hlt : ∀ m ∈ op.target, (T m).next + op.allocations m db + 1 < 2 ^ 32)
    (m : MailboxId) (hm : m.WellFormed) :
    ∃ T', Represents (op.apply db) m T' ∧ T'.next ≤ (T m).next + op.allocations m db ∧
      (¬ op.Resets m → (T m).Later T') := by
  cases op with
  | updateUids mailbox clock listing =>
      obtain ⟨hwf, hid, hnd⟩ := hop
      have hlt' := hlt mailbox rfl
      have hnext := Db.updateUids_next (h mailbox hwf) hid hnd clock (Nat.lt_of_succ_lt hlt')
      obtain ⟨data, db', hrun, hrep, hf, -⟩ := Db.updateUids_run (h mailbox hwf) clock hid hnd
        (by rw [hnext]; exact hlt')
      have happly : (updateUids mailbox clock listing).apply db = db' := by rw [apply, hrun]
      rw [happly]
      exact represents_of_frame hwf hf h hrep hnext.le (UidTable.later_sync _ _)
        (fun m ↦ (updateUids mailbox clock listing).allocations m db) rfl m hm
  | jmapToImap mailbox ids options =>
      obtain ⟨hwf, hid⟩ := hop
      by_cases hadd : options = .addIfMissing
      · subst hadd
        have hlt' := hlt mailbox rfl
        have hnext := Db.mapIds_next (h mailbox hwf) hid [] [] (Nat.lt_of_succ_lt hlt')
        obtain ⟨uids, db', hrun, hrep, hf, -⟩ := Db.mapIds_run_add (h mailbox hwf) hid [] []
          (by rw [hnext]; exact Nat.lt_of_succ_lt hlt')
        have happly : (jmapToImap mailbox ids .addIfMissing).apply db = db' := by
          rw [apply, Db.jmapToImap, hrun]
        rw [happly]
        exact represents_of_frame hwf hf h hrep hnext.le (UidTable.later_ensureAll _ _)
          (fun m ↦ (jmapToImap mailbox ids .addIfMissing).allocations m db) rfl m hm
      · have happly : (jmapToImap mailbox ids options).apply db = db :=
          Db.mapIds_run_state hadd ids [] []
        rw [happly]
        exact ⟨T m, h m hm, Nat.le_add_right _ _, fun _ ↦ .refl _⟩
  | deleteIds mailbox clock ids =>
      obtain ⟨db', hrun, hrep, hf⟩ := Db.deleteIds_run (h mailbox hop.1) clock ids
      have happly : (deleteIds mailbox clock ids).apply db = db' := by rw [apply, hrun]
      rw [happly]
      exact represents_of_frame hop.1 hf h hrep (Nat.le_add_right _ _)
        (UidTable.later_restrict _ _)
        (fun m ↦ (deleteIds mailbox clock ids).allocations m db) rfl m hm
  | deleteMailbox accountId mailboxId =>
      obtain ⟨n, db', hrun, hempty, hothers⟩ := Db.deleteMailbox_run _ _ hop.1 hop.2 db
      have happly : (deleteMailbox accountId mailboxId).apply db = db' := by rw [apply, hrun]
      rw [happly]
      by_cases heq : m = ⟨accountId, some mailboxId⟩
      · subst heq
        exact ⟨.empty, .of_noMap hempty, Nat.zero_le _, fun hnot ↦ absurd rfl hnot⟩
      · exact ⟨T m, (h m hm).congr (hothers m hm heq), Nat.le_add_right _ _, fun _ ↦ .refl _⟩
  | purgeDeletedMailboxes accountId keys =>
      obtain ⟨n, db', hrun, hall⟩ := Db.purgeDeletedMailboxes_run accountId keys hop.1 db
      have happly : (purgeDeletedMailboxes accountId keys).apply db = db' := by rw [apply, hrun]
      rw [happly]
      rcases hall m hm with ⟨-, hsame⟩ | ⟨hreset, hempty⟩
      · exact ⟨T m, (h m hm).congr hsame, Nat.le_add_right _ _, fun _ ↦ .refl _⟩
      · exact ⟨.empty, .of_noMap hempty, Nat.zero_le _, fun hnot ↦ absurd hreset hnot⟩
  | purgeDeletedIds ttl now =>
      obtain ⟨n, db', hrun, hall⟩ := Db.purgeDeletedIds_run ttl hop db
      have happly : (purgeDeletedIds ttl now).apply db = db' := by rw [apply, hrun]
      rw [happly]
      exact ⟨T m, hall m _ (h m hm), Nat.le_add_right _ _, fun _ ↦ .refl _⟩

/-- The ids a call may give a UID to. -/
def listed : UidOp → List String
  | updateUids _ _ listing => listing
  | jmapToImap _ ids _ => ids
  | _ => []

/-- A call allocates at most one UID for each id it is given. -/
theorem allocations_le (mailbox : MailboxId) (db : Db) (op : UidOp) :
    op.allocations mailbox db ≤ op.listed.length := by
  have hremove : ∀ pre select, (Db.removeWhere pre select).updates (serializeUidNextKey mailbox) db
      = 0 := fun pre select ↦ by
    rw [Db.removeWhere, Prog.updates_bind, Prog.updates_fold]
    split
    · rfl
    · rfl
  cases op with
  | updateUids m clock listing => exact Db.updateUids_updates_le _ clock listing db
  | jmapToImap m ids options => exact Db.mapIds_updates_le _ options ids [] [] db
  | deleteIds m clock ids =>
      have hcollect : ∀ (ids : List String) batch readings,
          (Db.collectDeletions m clock ids batch readings).updates (serializeUidNextKey mailbox) db
            = 0 := by
        intro ids
        induction ids with
        | nil => exact fun _ _ ↦ rfl
        | cons i ids ih =>
            intro batch readings
            rw [Db.collectDeletions, Prog.updates_bind_of_eq (Prog.run_read _ _),
              Prog.updates_read]
            split
            · rw [ih]
            · rw [ih]
      rw [allocations, Db.deleteIds, Prog.updates_bind, hcollect]
      split
      · split <;> exact le_rfl
      · exact le_rfl
  | deleteMailbox accountId mailboxId => exact (hremove _ _).le
  | purgeDeletedMailboxes accountId keys =>
      rw [allocations, Db.purgeDeletedMailboxes]
      split
      · exact le_rfl
      · exact (hremove _ _).le
  | purgeDeletedIds ttl now => exact (hremove _ _).le

end UidOp

/-- How many UIDs of a mailbox a run allocates. -/
def allocated (mailbox : MailboxId) : Db → List UidOp → ℕ
  | _, [] => 0
  | db, op :: ops => op.allocations mailbox db + allocated mailbox (op.apply db) ops

theorem allocated_le (mailbox : MailboxId) (db : Db) (ops : List UidOp) :
    allocated mailbox db ops ≤ (ops.map fun op ↦ op.listed.length).sum := by
  induction ops generalizing db with
  | nil => exact le_rfl
  | cons op ops ih =>
      rw [allocated, List.map_cons, List.sum_cons]
      exact Nat.add_le_add (op.allocations_le mailbox db) (ih _)

/-- **Whole runs**: every mailbox is represented by a table throughout. -/
theorem exec_represents (ops : List UidOp) (db : Db) (T : MailboxId → UidTable String)
    (hops : ∀ op ∈ ops, op.WellFormed)
    (h : ∀ m : MailboxId, m.WellFormed → Represents db m (T m))
    (hlt : ∀ m : MailboxId, m.WellFormed → (T m).next + allocated m db ops + 1 < 2 ^ 32)
    (m : MailboxId) (hm : m.WellFormed) :
    ∃ T', Represents (Run.exec UidOp.apply db ops) m T' := by
  induction ops generalizing db T with
  | nil => exact ⟨T m, h m hm⟩
  | cons op ops ih =>
      have hlt₁ : ∀ m ∈ op.target, (T m).next + op.allocations m db + 1 < 2 ^ 32 := fun m hm ↦ by
        have := hlt m (UidOp.target_wellFormed (hops op List.mem_cons_self) hm)
        rw [allocated] at this
        omega
      have hstep : ∀ m : MailboxId, ∃ T', m.WellFormed →
          Represents (op.apply db) m T' ∧ T'.next ≤ (T m).next + op.allocations m db ∧
            (¬ op.Resets m → (T m).Later T') := by
        intro m
        by_cases hm : m.WellFormed
        · obtain ⟨T', hT'⟩ := op.apply_represents (hops op List.mem_cons_self) T h hlt₁ m hm
          exact ⟨T', fun _ ↦ hT'⟩
        · exact ⟨.empty, fun hm' ↦ absurd hm' hm⟩
      choose T' hT' using hstep
      refine ih (op.apply db) T' (fun op' hop' ↦ hops op' (List.mem_cons_of_mem _ hop'))
        (fun m hm ↦ (hT' m hm).1) fun m hm ↦ ?_
      have h₁ := hlt m hm
      have h₂ := (hT' m hm).2.1
      rw [allocated] at h₁
      omega

/-- Whole runs from the empty database. -/
theorem exec_represents_empty (ops : List UidOp) (hops : ∀ op ∈ ops, op.WellFormed)
    (hlt : ∀ m : MailboxId, m.WellFormed → allocated m ∅ ops < 2 ^ 32 - 1)
    (m : MailboxId) (hm : m.WellFormed) : ∃ T, Represents (Run.exec UidOp.apply ∅ ops) m T := by
  refine exec_represents ops ∅ (fun _ ↦ .empty) hops (fun m _ ↦ .empty m) (fun m hm ↦ ?_) m hm
  have := hlt m hm
  simp only [UidTable.empty]
  omega

/-- The two directions of the map of a mailbox are inverse to each other, and every UID in them is
positive and at most the stored counter. -/
structure UidMap (db : Db) (mailbox : MailboxId) : Prop where
  inverse : ∀ jmapId uid : Bytes, db[serializeKey mailbox Sep.jmapToUid jmapId]? = some uid ↔
    db[serializeKey mailbox Sep.uidToJmap uid]? = some jmapId
  bounds : ∀ jmapId uid : Bytes, db[serializeKey mailbox Sep.jmapToUid jmapId]? = some uid →
    ∃ u n, uid = toBeBytes 4 u ∧ db[serializeUidNextKey mailbox]? = some (toBeBytes 4 n) ∧
      1 ≤ u ∧ u ≤ n ∧ n < 2 ^ 32

/-- A table is such a map. -/
theorem Represents.uidMap {db : Db} {mailbox : MailboxId} {T : UidTable String}
    (h : Represents db mailbox T) : UidMap db mailbox where
  inverse jmapId uid := by
    rw [getElem?_serializeKey, getElem?_serializeKey, h.jmapToUid, h.uidToJmap]
    exact exists_congr fun e ↦ and_congr_right fun _ ↦ and_comm
  bounds jmapId uid hget := by
    rw [getElem?_serializeKey] at hget
    obtain ⟨e, he, -, rfl⟩ := (h.jmapToUid _ _).mp hget
    obtain ⟨hpos, hle⟩ := T.bounds e he
    refine ⟨e.1, T.next, rfl, ?_, hpos, hle, h.next_lt⟩
    rw [getElem?_serializeUidNextKey, h.counter, if_neg (by omega)]

/-- **The UID map is a bijection** after every run of the six operations, on every mailbox, as long
as no mailbox has had `2 ^ 32 - 1` UIDs allocated. -/
theorem uid_map_bijective (ops : List UidOp) (hops : ∀ op ∈ ops, op.WellFormed)
    (hlt : ∀ m : MailboxId, m.WellFormed → allocated m ∅ ops < 2 ^ 32 - 1)
    (mailbox : MailboxId) (hm : mailbox.WellFormed) :
    UidMap (Run.exec UidOp.apply ∅ ops) mailbox := by
  obtain ⟨T, hT⟩ := exec_represents_empty ops hops hlt mailbox hm
  exact hT.uidMap

/-- A mailbox filled, listed again with one message gone and one new, looked up, deleted from and
purged. -/
theorem uid_map_bijective_inbox :
    UidMap (Run.exec UidOp.apply ∅ [
      .updateUids ⟨"u1", some "inbox"⟩ (fun _ ↦ 1660000000) ["M1", "M2"],
      .updateUids ⟨"u1", some "inbox"⟩ (fun _ ↦ 1660000001) ["M2", "M3"],
      .jmapToImap ⟨"u1", none⟩ ["M3", "M3"] .addIfMissing,
      .deleteIds ⟨"u1", some "inbox"⟩ (fun _ ↦ 1660000002) ["M2"],
      .deleteMailbox "u1" "in",
      .purgeDeletedMailboxes "u1" ["inbox"],
      .purgeDeletedIds 60 1660000100]) ⟨"u1", some "inbox"⟩ := by
  refine uid_map_bijective _ ?_ (fun m _ ↦ ?_) _ ⟨by decide +kernel, ?_⟩
  · simp only [List.forall_mem_cons, UidOp.WellFormed]
    exact ⟨⟨⟨by decide +kernel, by simp; decide +kernel⟩, by decide +kernel, by decide +kernel⟩,
      ⟨⟨by decide +kernel, by simp; decide +kernel⟩, by decide +kernel, by decide +kernel⟩,
      ⟨⟨by decide +kernel, by simp⟩, by decide +kernel⟩,
      ⟨⟨by decide +kernel, by simp; decide +kernel⟩, by decide +kernel⟩,
      by decide +kernel, by decide +kernel, by decide, by simp⟩
  · exact (allocated_le m ∅ _).trans_lt (by decide)
  · simp
    decide +kernel

end ImapToJmap
