import ImapToJmap.Core.UpdateUids

/-!
# The other operations on the table

One lemma for each remaining operation of `core/message.rs`, in the terms of `UidTable`:
`jmap_to_imap` looks entries up and, asked to add, is `ensureAll`; `delete_ids` is `restrict`; the
removal of a mailbox empties its table and leaves every other alone; the removal of old
deleted-id records changes no table.
-/

namespace ImapToJmap

open Kv

namespace Db

variable {db : Db} {mailbox : MailboxId} {T : UidTable String}

/-! ## `jmap_to_imap` -/

theorem lookUp_run {options : MappingOptions} (h : options ≠ .onlyIncludeDeleted) (i : String) :
    (lookUp mailbox options i).run db =
      (some (record db mailbox Sep.jmapToUid (asBytes i)), db) := by
  rw [lookUp, if_neg h, Prog.run_read, getElem?_serializeKey]

/-- Unless asked to add, `jmap_to_imap` changes nothing. -/
theorem mapIds_run_state {options : MappingOptions} (h : options ≠ .addIfMissing)
    (ids jmapIds : List String) (imapUids : List ℕ) :
    ((mapIds mailbox options ids jmapIds imapUids).run db).2 = db := by
  induction ids generalizing jmapIds imapUids with
  | nil => rfl
  | cons i ids ih =>
      rw [mapIds, Prog.run_bind]
      have hread : ∃ o, (lookUp mailbox options i).run db = (some o, db) := by
        rw [lookUp]
        split
        · exact ⟨_, rfl⟩
        · exact ⟨_, Prog.run_read _ _⟩
      obtain ⟨o, ho⟩ := hread
      rw [ho]
      cases o with
      | some uid =>
          simp only [Prog.run_bind, Prog.run_ofOption]
          cases u32FromBe uid with
          | none => rfl
          | some n => exact ih _ _
      | none =>
          simp only [if_neg h]
          split
          · exact ih _ _
          · simp only [Prog.run_bind, Prog.run_read]
            cases db[serializeKey mailbox Sep.jmapDeletedIds (asBytes i)]? with
            | none => exact ih _ _
            | some b =>
                simp only [Prog.run_bind, Prog.run_ofOption]
                cases u32FromBe (b.take 4) with
                | none => rfl
                | some n => exact ih _ _

/-- **`jmap_to_imap` with `AddIfMissing` numbers the ids that have no number**, and returns the
number of each id in the order of the list. -/
theorem mapIds_run_add (h : Represents db mailbox T) {ids : List String}
    (hid : ∀ i ∈ ids, IsJmapId i) (jmapIds : List String) (imapUids : List ℕ)
    (hlt : (T.ensureAll ids).next < 2 ^ 32) :
    ∃ uids db', (mapIds mailbox .addIfMissing ids jmapIds imapUids).run db =
        (some (jmapIds ++ ids, imapUids ++ uids), db') ∧
      Represents db' mailbox (T.ensureAll ids) ∧ Frame mailbox db db' ∧
      List.Forall₂ (fun i u ↦ (u, i) ∈ (T.ensureAll ids).entries) ids uids := by
  induction ids generalizing db T jmapIds imapUids with
  | nil => exact ⟨[], db, by simp [mapIds], h, .refl _ _, .nil⟩
  | cons i ids ih =>
      have hcons : T.ensureAll (i :: ids) = (T.ensure i).ensureAll ids := rfl
      rw [hcons] at hlt ⊢
      have hid' : ∀ j ∈ ids, IsJmapId j := fun j hj ↦ hid j (List.mem_cons_of_mem _ hj)
      -- either way the rest of the loop starts from the table with `i` numbered `u`
      have hstep : ∃ u db₁, Represents db₁ mailbox (T.ensure i) ∧ Frame mailbox db db₁ ∧
          (u, i) ∈ (T.ensure i).entries ∧
          (mapIds mailbox .addIfMissing (i :: ids) jmapIds imapUids).run db =
            (mapIds mailbox .addIfMissing ids (jmapIds ++ [i]) (imapUids ++ [u])).run db₁ := by
        rw [mapIds, Prog.run_bind_of_eq (lookUp_run (by decide) i)]
        by_cases hmem : i ∈ T.ids
        · obtain ⟨u, hu⟩ := UidTable.mem_ids.mp hmem
          rw [UidTable.ensure_of_mem hmem]
          refine ⟨u, db, h, .refl _ _, hu, ?_⟩
          rw [h.record_jmapToUid hu]
          dsimp only
          have hlt₁ : u < 2 ^ 32 := h.lt_of_mem hu
          rw [u32FromBe_toBeBytes, Prog.run_bind_of_eq (Prog.run_ofOption _ _),
            Nat.mod_eq_of_lt hlt₁]
        · rw [UidTable.ensure_of_notMem hmem] at hlt ⊢
          have hle := (T.push i hmem).next_le_ensureAll ids
          rw [UidTable.push_next] at hle
          have hlt₁ : T.next + 1 < 2 ^ 32 := by omega
          obtain ⟨db₁, hrun, hrep, hf⟩ :=
            insertJmapId_run h (hid i List.mem_cons_self) hmem hlt₁
          refine ⟨T.next + 1, db₁, hrep, hf, by simp [UidTable.push_entries], ?_⟩
          rw [h.record_jmapToUid_none hmem]
          dsimp only
          rw [if_pos rfl, Prog.run_bind_of_eq hrun, u32FromBe_toBeBytes,
            Prog.run_bind_of_eq (Prog.run_ofOption _ _), Nat.mod_eq_of_lt hlt₁]
      obtain ⟨u, db₁, hrep, hf, hu, hrun⟩ := hstep
      obtain ⟨uids, db₂, hrun₂, hrep₂, hf₂, hall⟩ := ih hrep hid' (jmapIds ++ [i])
        (imapUids ++ [u]) hlt
      refine ⟨u :: uids, db₂, by rw [hrun, hrun₂]; simp, hrep₂, hf.trans hf₂, .cons ?_ hall⟩
      obtain ⟨new, hnew, -⟩ := (T.ensure i).ensureAll_entries ids
      rw [hnew]
      exact List.mem_append_left _ hu

/-! ## `delete_ids` -/

/-- The batch of `delete_ids`: the entries of the listed ids. -/
theorem collectDeletions_run (h : Represents db mailbox T) (clock : Clock) (ids : List String)
    {gone : List (ℕ × String)} {batch : List (Edit UInt8 Bytes)}
    (hbatch : Deletes mailbox gone batch) (readings : ℕ) :
    ∃ gone' batch', (collectDeletions mailbox clock ids batch readings).run db =
        (some batch', db) ∧
      Deletes mailbox gone' batch' ∧
      ∀ e, e ∈ gone' ↔ e ∈ gone ∨ e ∈ T.entries ∧ e.2 ∈ ids := by
  induction ids generalizing gone batch readings with
  | nil => exact ⟨gone, batch, rfl, hbatch, by simp⟩
  | cons i ids ih =>
      rw [collectDeletions, Prog.run_bind_of_eq (Prog.run_read _ _), getElem?_serializeKey]
      by_cases hmem : i ∈ T.ids
      · obtain ⟨u, hu⟩ := UidTable.mem_ids.mp hmem
        rw [h.record_jmapToUid hu]
        have hone := deletes_deletion mailbox (u, i) (clock readings)
        have hone' : Deletes mailbox [(u, i)]
            [.insert (serializeKey mailbox Sep.jmapDeletedIds (asBytes i))
              (toBeBytes 4 u ++ toBeBytes 8 (clock readings)),
            .remove (serializeKey mailbox Sep.jmapToUid (asBytes i)),
            .remove (serializeKey mailbox Sep.uidToJmap (toBeBytes 4 u))] :=
          hone.perm (.cons _ (.swap _ _ _))
        obtain ⟨gone', batch', hrun, hdel, hgone⟩ := ih (hbatch.append hone') (readings + 1)
        refine ⟨gone', batch', hrun, hdel, fun e ↦ ?_⟩
        rw [hgone, List.mem_append, List.mem_singleton, List.mem_cons, or_assoc]
        refine or_congr_right ⟨?_, ?_⟩
        · rintro (rfl | ⟨he, hids⟩)
          · exact ⟨hu, .inl rfl⟩
          · exact ⟨he, .inr hids⟩
        · rintro ⟨he, rfl | hids⟩
          · exact .inl (Prod.ext (UidTable.uid_unique he hu) rfl)
          · exact .inr ⟨he, hids⟩
      · rw [h.record_jmapToUid_none hmem]
        obtain ⟨gone', batch', hrun, hdel, hgone⟩ := ih hbatch readings
        refine ⟨gone', batch', hrun, hdel, fun e ↦ ?_⟩
        rw [hgone, List.mem_cons]
        refine or_congr_right (and_congr_right fun he ↦ ⟨.inr, fun hor ↦ hor.elim ?_ id⟩)
        rintro rfl
        exact absurd (UidTable.mem_ids.mpr ⟨e.1, he⟩) hmem

/-- **`delete_ids` drops the listed ids from the table.** -/
theorem deleteIds_run (h : Represents db mailbox T) (clock : Clock) (ids : List String) :
    ∃ db', (deleteIds mailbox clock ids).run db = (some (), db') ∧
      Represents db' mailbox (T.restrict (· ∉ ids)) ∧ Frame mailbox db db' := by
  obtain ⟨gone, batch, hrun, hdel, hgone⟩ :=
    collectDeletions_run h clock ids (.nil mailbox) 0
  have hgone' : ∀ e, e ∈ gone ↔ e ∈ T.entries ∧ decide (e.2 ∉ ids) = false := by
    simpa using hgone
  refine ⟨db.applyBatch batch, ?_, hdel.represents h hgone', hdel.frame db⟩
  rw [deleteIds, Prog.run_bind_of_eq hrun]
  cases batch with
  | nil => rfl
  | cons e batch => rfl

/-! ## Removing mailboxes and old records -/

/-- The keys a selective removal collects. -/
theorem foldlM_select (select : Bytes × Bytes → Bool) (l : List (Bytes × Bytes))
    (acc : List Bytes) :
    l.foldlM (fun keys kv ↦ some (if select kv then keys ++ [kv.1] else keys)) acc =
      some (acc ++ (l.filter select).map Prod.fst) := by
  induction l generalizing acc with
  | nil => simp
  | cons e l ih =>
      rw [List.foldlM_cons]
      cases hsel : select e with
      | true => simpa [hsel] using ih (acc ++ [e.1])
      | false => simpa [hsel] using ih acc

/-- `db'` is `db` without the bindings under `pre` that `select` picks. -/
def Removed (pre : Bytes) (select : Bytes × Bytes → Bool) (db db' : Db) : Prop :=
  ∀ k, db'[k]? = db[k]?.filter fun v ↦ !(pre.isPrefixOf k && select (k, v))

/-- The keys removed are those of a scan. -/
theorem removeWhere_eq (db : Db) (pre : Bytes) (select : Bytes × Bytes → Bool) :
    (removeWhere pre select).run db =
      (some (((db.scanPrefix pre).filter select).map Prod.fst).length,
      db.applyBatch ((((db.scanPrefix pre).filter select).map Prod.fst).map .remove)) := by
  have hfold : (Prog.fold pre ([] : List Bytes) fun keys kv ↦
      some (if select kv then keys ++ [kv.1] else keys)).run db =
        (some (((db.scanPrefix pre).filter select).map Prod.fst), db) := by
    rw [Prog.run_fold, foldlM_select, List.nil_append]
  rw [removeWhere, Prog.run_bind_of_eq hfold, Prog.run_bind_of_eq (Prog.run_batch _ _),
    Prog.run_pure]

theorem removeWhere_run (db : Db) (pre : Bytes) (select : Bytes × Bytes → Bool) :
    ∃ n db', (removeWhere pre select).run db = (some n, db') ∧ Removed pre select db db' := by
  refine ⟨_, _, removeWhere_eq db pre select, fun k ↦ ?_⟩
  rw [Tree.getElem?_applyBatch_remove]
  have hmem : k ∈ ((db.scanPrefix pre).filter select).map Prod.fst ↔
      ∃ v, db[k]? = some v ∧ pre <+: k ∧ select (k, v) = true := by
    simp [Tree.mem_scanPrefix, and_assoc]
  cases hget : db[k]? with
  | none => simp
  | some v =>
      rw [hget] at hmem
      simp only [Option.some.injEq, exists_eq_left'] at hmem
      rw [← List.isPrefixOf_iff_prefix, ← Bool.and_eq_true] at hmem
      simp only [hmem, Option.filter]
      by_cases hc : (pre.isPrefixOf k && select (k, v)) = true
      · simp [hc]
      · simp [Bool.not_eq_true _ ▸ hc]

/-- The record of a mailbox after a selective removal. -/
theorem Removed.record_eq {db db' : Db} {pre : Bytes} {select : Bytes × Bytes → Bool}
    (h : Removed pre select db db') {m : MailboxId} {s : UInt8} {b : Bytes}
    (hkeep : ∀ v, record db m s b = some v →
      ¬ (pre <+: serializeKeyPrefix m s ++ b ∧ select (serializeKeyPrefix m s ++ b, v) = true)) :
    record db' m s b = record db m s b := by
  rw [record, h]
  cases hget : db[serializeKeyPrefix m s ++ b]? with
  | none => simp [record, hget]
  | some v =>
      have hk := hkeep v hget
      rw [← List.isPrefixOf_iff_prefix, ← Bool.and_eq_true, Bool.not_eq_true] at hk
      simp [record, hget, Option.filter, hk]

/-- A mailbox whose records are all removed. -/
theorem Removed.noMap {db db' : Db} {pre : Bytes} {select : Bytes × Bytes → Bool}
    (h : Removed pre select db db') (m : MailboxId) (hall : ∀ s ≤ Sep.uidValidity, ∀ b v,
      pre <+: serializeKeyPrefix m s ++ b ∧ select (serializeKeyPrefix m s ++ b, v) = true) :
    NoMap m db' := by
  intro s hs b
  rw [record, h]
  cases hget : db[serializeKeyPrefix m s ++ b]? with
  | none => rfl
  | some v =>
      obtain ⟨hpre, hsel⟩ := hall s hs b v
      simp [Option.filter, hpre, hsel]

/-- **`delete_mailbox` empties the map of its mailbox** and keeps every other. -/
theorem deleteMailbox_run (accountId mailboxId : String) (ha : IsJmapId accountId)
    (hm : IsJmapId mailboxId) (db : Db) :
    ∃ n db', (deleteMailbox accountId mailboxId).run db = (some n, db') ∧
      NoMap ⟨accountId, some mailboxId⟩ db' ∧
      ∀ m : MailboxId, m.WellFormed → m ≠ ⟨accountId, some mailboxId⟩ → SameMap m db db' := by
  obtain ⟨n, db', hrun, hget⟩ := removeWhere_run db
    (serializeKeyAccountPrefix accountId ++ asBytes mailboxId) fun kv ↦
      (kv.1.drop (serializeKeyAccountPrefix accountId ++ asBytes mailboxId).length).head?.any
        (· ≤ Sep.uidValidity)
  refine ⟨n, db', hrun, hget.noMap _ fun s hs b v ↦ ?_, fun m hwf hne s hs b _ ↦ ?_⟩
  · have hkey : serializeKeyPrefix ⟨accountId, some mailboxId⟩ s ++ b =
        serializeKeyAccountPrefix accountId ++ asBytes mailboxId ++ s :: b := by
      simp [serializeKeyPrefix_eq, MailboxId.mailboxBytes]
    rw [hkey, List.drop_left]
    exact ⟨List.prefix_append _ _, by simpa using hs⟩
  · refine hget.record_eq fun v _ hc ↦ ?_
    obtain ⟨⟨r, hr⟩, hsel⟩ := hc
    rw [← hr, List.drop_left] at hsel
    cases r with
    | nil => simp at hsel
    | cons s' r =>
        -- the byte after the mailbox id is a separator, so the key is a record of the mailbox
        have hs' : s' ≤ Sep.uidValidity := by simpa using hsel
        have hkey : serializeKeyPrefix ⟨accountId, some mailboxId⟩ s' ++ r =
            serializeKeyPrefix m s ++ b := by
          rw [← hr]
          simp [serializeKeyPrefix_eq, MailboxId.mailboxBytes]
        have hwf' : MailboxId.WellFormed ⟨accountId, some mailboxId⟩ :=
          ⟨ha, fun _ hm' ↦ Option.some.inj hm' ▸ hm⟩
        exact hne (serializeKeyPrefix_append_inj hwf' hwf (UInt8.le_trans hs' (by decide))
          (UInt8.le_trans hs (by decide)) hkey).1.symm

/-- The position of the separator in a record key. -/
theorem findIdx?_separator {m : MailboxId} (hwf : m.WellFormed) {s : UInt8}
    (hs : s ≤ Sep.uidValidity) (b : Bytes) :
    (m.mailboxBytes ++ s :: b).findIdx? (· ≤ Sep.uidValidity) = some m.mailboxBytes.length := by
  rw [List.findIdx?_append, List.findIdx?_eq_none_iff.mpr]
  · simp [List.findIdx?_cons, hs]
  · intro x hx
    have h45 := le_of_isIdByte (hwf.mailboxBytes x hx)
    simp only [Sep.uidValidity, decide_eq_false_iff_not, UInt8.le_iff_toNat_le,
      UInt8.reduceToNat] at h45 ⊢
    omega

/-- The keys of an account that `purge_deleted_mailboxes` removes: what stands before the separator
is no mailbox of the account. -/
def selectsGone (accountId : String) (mailboxKeys : List String) (kv : Bytes × Bytes) : Bool :=
  let keyPart := kv.1.drop (serializeKeyAccountPrefix accountId).length
  match keyPart.findIdx? (· ≤ Sep.uidValidity) with
  | some pos => 0 < pos && !mailboxKeys.any fun m ↦ asBytes m == keyPart.take pos
  | none => false

theorem purgeDeletedMailboxes_removed (accountId : String) {mailboxKeys : List String}
    (hkeys : mailboxKeys ≠ []) (db : Db) :
    ∃ n db', (purgeDeletedMailboxes accountId mailboxKeys).run db = (some n, db') ∧
      Removed (serializeKeyAccountPrefix accountId) (selectsGone accountId mailboxKeys) db db' := by
  rw [purgeDeletedMailboxes, if_neg (by simpa using hkeys)]
  exact removeWhere_run db _ (selectsGone accountId mailboxKeys)

theorem selectsGone_append (accountId : String) (mailboxKeys : List String) {keyPart : Bytes}
    {pos : ℕ} (hpos : keyPart.findIdx? (· ≤ Sep.uidValidity) = some pos) (v : Bytes) :
    selectsGone accountId mailboxKeys (serializeKeyAccountPrefix accountId ++ keyPart, v) =
      (0 < pos && !mailboxKeys.any fun m ↦ asBytes m == keyPart.take pos) := by
  rw [selectsGone, List.drop_left, hpos]

theorem selectsGone_append_none (accountId : String) (mailboxKeys : List String) {keyPart : Bytes}
    (hpos : keyPart.findIdx? (· ≤ Sep.uidValidity) = none) (v : Bytes) :
    selectsGone accountId mailboxKeys (serializeKeyAccountPrefix accountId ++ keyPart, v) =
      false := by
  rw [selectsGone, List.drop_left, hpos]

/-- The mailbox is one of the account, All Mail excepted, and not among those that there are. -/
def Gone (accountId : String) (mailboxKeys : List String) (m : MailboxId) : Prop :=
  mailboxKeys ≠ [] ∧ m.accountId = accountId ∧ ∃ i ∈ m.mailboxId, i ∉ mailboxKeys

/-- **`purge_deleted_mailboxes`** empties the maps of the account's mailboxes that are gone, and
keeps every other. -/
theorem purgeDeletedMailboxes_run (accountId : String) (mailboxKeys : List String)
    (ha : IsJmapId accountId) (db : Db) :
    ∃ n db', (purgeDeletedMailboxes accountId mailboxKeys).run db = (some n, db') ∧
      ∀ m : MailboxId, m.WellFormed → ¬ Gone accountId mailboxKeys m ∧ SameMap m db db' ∨
        Gone accountId mailboxKeys m ∧ NoMap m db' := by
  by_cases hkeys : mailboxKeys = []
  · subst hkeys
    exact ⟨0, db, rfl, fun m _ ↦ .inl ⟨fun hgone ↦ hgone.1 rfl, fun _ _ _ _ ↦ rfl⟩⟩
  obtain ⟨n, db', hrun, hget⟩ := purgeDeletedMailboxes_removed accountId hkeys db
  refine ⟨n, db', hrun, fun m hwf ↦ ?_⟩
  by_cases hacc : m.accountId = accountId
  · -- within the account the choice is the same for every record of the mailbox
    have hkey : ∀ s b, serializeKeyPrefix m s ++ b =
        serializeKeyAccountPrefix accountId ++ (m.mailboxBytes ++ s :: b) := by
      simp [serializeKeyPrefix_eq, hacc]
    have hchoice : Gone accountId mailboxKeys m ↔ (0 < m.mailboxBytes.length &&
        !mailboxKeys.any fun k ↦ asBytes k == m.mailboxBytes) = true := by
      simp only [Bool.and_eq_true, decide_eq_true_eq, Bool.not_eq_true', List.any_eq_false,
        beq_iff_eq]
      constructor
      · rintro ⟨-, -, i, hi, hnot⟩
        have hbytes : m.mailboxBytes = asBytes i := by
          rw [MailboxId.mailboxBytes, Option.mem_def.mp hi, Option.elim_some]
        rw [hbytes]
        refine ⟨List.length_pos_of_ne_nil (hwf.mailbox i hi).1, fun k hk heq ↦ hnot ?_⟩
        exact asBytes_injective heq ▸ hk
      · rintro ⟨hpos, hnot⟩
        cases hi : m.mailboxId with
        | none => simp [MailboxId.mailboxBytes, hi] at hpos
        | some i =>
            refine ⟨hkeys, hacc, i, hi, fun hmem ↦ hnot i hmem ?_⟩
            simp [MailboxId.mailboxBytes, hi]
    by_cases hgone : Gone accountId mailboxKeys m
    · refine .inr ⟨hgone, hget.noMap m fun s hs b v ↦ ?_⟩
      rw [hkey, selectsGone_append _ _ (findIdx?_separator hwf hs b), List.take_left]
      exact ⟨List.prefix_append _ _, hchoice.mp hgone⟩
    · refine .inl ⟨hgone, fun s hs b _ ↦ hget.record_eq fun v _ hc ↦ hgone (hchoice.mpr ?_)⟩
      have hsel := hc.2
      rwa [hkey, selectsGone_append _ _ (findIdx?_separator hwf hs b), List.take_left] at hsel
  · refine .inl ⟨fun hgone ↦ hacc hgone.2.1, fun s hs b _ ↦ hget.record_eq fun v _ hc ↦ ?_⟩
    obtain ⟨r, hr⟩ := hc.1
    rw [serializeKeyPrefix_eq, List.append_assoc] at hr
    exact hacc (accountPrefix_append_inj ha hwf.account hr).1.symm

/-- The values of the records that make up the map: a number of four bytes, or an email id. -/
theorem record_value (h : Represents db mailbox T) {s : UInt8} (hs : s ≤ Sep.uidValidity)
    {b v : Bytes} (hb : Sep.uidNext ≤ s → b = []) (hv : record db mailbox s b = some v) :
    v.length = 4 ∨ ∃ i, IsJmapId i ∧ v = asBytes i := by
  have hcases : s = Sep.jmapToUid ∨ s = Sep.uidToJmap ∨ s = Sep.uidNext ∨ s = Sep.uidValidity := by
    simp only [Sep.jmapToUid, Sep.uidToJmap, Sep.uidNext, Sep.uidValidity,
      UInt8.le_iff_toNat_le, ← UInt8.toNat_inj] at hs ⊢
    simp only [UInt8.reduceToNat] at hs ⊢
    omega
  rcases hcases with rfl | rfl | rfl | rfl
  · obtain ⟨e, -, -, rfl⟩ := (h.jmapToUid _ _).mp hv
    exact .inl (length_toBeBytes _ _)
  · obtain ⟨e, he, -, rfl⟩ := (h.uidToJmap _ _).mp hv
    exact .inr ⟨e.2, h.isJmapId e he, rfl⟩
  · obtain rfl := hb (by decide)
    rw [h.counter] at hv
    split at hv
    · exact absurd hv (by simp)
    · rw [← Option.some.inj hv]
      exact .inl (length_toBeBytes _ _)
  · obtain rfl := hb (by decide)
    exact .inl (h.validity v hv)

/-- A text of twelve bytes does not read as a removal: the eight bytes taken for the time are bytes
of text, and the time is not reached in the age of the universe. -/
theorem le_fromBeBytes_drop {b : Bytes} (hb : ∀ x ∈ b, 32 ≤ x) (hlen : b.length = 12) :
    2 ^ 61 ≤ fromBeBytes (b.drop 4) := by
  have hlen' : (b.drop 4).length = 8 := by simp [hlen]
  cases hd : b.drop 4 with
  | nil => simp [hd] at hlen'
  | cons x l =>
      rw [hd, List.length_cons] at hlen'
      have hx : x ∈ b := List.drop_subset 4 _ (hd ▸ List.mem_cons_self)
      have h32 := UInt8.le_iff_toNat_le.mp (hb x hx)
      have hge := le_fromBeBytes_cons x l
      rw [show l.length = 7 by omega] at hge
      simp only [UInt8.reduceToNat] at h32
      omega

theorem lt_fromBeBytes_drop {i : String} (hi : IsJmapId i) (hlen : (asBytes i).length = 12) :
    2 ^ 61 ≤ fromBeBytes ((asBytes i).drop 4) :=
  le_fromBeBytes_drop (fun x hx ↦ UInt8.le_trans (by decide) (le_of_isIdByte (hi.2 x hx))) hlen

/-- **`purge_deleted_ids` changes no table.** -/
theorem purgeDeletedIds_run (ttl : ℕ) {now : ℕ} (hnow : now < 2 ^ 61) (db : Db) :
    ∃ n db', (purgeDeletedIds ttl now).run db = (some n, db') ∧
      ∀ m T, Represents db m T → Represents db' m T := by
  obtain ⟨n, db', hrun, hget⟩ := removeWhere_run db [] fun kv ↦
    kv.2.length = 12 && (fromBeBytes (kv.2.drop 4) < now && ttl ≤ now - fromBeBytes (kv.2.drop 4))
  refine ⟨n, db', hrun, fun m T h ↦ h.congr fun s hs b hb ↦ hget.record_eq fun v hv hc ↦ ?_⟩
  simp only [Bool.and_eq_true, decide_eq_true_eq] at hc
  obtain ⟨-, hlen, hlt, -⟩ := hc
  obtain h4 | ⟨i, hi, rfl⟩ := record_value h hs hb hv
  · omega
  · have := lt_fromBeBytes_drop hi hlen
    omega

end Db

end ImapToJmap
