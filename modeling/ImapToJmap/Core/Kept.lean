import ImapToJmap.Core.Stored
import ImapToJmap.Run.Basic

/-!
# Operations keep the records

One lemma for each operation says what it writes, from what it reads (`Kv.Prog.Sound`), and
`typed_exec` is what this comes to in a run: every database that the operations lead to holds
records only, as long as no call of `update_uids` finds a modseq among the UIDs of its mailbox
(`Apart`).
-/

namespace ImapToJmap

open Kv Run

/-! ## Programs that keep the records -/

namespace Db

variable {P : Bytes → Bytes → Prop} {m : MailboxId}

theorem length_of_incrementUid {o : Option Bytes} : ∀ v ∈ incrementUid o, v.length = 4 := by
  intro v hv
  cases o with
  | none =>
      obtain rfl := Option.some.inj hv
      exact length_toBeBytes _ _
  | some b =>
      obtain ⟨n, -, rfl⟩ := Option.map_eq_some_iff.mp hv
      exact length_toBeBytes _ _

/-- The three records of a new message. -/
theorem sound_insertJmapId {i : Bytes} (hnext : ∀ v : Bytes, v.length = 4 →
    P (serializeUidNextKey m) v)
    (hto : ∀ u : Bytes, u.length = 4 → P (serializeKey m Sep.jmapToUid i) u)
    (hof : ∀ u : Bytes, u.length = 4 → P (serializeKey m Sep.uidToJmap u) i) :
    (insertJmapId m i (serializeUidNextKey m)).Sound P fun _ ↦ True := by
  refine fun o _ ↦ ⟨fun v hv ↦ hnext v (length_of_incrementUid v hv), ?_⟩
  refine Prog.sound_bind (Q := fun uid : Bytes ↦ uid.length = 4)
    (Prog.sound_ofOption length_of_incrementUid) fun uid huid ↦ ?_
  refine Prog.sound_bind (Prog.sound_write (hto uid huid)) fun _ _ ↦ ?_
  exact Prog.sound_bind (Prog.sound_write (hof uid huid)) fun _ _ ↦ Prog.sound_pure trivial

theorem sound_insertJmapId_apart (hm : m.Text) {i : String} (hi : IsText i) :
    (insertJmapId m (asBytes i) (serializeUidNextKey m)).Sound (StoredApart m) fun _ ↦ True := by
  refine sound_insertJmapId (fun v hv ↦ ?_) (fun u hu ↦ ?_) fun u hu ↦
    storedApart_uidToJmap hm hu hi
  · have h := Stored.uidNext hm hv
    have hkey : serializeUidNextKey m = serializeKey m Sep.uidNext [] := by
      simp [serializeUidNextKey, serializeKey]
    rw [hkey] at h ⊢
    exact storedApart_of_ne hm (by decide) (by decide) h
  · exact storedApart_of_ne hm (by decide) (by decide) (.jmapToUid hm hi hu)

/-- `jmap_to_imap` -/
theorem sound_mapIds (hm : m.Text) (options : MappingOptions) {ids : List String}
    (hids : ∀ i ∈ ids, IsText i) (jmapIds : List String) (imapUids : List ℕ) :
    (mapIds m options ids jmapIds imapUids).Sound Stored fun _ ↦ True := by
  induction ids generalizing jmapIds imapUids with
  | nil => exact Prog.sound_pure trivial
  | cons i ids ih =>
      obtain ⟨hi, hids'⟩ := List.forall_mem_cons.mp hids
      rw [mapIds]
      have hlookUp : (lookUp m options i).Sound Stored fun _ ↦ True := by
        rw [lookUp]
        split
        · exact Prog.sound_pure trivial
        · exact (Prog.sound_read _).mono fun _ _ ↦ trivial
      refine Prog.sound_bind hlookUp fun o _ ↦ ?_
      cases o with
      | some uid =>
          exact Prog.sound_bind (Q := fun _ ↦ True) (fun _ _ ↦ trivial) fun n _ ↦ ih hids' _ _
      | none =>
          dsimp only
          split
          · refine Prog.sound_bind (sound_insertJmapId (fun v hv ↦ .uidNext hm hv)
              (fun u hu ↦ .jmapToUid hm hi hu) fun u hu ↦ .uidToJmap hm hu hi) fun uid _ ↦ ?_
            exact Prog.sound_bind (Q := fun _ ↦ True) (fun _ _ ↦ trivial) fun n _ ↦ ih hids' _ _
          · split
            · exact ih hids' _ _
            · refine Prog.sound_bind (Prog.sound_read _) fun o _ ↦ ?_
              cases o with
              | some uid =>
                  exact Prog.sound_bind (Q := fun _ ↦ True) (fun _ _ ↦ trivial) fun n _ ↦
                    ih hids' _ _
              | none => exact ih hids' _ _

/-- `delete_ids` -/
theorem sound_collectDeletions (hm : m.Text) {clock : Clock} (hclock : ∀ n, clock n < 2 ^ 56)
    {ids : List String} (hids : ∀ i ∈ ids, IsText i) {batch : List (Kv.Edit UInt8 Bytes)}
    (hbatch : ∀ e ∈ batch, ∀ v ∈ e.result, Stored e.key v) (readings : ℕ) :
    (collectDeletions m clock ids batch readings).Sound Stored
      fun batch ↦ ∀ e ∈ batch, ∀ v ∈ e.result, Stored e.key v := by
  induction ids generalizing batch readings with
  | nil => exact Prog.sound_pure hbatch
  | cons i ids ih =>
      obtain ⟨hi, hids'⟩ := List.forall_mem_cons.mp hids
      rw [collectDeletions]
      refine Prog.sound_bind (Prog.sound_read _) fun o ho ↦ ?_
      cases o with
      | none => exact ih hids' hbatch readings
      | some uid =>
          have huid := Stored.length_jmapToUid hm hi (ho uid rfl)
          refine ih hids' (fun e he v hv ↦ ?_) _
          rcases List.mem_append.mp he with he | he
          · exact hbatch e he v hv
          · simp only [List.mem_cons, List.not_mem_nil, or_false] at he
            rcases he with rfl | rfl | rfl
            · obtain rfl := Option.some.inj hv
              exact .jmapDeletedIds hm hi huid (hclock _)
            · cases hv
            · cases hv

theorem sound_deleteIds (hm : m.Text) {clock : Clock} (hclock : ∀ n, clock n < 2 ^ 56)
    {ids : List String} (hids : ∀ i ∈ ids, IsText i) :
    (deleteIds m clock ids).Sound Stored fun _ ↦ True := by
  rw [deleteIds]
  refine Prog.sound_bind (sound_collectDeletions hm hclock hids (by simp) 0) fun batch hbatch ↦ ?_
  split
  · exact Prog.sound_pure trivial
  · exact Prog.sound_batch hbatch

theorem sound_removeWhere (pre : Bytes) (select : Bytes × Bytes → Bool) :
    (removeWhere pre select).Sound P fun _ ↦ True := by
  rw [removeWhere]
  refine Prog.sound_bind (Q := fun _ ↦ True) ?_ fun keys _ ↦ ?_
  · exact Prog.sound_fold trivial fun _ _ _ _ _ _ _ ↦ trivial
  · refine Prog.sound_bind (Prog.sound_batch fun e he v hv ↦ ?_) fun _ _ ↦ Prog.sound_pure trivial
    obtain ⟨k, -, rfl⟩ := List.mem_map.mp he
    cases hv

/-- `state_to_modseq` -/
theorem sound_stateToModseq {a s : String}
    (hto : ∀ v : Bytes, v.length = 4 → P (serializeModseq (asBytes a)
      (asBytes s) Sep.stateToModseq) v)
    (hof : ∀ n : Bytes, n.length = 4 → P (serializeModseq (asBytes a) n Sep.modseqToState)
      (asBytes s))
    (hhighest : ∀ v : Bytes, v.length = 4 → P (serializeHighestmodseq (asBytes a)) v) :
    (stateToModseq a s).Sound P fun _ ↦ True := by
  have hread : ∀ modseq : Bytes, (Prog.ofOption (u32FromBe modseq) : DbM ℕ).Sound P fun _ ↦ True :=
    fun _ ↦ Prog.sound_ofOption fun _ _ ↦ trivial
  rw [stateToModseq]
  refine Prog.sound_bind (Prog.sound_read _) fun o _ ↦ ?_
  cases o with
  | some modseq =>
      exact Prog.sound_bind (Q := fun _ ↦ True) (Prog.sound_pure trivial) fun modseq _ ↦
        hread modseq
  | none =>
      refine fun o _ ↦ ⟨fun v hv ↦ hhighest v (length_of_incrementUid v hv), ?_⟩
      refine Prog.sound_bind (Q := fun highest : Bytes ↦ highest.length = 4)
        (Prog.sound_ofOption length_of_incrementUid) fun highest hlen ↦ ?_
      refine Prog.sound_bind (Prog.sound_write (hto _ hlen)) fun _ _ ↦ ?_
      refine Prog.sound_bind (Prog.sound_write (hof _ hlen)) fun _ _ ↦ ?_
      exact Prog.sound_bind (Q := fun _ ↦ True) (Prog.sound_pure trivial) fun modseq _ ↦
        hread modseq

theorem sound_uidValidity (now : ℕ)
    (h : ∀ v : Bytes, v.length = 4 → P (serializeUidValidityKey m) v) :
    (uidValidity m now).Sound P fun _ ↦ True := by
  rw [uidValidity]
  refine Prog.sound_bind (Prog.sound_read _) fun o _ ↦ ?_
  cases o with
  | some b => exact fun _ _ ↦ trivial
  | none =>
      exact Prog.sound_bind (Prog.sound_write (h _ (length_toBeBytes _ _))) fun _ _ ↦
        Prog.sound_pure trivial

theorem sound_uidNext : (uidNext m).Sound P fun _ ↦ True := by
  rw [uidNext]
  refine Prog.sound_bind (Prog.sound_read _) fun o _ ↦ ?_
  cases o with
  | some b => exact Prog.sound_bind (Q := fun _ ↦ True) (fun _ _ ↦ trivial) fun _ _ ↦
      Prog.sound_pure trivial
  | none => exact Prog.sound_pure trivial

/-! ### `update_uids` -/

/-- The deletions collected by the scan, which reads only records of the mailbox's UIDs. -/
theorem sound_visit (hm : m.Text) {clock : Clock} (hclock : ∀ n, clock n < 2 ^ 56) {st : UpdateScan}
    (hst : ∀ e ∈ st.batch, ∀ v ∈ e.result, StoredApart m e.key v) {e : Bytes × Bytes}
    (hpre : serializeKeyPrefix m Sep.uidToJmap <+: e.1) (he : StoredApart m e.1 e.2)
    {st' : UpdateScan}
    (hvisit : st' ∈ st.visit m clock (serializeKeyPrefix m Sep.uidToJmap).length e) :
    ∀ e ∈ st'.batch, ∀ v ∈ e.result, StoredApart m e.key v := by
  obtain ⟨k, v⟩ := e
  obtain ⟨⟨i, hi, rfl⟩, -⟩ := he.1.of_prefix_uidToJmap hm hpre
  have hlen := he.2 hpre
  rw [UpdateScan.visit] at hvisit
  dsimp only at hvisit hlen
  rw [if_pos (by omega)] at hvisit
  cases hpos : st.jmapIdsMap[asBytes i]? with
  | some pos =>
      rw [hpos] at hvisit
      obtain ⟨uid, -, hrest⟩ := Option.bind_eq_some_iff.mp hvisit
      obtain ⟨jmapId, -, hsome⟩ := Option.bind_eq_some_iff.mp hrest
      obtain rfl := Option.some.inj hsome
      exact hst
  | none =>
      rw [hpos] at hvisit
      obtain rfl := Option.some.inj hvisit
      intro e he v hv
      rcases List.mem_append.mp he with he | he
      · exact hst e he v hv
      · simp only [deletion, List.mem_cons, List.not_mem_nil, or_false] at he
        rcases he with rfl | rfl | rfl
        · obtain rfl := Option.some.inj hv
          have hdrop : (k.drop (serializeKeyPrefix m Sep.uidToJmap).length).length = 4 := by
            rw [List.length_drop]
            omega
          exact storedApart_of_ne hm (by decide) (by decide)
            (.jmapDeletedIds hm hi hdrop (hclock _))
        · cases hv
        · cases hv

theorem sound_addMissing (hm : m.Text) {rest : List (String × Bool)}
    (hrest : ∀ e ∈ rest, IsText e.1)
    (jmapIds : List String) (imapUids : List ℕ) :
    (addMissing m (serializeUidNextKey m) rest jmapIds imapUids).Sound (StoredApart m)
      fun _ ↦ True := by
  induction rest generalizing jmapIds imapUids with
  | nil => exact Prog.sound_pure trivial
  | cons e rest ih =>
      obtain ⟨he, hrest'⟩ := List.forall_mem_cons.mp hrest
      obtain ⟨i, found⟩ := e
      cases found with
      | true => exact ih hrest' _ _
      | false =>
          rw [addMissing]
          refine Prog.sound_bind (sound_insertJmapId_apart hm he) fun uid _ ↦ ?_
          exact Prog.sound_bind (Q := fun _ ↦ True) (fun _ _ ↦ trivial) fun n _ ↦ ih hrest' _ _

/-- **`update_uids` writes records**, if it reads no others under the prefix of its mailbox. -/
theorem sound_updateUids (hm : m.Text) {clock : Clock} (hclock : ∀ n, clock n < 2 ^ 56)
    {listing : List String} (hids : ∀ i ∈ listing, IsText i) :
    (updateUids m clock listing).Sound (StoredApart m) fun _ ↦ True := by
  rw [updateUids]
  refine Prog.sound_bind (sound_uidValidity _ fun v hv ↦ ?_) fun validity _ ↦ ?_
  · have h := Stored.uidValidity hm hv
    have hkey : serializeUidValidityKey m = serializeKey m Sep.uidValidity [] := by
      simp [serializeUidValidityKey, serializeKey]
    rw [hkey] at h ⊢
    exact storedApart_of_ne hm (by decide) (by decide) h
  · refine Prog.sound_bind (Prog.sound_fold
      (Q := fun st : UpdateScan ↦ ∀ e ∈ st.batch, ∀ v ∈ e.result, StoredApart m e.key v)
      (by simp [UpdateScan.init]) fun st hst e hpre he st' hst' ↦
        sound_visit hm (fun n ↦ hclock (n + 1)) hst hpre he hst') fun st hst ↦ ?_
    have hdeletions : (applyDeletions st).Sound (StoredApart m) fun _ ↦ True := by
      rw [applyDeletions]
      split
      · exact Prog.sound_batch hst
      · exact Prog.sound_pure trivial
    refine Prog.sound_bind hdeletions fun _ _ ↦ ?_
    have hadd : (addNewIds m listing st).Sound (StoredApart m) fun _ ↦ True := by
      rw [addNewIds]
      split
      · exact Prog.sound_pure trivial
      · exact sound_addMissing hm (fun e he ↦ hids e.1 (List.of_mem_zip he).1) _ _
    refine Prog.sound_bind hadd fun ids _ ↦ ?_
    exact Prog.sound_bind sound_uidNext fun next _ ↦ Prog.sound_pure trivial

end Db

/-! ## Runs -/

/-- A call of any of the operations. -/
inductive DbOp where
  | uid (op : UidOp)
  | modseq (call : ModseqCall)
  | deleteAccount (accountId : String)
  | uids (mailbox : MailboxId) (now : ℕ)

namespace DbOp

/-- What the call leaves in the database. -/
def apply (db : Db) : DbOp → Db
  | uid op => op.apply db
  | modseq call => (ModseqCall.call db call).1
  | deleteAccount accountId => ((Db.deleteAccount accountId).run db).2
  | uids mailbox now => ((Db.uids mailbox now).run db).2

/-- Ids and states are texts, and the clock is not billions of years ahead. -/
def Printable : DbOp → Prop
  | uid (.updateUids mailbox clock listing) =>
      mailbox.Text ∧ (∀ n, clock n < 2 ^ 56) ∧ ∀ i ∈ listing, IsText i
  | uid (.jmapToImap mailbox ids _) => mailbox.Text ∧ ∀ i ∈ ids, IsText i
  | uid (.deleteIds mailbox clock ids) =>
      mailbox.Text ∧ (∀ n, clock n < 2 ^ 56) ∧ ∀ i ∈ ids, IsText i
  | uid (.deleteMailbox accountId mailboxId) => IsText accountId ∧ IsText mailboxId
  | uid (.purgeDeletedMailboxes accountId keys) => IsText accountId ∧ ∀ i ∈ keys, IsText i
  | uid (.purgeDeletedIds _ now) => now < 2 ^ 56
  | modseq (.stateToModseq accountId state) => IsText accountId ∧ IsText state
  | modseq (.modseqToState accountId _) => IsText accountId
  | deleteAccount accountId => IsText accountId
  | uids mailbox now => mailbox.Text ∧ now < 2 ^ 56

/-- A call of `update_uids` finds its mailbox apart. -/
def Apart (db : Db) : DbOp → Prop
  | uid (.updateUids mailbox _ _) => ImapToJmap.Apart db mailbox
  | _ => True

/-- **One call keeps the records.** -/
theorem typed_apply {db : Db} (h : Typed Stored db) {c : DbOp} (hc : c.Printable)
    (hapart : c.Apart db) : Typed Stored (c.apply db) := by
  cases c with
  | uid op =>
      cases op with
      | updateUids m clock listing =>
          obtain ⟨hm, hclock, hids⟩ := hc
          have hrun := (Db.sound_updateUids hm hclock hids).run (typed_storedApart h hm hapart)
          exact hrun.1.mono fun _ _ hk ↦ hk.1
      | jmapToImap m ids options => exact ((Db.sound_mapIds hc.1 options hc.2 [] []).run h).1
      | deleteIds m clock ids => exact ((Db.sound_deleteIds hc.1 hc.2.1 hc.2.2).run h).1
      | deleteMailbox a i => exact ((Db.sound_removeWhere _ _).run h).1
      | purgeDeletedMailboxes a keys =>
          show Typed Stored ((Db.purgeDeletedMailboxes a keys).run db).2
          rw [Db.purgeDeletedMailboxes]
          split
          · exact h
          · exact ((Db.sound_removeWhere _ _).run h).1
      | purgeDeletedIds ttl now => exact ((Db.sound_removeWhere _ _).run h).1
  | modseq call =>
      cases call with
      | stateToModseq a s =>
          have hsound := Db.sound_stateToModseq (P := Stored) (a := a) (s := s)
            (fun v hv ↦ .stateToModseq hc.1 hc.2 hv) (fun n hn ↦ .modseqToState hc.1 hn hc.2)
            fun v hv ↦ .highestModseq hc.1 hv
          exact ((Prog.sound_bind hsound fun n _ ↦
            Prog.sound_pure (Q := fun _ ↦ True) trivial).run h).1
      | modseqToState a n =>
          have hsound : (Db.modseqToState a n).Sound Stored fun _ ↦ True := by
            rw [Db.modseqToState]
            refine Prog.sound_bind (Prog.sound_read _) fun o _ ↦ ?_
            cases o with
            | some state => exact Prog.sound_bind (Q := fun _ ↦ True) (fun _ _ ↦ trivial) fun _ _ ↦
                Prog.sound_pure trivial
            | none => exact Prog.sound_pure trivial
          exact ((Prog.sound_bind hsound fun n _ ↦
            Prog.sound_pure (Q := fun _ ↦ True) trivial).run h).1
  | deleteAccount a => exact ((Db.sound_removeWhere _ _).run h).1
  | uids m now =>
      have hsound : (Db.uids m now).Sound Stored fun _ ↦ True :=
        Prog.sound_bind (Db.sound_uidValidity now fun v hv ↦ .uidValidity hc.1 hv) fun _ _ ↦
          Prog.sound_bind Db.sound_uidNext fun _ _ ↦ Prog.sound_pure trivial
      exact (hsound.run h).1

/-- **A run keeps the records.** -/
theorem typed_exec {calls : List DbOp} (hcalls : ∀ c ∈ calls, c.Printable)
    (hapart : Along apply Apart ∅ calls) : Typed Stored (exec apply ∅ calls) := by
  have hboth : Along apply (fun db c ↦ c.Printable ∧ c.Apart db) ∅ calls :=
    along_and.mpr ⟨along_of_forall fun c hc _ ↦ hcalls c hc, hapart⟩
  exact exec_induct (Typed Stored) typed_empty (fun db c hdb hc ↦ typed_apply hdb hc.1 hc.2) hboth

end DbOp

end ImapToJmap
