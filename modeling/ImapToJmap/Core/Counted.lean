import ImapToJmap.Core.UidMap
import ImapToJmap.Kv.Writes

/-!
# The counter alone keeps UIDs fresh

`Core/UidMap.lean` goes by the tables of the mailboxes, and asks of a listing what makes it one.
That no UID is given out twice takes less: a UID is written under `UID_TO_JMAP` right after the
counter has come to it, and nothing but a removal touches the other records.  So it holds of any
listing, and of a database in which the two directions of the map have parted.

`Advances` is what a program does to the counter, the UIDs and the UIDVALIDITY of its mailbox, and
`Numbers` says it of a program, with a rule for sequencing.
-/

namespace ImapToJmap

open Kv

/-- The number of the hour. -/
def hourOf (now : ℕ) : ℕ := (now - 946684800) / 3600 % 2 ^ 32

/-- The stored UIDVALIDITY of a mailbox. -/
def epochOf (db : Db) (mailbox : MailboxId) : Option Bytes := record db mailbox Sep.uidValidity []

/-- The message of a UID. -/
def messageOf (db : Db) (mailbox : MailboxId) (uid : ℕ) : Option Bytes :=
  record db mailbox Sep.uidToJmap (toBeBytes 4 uid)

/-- No UID is above the counter. -/
structure Counted (db : Db) (mailbox : MailboxId) : Prop where
  width : ∀ b ∈ record db mailbox Sep.uidNext [], b.length = 4
  le_counter : ∀ uid < 2 ^ 32, ∀ v ∈ messageOf db mailbox uid, uid ≤ db.counter mailbox

section Records

variable {db db' : Db} {mailbox : MailboxId}

theorem Db.counter_eq (db : Db) (mailbox : MailboxId) :
    db.counter mailbox = ((record db mailbox Sep.uidNext []).map fromBeBytes).getD 0 := by
  rw [Db.counter, getElem?_serializeUidNextKey]
  cases record db mailbox Sep.uidNext [] <;> rfl

theorem Db.counter_congr
    (h : record db' mailbox Sep.uidNext [] = record db mailbox Sep.uidNext []) :
    db'.counter mailbox = db.counter mailbox := by
  rw [Db.counter_eq, Db.counter_eq, h]

theorem Counted.counter_lt (h : Counted db mailbox) : db.counter mailbox < 2 ^ 32 := by
  rw [Db.counter_eq]
  cases hget : record db mailbox Sep.uidNext [] with
  | none => simp
  | some b =>
      have hlt := fromBeBytes_lt b
      rwa [h.width b hget] at hlt

/-- Without a counter there is no UID. -/
theorem counted_of_noMap (h : NoMap mailbox db) : Counted db mailbox where
  width b hb := by
    rw [h _ (by decide)] at hb
    cases hb
  le_counter uid _ v hv := by
    rw [messageOf, h _ (by decide)] at hv
    cases hv

theorem Counted.incrementUid (h : Counted db mailbox) :
    Db.incrementUid (record db mailbox Sep.uidNext []) =
      some (toBeBytes 4 (db.counter mailbox + 1)) := by
  rw [Db.counter_eq]
  cases hget : record db mailbox Sep.uidNext [] with
  | none => rfl
  | some b =>
      rw [Db.incrementUid, u32FromBe, if_pos (h.width b hget)]
      rfl

/-- Removing records, those of the counter apart. -/
theorem Counted.congr (h : Counted db mailbox)
    (hnext : record db' mailbox Sep.uidNext [] = record db mailbox Sep.uidNext [])
    (hold : ∀ uid, ∀ v ∈ messageOf db' mailbox uid, v ∈ messageOf db mailbox uid) :
    Counted db' mailbox where
  width := by
    rw [hnext]
    exact h.width
  le_counter uid hlt v hv := by
    rw [Db.counter_congr hnext]
    exact h.le_counter uid hlt v (hold uid v hv)

end Records

/-! ## Advancing -/

/-- `n` UIDs of the mailbox have been given out and some removed, and at most has its UIDVALIDITY
been fixed. -/
structure Advances (mailbox : MailboxId) (fixed : Option Bytes) (db db' : Db) (n : ℕ) : Prop where
  counted : Counted db' mailbox
  counter : db'.counter mailbox = db.counter mailbox + n
  old : ∀ uid ≤ db.counter mailbox, ∀ v ∈ messageOf db' mailbox uid, v ∈ messageOf db mailbox uid
  epoch : epochOf db' mailbox = epochOf db mailbox ∨
    epochOf db mailbox = none ∧ epochOf db' mailbox = fixed
  frame : Frame mailbox db db'

namespace Advances

variable {mailbox : MailboxId} {fixed : Option Bytes} {db db₁ db' : Db} {m n : ℕ}

/-- Removing records, those of the counters apart. -/
theorem of_remove (h : Counted db mailbox)
    (hnext : record db' mailbox Sep.uidNext [] = record db mailbox Sep.uidNext [])
    (hold : ∀ uid, ∀ v ∈ messageOf db' mailbox uid, v ∈ messageOf db mailbox uid)
    (hepoch : epochOf db' mailbox = epochOf db mailbox) (hframe : Frame mailbox db db') :
    Advances mailbox fixed db db' 0 :=
  ⟨h.congr hnext hold, Db.counter_congr hnext, fun uid _ ↦ hold uid, .inl hepoch, hframe⟩

theorem refl (h : Counted db mailbox) : Advances mailbox fixed db db 0 :=
  of_remove h rfl (fun _ _ hv ↦ hv) rfl (.refl _ _)

theorem trans (h : Advances mailbox fixed db db₁ m) (h' : Advances mailbox fixed db₁ db' n) :
    Advances mailbox fixed db db' (m + n) where
  counted := h'.counted
  counter := by rw [h'.counter, h.counter, Nat.add_assoc]
  old uid hle v hv := by
    refine h.old uid hle v (h'.old uid ?_ v hv)
    rw [h.counter]
    exact Nat.le_add_right_of_le hle
  epoch := by
    rcases h.epoch with h₁ | ⟨hnone, hfixed⟩
    · rw [← h₁]
      exact h'.epoch
    · refine .inr ⟨hnone, ?_⟩
      rcases h'.epoch with h₂ | ⟨-, h₂⟩
      · rw [h₂, hfixed]
      · exact h₂
  frame := h.frame.trans h'.frame

end Advances

namespace Db

variable {R S : Type} {mailbox : MailboxId} {fixed : Option Bytes}

/-- The program advances its mailbox by the UIDs it allocates, as long as the counter does not wrap,
and returns what satisfies `Q`. -/
def Numbers (mailbox : MailboxId) (fixed : Option Bytes) (Q : R → Prop) (p : DbM R) : Prop :=
  ∀ db, Counted db mailbox →
    db.counter mailbox + p.updates (serializeUidNextKey mailbox) db < 2 ^ 32 →
      Advances mailbox fixed db (p.run db).2 (p.updates (serializeUidNextKey mailbox) db) ∧
        ∀ r ∈ (p.run db).1, Q r

variable {Q : R → Prop} {Q' : S → Prop}

/-- **Sequencing.** -/
theorem numbers_bind {p : DbM R} {f : R → DbM S} (hp : Numbers mailbox fixed Q p)
    (hf : ∀ r, Q r → Numbers mailbox fixed Q' (f r)) : Numbers mailbox fixed Q' (p >>= f) := by
  intro db hdb hlt
  rw [Prog.updates_bind] at hlt ⊢
  rw [Prog.run_bind]
  obtain ⟨hadv, hQ⟩ := hp db hdb ((Nat.add_le_add_left (Nat.le_add_right _ _) _).trans_lt hlt)
  generalize p.run db = o at hlt hadv hQ ⊢
  obtain ⟨o, db₁⟩ := o
  cases o with
  | none =>
      refine ⟨hadv, fun r hr ↦ ?_⟩
      cases hr
  | some r =>
      dsimp only at hlt hadv hQ ⊢
      obtain ⟨hadv', hQ'⟩ := hf r (hQ r rfl) db₁ hadv.counted (by rw [hadv.counter]; omega)
      exact ⟨hadv.trans hadv', hQ'⟩

theorem numbers_ofOption {o : Option R} (h : ∀ r ∈ o, Q r) :
    Numbers mailbox fixed Q (Prog.ofOption o) := fun _ hdb _ ↦ ⟨.refl hdb, h⟩

theorem numbers_pure {r : R} (h : Q r) : Numbers mailbox fixed Q (pure r) := by
  intro db hdb _
  refine ⟨.refl hdb, fun x hx ↦ ?_⟩
  obtain rfl := Option.some.inj hx
  exact h

theorem numbers_read (k : Bytes) : Numbers mailbox fixed (fun _ ↦ True) (Prog.read k) :=
  fun _ hdb _ ↦ ⟨.refl hdb, fun _ _ ↦ trivial⟩

/-- A fold whose body keeps `Q` on bindings under the prefix. -/
theorem numbers_fold {σ : Type} {Q : σ → Prop} {pre : Bytes} {acc : σ}
    {body : σ → Bytes × Bytes → Option σ} (hacc : Q acc)
    (hbody : ∀ s, Q s → ∀ e, pre <+: e.1 → ∀ s' ∈ body s e, Q s') :
    Numbers mailbox fixed Q (Prog.fold pre acc body) := by
  intro db hdb hlt
  rw [Prog.updates_fold, Prog.run_fold]
  refine ⟨.refl hdb, fun s hs ↦ ?_⟩
  clear hlt
  have hall : ∀ e ∈ db.scanPrefix pre, pre <+: e.1 := fun e he ↦ (Tree.mem_scanPrefix.mp he).2
  generalize db.scanPrefix pre = l at hs hall
  induction l generalizing acc with
  | nil =>
      obtain rfl := Option.some.inj hs
      exact hacc
  | cons e l ih =>
      rw [List.foldlM_cons] at hs
      obtain ⟨s', hs', hrest⟩ := Option.bind_eq_some_iff.mp hs
      obtain ⟨he, hl⟩ := List.forall_mem_cons.mp hall
      exact ih (hbody acc hacc e he s' hs') hrest hl

/-- A batch that removes records of the map, and remembers them. -/
def TakesAway (mailbox : MailboxId) (batch : List (Edit UInt8 Bytes)) : Prop :=
  ∀ e ∈ batch, ∃ b, e.key = serializeKey mailbox Sep.jmapDeletedIds b ∨
    e.key = serializeKey mailbox Sep.jmapToUid b ∨
      e = .remove (serializeKey mailbox Sep.uidToJmap b)

theorem takesAway_nil : TakesAway mailbox [] := by
  intro e he
  cases he

theorem TakesAway.append {batch batch' : List (Edit UInt8 Bytes)} (h : TakesAway mailbox batch)
    (h' : TakesAway mailbox batch') : TakesAway mailbox (batch ++ batch') :=
  fun e he ↦ (List.mem_append.mp he).elim (h e) (h' e)

/-- The edits for one removed message. -/
theorem takesAway_deletion (uid i v : Bytes) :
    TakesAway mailbox [.insert (serializeKey mailbox Sep.jmapDeletedIds i) v,
      .remove (serializeKey mailbox Sep.uidToJmap uid),
      .remove (serializeKey mailbox Sep.jmapToUid i)] := by
  simp only [TakesAway, List.forall_mem_cons]
  exact ⟨⟨i, .inl rfl⟩, ⟨uid, .inr (.inr rfl)⟩, ⟨i, .inr (.inl rfl)⟩, by simp⟩

theorem TakesAway.record_eq {batch : List (Edit UInt8 Bytes)} (h : TakesAway mailbox batch)
    (db : Db) {s : UInt8} (hD : s ≠ Sep.jmapDeletedIds) (hJ : s ≠ Sep.jmapToUid)
    (hU : s ≠ Sep.uidToJmap) (b : Bytes) :
    record (db.applyBatch batch) mailbox s b = record db mailbox s b := by
  refine Tree.getElem?_applyBatch_of_notMem _ _ _ fun e he hkey ↦ ?_
  obtain ⟨b', hk | hk | rfl⟩ := h e he
  · exact hD (serializeKeyPrefix_append_iff.mp (hk.symm.trans hkey)).1.symm
  · exact hJ (serializeKeyPrefix_append_iff.mp (hk.symm.trans hkey)).1.symm
  · exact hU (serializeKeyPrefix_append_iff.mp hkey).1.symm

theorem TakesAway.advances {batch : List (Edit UInt8 Bytes)} (h : TakesAway mailbox batch) {db : Db}
    (hdb : Counted db mailbox) : Advances mailbox fixed db (db.applyBatch batch) 0 := by
  refine .of_remove hdb (h.record_eq db (by decide) (by decide) (by decide) _) (fun uid v hv ↦ ?_)
    (h.record_eq db (by decide) (by decide) (by decide) _) (Frame.applyBatch _ _ _ fun e he ↦ ?_)
  · rcases Tree.applyBatch_cases db batch (serializeKeyPrefix mailbox Sep.uidToJmap ++
      toBeBytes 4 uid) with ⟨e, he, hkey, hres⟩ | ⟨-, hsame⟩
    · obtain ⟨b, hk | hk | rfl⟩ := h e he
      · exact absurd (serializeKeyPrefix_append_iff.mp (hk.symm.trans hkey)).1 (by decide)
      · exact absurd (serializeKeyPrefix_append_iff.mp (hk.symm.trans hkey)).1 (by decide)
      · rw [messageOf, record, hres] at hv
        cases hv
    · rwa [messageOf, record, hsame] at hv
  · obtain ⟨b, hk | hk | rfl⟩ := h e he
    · exact ⟨_, by decide, b, hk⟩
    · exact ⟨_, by decide, b, hk⟩
    · exact ⟨_, by decide, b, rfl⟩

theorem numbers_batch {batch : List (Edit UInt8 Bytes)} (h : TakesAway mailbox batch) :
    Numbers mailbox fixed (fun _ ↦ True) (Prog.batch batch) := by
  intro db hdb _
  rw [Prog.updates_batch, Prog.run_batch]
  exact ⟨h.advances hdb, fun _ _ ↦ trivial⟩

/-! ## The programs -/

/-- The number that `insert_jmap_id` gives is one that was not there. -/
theorem numbers_insertJmapId (i : String) :
    Numbers mailbox fixed (fun _ ↦ True)
      (insertJmapId mailbox (asBytes i) (serializeUidNextKey mailbox)) := by
  intro db hdb hlt
  rw [insertJmapId_updates, if_pos rfl] at hlt ⊢
  have hrun : (insertJmapId mailbox (asBytes i) (serializeUidNextKey mailbox)).run db =
      (some (toBeBytes 4 (db.counter mailbox + 1)),
        allocate db mailbox (db.counter mailbox + 1) i) := by
    simp [insertJmapId, Prog.run_bind, Prog.store, hdb.incrementUid, allocate]
  have hnext : (allocate db mailbox (db.counter mailbox + 1) i).counter mailbox =
      db.counter mailbox + 1 := by
    rw [counter_eq]
    simp [allocate, Sep.uidToJmap, Sep.jmapToUid, Sep.uidNext]
    omega
  have hmessage : ∀ uid < 2 ^ 32,
      messageOf (allocate db mailbox (db.counter mailbox + 1) i) mailbox uid =
        if db.counter mailbox + 1 = uid then some (asBytes i) else messageOf db mailbox uid := by
    intro uid huid
    rw [messageOf, record_allocate_uidToJmap]
    exact if_congr (toBeBytes_inj hlt huid) rfl rfl
  rw [hrun]
  refine ⟨⟨⟨?_, ?_⟩, hnext, ?_, .inl ?_, ?_⟩, fun _ _ ↦ trivial⟩
  · intro b hb
    have hb' : toBeBytes 4 (db.counter mailbox + 1) = b := by
      simpa [allocate, Sep.uidToJmap, Sep.jmapToUid, Sep.uidNext] using hb
    rw [← hb', length_toBeBytes]
  · intro uid huid v hv
    rw [hmessage uid huid] at hv
    rw [hnext]
    split at hv
    · next heq => exact heq.ge
    · exact (hdb.le_counter uid huid v hv).trans (Nat.le_succ _)
  · intro uid hle v hv
    rwa [hmessage uid (by omega), if_neg (by omega)] at hv
  · simp [epochOf, allocate, Sep.uidToJmap, Sep.jmapToUid, Sep.uidNext, Sep.uidValidity]
  · exact ((Frame.put mailbox db (by decide) _ _).trans
      (Frame.put mailbox _ (by decide) _ _)).trans (Frame.put mailbox _ (by decide) _ _)

/-- What comes after a number has been read, one way or the other. -/
theorem numbers_parse {o : Option ℕ} {f : ℕ → DbM S}
    (hf : ∀ uid, Numbers mailbox fixed Q' (f uid)) :
    Numbers mailbox fixed Q' (Prog.ofOption o >>= f) :=
  numbers_bind (Q := fun _ ↦ True) (numbers_ofOption fun _ _ ↦ trivial) fun uid _ ↦ hf uid

theorem numbers_addMissing (rest : List (String × Bool)) (ids : List String) (uids : List ℕ) :
    Numbers mailbox fixed (fun _ ↦ True)
      (addMissing mailbox (serializeUidNextKey mailbox) rest ids uids) := by
  induction rest generalizing ids uids with
  | nil => exact numbers_pure trivial
  | cons x rest ih =>
      obtain ⟨i, found⟩ := x
      cases found with
      | true => exact ih ids uids
      | false => exact numbers_bind (numbers_insertJmapId i) fun _ _ ↦ numbers_parse fun _ ↦ ih _ _

theorem numbers_mapIds (options : MappingOptions) (rest ids : List String) (uids : List ℕ) :
    Numbers mailbox fixed (fun _ ↦ True) (mapIds mailbox options rest ids uids) := by
  induction rest generalizing ids uids with
  | nil => exact numbers_pure trivial
  | cons i rest ih =>
      have hlook : Numbers mailbox fixed (fun _ ↦ True) (lookUp mailbox options i) := by
        rw [lookUp]
        split
        · exact numbers_pure trivial
        · exact numbers_read _
      refine numbers_bind hlook fun o _ ↦ ?_
      cases o with
      | some uid => exact numbers_parse fun _ ↦ ih _ _
      | none =>
          dsimp only
          split
          · exact numbers_bind (numbers_insertJmapId i) fun _ _ ↦ numbers_parse fun _ ↦ ih _ _
          · split
            · exact ih _ _
            · refine numbers_bind (numbers_read _) fun o _ ↦ ?_
              cases o with
              | some uid => exact numbers_parse fun _ ↦ ih _ _
              | none => exact ih _ _

theorem numbers_uidNext : Numbers mailbox fixed (fun _ ↦ True) (uidNext mailbox) := by
  refine numbers_bind (numbers_read _) fun o _ ↦ ?_
  cases o with
  | some b => exact numbers_parse fun _ ↦ numbers_pure trivial
  | none => exact numbers_pure trivial

/-- `uid_validity` fixes the number of the hour where there is none. -/
theorem numbers_uidValidity (now : ℕ) :
    Numbers mailbox (some (toBeBytes 4 (hourOf now))) (fun _ ↦ True) (uidValidity mailbox now) := by
  intro db hdb _
  rw [uidValidity_updates, uidValidity, Prog.run_bind_of_eq (Prog.run_read _ _),
    getElem?_serializeUidValidityKey]
  cases hget : record db mailbox Sep.uidValidity [] with
  | some b => exact ⟨.refl hdb, fun _ _ ↦ trivial⟩
  | none =>
      dsimp only
      rw [Prog.run_bind_of_eq (Prog.run_write _ _ _), insert_serializeUidValidityKey, Prog.run_pure]
      have hnext : record (put db mailbox Sep.uidValidity [] (toBeBytes 4 (hourOf now))) mailbox
          Sep.uidNext [] = record db mailbox Sep.uidNext [] := by
        rw [record_put, if_neg (by decide)]
      have hold : ∀ uid, messageOf (put db mailbox Sep.uidValidity [] (toBeBytes 4 (hourOf now)))
          mailbox uid = messageOf db mailbox uid := fun uid ↦ by
        rw [messageOf, record_put, if_neg (by simp [Sep.uidValidity, Sep.uidToJmap]), messageOf]
      refine ⟨⟨hdb.congr hnext fun uid v hv ↦ ?_, Db.counter_congr hnext, fun uid _ v hv ↦ ?_,
        .inr ⟨hget, ?_⟩, Frame.put _ _ (by decide) _ _⟩, fun _ _ ↦ trivial⟩
      · rwa [← hold uid]
      · rwa [← hold uid]
      · exact (record_put ..).trans (if_pos ⟨rfl, rfl⟩)

theorem uids_updates (k : Bytes) (now : ℕ) (db : Db) : (uids mailbox now).updates k db = 0 :=
  Nat.le_zero.mp (updates_bind_le (m := 0) (n := 0) (uidValidity_updates _ _ _).le fun _ _ ↦
    updates_bind_le (m := 0) (n := 0) (uidNext_updates _ _).le fun _ _ ↦ le_rfl)

theorem numbers_uids (now : ℕ) :
    Numbers mailbox (some (toBeBytes 4 (hourOf now))) (fun _ ↦ True) (uids mailbox now) :=
  numbers_bind (numbers_uidValidity now) fun _ _ ↦
    numbers_bind numbers_uidNext fun _ _ ↦ numbers_pure trivial

/-- Whatever the record read, its visit adds removals to the batch only. -/
theorem takesAway_visit {clock : Clock} {st st' : UpdateScan} (h : TakesAway mailbox st.batch)
    {e : Bytes × Bytes} (hpre : serializeKeyPrefix mailbox Sep.uidToJmap <+: e.1)
    (hvisit : UpdateScan.visit mailbox clock (serializeKeyPrefix mailbox Sep.uidToJmap).length st
      e = some st') : TakesAway mailbox st'.batch := by
  obtain ⟨key, value⟩ := e
  obtain ⟨uid, rfl⟩ := hpre
  rw [UpdateScan.visit] at hvisit
  dsimp only at hvisit
  split at hvisit
  · split at hvisit
    · obtain ⟨n, -, hvisit⟩ := Option.bind_eq_some_iff.mp hvisit
      obtain ⟨i, -, hvisit⟩ := Option.bind_eq_some_iff.mp hvisit
      obtain rfl := Option.some.inj hvisit
      exact h
    · obtain rfl := Option.some.inj hvisit
      exact h.append (takesAway_deletion _ _ _)
  · obtain rfl := Option.some.inj hvisit
    exact h

theorem numbers_updateUids (clock : Clock) (listing : List String) :
    Numbers mailbox (some (toBeBytes 4 (hourOf (clock 0)))) (fun _ ↦ True)
      (updateUids mailbox clock listing) := by
  refine numbers_bind (numbers_uidValidity (clock 0)) fun v _ ↦ ?_
  refine numbers_bind (Q := fun st : UpdateScan ↦ TakesAway mailbox st.batch)
    (numbers_fold takesAway_nil fun st h e hpre st' ↦ takesAway_visit h hpre) fun st hst ↦ ?_
  have hdel : Numbers mailbox (some (toBeBytes 4 (hourOf (clock 0)))) (fun _ ↦ True)
      (applyDeletions st) := by
    rw [applyDeletions]
    split
    · exact numbers_batch hst
    · exact numbers_pure trivial
  refine numbers_bind hdel fun _ _ ↦ ?_
  have hadd : Numbers mailbox (some (toBeBytes 4 (hourOf (clock 0)))) (fun _ ↦ True)
      (addNewIds mailbox listing st) := by
    rw [addNewIds]
    split
    · exact numbers_pure trivial
    · exact numbers_addMissing _ _ _
  exact numbers_bind hadd fun _ _ ↦ numbers_bind numbers_uidNext fun _ _ ↦ numbers_pure trivial

theorem numbers_collectDeletions (clock : Clock) (ids : List String)
    {batch : List (Edit UInt8 Bytes)} (h : TakesAway mailbox batch) (readings : ℕ) :
    Numbers mailbox fixed (TakesAway mailbox)
      (collectDeletions mailbox clock ids batch readings) := by
  induction ids generalizing batch readings with
  | nil => exact numbers_pure h
  | cons i ids ih =>
      refine numbers_bind (numbers_read _) fun o _ ↦ ?_
      cases o with
      | some uid =>
          refine ih (h.append ?_) _
          simp only [TakesAway, List.forall_mem_cons]
          exact ⟨⟨_, .inl rfl⟩, ⟨_, .inr (.inl rfl)⟩, ⟨uid, .inr (.inr rfl)⟩, by simp⟩
      | none => exact ih h readings

theorem numbers_deleteIds (clock : Clock) (ids : List String) :
    Numbers mailbox fixed (fun _ ↦ True) (deleteIds mailbox clock ids) := by
  refine numbers_bind (numbers_collectDeletions clock ids takesAway_nil 0) fun batch hbatch ↦ ?_
  split
  · exact numbers_pure trivial
  · exact numbers_batch hbatch

end Db

end ImapToJmap
