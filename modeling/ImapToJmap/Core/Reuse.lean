import ImapToJmap.Core.Counted
import ImapToJmap.Core.Kept

/-!
# UIDs and UIDVALIDITY over a whole run

A client remembers a message by the UIDVALIDITY of its mailbox and its UID.  `Core/Counted.lean`
says that a UID is not given twice as long as the counter is there.  When a mailbox or its account
is deleted the counter goes, and so does the UIDVALIDITY, which is fixed again at the next use: it
is the number of the hour, so that within one hour the old numbers come back with the old UIDs.

`Epochs` is the bookkeeping, over arbitrary ids and epochs.  `uids_unique` is about runs: the pairs
are unique as long as no mailbox gets a UIDVALIDITY that it has had before.
-/

universe u v

namespace ImapToJmap

open Kv Run

/-! ## Numberings with epochs -/

section Epochs

variable {ε : Type u} {ι : Type v}

/-- What the numbers up to a counter are given to. -/
structure Numbering (ι : Type v) where
  next : ℕ
  id? : ℕ → Option ι
  le_next : ∀ n, ∀ i ∈ id? n, n ≤ next

/-- Numbers are added above the counter and removed. -/
structure Numbering.Later (N N' : Numbering ι) : Prop where
  next_le : N.next ≤ N'.next
  old : ∀ n ≤ N.next, ∀ i ∈ N'.id? n, i ∈ N.id? n

/-- What is known of a numbering that counts by epochs, with the history `H` of its entries. -/
structure Epochs (H : Set (ε × ℕ × ι)) (epoch : Option ε) (N : Numbering ι) : Prop where
  unique : ∀ e n i j, (e, n, i) ∈ H → (e, n, j) ∈ H → i = j
  bounded : ∀ e ∈ epoch, ∀ n i, (e, n, i) ∈ H → n ≤ N.next
  entries : ∀ e ∈ epoch, ∀ n i, (e, n, i) ∈ H → ∀ j ∈ N.id? n, i = j

theorem Epochs.mono {H H' : Set (ε × ℕ × ι)} {epoch : Option ε} {N : Numbering ι}
    (h : Epochs H epoch N) (hsub : H' ⊆ H) : Epochs H' epoch N where
  unique e n i j hi hj := h.unique e n i j (hsub hi) (hsub hj)
  bounded e he n i hmem := h.bounded e he n i (hsub hmem)
  entries e he n i hmem := h.entries e he n i (hsub hmem)

/-- The entries of a numbering in its epoch. -/
def epochEntries (epoch : Option ε) (N : Numbering ι) : Set (ε × ℕ × ι) :=
  {x | x.1 ∈ epoch ∧ x.2.2 ∈ N.id? x.2.1}

theorem epochs_empty (N : Numbering ι) : Epochs (∅ : Set (ε × ℕ × ι)) none N where
  unique _ _ _ _ h := h.elim
  bounded _ he := nomatch he
  entries _ he := nomatch he

/-- **One step**: the epoch goes on, and the numbering with it, or there is none, or it is one that
has not been before. -/
theorem Epochs.step {H : Set (ε × ℕ × ι)} {epoch epoch' : Option ε} {N N' : Numbering ι}
    (h : Epochs H epoch N) (hepoch : ∀ e ∈ epoch', e ∈ epoch ∧ N.Later N' ∨ ∀ x ∈ H, x.1 ≠ e) :
    Epochs (H ∪ epochEntries epoch' N') epoch' N' := by
  have hold : ∀ e ∈ epoch', ∀ n i, (e, n, i) ∈ H → n ≤ N'.next ∧ ∀ j ∈ N'.id? n, i = j := by
    intro e he n i hmem
    rcases hepoch e he with ⟨he', hlater⟩ | hnew
    · have hle := h.bounded e he' n i hmem
      exact ⟨hle.trans hlater.next_le, fun j hj ↦
        h.entries e he' n i hmem j (hlater.old n hle j hj)⟩
    · exact absurd rfl (hnew _ hmem)
  refine ⟨fun e n i j hi hj ↦ ?_, fun e he n i hmem ↦ ?_, fun e he n i hmem j hj ↦ ?_⟩
  · rcases hi with hi | hi
    · rcases hj with hj | hj
      · exact h.unique e n i j hi hj
      · exact (hold e hj.1 n i hi).2 j hj.2
    · rcases hj with hj | hj
      · exact ((hold e hi.1 n j hj).2 i hi.2).symm
      · exact Option.mem_unique hi.2 hj.2
  · rcases hmem with hmem | hmem
    · exact (hold e he n i hmem).1
    · exact N'.le_next n i hmem.2
  · rcases hmem with hmem | hmem
    · exact (hold e he n i hmem).2 j hj
    · exact Option.mem_unique hmem.2 hj

end Epochs

/-! ## The operations -/

/-- The UIDs of a mailbox and their messages. -/
def numbering (db : Db) (mailbox : MailboxId) : Numbering Bytes where
  next := db.counter mailbox
  id? uid := if uid ≤ db.counter mailbox then messageOf db mailbox uid else none
  le_next uid i hi := by
    by_contra hnot
    rw [if_neg hnot] at hi
    cases hi

theorem mem_numbering {db : Db} {mailbox : MailboxId} {uid : ℕ} {v : Bytes} :
    v ∈ (numbering db mailbox).id? uid ↔
      uid ≤ db.counter mailbox ∧ v ∈ messageOf db mailbox uid := by
  simp only [numbering]
  split <;> simp [*]

theorem later_numbering {db db' : Db} {mailbox : MailboxId}
    (hle : db.counter mailbox ≤ db'.counter mailbox)
    (hold : ∀ uid ≤ db.counter mailbox, ∀ v ∈ messageOf db' mailbox uid,
      v ∈ messageOf db mailbox uid) :
    (numbering db mailbox).Later (numbering db' mailbox) :=
  ⟨hle, fun uid huid v hv ↦ mem_numbering.mpr ⟨huid, hold uid huid v (mem_numbering.mp hv).2⟩⟩

/-- `delete_account` empties the mailboxes of the account and keeps every other. -/
theorem Db.deleteAccount_run (accountId : String) (ha : IsJmapId accountId) (db : Db) :
    ∃ n db', (deleteAccount accountId).run db = (some n, db') ∧
      ∀ m : MailboxId, m.WellFormed → m.accountId ≠ accountId ∧ SameMap m db db' ∨
        m.accountId = accountId ∧ NoMap m db' := by
  obtain ⟨n, db', hrun, hget⟩ := removeWhere_run db (serializeKeyAccountPrefix accountId)
    fun _ ↦ true
  refine ⟨n, db', hrun, fun m hwf ↦ ?_⟩
  by_cases hacc : m.accountId = accountId
  · refine .inr ⟨hacc, hget.noMap m fun s _ b v ↦ ⟨?_, rfl⟩⟩
    rw [serializeKeyPrefix_eq, hacc, List.append_assoc]
    exact List.prefix_append _ _
  · refine .inl ⟨hacc, fun s hs b _ ↦ hget.record_eq fun v _ hc ↦ ?_⟩
    obtain ⟨r, hr⟩ := hc.1
    rw [serializeKeyPrefix_eq, List.append_assoc] at hr
    exact hacc (accountPrefix_append_inj ha hwf.account hr).1.symm

/-- A selective removal leaves or removes a record. -/
theorem Db.Removed.record_mem {db db' : Db} {pre : Bytes} {select : Bytes × Bytes → Bool}
    (h : Db.Removed pre select db db') {m : MailboxId} {s : UInt8} {b v : Bytes}
    (hv : v ∈ record db' m s b) : v ∈ record db m s b :=
  (Option.filter_eq_some_iff.mp ((h _).symm.trans hv)).1

namespace DbOp

/-- The operation is one on UIDs, with what its callers provide. -/
def OnUids : DbOp → Prop
  | uid (.updateUids mailbox _ _) | uid (.jmapToImap mailbox _ _) | uid (.deleteIds mailbox _ _) |
    uids mailbox _ => mailbox.WellFormed
  | uid (.deleteMailbox accountId mailboxId) => IsJmapId accountId ∧ IsJmapId mailboxId
  | uid (.purgeDeletedMailboxes accountId _) | deleteAccount accountId => IsJmapId accountId
  | uid (.purgeDeletedIds _ _) => True
  | modseq _ => False

/-- The mailbox whose UIDVALIDITY the operation fixes if there is none, and the time. -/
def fixes : DbOp → Option (MailboxId × ℕ)
  | uid (.updateUids mailbox clock _) => some (mailbox, clock 0)
  | uids mailbox now => some (mailbox, now)
  | _ => none

/-- The mailbox has its UIDs deleted. -/
def Resets (mailbox : MailboxId) : DbOp → Prop
  | uid op => op.Resets mailbox
  | deleteAccount accountId => mailbox.accountId = accountId
  | _ => False

/-- There are UIDs left for the operation. -/
def HasRoom (db : Db) : DbOp → Prop
  | uid op => ∀ m ∈ op.target, db.counter m + op.allocations m db < 2 ^ 32
  | _ => True

/-- What an operation does to a mailbox: its UIDs stay fresh, unless it is reset, and its UIDVALIDITY
is the one before, unless it is reset, or one that the operation fixes. -/
structure Passes (db db' : Db) (mailbox : MailboxId) (reset : Prop)
    (fixed : Option (MailboxId × ℕ)) : Prop where
  counted : Counted db' mailbox
  later : ¬ reset → (numbering db mailbox).Later (numbering db' mailbox)
  epoch : ∀ b ∈ epochOf db' mailbox, b ∈ epochOf db mailbox ∧ ¬ reset ∨
    epochOf db mailbox = none ∧ ∃ now, fixed = some (mailbox, now) ∧ b = toBeBytes 4 (hourOf now)

section Passes

variable {db db' : Db} {mailbox m : MailboxId} {reset : Prop} {fixed : Option (MailboxId × ℕ)}

theorem passes_of_sameMap (h : SameMap m db db') (hdb : Counted db m) (hreset : ¬ reset) :
    Passes db db' m reset fixed := by
  have hnext := h Sep.uidNext (by decide) [] fun _ ↦ rfl
  have hmessage : ∀ uid, messageOf db' m uid = messageOf db m uid :=
    fun uid ↦ h Sep.uidToJmap (by decide) _ fun hle ↦ absurd hle (by decide)
  refine ⟨hdb.congr hnext fun uid v hv ↦ ?_, fun _ ↦ later_numbering
    (Db.counter_congr hnext).ge fun uid _ v hv ↦ ?_, fun b hb ↦ .inl ⟨?_, hreset⟩⟩
  · rwa [← hmessage uid]
  · rwa [← hmessage uid]
  · rwa [epochOf, h Sep.uidValidity (by decide) [] fun _ ↦ rfl] at hb

/-- A mailbox that has been emptied. -/
theorem passes_of_noMap (h : NoMap m db') (hreset : reset) : Passes db db' m reset fixed := by
  refine ⟨counted_of_noMap h, absurd hreset, fun b hb ↦ ?_⟩
  rw [epochOf, h Sep.uidValidity (by decide) []] at hb
  cases hb

/-- A call on one mailbox, for that mailbox and any other. -/
theorem passes_of_advances {hour : Option Bytes} {n : ℕ}
    (h : Advances mailbox hour db db' n) (hwf : mailbox.WellFormed) (hm : m.WellFormed)
    (hdb : Counted db m) (hreset : ¬ reset)
    (hhour : ∀ b ∈ hour, ∃ now, fixed = some (mailbox, now) ∧ b = toBeBytes 4 (hourOf now)) :
    Passes db db' m reset fixed := by
  by_cases heq : mailbox = m
  · subst heq
    refine ⟨h.counted, fun _ ↦ later_numbering (h.counter ▸ Nat.le_add_right _ _) h.old,
      fun b hb ↦ ?_⟩
    rcases h.epoch with hsame | ⟨hnone, hfixed⟩
    · exact .inl ⟨hsame ▸ hb, hreset⟩
    · exact .inr ⟨hnone, hhour b (hfixed ▸ hb)⟩
  · exact passes_of_sameMap (h.frame.sameMap hwf hm heq) hdb hreset

end Passes

/-- **One operation**, on any mailbox. -/
theorem apply_passes {db : Db} (c : DbOp) (hc : c.OnUids) (hroom : c.HasRoom db) {m : MailboxId}
    (hm : m.WellFormed) (hdb : ∀ m : MailboxId, m.WellFormed → Counted db m) :
    Passes db (c.apply db) m (c.Resets m) c.fixes := by
  have hnone : ∀ {mailbox : MailboxId}, ∀ b ∈ (none : Option Bytes), ∃ now,
      (none : Option (MailboxId × ℕ)) = some (mailbox, now) ∧ b = toBeBytes 4 (hourOf now) := by
    simp
  cases c with
  | uid op =>
      cases op with
      | updateUids mailbox clock listing =>
          have hadv := (Db.numbers_updateUids clock listing db (hdb mailbox hc)
            (hroom mailbox rfl)).1
          refine passes_of_advances hadv hc hm (hdb m hm) id fun b hb ↦ ⟨_, rfl, ?_⟩
          exact (Option.some.inj hb).symm
      | jmapToImap mailbox ids options =>
          exact passes_of_advances (Db.numbers_mapIds options ids [] [] db (hdb mailbox hc)
            (hroom mailbox rfl)).1 hc hm (hdb m hm) id hnone
      | deleteIds mailbox clock ids =>
          have hle := UidOp.allocations_le mailbox db (.deleteIds mailbox clock ids)
          have hlt := (Nat.add_le_add_left hle _).trans_lt (hdb mailbox hc).counter_lt
          exact passes_of_advances (Db.numbers_deleteIds clock ids db (hdb mailbox hc) hlt).1 hc hm
            (hdb m hm) id hnone
      | deleteMailbox accountId mailboxId =>
          obtain ⟨n, db', hrun, hempty, hothers⟩ := Db.deleteMailbox_run _ _ hc.1 hc.2 db
          have happly : (uid (.deleteMailbox accountId mailboxId)).apply db = db' :=
            congrArg Prod.snd hrun
          rw [happly]
          by_cases heq : m = ⟨accountId, some mailboxId⟩
          · subst heq
            exact passes_of_noMap hempty rfl
          · exact passes_of_sameMap (hothers m hm heq) (hdb m hm) heq
      | purgeDeletedMailboxes accountId keys =>
          obtain ⟨n, db', hrun, hall⟩ := Db.purgeDeletedMailboxes_run accountId keys hc db
          have happly : (uid (.purgeDeletedMailboxes accountId keys)).apply db = db' :=
            congrArg Prod.snd hrun
          rw [happly]
          rcases hall m hm with ⟨hgone, hsame⟩ | ⟨hgone, hempty⟩
          · exact passes_of_sameMap hsame (hdb m hm) hgone
          · exact passes_of_noMap hempty hgone
      | purgeDeletedIds ttl now =>
          obtain ⟨n, db', hrun, hremoved⟩ := Db.removeWhere_run db [] fun kv ↦
            kv.2.length = 12 &&
              (fromBeBytes (kv.2.drop 4) < now && ttl ≤ now - fromBeBytes (kv.2.drop 4))
          have happly : (uid (.purgeDeletedIds ttl now)).apply db = db' := congrArg Prod.snd hrun
          have hnext : record db' m Sep.uidNext [] = record db m Sep.uidNext [] := by
            refine hremoved.record_eq fun v hv hc ↦ ?_
            simp [(hdb m hm).width v hv] at hc
          rw [happly]
          exact ⟨(hdb m hm).congr hnext fun uid v hv ↦ hremoved.record_mem hv,
            fun _ ↦ later_numbering (Db.counter_congr hnext).ge fun uid _ v hv ↦
              hremoved.record_mem hv,
            fun b hb ↦ .inl ⟨hremoved.record_mem hb, id⟩⟩
  | modseq call => exact hc.elim
  | deleteAccount accountId =>
      obtain ⟨n, db', hrun, hall⟩ := Db.deleteAccount_run accountId hc db
      have happly : (deleteAccount accountId).apply db = db' := congrArg Prod.snd hrun
      rw [happly]
      rcases hall m hm with ⟨hacc, hsame⟩ | ⟨hacc, hempty⟩
      · exact passes_of_sameMap hsame (hdb m hm) hacc
      · exact passes_of_noMap hempty hacc
  | uids mailbox now =>
      have hadv := (Db.numbers_uids now db (hdb mailbox hc)
        (by rw [Db.uids_updates]; exact (hdb mailbox hc).counter_lt)).1
      exact passes_of_advances hadv hc hm (hdb m hm) id fun b hb ↦
        ⟨now, rfl, (Option.some.inj hb).symm⟩

end DbOp

/-! ## Runs -/

/-- The states of a run. -/
structure DbHistory where
  current : Db
  before : List Db

namespace DbHistory

/-- An empty database. -/
def start : DbHistory := ⟨∅, []⟩

def states (h : DbHistory) : List Db := h.current :: h.before

def step (h : DbHistory) (c : DbOp) : DbHistory := ⟨c.apply h.current, h.states⟩

end DbHistory

/-- The message has the UID under the UIDVALIDITY. -/
structure Assigned (db : Db) (mailbox : MailboxId) (validity uid : ℕ) (jmapId : String) : Prop where
  lt : uid < 2 ^ 32
  validity : record db mailbox Sep.uidValidity [] = some (toBeBytes 4 validity)
  uid : record db mailbox Sep.uidToJmap (toBeBytes 4 uid) = some (asBytes jmapId)

/-- A UIDVALIDITY that is fixed is not one that the mailbox has had before. -/
def FixesAnew (h : DbHistory) (c : DbOp) : Prop :=
  ∀ mailbox now, c.fixes = some (mailbox, now) →
    record h.current mailbox Sep.uidValidity [] = none →
      ∀ db ∈ h.states, record db mailbox Sep.uidValidity [] ≠ some (toBeBytes 4 (hourOf now))

/-- The UIDs of a mailbox in the states of a run. -/
def DbHistory.seen (h : DbHistory) (mailbox : MailboxId) : Set (Bytes × ℕ × Bytes) :=
  {x | ∃ db ∈ h.states, ∃ validity jmapId, x.1 = toBeBytes 4 validity ∧ x.2.2 = asBytes jmapId ∧
    Assigned db mailbox validity x.2.1 jmapId}

/-- Every mailbox has its counter, and its UIDs go with those of the states before. -/
def KnowsSeen (h : DbHistory) : Prop :=
  ∀ m : MailboxId, m.WellFormed → Counted h.current m ∧
    Epochs (h.seen m) (epochOf h.current m) (numbering h.current m)

theorem knowsSeen_start : KnowsSeen .start := by
  intro m _
  have hempty : NoMap m ∅ := fun _ _ _ ↦ by simp [record]
  refine ⟨counted_of_noMap hempty, ?_⟩
  have hnone : epochOf ∅ m = none := hempty _ (by decide) []
  rw [DbHistory.start, hnone]
  refine (epochs_empty _).mono ?_
  rintro x ⟨db, hdb, validity, jmapId, -, -, hassigned⟩
  obtain rfl := List.mem_singleton.mp hdb
  exact absurd (hnone.symm.trans hassigned.validity) (by simp)

theorem KnowsSeen.step {h : DbHistory} (hknows : KnowsSeen h) {c : DbOp} (hc : c.OnUids)
    (hroom : c.HasRoom h.current) (hanew : FixesAnew h c) : KnowsSeen (h.step c) := by
  intro m hm
  have hpasses := c.apply_passes hc hroom hm fun m hm ↦ (hknows m hm).1
  refine ⟨hpasses.counted, ((hknows m hm).2.step fun e he ↦ ?_).mono ?_⟩
  · rcases hpasses.epoch e he with ⟨hold, hreset⟩ | ⟨hnone, now, hfixes, rfl⟩
    · exact .inl ⟨hold, hpasses.later hreset⟩
    · refine .inr ?_
      rintro x ⟨db, hdb, validity, jmapId, hx, -, hassigned⟩ heq
      exact hanew m now hfixes hnone db hdb (heq ▸ hx ▸ hassigned.validity)
  · rintro x ⟨db, hdb, validity, jmapId, hx, hi, hassigned⟩
    rcases List.mem_cons.mp hdb with rfl | hdb
    · have hmessage : x.2.2 ∈ messageOf (c.apply h.current) m x.2.1 := hi ▸ hassigned.uid
      have hle := hpasses.counted.le_counter _ hassigned.lt _ hmessage
      exact .inr ⟨hx ▸ hassigned.validity, mem_numbering.mpr ⟨hle, hmessage⟩⟩
    · exact .inl ⟨db, hdb, validity, jmapId, hx, hi, hassigned⟩

/-- A UID is given to one message under one UIDVALIDITY, in whichever states. -/
def UidsUnique (h : DbHistory) (mailbox : MailboxId) : Prop :=
  ∀ db ∈ h.states, ∀ db' ∈ h.states, ∀ validity uid jmapId jmapId',
    Assigned db mailbox validity uid jmapId → Assigned db' mailbox validity uid jmapId' →
      jmapId = jmapId'

/-- **UIDs over a run.**  As long as no mailbox gets a UIDVALIDITY that it has had before, no pair
of UIDVALIDITY and UID is given to two messages. -/
theorem uids_unique {ops : List DbOp} (hops : ∀ c ∈ ops, c.OnUids)
    (hroom : Along DbHistory.step (fun h c ↦ c.HasRoom h.current) .start ops)
    (hanew : Along DbHistory.step FixesAnew .start ops) {mailbox : MailboxId}
    (hm : mailbox.WellFormed) : UidsUnique (exec DbHistory.step .start ops) mailbox := by
  have hall : Along DbHistory.step
      (fun h c ↦ c.OnUids ∧ c.HasRoom h.current ∧ FixesAnew h c) .start ops :=
    along_and.mpr ⟨along_of_forall fun c hc _ ↦ hops c hc, along_and.mpr ⟨hroom, hanew⟩⟩
  have hknows := exec_induct KnowsSeen knowsSeen_start
    (fun h c hknows hc ↦ hknows.step hc.1 hc.2.1 hc.2.2) hall
  intro db hdb db' hdb' validity uid jmapId jmapId' h h'
  exact asBytes_injective ((hknows mailbox hm).2.unique _ uid _ _
    ⟨db, hdb, validity, jmapId, rfl, rfl, h⟩ ⟨db', hdb', validity, jmapId', rfl, rfl, h'⟩)

/-- A mailbox is used, deleted, and made again, with another message in it. -/
def remade (deleted made : ℕ) : List DbOp := [
  .uid (.updateUids ⟨"a", some "m"⟩ (fun _ ↦ deleted) ["x"]),
  .uid (.deleteMailbox "a" "m"),
  .uid (.updateUids ⟨"a", some "m"⟩ (fun _ ↦ made) ["y"])]

/-- An hour later it has another UIDVALIDITY. -/
theorem uids_unique_remade :
    UidsUnique (exec DbHistory.step .start (remade 1700000000 1700003600)) ⟨"a", some "m"⟩ := by
  have hm : MailboxId.WellFormed ⟨"a", some "m"⟩ := by decide +kernel
  refine uids_unique ?_ ?_ ?_ hm
  · unfold remade
    simp only [List.forall_mem_cons, DbOp.OnUids]
    exact ⟨hm, ⟨hm.1, hm.2 _ rfl⟩, hm, by simp⟩
  · refine ⟨?_, ?_, ?_, trivial⟩
    · intro m hmem
      obtain rfl := Option.some.inj hmem
      decide +kernel
    · rintro m ⟨⟩
    · intro m hmem
      obtain rfl := Option.some.inj hmem
      decide +kernel
  · refine ⟨?_, ?_, ?_, trivial⟩
    · rintro m now hfixes - db hdb
      cases hfixes
      rw [List.mem_singleton.mp hdb]
      decide +kernel
    · rintro m now ⟨⟩
    · rintro m now hfixes -
      cases hfixes
      decide +kernel

/-- Within the hour the message `y` has the UIDVALIDITY and the UID that the message `x` had. -/
theorem uid_reused :
    ¬ UidsUnique (exec DbHistory.step .start (remade 1700000000 1700000001)) ⟨"a", some "m"⟩ := by
  intro h
  have hx : ∃ db ∈ (exec DbHistory.step .start (remade 1700000000 1700000001)).states,
      record db ⟨"a", some "m"⟩ Sep.uidValidity [] = some (toBeBytes 4 209254) ∧
        record db ⟨"a", some "m"⟩ Sep.uidToJmap (toBeBytes 4 1) = some (asBytes "x") := by
    decide +kernel
  have hy : ∃ db ∈ (exec DbHistory.step .start (remade 1700000000 1700000001)).states,
      record db ⟨"a", some "m"⟩ Sep.uidValidity [] = some (toBeBytes 4 209254) ∧
        record db ⟨"a", some "m"⟩ Sep.uidToJmap (toBeBytes 4 1) = some (asBytes "y") := by
    decide +kernel
  obtain ⟨db, hdb, hvalidity, huid⟩ := hx
  obtain ⟨db', hdb', hvalidity', huid'⟩ := hy
  have heq := h db hdb db' hdb' 209254 1 "x" "y" ⟨by norm_num, hvalidity, huid⟩
    ⟨by norm_num, hvalidity', huid'⟩
  simp at heq

end ImapToJmap
