import ImapToJmap.Core.Message
import ImapToJmap.Core.UidTable

/-!
# The UID database implements numbered tables

`Represents db mailbox T` relates the flat tree of bytes to the table of one mailbox: the
`UID_TO_JMAP` records are the entries of `T`, the `JMAP_TO_UID` records are the same entries read
the other way, and the `UID_NEXT` record is the counter.  Nothing is said about the rest of the
tree, so several mailboxes are represented side by side, and an operation on one mailbox is framed
for the others by `Frame`: it touches no key that is not a record of its own mailbox.

Each program of `Core/Message.lean` then gets one lemma: run on a database that represents `T`, it
succeeds and leaves one that represents the corresponding table operation.
-/

namespace ImapToJmap

open Kv

/-! ## Records -/

/-- The record of a mailbox under a separator and a value. -/
def record (db : Db) (mailbox : MailboxId) (s : UInt8) (b : Bytes) : Option Bytes :=
  db[serializeKeyPrefix mailbox s ++ b]?

/-- Write a record. -/
def put (db : Db) (mailbox : MailboxId) (s : UInt8) (b v : Bytes) : Db :=
  db.insert (serializeKeyPrefix mailbox s ++ b) v

section Records

variable (db : Db) (mailbox : MailboxId) (s : UInt8) (b v : Bytes)

@[simp] theorem getElem?_serializeKey : db[serializeKey mailbox s b]? = record db mailbox s b := rfl

@[simp] theorem getElem?_serializeUidNextKey :
    db[serializeUidNextKey mailbox]? = record db mailbox Sep.uidNext [] := by
  rw [serializeUidNextKey_eq, record]

@[simp] theorem getElem?_serializeUidValidityKey :
    db[serializeUidValidityKey mailbox]? = record db mailbox Sep.uidValidity [] := by
  rw [serializeUidValidityKey_eq, record]

@[simp] theorem insert_serializeKey :
    db.insert (serializeKey mailbox s b) v = put db mailbox s b v := rfl

@[simp] theorem insert_serializeUidNextKey :
    db.insert (serializeUidNextKey mailbox) v = put db mailbox Sep.uidNext [] v := by
  rw [serializeUidNextKey_eq, put]

@[simp] theorem insert_serializeUidValidityKey :
    db.insert (serializeUidValidityKey mailbox) v = put db mailbox Sep.uidValidity [] v := by
  rw [serializeUidValidityKey_eq, put]

/-- Reading back what was written. -/
@[simp] theorem record_put (s' : UInt8) (b' : Bytes) :
    record (put db mailbox s b v) mailbox s' b' =
      if s = s' ∧ b = b' then some v else record db mailbox s' b' := by
  have h := Edit.getElem?_apply db (.insert (serializeKeyPrefix mailbox s ++ b) v)
    (serializeKeyPrefix mailbox s' ++ b')
  simp only [Edit.key, Edit.result, serializeKeyPrefix_append_iff] at h
  exact h

end Records

/-- Only records of `mailbox` differ. -/
def Frame (mailbox : MailboxId) (db db' : Db) : Prop :=
  ∀ k, (∀ s ≤ 7, ¬ serializeKeyPrefix mailbox s <+: k) → db'[k]? = db[k]?

namespace Frame

theorem refl (mailbox : MailboxId) (db : Db) : Frame mailbox db db := fun _ _ ↦ rfl

theorem trans {mailbox : MailboxId} {d₁ d₂ d₃ : Db} (h₁ : Frame mailbox d₁ d₂)
    (h₂ : Frame mailbox d₂ d₃) : Frame mailbox d₁ d₃ := fun k hk ↦ (h₂ k hk).trans (h₁ k hk)

/-- A batch of edits of records of the mailbox is framed. -/
theorem applyBatch (mailbox : MailboxId) (db : Db) (batch : List (Edit UInt8 Bytes))
    (h : ∀ e ∈ batch, ∃ s ≤ 7, ∃ b, e.key = serializeKeyPrefix mailbox s ++ b) :
    Frame mailbox db (db.applyBatch batch) := fun k hk ↦
  Tree.getElem?_applyBatch_of_notMem _ _ _ fun e he hek ↦ by
    obtain ⟨s, hs, b, hb⟩ := h e he
    exact hk s hs (hek ▸ hb ▸ List.prefix_append _ _)

theorem put (mailbox : MailboxId) (db : Db) {s : UInt8} (hs : s ≤ 7) (b v : Bytes) :
    Frame mailbox db (put db mailbox s b v) :=
  applyBatch mailbox db [.insert _ v] fun e he ↦
    ⟨s, hs, b, by rw [List.mem_singleton.mp he]; rfl⟩

/-- A framed change leaves the records of every other mailbox alone. -/
theorem record_eq {mailbox other : MailboxId} {db db' : Db} (h : Frame mailbox db db')
    (hm : mailbox.WellFormed) (ho : other.WellFormed) (hne : mailbox ≠ other) {s : UInt8}
    (hs : s ≤ 7) (b : Bytes) : record db' other s b = record db other s b :=
  h _ fun s' hs' hpre ↦ by
    obtain ⟨b', hb'⟩ := hpre
    exact hne (serializeKeyPrefix_append_inj hm ho hs' hs hb').1

end Frame

/-- The map and the counters of a mailbox have not changed. -/
def SameMap (mailbox : MailboxId) (db db' : Db) : Prop :=
  ∀ s ≤ Sep.uidValidity, ∀ b, (Sep.uidNext ≤ s → b = []) →
    record db' mailbox s b = record db mailbox s b

/-- The mailbox has neither a map nor counters. -/
def NoMap (mailbox : MailboxId) (db : Db) : Prop :=
  ∀ s ≤ Sep.uidValidity, ∀ b, record db mailbox s b = none

/-- An operation on another mailbox. -/
theorem Frame.sameMap {mailbox other : MailboxId} {db db' : Db} (h : Frame other db db')
    (ho : other.WellFormed) (hm : mailbox.WellFormed) (hne : other ≠ mailbox) :
    SameMap mailbox db db' :=
  fun _ hs b _ ↦ h.record_eq ho hm hne (UInt8.le_trans hs (by decide)) b

/-- The stored counter of a mailbox, zero if it has none yet. -/
def Db.counter (db : Db) (mailbox : MailboxId) : ℕ :=
  match db[serializeUidNextKey mailbox]? with
  | some bytes => fromBeBytes bytes
  | none => 0

/-! ## Representation -/

/-- The database holds the table `T` for the mailbox. -/
structure Represents (db : Db) (mailbox : MailboxId) (T : UidTable String) : Prop where
  isJmapId : ∀ e ∈ T.entries, IsJmapId e.2
  next_lt : T.next < 2 ^ 32
  uidToJmap : ∀ b v, record db mailbox Sep.uidToJmap b = some v ↔
    ∃ e ∈ T.entries, b = toBeBytes 4 e.1 ∧ v = asBytes e.2
  jmapToUid : ∀ b v, record db mailbox Sep.jmapToUid b = some v ↔
    ∃ e ∈ T.entries, b = asBytes e.2 ∧ v = toBeBytes 4 e.1
  counter : record db mailbox Sep.uidNext [] =
    if T.next = 0 then none else some (toBeBytes 4 T.next)
  validity : ∀ v, record db mailbox Sep.uidValidity [] = some v → v.length = 4

namespace Represents

variable {db db' : Db} {mailbox : MailboxId} {T T' : UidTable String}

/-- Representation only depends on the records it mentions. -/
theorem congr (h : Represents db mailbox T) (hsame : SameMap mailbox db db') :
    Represents db' mailbox T where
  isJmapId := h.isJmapId
  next_lt := h.next_lt
  uidToJmap b v := by
    rw [hsame _ (by decide) b fun hc ↦ absurd hc (by decide)]
    exact h.uidToJmap b v
  jmapToUid b v := by
    rw [hsame _ (by decide) b fun hc ↦ absurd hc (by decide)]
    exact h.jmapToUid b v
  counter := by rw [hsame _ (by decide) [] (by simp)]; exact h.counter
  validity v hv := by rw [hsame _ (by decide) [] (by simp)] at hv; exact h.validity v hv

/-- An operation on another mailbox. -/
theorem frame {other : MailboxId} (h : Represents db mailbox T) (hf : Frame other db db')
    (hm : mailbox.WellFormed) (ho : other.WellFormed) (hne : other ≠ mailbox) :
    Represents db' mailbox T :=
  h.congr (hf.sameMap ho hm hne)

/-- The empty database holds an empty table for every mailbox. -/
theorem empty (mailbox : MailboxId) : Represents ∅ mailbox .empty where
  isJmapId := by simp [UidTable.empty]
  next_lt := by simp [UidTable.empty]
  uidToJmap := by simp [UidTable.empty, record]
  jmapToUid := by simp [UidTable.empty, record]
  counter := by simp [UidTable.empty, record]
  validity := by simp [record]

/-- A mailbox without records is as good as new. -/
theorem of_noMap (h : NoMap mailbox db) : Represents db mailbox .empty :=
  (Represents.empty mailbox).congr fun s hs b _ ↦ (h s hs b).trans (by simp [record])

theorem counter_eq (h : Represents db mailbox T) : db.counter mailbox = T.next := by
  rw [Db.counter, getElem?_serializeUidNextKey, h.counter]
  by_cases h0 : T.next = 0
  · simp [h0]
  · simp only [if_neg h0]
    rw [fromBeBytes_toBeBytes]
    exact Nat.mod_eq_of_lt h.next_lt

theorem lt_of_mem (h : Represents db mailbox T) {e : ℕ × String} (he : e ∈ T.entries) :
    e.1 < 256 ^ 4 := (T.bounds e he).2.trans_lt h.next_lt

/-- The `JMAP_TO_UID` record of a numbered message. -/
theorem record_jmapToUid (h : Represents db mailbox T) {u : ℕ} {i : String}
    (hmem : (u, i) ∈ T.entries) :
    record db mailbox Sep.jmapToUid (asBytes i) = some (toBeBytes 4 u) :=
  (h.jmapToUid _ _).mpr ⟨_, hmem, rfl, rfl⟩

theorem record_jmapToUid_none (h : Represents db mailbox T) {i : String} (hi : i ∉ T.ids) :
    record db mailbox Sep.jmapToUid (asBytes i) = none := by
  cases hget : record db mailbox Sep.jmapToUid (asBytes i) with
  | none => rfl
  | some v =>
      obtain ⟨e, he, hid, -⟩ := (h.jmapToUid _ _).mp hget
      exact absurd (UidTable.mem_ids.mpr ⟨e.1, asBytes_injective hid ▸ he⟩) hi

end Represents

namespace Db

variable {db : Db} {mailbox : MailboxId} {T : UidTable String}

/-! ## Allocation -/

theorem incrementUid_counter (h : Represents db mailbox T) :
    incrementUid (record db mailbox Sep.uidNext []) = some (toBeBytes 4 (T.next + 1)) := by
  rw [h.counter]
  by_cases h0 : T.next = 0
  · simp [h0, incrementUid]
  · rw [if_neg h0, incrementUid, u32FromBe_toBeBytes, Nat.mod_eq_of_lt h.next_lt]
    rfl

/-- The three records of a new entry, written. -/
def allocate (db : Db) (mailbox : MailboxId) (u : ℕ) (i : String) : Db :=
  put (put (put db mailbox Sep.uidNext [] (toBeBytes 4 u))
    mailbox Sep.jmapToUid (asBytes i) (toBeBytes 4 u))
    mailbox Sep.uidToJmap (toBeBytes 4 u) (asBytes i)

theorem record_allocate_uidToJmap (u : ℕ) (i : String) (b : Bytes) :
    record (allocate db mailbox u i) mailbox Sep.uidToJmap b =
      if toBeBytes 4 u = b then some (asBytes i) else record db mailbox Sep.uidToJmap b := by
  simp [allocate, Sep.uidToJmap, Sep.jmapToUid, Sep.uidNext]

theorem record_allocate_jmapToUid (u : ℕ) (i : String) (b : Bytes) :
    record (allocate db mailbox u i) mailbox Sep.jmapToUid b =
      if asBytes i = b then some (toBeBytes 4 u) else record db mailbox Sep.jmapToUid b := by
  simp [allocate, Sep.uidToJmap, Sep.jmapToUid, Sep.uidNext]

/-- A map given by a list of bindings, extended by a binding of a new key. -/
theorem mem_append_iff_of_update {X : Type} (key val : X → Bytes) {l : List X} {x : X}
    {r : Bytes → Option Bytes} (hr : ∀ b v, r b = some v ↔ ∃ e ∈ l, b = key e ∧ v = val e)
    (hx : ∀ e ∈ l, key e ≠ key x) (b v : Bytes) :
    (if key x = b then some (val x) else r b) = some v ↔
      ∃ e ∈ l ++ [x], b = key e ∧ v = val e := by
  by_cases hb : key x = b
  · subst hb
    constructor
    · intro hv
      rw [if_pos rfl] at hv
      exact ⟨x, by simp, rfl, (Option.some.inj hv).symm⟩
    · rintro ⟨e, he, hb, rfl⟩
      rcases List.mem_append.mp he with he | he
      · exact absurd hb.symm (hx e he)
      · rw [List.mem_singleton.mp he, if_pos rfl]
  · rw [if_neg hb, hr]
    constructor
    · rintro ⟨e, he, h'⟩
      exact ⟨e, List.mem_append_left _ he, h'⟩
    · rintro ⟨e, he, rfl, hv⟩
      rcases List.mem_append.mp he with he | he
      · exact ⟨e, he, rfl, hv⟩
      · exact absurd (by rw [List.mem_singleton.mp he]) hb

theorem represents_push (h : Represents db mailbox T) {i : String} (hi : IsJmapId i)
    (hnew : i ∉ T.ids) (hlt : T.next + 1 < 2 ^ 32) :
    Represents (allocate db mailbox (T.next + 1) i) mailbox (T.push i hnew) where
  isJmapId e he := by
    rcases List.mem_append.mp he with he | he
    · exact h.isJmapId e he
    · rw [List.mem_singleton.mp he]
      exact hi
  next_lt := hlt
  uidToJmap b v := by
    rw [record_allocate_uidToJmap, UidTable.push_entries]
    refine mem_append_iff_of_update (x := (T.next + 1, i)) (fun e ↦ toBeBytes 4 e.1)
      (fun e ↦ asBytes e.2) h.uidToJmap (fun e he hk ↦ ?_) b v
    rw [toBeBytes_inj (h.lt_of_mem he) hlt] at hk
    have := (T.bounds e he).2
    omega
  jmapToUid b v := by
    rw [record_allocate_jmapToUid, UidTable.push_entries]
    refine mem_append_iff_of_update (x := (T.next + 1, i)) (fun e ↦ asBytes e.2)
      (fun e ↦ toBeBytes 4 e.1) h.jmapToUid (fun e he hk ↦ ?_) b v
    have hid : e.2 = i := asBytes_injective hk
    exact hnew (UidTable.mem_ids.mpr ⟨e.1, hid ▸ he⟩)
  counter := by simp [allocate, Sep.uidToJmap, Sep.jmapToUid, Sep.uidNext]
  validity v hv := by
    refine h.validity v ?_
    simpa [allocate, Sep.uidToJmap, Sep.jmapToUid, Sep.uidNext, Sep.uidValidity] using hv

/-- **Allocating a UID** is numbering a new message. -/
theorem insertJmapId_run (h : Represents db mailbox T) {i : String} (hi : IsJmapId i)
    (hnew : i ∉ T.ids) (hlt : T.next + 1 < 2 ^ 32) :
    ∃ db', (insertJmapId mailbox (asBytes i) (serializeUidNextKey mailbox)).run db =
        (some (toBeBytes 4 (T.next + 1)), db') ∧
      Represents db' mailbox (T.push i hnew) ∧ Frame mailbox db db' := by
  refine ⟨_, ?_, represents_push h hi hnew hlt, ?_⟩
  · simp [insertJmapId, Prog.run_bind, Prog.store, incrementUid_counter h, allocate]
  · exact ((Frame.put mailbox db (by decide) _ _).trans
      (Frame.put mailbox _ (by decide) _ _)).trans (Frame.put mailbox _ (by decide) _ _)

/-- The allocation loop of `update_uids` numbers the listed ids that have no number, where the
flags say which have one. -/
theorem addMissing_run (h : Represents db mailbox T) {rest : List (String × Bool)}
    (hid : ∀ x ∈ rest, IsJmapId x.1) (hnd : (rest.map Prod.fst).Nodup)
    (hflag : ∀ x ∈ rest, x.2 = true ↔ x.1 ∈ T.ids)
    (hlt : (T.ensureAll (rest.map Prod.fst)).next < 2 ^ 32) :
    ∃ db', (addMissing mailbox (serializeUidNextKey mailbox) rest T.ids T.uids).run db =
        (some ((T.ensureAll (rest.map Prod.fst)).ids, (T.ensureAll (rest.map Prod.fst)).uids),
          db') ∧
      Represents db' mailbox (T.ensureAll (rest.map Prod.fst)) ∧ Frame mailbox db db' := by
  induction rest generalizing db T with
  | nil => exact ⟨db, rfl, h, .refl _ _⟩
  | cons x rest ih =>
      obtain ⟨i, found⟩ := x
      have hhead := hflag (i, found) List.mem_cons_self
      have hcons : T.ensureAll (List.map Prod.fst ((i, found) :: rest)) =
          (T.ensure i).ensureAll (rest.map Prod.fst) := rfl
      rw [hcons] at hlt ⊢
      have hid' : ∀ x ∈ rest, IsJmapId x.1 := fun x hx ↦ hid x (List.mem_cons_of_mem _ hx)
      rw [List.map_cons, List.nodup_cons] at hnd
      cases found with
      | true =>
          have hmem : i ∈ T.ids := hhead.mp rfl
          rw [UidTable.ensure_of_mem hmem] at hlt ⊢
          exact ih h hid' hnd.2 (fun x hx ↦ hflag x (List.mem_cons_of_mem _ hx)) hlt
      | false =>
          have hmem : i ∉ T.ids := fun hc ↦ by simpa using hhead.mpr hc
          rw [UidTable.ensure_of_notMem hmem] at hlt ⊢
          have hle := (T.push i hmem).next_le_ensureAll (rest.map Prod.fst)
          have hlt₁ : T.next + 1 < 2 ^ 32 := by
            rw [UidTable.push_next] at hle
            omega
          obtain ⟨db₁, hrun, hrep, hframe⟩ :=
            insertJmapId_run h (hid _ List.mem_cons_self) hmem hlt₁
          have hflag' : ∀ x ∈ rest, x.2 = true ↔ x.1 ∈ (T.push i hmem).ids := by
            intro x hx
            rw [hflag x (List.mem_cons_of_mem _ hx), ← UidTable.ensure_of_notMem hmem,
              UidTable.mem_ids_ensure]
            refine ⟨.inl, fun hor ↦ hor.elim id fun heq ↦ ?_⟩
            exact absurd (List.mem_map.mpr ⟨x, hx, heq⟩) hnd.1
          obtain ⟨db₂, hrun₂, hrep₂, hframe₂⟩ := ih hrep hid' hnd.2 hflag' hlt
          refine ⟨db₂, ?_, hrep₂, hframe.trans hframe₂⟩
          have hids : T.ids ++ [i] = (T.push i hmem).ids := by
            simp [UidTable.ids, UidTable.push_entries]
          have huids : T.uids ++ [T.next + 1] = (T.push i hmem).uids := by
            simp [UidTable.uids, UidTable.push_entries]
          rw [addMissing, Prog.run_bind_of_eq hrun, u32FromBe_toBeBytes,
            Nat.mod_eq_of_lt hlt₁, Prog.run_bind_of_eq (Prog.run_ofOption _ _), hids, huids]
          exact hrun₂

/-! ## Removal -/

/-- A batch that removes the entries `gone` from the map of a mailbox, and records them as
deleted. -/
structure Deletes (mailbox : MailboxId) (gone : List (ℕ × String))
    (batch : List (Edit UInt8 Bytes)) : Prop where
  edits : ∀ ed ∈ batch, ∃ e ∈ gone,
    (∃ now, ed = .insert (serializeKeyPrefix mailbox Sep.jmapDeletedIds ++ asBytes e.2)
      (toBeBytes 4 e.1 ++ toBeBytes 8 now)) ∨
    ed = .remove (serializeKeyPrefix mailbox Sep.uidToJmap ++ toBeBytes 4 e.1) ∨
    ed = .remove (serializeKeyPrefix mailbox Sep.jmapToUid ++ asBytes e.2)
  deleted : ∀ e ∈ gone, ∃ now,
    .insert (serializeKeyPrefix mailbox Sep.jmapDeletedIds ++ asBytes e.2)
      (toBeBytes 4 e.1 ++ toBeBytes 8 now) ∈ batch
  uidToJmap : ∀ e ∈ gone,
    .remove (serializeKeyPrefix mailbox Sep.uidToJmap ++ toBeBytes 4 e.1) ∈ batch
  jmapToUid : ∀ e ∈ gone, .remove (serializeKeyPrefix mailbox Sep.jmapToUid ++ asBytes e.2) ∈ batch

namespace Deletes

variable {gone : List (ℕ × String)} {batch : List (Edit UInt8 Bytes)}

theorem nil (mailbox : MailboxId) : Deletes mailbox [] [] where
  edits := by simp
  deleted := by simp
  uidToJmap := by simp
  jmapToUid := by simp

/-- Batches concatenate. -/
theorem append {gone' : List (ℕ × String)} {batch' : List (Edit UInt8 Bytes)}
    (h : Deletes mailbox gone batch) (h' : Deletes mailbox gone' batch') :
    Deletes mailbox (gone ++ gone') (batch ++ batch') where
  edits ed hed := by
    rcases List.mem_append.mp hed with hed | hed
    · obtain ⟨e, he, hor⟩ := h.edits ed hed
      exact ⟨e, List.mem_append_left _ he, hor⟩
    · obtain ⟨e, he, hor⟩ := h'.edits ed hed
      exact ⟨e, List.mem_append_right _ he, hor⟩
  deleted e he := by
    rcases List.mem_append.mp he with he | he
    · obtain ⟨now, hmem⟩ := h.deleted e he
      exact ⟨now, List.mem_append_left _ hmem⟩
    · obtain ⟨now, hmem⟩ := h'.deleted e he
      exact ⟨now, List.mem_append_right _ hmem⟩
  uidToJmap e he := (List.mem_append.mp he).elim
    (fun he ↦ List.mem_append_left _ (h.uidToJmap e he))
    fun he ↦ List.mem_append_right _ (h'.uidToJmap e he)
  jmapToUid e he := (List.mem_append.mp he).elim
    (fun he ↦ List.mem_append_left _ (h.jmapToUid e he))
    fun he ↦ List.mem_append_right _ (h'.jmapToUid e he)

/-- The order of the edits does not matter: no two of them write different values under one
key, except for the times of removal. -/
theorem perm {batch' : List (Edit UInt8 Bytes)} (h : Deletes mailbox gone batch)
    (hp : batch.Perm batch') : Deletes mailbox gone batch' where
  edits ed hed := h.edits ed (hp.mem_iff.mpr hed)
  deleted e he := (h.deleted e he).imp fun _ hmem ↦ hp.mem_iff.mp hmem
  uidToJmap e he := hp.mem_iff.mp (h.uidToJmap e he)
  jmapToUid e he := hp.mem_iff.mp (h.jmapToUid e he)

theorem frame (h : Deletes mailbox gone batch) (db : Db) :
    Frame mailbox db (db.applyBatch batch) := .applyBatch _ _ _ fun ed hed ↦ by
  obtain ⟨e, -, ⟨now, rfl⟩ | rfl | rfl⟩ := h.edits ed hed
  · exact ⟨_, by decide, _, rfl⟩
  · exact ⟨_, by decide, _, rfl⟩
  · exact ⟨_, by decide, _, rfl⟩

theorem record_uidToJmap (h : Deletes mailbox gone batch) (db : Db) (b : Bytes) :
    record (db.applyBatch batch) mailbox Sep.uidToJmap b =
      if ∃ e ∈ gone, b = toBeBytes 4 e.1 then none else record db mailbox Sep.uidToJmap b := by
  split
  · rename_i hb
    obtain ⟨e, he, rfl⟩ := hb
    refine Tree.getElem?_applyBatch_of_mem _ _ _ none ?_ ⟨_, h.uidToJmap e he, rfl⟩
    intro ed hed hkey
    obtain ⟨e', -, ⟨now, rfl⟩ | rfl | rfl⟩ := h.edits ed hed
    · exact absurd (serializeKeyPrefix_append_iff.mp hkey).1 (by decide)
    · rfl
    · rfl
  · rename_i hb
    refine Tree.getElem?_applyBatch_of_notMem _ _ _ fun ed hed hkey ↦ ?_
    obtain ⟨e', he', ⟨now, rfl⟩ | rfl | rfl⟩ := h.edits ed hed
    · exact absurd (serializeKeyPrefix_append_iff.mp hkey).1 (by decide)
    · exact hb ⟨e', he', (serializeKeyPrefix_append_iff.mp hkey).2.symm⟩
    · exact absurd (serializeKeyPrefix_append_iff.mp hkey).1 (by decide)

theorem record_jmapToUid (h : Deletes mailbox gone batch) (db : Db) (b : Bytes) :
    record (db.applyBatch batch) mailbox Sep.jmapToUid b =
      if ∃ e ∈ gone, b = asBytes e.2 then none else record db mailbox Sep.jmapToUid b := by
  split
  · rename_i hb
    obtain ⟨e, he, rfl⟩ := hb
    refine Tree.getElem?_applyBatch_of_mem _ _ _ none ?_ ⟨_, h.jmapToUid e he, rfl⟩
    intro ed hed hkey
    obtain ⟨e', -, ⟨now, rfl⟩ | rfl | rfl⟩ := h.edits ed hed
    · exact absurd (serializeKeyPrefix_append_iff.mp hkey).1 (by decide)
    · rfl
    · rfl
  · rename_i hb
    refine Tree.getElem?_applyBatch_of_notMem _ _ _ fun ed hed hkey ↦ ?_
    obtain ⟨e', he', ⟨now, rfl⟩ | rfl | rfl⟩ := h.edits ed hed
    · exact absurd (serializeKeyPrefix_append_iff.mp hkey).1 (by decide)
    · exact absurd (serializeKeyPrefix_append_iff.mp hkey).1 (by decide)
    · exact hb ⟨e', he', (serializeKeyPrefix_append_iff.mp hkey).2.symm⟩

/-- The counter and the UID validity are not touched. -/
theorem record_other (h : Deletes mailbox gone batch) (db : Db) {s : UInt8} (b : Bytes)
    (hU : s ≠ Sep.uidToJmap) (hJ : s ≠ Sep.jmapToUid) (hD : s ≠ Sep.jmapDeletedIds) :
    record (db.applyBatch batch) mailbox s b = record db mailbox s b :=
  Tree.getElem?_applyBatch_of_notMem _ _ _ fun ed hed hkey ↦ by
    obtain ⟨e', -, ⟨now, rfl⟩ | rfl | rfl⟩ := h.edits ed hed
    · exact hD (serializeKeyPrefix_append_iff.mp hkey).1.symm
    · exact hU (serializeKeyPrefix_append_iff.mp hkey).1.symm
    · exact hJ (serializeKeyPrefix_append_iff.mp hkey).1.symm

/-- **Removing entries** is restricting the table. -/
theorem represents (h : Deletes mailbox gone batch) (hrep : Represents db mailbox T)
    {p : String → Bool} (hgone : ∀ e, e ∈ gone ↔ e ∈ T.entries ∧ p e.2 = false) :
    Represents (db.applyBatch batch) mailbox (T.restrict p) where
  isJmapId e he := hrep.isJmapId e (UidTable.mem_restrict.mp he).1
  next_lt := hrep.next_lt
  uidToJmap b v := by
    rw [h.record_uidToJmap]
    split
    · rename_i hb
      obtain ⟨e, he, rfl⟩ := hb
      obtain ⟨he, hp⟩ := (hgone e).mp he
      refine ⟨fun hc ↦ by simp at hc, ?_⟩
      rintro ⟨e', he', hu, -⟩
      obtain ⟨he', hp'⟩ := UidTable.mem_restrict.mp he'
      rw [toBeBytes_inj (hrep.lt_of_mem he) (hrep.lt_of_mem he')] at hu
      have hid : e.2 = e'.2 := UidTable.id_unique (u := e.1) he (hu ▸ he')
      rw [hid, hp'] at hp
      exact absurd hp (by decide)
    · rename_i hb
      rw [hrep.uidToJmap]
      constructor
      · rintro ⟨e, he, rfl, rfl⟩
        refine ⟨e, UidTable.mem_restrict.mpr ⟨he, ?_⟩, rfl, rfl⟩
        by_contra hp
        exact hb ⟨e, (hgone e).mpr ⟨he, by simpa using hp⟩, rfl⟩
      · rintro ⟨e, he, h'⟩
        exact ⟨e, (UidTable.mem_restrict.mp he).1, h'⟩
  jmapToUid b v := by
    rw [h.record_jmapToUid]
    split
    · rename_i hb
      obtain ⟨e, he, rfl⟩ := hb
      obtain ⟨he, hp⟩ := (hgone e).mp he
      refine ⟨fun hc ↦ by simp at hc, ?_⟩
      rintro ⟨e', he', hid, -⟩
      obtain ⟨-, hp'⟩ := UidTable.mem_restrict.mp he'
      rw [asBytes_injective hid, hp'] at hp
      exact absurd hp (by decide)
    · rename_i hb
      rw [hrep.jmapToUid]
      constructor
      · rintro ⟨e, he, rfl, rfl⟩
        refine ⟨e, UidTable.mem_restrict.mpr ⟨he, ?_⟩, rfl, rfl⟩
        by_contra hp
        exact hb ⟨e, (hgone e).mpr ⟨he, by simpa using hp⟩, rfl⟩
      · rintro ⟨e, he, h'⟩
        exact ⟨e, (UidTable.mem_restrict.mp he).1, h'⟩
  counter := by
    rw [h.record_other db [] (by decide) (by decide) (by decide)]
    exact hrep.counter
  validity v hv := by
    rw [h.record_other db [] (by decide) (by decide) (by decide)] at hv
    exact hrep.validity v hv

end Deletes

end Db

end ImapToJmap
