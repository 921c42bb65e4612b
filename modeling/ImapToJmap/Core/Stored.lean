import ImapToJmap.Core.Modseq
import ImapToJmap.Core.UidMap
import ImapToJmap.Kv.Typed

/-!
# What the database holds

`Stored k v` says that the key is the key of one of the eight kinds of record, and that the value is
one that belongs there: four bytes, an id or a state, or for a deleted id its UID and a time.  Ids
and states are any printable text here.

Every operation keeps a database of such records, with one exception.  The scan of `update_uids`
also finds states, under a modseq that spells the beginning of its mailbox's keys, and what is
behind that beginning goes for a UID.  It has four bytes in All Mail only.  `Apart` is that no such
modseq is there.
-/

namespace ImapToJmap

open Kv

/-- Non-empty printable ASCII. -/
def IsText (s : String) : Prop := asBytes s ≠ [] ∧ ∀ b ∈ asBytes s, 32 ≤ b ∧ b ≤ 126

instance : DecidablePred IsText := fun s ↦
  inferInstanceAs (Decidable (asBytes s ≠ [] ∧ ∀ b ∈ asBytes s, 32 ≤ b ∧ b ≤ 126))

/-- Account and mailbox are named by texts. -/
structure MailboxId.Text (mailbox : MailboxId) : Prop where
  account : IsText mailbox.accountId
  mailbox : ∀ m ∈ mailbox.mailboxId, IsText m

theorem MailboxId.Text.le_of_mem {mailbox : MailboxId} (h : mailbox.Text) :
    ∀ b ∈ mailbox.mailboxBytes, 32 ≤ b := by
  intro b hb
  cases hm : mailbox.mailboxId with
  | none => simp [mailboxBytes, hm] at hb
  | some m => exact ((h.mailbox m hm).2 b (by simpa [mailboxBytes, hm] using hb)).1

/-- A record of the database. -/
inductive Stored : Bytes → Bytes → Prop
  | jmapToUid {m : MailboxId} {i : String} {v : Bytes} : m.Text → IsText i → v.length = 4 →
      Stored (serializeKey m Sep.jmapToUid (asBytes i)) v
  | uidToJmap {m : MailboxId} {i : String} {u : Bytes} : m.Text → u.length = 4 → IsText i →
      Stored (serializeKey m Sep.uidToJmap u) (asBytes i)
  | uidNext {m : MailboxId} {v : Bytes} : m.Text → v.length = 4 → Stored (serializeUidNextKey m) v
  | uidValidity {m : MailboxId} {v : Bytes} : m.Text → v.length = 4 →
      Stored (serializeUidValidityKey m) v
  | modseqToState {a s : String} {n : Bytes} : IsText a → n.length = 4 → IsText s →
      Stored (serializeModseq (asBytes a) n Sep.modseqToState) (asBytes s)
  | stateToModseq {a s : String} {v : Bytes} : IsText a → IsText s → v.length = 4 →
      Stored (serializeModseq (asBytes a) (asBytes s) Sep.stateToModseq) v
  | highestModseq {a : String} {v : Bytes} : IsText a → v.length = 4 →
      Stored (serializeHighestmodseq (asBytes a)) v
  | jmapDeletedIds {m : MailboxId} {i : String} {u : Bytes} {t : ℕ} : m.Text → IsText i →
      u.length = 4 → t < 2 ^ 56 →
      Stored (serializeKey m Sep.jmapDeletedIds (asBytes i)) (u ++ toBeBytes 8 t)

/-! ## Reading keys back -/

/-- Account, zero byte, text, and what is behind it from the first byte on that is no text. -/
def textKey (a : String) (p : Bytes) (x : UInt8) (rest : Bytes) : Bytes :=
  asBytes a ++ 0 :: (p ++ x :: rest)

theorem textKey_inj {a a' : String} {p p' rest rest' : Bytes} {x x' : UInt8} (ha : IsText a)
    (ha' : IsText a') (hp : ∀ b ∈ p, 32 ≤ b) (hp' : ∀ b ∈ p', 32 ≤ b) (hx : ¬ 32 ≤ x)
    (hx' : ¬ 32 ≤ x') (h : textKey a p x rest = textKey a' p' x' rest') :
    a = a' ∧ p = p' ∧ x = x' ∧ rest = rest' := by
  obtain ⟨haa, -, hrest⟩ := append_cons_inj (P := fun b : UInt8 ↦ 32 ≤ b) (fun b hb ↦ (ha.2 b hb).1)
    (fun b hb ↦ (ha'.2 b hb).1) (by decide) (by decide) h
  obtain ⟨hpp, hxx, hr⟩ := append_cons_inj (P := fun b : UInt8 ↦ 32 ≤ b) hp hp' hx hx' hrest
  exact ⟨asBytes_injective haa, hpp, hxx, hr⟩

theorem serializeKey_textKey (m : MailboxId) (s : UInt8) (b : Bytes) :
    serializeKey m s b = textKey m.accountId m.mailboxBytes s b := by
  simp [serializeKey, textKey]

/-- What is under a text key, by the byte that ends the text. -/
def Fits (x : UInt8) (rest v : Bytes) : Prop :=
  if x = Sep.uidToJmap then rest.length = 4 ∧ ∃ i, IsText i ∧ v = asBytes i
  else if x = Sep.jmapDeletedIds then ∃ i u t, IsText i ∧ rest = asBytes i ∧ u.length = 4 ∧
    t < 2 ^ 56 ∧ v = u ++ toBeBytes 8 t
  else v.length = 4

theorem fits_of_length {x : UInt8} {rest v : Bytes} (h₁ : x ≠ Sep.uidToJmap)
    (h₇ : x ≠ Sep.jmapDeletedIds) : Fits x rest v ↔ v.length = 4 := by
  rw [Fits, if_neg h₁, if_neg h₇]

/-- Every record but `MODSEQ_TO_STATE` has a text key. -/
theorem Stored.shape {k v : Bytes} (h : Stored k v) :
    (∃ a s n, IsText a ∧ n.length = 4 ∧ IsText s ∧ v = asBytes s ∧
      k = serializeModseq (asBytes a) n Sep.modseqToState) ∨
    ∃ a p x rest, IsText a ∧ (∀ b ∈ p, 32 ≤ b) ∧ x ≤ 7 ∧ k = textKey a p x rest ∧
      Fits x rest v := by
  cases h with
  | @jmapToUid m i v hm hi hv =>
      refine .inr ⟨m.accountId, m.mailboxBytes, Sep.jmapToUid, asBytes i, hm.account, hm.le_of_mem,
        by decide, serializeKey_textKey m _ _, ?_⟩
      exact (fits_of_length (by decide) (by decide)).mpr hv
  | @uidToJmap m i u hm hu hi =>
      exact .inr ⟨m.accountId, m.mailboxBytes, Sep.uidToJmap, u, hm.account, hm.le_of_mem,
        by decide, serializeKey_textKey m _ _, hu, i, hi, rfl⟩
  | @uidNext m v hm hv =>
      refine .inr ⟨m.accountId, m.mailboxBytes, Sep.uidNext, [], hm.account, hm.le_of_mem,
        by decide, by simp [serializeUidNextKey, textKey], ?_⟩
      exact (fits_of_length (by decide) (by decide)).mpr hv
  | @uidValidity m v hm hv =>
      refine .inr ⟨m.accountId, m.mailboxBytes, Sep.uidValidity, [], hm.account, hm.le_of_mem,
        by decide, by simp [serializeUidValidityKey, textKey], ?_⟩
      exact (fits_of_length (by decide) (by decide)).mpr hv
  | @modseqToState a s n ha hn hs => exact .inl ⟨a, s, n, ha, hn, hs, rfl, rfl⟩
  | @stateToModseq a s v ha hs hv =>
      refine .inr ⟨a, asBytes s, Sep.stateToModseq, [], ha, fun b hb ↦ (hs.2 b hb).1,
        by decide, by simp [serializeModseq, textKey], ?_⟩
      exact (fits_of_length (by decide) (by decide)).mpr hv
  | @highestModseq a v ha hv =>
      refine .inr ⟨a, [], Sep.highestModseq, [], ha, by simp, by decide,
        by simp [serializeHighestmodseq, textKey], ?_⟩
      exact (fits_of_length (by decide) (by decide)).mpr hv
  | @jmapDeletedIds m i u t hm hi hu ht =>
      exact .inr ⟨m.accountId, m.mailboxBytes, Sep.jmapDeletedIds, asBytes i, hm.account,
        hm.le_of_mem,
        by decide, serializeKey_textKey m _ _, i, u, t, hi, rfl, hu, ht, rfl⟩

theorem not_le_of_sep {x : UInt8} (h : x ≤ 7) : ¬ 32 ≤ x := fun hle ↦
  absurd (UInt8.le_trans hle h) (by decide)

/-- What is under `JMAP_TO_UID`. -/
theorem Stored.length_jmapToUid {m : MailboxId} {i : String} {v : Bytes} (hm : m.Text)
    (hi : IsText i)
    (h : Stored (serializeKey m Sep.jmapToUid (asBytes i)) v) : v.length = 4 := by
  obtain ⟨a, s, n, -, -, -, -, hk⟩ | ⟨a, p, x, rest, ha, hp, hx, hk, hfits⟩ := h.shape
  · -- the last byte of the key is one of the id
    exfalso
    have hlast := congrArg List.getLast? hk
    rw [serializeModseq, List.getLast?_concat, serializeKey,
      List.getLast?_append_of_ne_nil _ hi.1] at hlast
    have hle := (hi.2 _ (List.mem_of_getLast? hlast)).1
    exact absurd hle (by decide)
  · rw [serializeKey_textKey] at hk
    obtain ⟨-, -, rfl, -⟩ := textKey_inj hm.account ha hm.le_of_mem hp (by decide)
      (not_le_of_sep hx) hk
    exact (fits_of_length (by decide) (by decide)).mp hfits

/-- What a scan of `UID_TO_JMAP` finds: ids under a UID, and states. -/
theorem Stored.of_prefix_uidToJmap {m : MailboxId} {k v : Bytes} (hm : m.Text) (h : Stored k v)
    (hk : serializeKeyPrefix m Sep.uidToJmap <+: k) : (∃ s, IsText s ∧ v = asBytes s) ∧
      (k.length = (serializeKeyPrefix m Sep.uidToJmap).length + 4 ∨
        ∃ n : Bytes, n.length = 4 ∧ m.mailboxBytes ++ [Sep.uidToJmap] <+: n ++ [Sep.modseqToState] ∧
          k = serializeModseq (asBytes m.accountId) n Sep.modseqToState) := by
  obtain ⟨r, rfl⟩ := hk
  have hkey : serializeKeyPrefix m Sep.uidToJmap ++ r =
      textKey m.accountId m.mailboxBytes Sep.uidToJmap r := by
    simp [serializeKeyPrefix, textKey]
  rw [hkey] at h
  obtain ⟨a, s, n, ha, hn, hs, rfl, hk⟩ | ⟨a, p, x, rest, ha, hp, hx, hk, hfits⟩ := h.shape
  · refine ⟨⟨s, hs, rfl⟩, .inr ⟨n, hn, ?_⟩⟩
    have hk' : asBytes m.accountId ++ 0 :: (m.mailboxBytes ++ Sep.uidToJmap :: r) =
        asBytes a ++ 0 :: (n ++ [Sep.modseqToState]) := by simpa [textKey, serializeModseq] using hk
    obtain ⟨haa, -, hrest⟩ := append_cons_inj (P := fun b : UInt8 ↦ 32 ≤ b)
      (fun b hb ↦ (hm.account.2 b hb).1) (fun b hb ↦ (ha.2 b hb).1) (by decide) (by decide) hk'
    refine ⟨⟨r, by simpa using hrest⟩, ?_⟩
    rw [hkey, hk, haa]
  · obtain ⟨-, -, rfl, rfl⟩ := textKey_inj hm.account ha hm.le_of_mem hp (by decide)
      (not_le_of_sep hx) hk
    obtain ⟨hlen, i, hi, rfl⟩ : r.length = 4 ∧ ∃ i, IsText i ∧ v = asBytes i := hfits
    exact ⟨⟨i, hi, rfl⟩, .inl (by rw [List.length_append, hlen])⟩

/-! ## The operations -/

/-- As `Stored`, and what extends the keys of the mailbox's UIDs are such keys. -/
def StoredApart (m : MailboxId) (k v : Bytes) : Prop :=
  Stored k v ∧ (serializeKeyPrefix m Sep.uidToJmap <+: k →
    k.length = (serializeKeyPrefix m Sep.uidToJmap).length + 4)

section Apart

variable {m : MailboxId} {x : UInt8} {rest v : Bytes}

/-- A record of the mailbox itself, under another separator. -/
theorem storedApart_of_ne (hm : m.Text) (hx : x ≤ 7) (hne : x ≠ Sep.uidToJmap)
    (h : Stored (serializeKey m x rest) v) : StoredApart m (serializeKey m x rest) v := by
  refine ⟨h, ?_⟩
  rintro ⟨r, hr⟩
  rw [← serializeKey_eq, serializeKey_textKey, serializeKey_textKey] at hr
  obtain ⟨-, -, heq, -⟩ := textKey_inj hm.account hm.account hm.le_of_mem hm.le_of_mem
    (not_le_of_sep (by decide)) (not_le_of_sep hx) hr
  exact absurd heq.symm hne

theorem storedApart_uidToJmap {u : Bytes} {i : String} (hm : m.Text) (hu : u.length = 4)
    (hi : IsText i) : StoredApart m (serializeKey m Sep.uidToJmap u) (asBytes i) :=
  ⟨.uidToJmap hm hu hi, fun _ ↦ by rw [serializeKey_eq, List.length_append, hu]⟩

/-- No `MODSEQ_TO_STATE` record of the account spells the beginning of the mailbox's UID keys,
unless the mailbox is All Mail. -/
def Apart (db : Db) (m : MailboxId) : Prop :=
  m.mailboxId ≠ none → ∀ n < 2 ^ 32, m.mailboxBytes ++ [Sep.uidToJmap] <+: toBeBytes 4 n →
    db[serializeModseq (asBytes m.accountId) (toBeBytes 4 n) Sep.modseqToState]? = none

/-- A database of records, apart from which no modseq lies in the way. -/
theorem typed_storedApart {db : Db} (h : Typed Stored db) (hm : m.Text) (hapart : Apart db m) :
    Typed (StoredApart m) db := by
  intro k v hget
  refine ⟨h k v hget, fun hpre ↦ ?_⟩
  obtain ⟨-, hlen | ⟨n, hn, ⟨r, hr⟩, rfl⟩⟩ := (h k v hget).of_prefix_uidToJmap hm hpre
  · exact hlen
  · have hsum := congrArg List.length hr
    simp only [List.length_append, List.length_singleton, hn] at hsum
    cases hmailbox : m.mailboxId with
    | none => simp [serializeModseq, serializeKeyPrefix, MailboxId.mailboxBytes, hmailbox, hn]
    | some i =>
        exfalso
        have hbytes : m.mailboxBytes ≠ [] := by
          simpa [MailboxId.mailboxBytes, hmailbox] using (hm.mailbox i hmailbox).1
        -- the last byte, which is the separator, is not part of the beginning
        have hr' : r ≠ [] := by
          rintro rfl
          rw [List.append_nil] at hr
          exact absurd (List.append_inj' hr rfl).2 (by decide)
        obtain ⟨r', x, rfl⟩ := List.eq_nil_or_concat r |>.resolve_left hr'
        have hsplit : (m.mailboxBytes ++ [Sep.uidToJmap] ++ r') ++ [x] =
          n ++ [Sep.modseqToState] := by
          simpa using hr
        obtain ⟨hn', -⟩ := List.append_inj' hsplit rfl
        have hlt : fromBeBytes n < 2 ^ 32 := by
          have hlt := fromBeBytes_lt n
          rwa [hn] at hlt
        have hback : toBeBytes 4 (fromBeBytes n) = n := by
          have hback := toBeBytes_fromBeBytes n
          rwa [hn] at hback
        have hnone := hapart (by simp [hmailbox]) (fromBeBytes n) hlt
          (by rw [hback]; exact ⟨r', hn'⟩)
        rw [hback] at hnone
        rw [hnone] at hget
        cases hget

end Apart

end ImapToJmap
