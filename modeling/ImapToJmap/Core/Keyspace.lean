import ImapToJmap.Core.Operations

/-!
# The keyspace

Eight kinds of record share the one keyspace of the database.  Six belong to a mailbox and put
their separator before the value; three belong to an account and put it last.  The two layouts
meet in one place: the record `MODSEQ_TO_STATE` starts with the four raw bytes of a counter, and a
raw byte may be anything, so a modseq of at least 2²⁴ can spell the beginning of a mailbox record.

`key_eq_key_iff` says exactly which keys coincide, and the lemmas of the last section which
foreign records the three scans pick up.
-/

namespace ImapToJmap

open Kv

/-- A state string of the JMAP server: printable ASCII. -/
def IsState (s : String) : Prop := ∀ b ∈ asBytes s, 32 ≤ b ∧ b ≤ 126

instance : DecidablePred IsState := fun s ↦
  inferInstanceAs (Decidable (∀ b ∈ asBytes s, 32 ≤ b ∧ b ≤ 126))

/-- The logical records of the database. -/
inductive Record where
  | jmapToUid (mailbox : MailboxId) (jmapId : String)
  | uidToJmap (mailbox : MailboxId) (uid : ℕ)
  | uidNext (mailbox : MailboxId)
  | uidValidity (mailbox : MailboxId)
  | modseqToState (accountId : String) (modseq : ℕ)
  | stateToModseq (accountId state : String)
  | highestModseq (accountId : String)
  | jmapDeletedIds (mailbox : MailboxId) (jmapId : String)
deriving DecidableEq

namespace Record

/-- The key a record is stored under. -/
def key : Record → Bytes
  | .jmapToUid mailbox jmapId => serializeKey mailbox Sep.jmapToUid (asBytes jmapId)
  | .uidToJmap mailbox uid => serializeKey mailbox Sep.uidToJmap (toBeBytes 4 uid)
  | .uidNext mailbox => serializeUidNextKey mailbox
  | .uidValidity mailbox => serializeUidValidityKey mailbox
  | .modseqToState accountId modseq =>
      serializeModseq (asBytes accountId) (toBeBytes 4 modseq) Sep.modseqToState
  | .stateToModseq accountId state =>
      serializeModseq (asBytes accountId) (asBytes state) Sep.stateToModseq
  | .highestModseq accountId => serializeHighestmodseq (asBytes accountId)
  | .jmapDeletedIds mailbox jmapId =>
      serializeKey mailbox Sep.jmapDeletedIds (asBytes jmapId)

/-- The mailbox a record belongs to, if it is not the account's own. -/
def mailbox? : Record → Option MailboxId
  | .jmapToUid mailbox _ | .uidToJmap mailbox _ | .uidNext mailbox | .uidValidity mailbox
  | .jmapDeletedIds mailbox _ => some mailbox
  | .modseqToState .. | .stateToModseq .. | .highestModseq _ => none

/-- Ids over the id alphabet, printable states, numbers of 32 bits. -/
def WellFormed : Record → Prop
  | .jmapToUid mailbox jmapId | .jmapDeletedIds mailbox jmapId =>
      mailbox.WellFormed ∧ IsJmapId jmapId
  | .uidToJmap mailbox uid => mailbox.WellFormed ∧ uid < 2 ^ 32
  | .uidNext mailbox | .uidValidity mailbox => mailbox.WellFormed
  | .modseqToState accountId modseq => IsJmapId accountId ∧ modseq < 2 ^ 32
  | .stateToModseq accountId state => IsJmapId accountId ∧ IsState state
  | .highestModseq accountId => IsJmapId accountId

instance : DecidablePred WellFormed := fun r ↦ by
  cases r <;> unfold WellFormed <;> infer_instance

/-! ## The two layouts -/

/-- A record of a mailbox: separator and value. -/
inductive OfMailbox (mailbox : MailboxId) : Record → UInt8 → Bytes → Prop
  | jmapToUid {i : String} (h : IsJmapId i) :
      OfMailbox mailbox (.jmapToUid mailbox i) Sep.jmapToUid (asBytes i)
  | uidToJmap {u : ℕ} (h : u < 2 ^ 32) :
      OfMailbox mailbox (.uidToJmap mailbox u) Sep.uidToJmap (toBeBytes 4 u)
  | uidNext : OfMailbox mailbox (.uidNext mailbox) Sep.uidNext []
  | uidValidity : OfMailbox mailbox (.uidValidity mailbox) Sep.uidValidity []
  | jmapDeletedIds {i : String} (h : IsJmapId i) :
      OfMailbox mailbox (.jmapDeletedIds mailbox i) Sep.jmapDeletedIds (asBytes i)

/-- A record of an account: value and separator. -/
inductive OfAccount (accountId : String) : Record → Bytes → UInt8 → Prop
  | modseqToState {n : ℕ} (h : n < 2 ^ 32) :
      OfAccount accountId (.modseqToState accountId n) (toBeBytes 4 n) Sep.modseqToState
  | stateToModseq {s : String} (h : IsState s) :
      OfAccount accountId (.stateToModseq accountId s) (asBytes s) Sep.stateToModseq
  | highestModseq : OfAccount accountId (.highestModseq accountId) [] Sep.highestModseq

/-- Every record has one of the two layouts. -/
theorem WellFormed.layout {r : Record} (h : r.WellFormed) :
    (∃ m s b, m.WellFormed ∧ OfMailbox m r s b) ∨
      ∃ a b s, IsJmapId a ∧ OfAccount a r b s := by
  cases r with
  | jmapToUid m i => exact .inl ⟨m, _, _, h.1, .jmapToUid h.2⟩
  | uidToJmap m u => exact .inl ⟨m, _, _, h.1, .uidToJmap h.2⟩
  | uidNext m => exact .inl ⟨m, _, _, h, .uidNext⟩
  | uidValidity m => exact .inl ⟨m, _, _, h, .uidValidity⟩
  | jmapDeletedIds m i => exact .inl ⟨m, _, _, h.1, .jmapDeletedIds h.2⟩
  | modseqToState a n => exact .inr ⟨a, _, _, h.1, .modseqToState h.2⟩
  | stateToModseq a s => exact .inr ⟨a, _, _, h.1, .stateToModseq h.2⟩
  | highestModseq a => exact .inr ⟨a, _, _, h, .highestModseq⟩

namespace OfMailbox

variable {m : MailboxId} {r : Record} {s : UInt8} {b : Bytes}

theorem key_eq (h : OfMailbox m r s b) :
    r.key = serializeKeyAccountPrefix m.accountId ++ (m.mailboxBytes ++ s :: b) := by
  cases h <;> simp [key, serializeKey, serializeUidNextKey, serializeUidValidityKey,
    serializeKeyAccountPrefix]

theorem key_eq_append (h : OfMailbox m r s b) : r.key = serializeKeyPrefix m s ++ b := by
  rw [h.key_eq]
  simp [serializeKeyPrefix_eq]

theorem mailbox?_eq (h : OfMailbox m r s b) : r.mailbox? = some m := by
  cases h <;> rfl

theorem le_seven (h : OfMailbox m r s b) : s ≤ 7 := by
  cases h <;> decide

/-- The separators of the removable records, and the one of the deleted ids. -/
theorem le_uidValidity_or (h : OfMailbox m r s b) :
    s ≤ Sep.uidValidity ∨ s = Sep.jmapDeletedIds ∧ ∃ i, IsJmapId i ∧ b = asBytes i := by
  cases h with
  | jmapToUid | uidToJmap | uidNext | uidValidity => exact .inl (by decide)
  | jmapDeletedIds h => exact .inr ⟨rfl, _, h, rfl⟩

/-- Separator and value determine the record. -/
theorem inj {r' : Record} (h : OfMailbox m r s b) (h' : OfMailbox m r' s b) : r = r' := by
  generalize hs : s = s' at h'
  generalize hb : b = b' at h'
  cases h <;> cases h' <;> first
    | exact absurd hs (by decide)
    | rfl
    | rw [asBytes_injective hb]
    | skip
  rename_i u hu v hv
  rw [(toBeBytes_inj hu hv).mp hb]

/-- The key of a record of a mailbox determines the record. -/
theorem key_inj {m' : MailboxId} {r' : Record} {s' : UInt8} {b' : Bytes} (h : OfMailbox m r s b)
    (h' : OfMailbox m' r' s' b') (hm : m.WellFormed) (hm' : m'.WellFormed)
    (hkey : r.key = r'.key) : r = r' := by
  rw [h.key_eq_append, h'.key_eq_append] at hkey
  obtain ⟨rfl, rfl, rfl⟩ := serializeKeyPrefix_append_inj hm hm' h.le_seven h'.le_seven hkey
  exact h.inj h'

end OfMailbox

namespace OfAccount

variable {a : String} {r : Record} {s : UInt8} {b : Bytes}

theorem key_eq (h : OfAccount a r b s) :
    r.key = serializeKeyAccountPrefix a ++ (b ++ [s]) := by
  cases h <;> simp [key, serializeModseq, serializeHighestmodseq, serializeKeyAccountPrefix]

theorem mailbox?_eq (h : OfAccount a r b s) : r.mailbox? = none := by
  cases h <;> rfl

theorem inj {r' : Record} (h : OfAccount a r b s) (h' : OfAccount a r' b s) : r = r' := by
  generalize hs : s = s' at h'
  generalize hb : b = b' at h'
  cases h <;> cases h' <;> first
    | exact absurd hs (by decide)
    | rfl
    | rw [asBytes_injective hb]
    | skip
  rename_i u hu v hv
  rw [(toBeBytes_inj hu hv).mp hb]

/-- The key of a record of an account determines the record: the separator is its last byte. -/
theorem key_inj {a' : String} {r' : Record} {s' : UInt8} {b' : Bytes} (h : OfAccount a r b s)
    (h' : OfAccount a' r' b' s') (ha : IsJmapId a) (ha' : IsJmapId a')
    (hkey : r.key = r'.key) : r = r' := by
  rw [h.key_eq, h'.key_eq] at hkey
  obtain ⟨rfl, hrest⟩ := accountPrefix_append_inj ha ha' hkey
  obtain ⟨rfl, hs⟩ := List.append_inj' hrest rfl
  obtain rfl : s = s' := List.head_eq_of_cons_eq hs
  exact h.inj h'

end OfAccount

/-! ## Where the layouts meet -/

/-- The two keys that coincide: the UID of an All Mail message ends in the byte 4, and the modseq
is the byte 1 followed by the other three bytes of that UID. -/
def Clash : Record → Record → Prop
  | .uidToJmap mailbox uid, .modseqToState accountId modseq =>
      mailbox = ⟨accountId, none⟩ ∧ uid % 256 = 4 ∧ modseq = 2 ^ 24 + uid / 256
  | _, _ => False

instance : ∀ r r', Decidable (Clash r r') := fun r r' ↦ by
  cases r <;> cases r' <;> unfold Clash <;> infer_instance

/-- The bytes of a modseq that continue as the UID does. -/
theorem toBeBytes_append_four_iff {u n : ℕ} (hu : u < 2 ^ 32) (hn : n < 2 ^ 32) :
    1 :: toBeBytes 4 u = toBeBytes 4 n ++ [4] ↔ u % 256 = 4 ∧ n = 2 ^ 24 + u / 256 := by
  simp only [toBeBytes, List.cons_append, List.nil_append, List.cons.injEq, ← UInt8.toNat_inj,
    UInt8.toNat_ofNat', UInt8.reduceToNat]
  constructor
  · intro h
    omega
  · rintro ⟨h, rfl⟩
    refine ⟨?_, ?_, ?_, ?_, ?_, trivial⟩ <;> omega

variable {m : MailboxId} {a : String} {r r' : Record} {s s' : UInt8} {b b' : Bytes}

/-- A byte that is neither printable nor a separator of an account record can only stand among
the four bytes of a modseq. -/
theorem OfAccount.append_cons_eq (h : OfAccount a r b s) {front rest : Bytes} {x : UInt8}
    (hx : x ≤ Sep.uidValidity) (heq : b ++ [s] = front ++ x :: rest) :
    ∃ n, r = .modseqToState a n ∧ front ++ [x] <+: toBeBytes 4 n := by
  have hne : x ≠ s := by
    rintro rfl
    cases h <;> exact absurd hx (by decide)
  obtain ⟨rest, rfl, hb⟩ : ∃ rest', rest = rest' ++ [s] ∧ b = front ++ x :: rest' := by
    rcases List.eq_nil_or_concat rest with rfl | ⟨rest', y, rfl⟩
    · exact absurd (List.append_inj' heq rfl).2 (by simpa using hne.symm)
    · rw [List.concat_eq_append, ← List.cons_append, ← List.append_assoc] at heq
      obtain ⟨hb, hy⟩ := List.append_inj' heq rfl
      obtain rfl := List.head_eq_of_cons_eq hy
      exact ⟨rest', by simp, hb⟩
  cases h with
  | modseqToState hn => exact ⟨_, rfl, rest, by simp [hb]⟩
  | stateToModseq hs =>
      have h32 := UInt8.le_iff_toNat_le.mp (hs x (hb ▸ by simp)).1
      have h3 := UInt8.le_iff_toNat_le.mp hx
      simp only [Sep.uidValidity, UInt8.reduceToNat] at h32 h3
      omega
  | highestModseq => simp at hb

/-- The separator of an account record is none that a mailbox record has. -/
theorem OfAccount.separator (h : OfAccount a r b s) :
    ¬ s ≤ Sep.uidValidity ∧ s ≠ Sep.jmapDeletedIds ∧ ¬ isIdByte s = true := by
  cases h <;> decide

/-- A mailbox record that ends in the separator of an account record is the record of a UID. -/
theorem OfMailbox.eq_uidToJmap (h : OfMailbox m r s b) (h' : OfAccount a r' b' s')
    (heq : m.mailboxBytes ++ s :: b = b' ++ [s']) :
    ∃ u, u < 2 ^ 32 ∧ r = .uidToJmap m u ∧ s = Sep.uidToJmap ∧ b = toBeBytes 4 u := by
  obtain ⟨hle, -, hid⟩ := h'.separator
  have hlast : s' ∈ (m.mailboxBytes ++ s :: b).getLast? := by simp [heq]
  have hno : ∀ i, IsJmapId i → b ≠ asBytes i := by
    rintro i hi rfl
    rw [List.getLast?_append_cons, List.getLast?_cons] at hlast
    cases hg : (asBytes i).getLast? with
    | none => exact hi.1 (List.getLast?_eq_none_iff.mp hg)
    | some y =>
        obtain rfl : y = s' := by simpa [hg] using hlast
        exact hid (hi.2 y (List.mem_of_getLast? hg))
  cases h with
  | jmapToUid hi | jmapDeletedIds hi => exact absurd rfl (hno _ hi)
  | uidToJmap hu => exact ⟨_, hu, rfl, rfl, rfl⟩
  | uidNext | uidValidity =>
      obtain rfl : _ = s' := by simpa using hlast
      exact absurd (by decide) hle

/-- **A mailbox record and an account record have the same key exactly if they clash.** -/
theorem OfMailbox.key_eq_key_iff (h : OfMailbox m r s b) (h' : OfAccount a r' b' s')
    (hm : m.WellFormed) (ha : IsJmapId a) : r.key = r'.key ↔ Clash r r' := by
  constructor
  · intro hkey
    rw [h.key_eq, h'.key_eq] at hkey
    obtain ⟨hacc, heq⟩ := accountPrefix_append_inj hm.account ha hkey
    obtain ⟨u, hu, rfl, rfl, rfl⟩ := h.eq_uidToJmap h' heq
    obtain ⟨n, rfl, -⟩ := h'.append_cons_eq (by decide) heq.symm
    cases h' with | modseqToState hn =>
    -- nine bytes less the mailbox's leave none for a mailbox id
    have hlen := congrArg List.length heq
    have hnil : m.mailboxBytes = [] := by
      simpa using hlen
    rw [hnil, List.nil_append] at heq
    refine ⟨hm.ext ⟨ha, by simp⟩ (congrArg asBytes hacc) hnil, ?_⟩
    exact (toBeBytes_append_four_iff hu hn).mp heq
  · intro hclash
    cases h <;> cases h' <;> try exact hclash.elim
    rename_i u hu n hn
    obtain ⟨rfl, hun⟩ := hclash
    have heq := (toBeBytes_append_four_iff hu hn).mpr hun
    rw [OfMailbox.key_eq (.uidToJmap hu), OfAccount.key_eq (.modseqToState hn)]
    exact congrArg (serializeKeyAccountPrefix a ++ ·) heq

/-- **Which keys coincide**: those of the same record, and those of a clash. -/
theorem WellFormed.key_eq_key_iff (h : r.WellFormed) (h' : r'.WellFormed) :
    r.key = r'.key ↔ r = r' ∨ Clash r r' ∨ Clash r' r := by
  have hno : ∀ {m r s b r'}, OfMailbox m r s b → ¬ Clash r' r := by
    intro m r s b r' hr hc
    cases hr <;> cases r' <;> exact hc
  have hno' : ∀ {a r s b r'}, OfAccount a r b s → ¬ Clash r r' := by
    intro a r s b r' hr hc
    cases hr <;> exact hc
  obtain ⟨m, s, b, hm, hr⟩ | ⟨a, b, s, ha, hr⟩ := h.layout <;>
    obtain ⟨m', s', b', hm', hr'⟩ | ⟨a', b', s', ha', hr'⟩ := h'.layout
  · simp only [hno hr, hno hr', or_false]
    exact ⟨hr.key_inj hr' hm hm', congrArg key⟩
  · have hne : r ≠ r' := by
      rintro rfl
      simpa [hr'.mailbox?_eq] using hr.mailbox?_eq
    simp only [hne, hno hr, false_or, or_false]
    exact hr.key_eq_key_iff hr' hm ha'
  · have hne : r ≠ r' := by
      rintro rfl
      simpa [hr.mailbox?_eq] using hr'.mailbox?_eq
    simp only [hne, hno hr', false_or]
    exact eq_comm.trans (hr'.key_eq_key_iff hr hm' ha)
  · simp only [hno' hr, hno' hr', or_false]
    exact ⟨hr.key_inj hr' ha ha', congrArg key⟩

/-! ## Keys that begin like a mailbox's -/

/-- The key begins with an account, a mailbox part and a separator. -/
def Begins (accountId : String) (front : Bytes) (x : UInt8) (key : Bytes) : Prop :=
  serializeKeyAccountPrefix accountId ++ (front ++ [x]) <+: key

/-- The record is that of a modseq of the account whose four bytes begin with a mailbox part and
a separator. -/
def Spells (accountId : String) (front : Bytes) (x : UInt8) (r : Record) : Prop :=
  ∃ modseq, r = .modseqToState accountId modseq ∧ front ++ [x] <+: toBeBytes 4 modseq

theorem OfAccount.begins_iff (h : OfAccount a r b s) (ha : IsJmapId a) {accountId : String}
    (hacc : IsJmapId accountId) {front : Bytes} {x : UInt8} (hx : x ≤ Sep.uidValidity) :
    Begins accountId front x r.key ↔ Spells accountId front x r := by
  constructor
  · rintro ⟨rest, hrest⟩
    rw [h.key_eq, List.append_assoc] at hrest
    obtain ⟨rfl, heq⟩ := accountPrefix_append_inj hacc ha hrest
    rw [List.append_assoc, List.singleton_append] at heq
    exact h.append_cons_eq hx heq.symm
  · rintro ⟨n, rfl, hpre⟩
    cases h with | modseqToState hn =>
    rw [Begins, OfAccount.key_eq (.modseqToState hn), List.prefix_append_right_inj]
    exact hpre.trans (List.prefix_append _ _)

theorem OfMailbox.begins_iff (h : OfMailbox m r s b) (hm : m.WellFormed) {accountId : String}
    (hacc : IsJmapId accountId) {front : Bytes} (hfront : ∀ b ∈ front, Sep.uidValidity < b)
    {x : UInt8} (hx : x ≤ Sep.uidValidity) :
    Begins accountId front x r.key ↔ accountId = m.accountId ∧ front = m.mailboxBytes ∧ x = s := by
  constructor
  · rintro ⟨rest, hrest⟩
    rw [h.key_eq, List.append_assoc] at hrest
    obtain ⟨rfl, heq⟩ := accountPrefix_append_inj hacc hm.account hrest
    rw [List.append_assoc, List.singleton_append] at heq
    have hid : ∀ b, isIdByte b = true → Sep.uidValidity < b := by
      intro b hb
      exact UInt8.lt_of_lt_of_le (by decide) (le_of_isIdByte hb)
    have hnot : ∀ b, b ≤ Sep.uidValidity → ¬ Sep.uidValidity < b := fun b hb ↦
      UInt8.not_lt.mpr hb
    obtain hs | ⟨rfl, i, hi, rfl⟩ := h.le_uidValidity_or
    · obtain ⟨hf, hxs, -⟩ := append_cons_inj hfront (fun b hb ↦ hid b (hm.mailboxBytes b hb))
        (hnot x hx) (hnot s hs) heq
      exact ⟨rfl, hf, hxs⟩
    · -- the key of a deleted id holds no such separator
      have hmem : x ∈ m.mailboxBytes ++ Sep.jmapDeletedIds :: asBytes i := by simp [← heq]
      rw [List.mem_append, List.mem_cons] at hmem
      rcases hmem with hmem | rfl | hmem
      · exact absurd (hid x (hm.mailboxBytes x hmem)) (hnot x hx)
      · exact absurd hx (by decide)
      · exact absurd (hid x (hi.2 x hmem)) (hnot x hx)
  · rintro ⟨rfl, rfl, rfl⟩
    rw [Begins, h.key_eq, List.prefix_append_right_inj]
    exact ⟨b, by simp⟩

end Record

/-! ## What the scans pick up -/

/-- `update_uids` takes the key for the record of a UID: it is under the prefix of its scan, and
the body of the scan does something about it. -/
def UpdateUidsSelects (mailbox : MailboxId) (key : Bytes) : Prop :=
  serializeKeyPrefix mailbox Sep.uidToJmap <+: key ∧ ∃ clock st value,
    Db.UpdateScan.visit mailbox clock (serializeKeyPrefix mailbox Sep.uidToJmap).length st
      (key, value) ≠ some st

/-- The program takes the record under the key out of some database. -/
def Removes {R : Type} (p : DbM R) (key : Bytes) : Prop :=
  ∃ db : Db, db[key]? ≠ none ∧ (p.run db).2[key]? = none

theorem Db.Removed.removes_iff {pre : Bytes} {select : Bytes × Bytes → Bool} {p : DbM ℕ}
    (hp : ∀ db, Db.Removed pre select db (p.run db).2) {key : Bytes}
    (hsel : ∀ v, select (key, v) = select (key, [])) :
    Removes p key ↔ pre <+: key ∧ select (key, []) = true := by
  constructor
  · rintro ⟨db, hsome, hnone⟩
    obtain ⟨v, hv⟩ := Option.ne_none_iff_exists'.mp hsome
    rw [hp db key, hv, Option.filter_some, hsel] at hnone
    simpa using hnone
  · intro h
    refine ⟨(∅ : Db).insert key [], by simp, ?_⟩
    rw [hp _ key]
    simp [Option.filter, h]

section Scans

open Record Db

variable {r : Record} {mailbox : MailboxId} {accountId mailboxId : String}

theorem updateUidsSelects_iff {key : Bytes} : UpdateUidsSelects mailbox key ↔
    serializeKeyPrefix mailbox Sep.uidToJmap <+: key ∧
      (serializeKeyPrefix mailbox Sep.uidToJmap).length < key.length := by
  refine and_congr_right fun _ ↦ ⟨?_, fun hlt ↦ ?_⟩
  · rintro ⟨clock, st, v, hvisit⟩
    by_contra hle
    exact hvisit (by rw [UpdateScan.visit, if_neg hle])
  · refine ⟨fun _ ↦ 0, .init [], [], ?_⟩
    rw [UpdateScan.visit, if_pos hlt]
    simp [UpdateScan.init, positions]

theorem removes_deleteMailbox_iff {key : Bytes} : Removes (deleteMailbox accountId mailboxId) key ↔
    ∃ x ≤ Sep.uidValidity, Begins accountId (asBytes mailboxId) x key := by
  have hp : ∀ db, Removed (serializeKeyAccountPrefix accountId ++ asBytes mailboxId)
      (fun kv ↦
        (kv.1.drop (serializeKeyAccountPrefix accountId ++ asBytes mailboxId).length).head?.any
          (· ≤ Sep.uidValidity)) db ((deleteMailbox accountId mailboxId).run db).2 := by
    intro db
    obtain ⟨n, db', hrun, h⟩ := removeWhere_run db _ _
    rw [deleteMailbox, hrun]
    exact h
  rw [Removed.removes_iff hp fun _ ↦ rfl]
  constructor
  · rintro ⟨⟨rest, rfl⟩, hsel⟩
    rw [List.drop_left] at hsel
    cases rest with
    | nil => simp at hsel
    | cons x rest => exact ⟨x, by simpa using hsel, rest, by simp⟩
  · rintro ⟨x, hx, rest, rfl⟩
    rw [List.append_assoc, List.append_assoc, ← List.append_assoc, List.drop_left]
    exact ⟨List.prefix_append _ _, by simpa using hx⟩

/-- The first byte of a class, with what stands before it. -/
theorem findIdx?_eq_some_iff_append {α : Type} {p : α → Bool} {l : List α} {n : ℕ} :
    l.findIdx? p = some n ↔ ∃ front x rest, l = front ++ x :: rest ∧ front.length = n ∧
      (∀ b ∈ front, p b = false) ∧ p x = true := by
  constructor
  · intro h
    obtain ⟨hn, hx, hfront⟩ := List.findIdx?_eq_some_iff_getElem.mp h
    refine ⟨l.take n, l[n], l.drop (n + 1), by simp, by simp; omega, ?_, hx⟩
    intro b hb
    obtain ⟨i, hi, rfl⟩ := List.getElem_of_mem hb
    rw [List.getElem_take]
    simpa using hfront i (by simp at hi; omega)
  · rintro ⟨front, x, rest, rfl, rfl, hfront, hx⟩
    rw [List.findIdx?_append, List.findIdx?_eq_none_iff.mpr hfront]
    simp [List.findIdx?_cons, hx]

theorem removes_purgeDeletedMailboxes_iff {mailboxKeys : List String} {key : Bytes} :
    Removes (purgeDeletedMailboxes accountId mailboxKeys) key ↔
      mailboxKeys ≠ [] ∧ ∃ front x, front ≠ [] ∧ (∀ b ∈ front, Sep.uidValidity < b) ∧
        x ≤ Sep.uidValidity ∧ (∀ k ∈ mailboxKeys, asBytes k ≠ front) ∧
          Begins accountId front x key := by
  by_cases hkeys : mailboxKeys = []
  · subst hkeys
    simp only [ne_eq, not_true_eq_false, false_and, iff_false]
    rintro ⟨db, hsome, hnone⟩
    exact hsome hnone
  have hp : ∀ db, Removed (serializeKeyAccountPrefix accountId) (selectsGone accountId mailboxKeys)
      db ((purgeDeletedMailboxes accountId mailboxKeys).run db).2 := by
    intro db
    obtain ⟨n, db', hrun, h⟩ := purgeDeletedMailboxes_removed accountId hkeys db
    rw [hrun]
    exact h
  rw [Removed.removes_iff hp fun _ ↦ rfl]
  simp only [ne_eq, hkeys, not_false_eq_true, true_and]
  constructor
  · rintro ⟨⟨rest, rfl⟩, hsel⟩
    cases hpos : rest.findIdx? (· ≤ Sep.uidValidity) with
    | none =>
        rw [selectsGone_append_none _ _ hpos] at hsel
        cases hsel
    | some pos =>
        rw [selectsGone_append _ _ hpos] at hsel
        obtain ⟨front, x, rest, rfl, rfl, hfront, hx⟩ := findIdx?_eq_some_iff_append.mp hpos
        simp only [List.take_left, Bool.and_eq_true, decide_eq_true_eq, Bool.not_eq_true',
          List.any_eq_false, beq_iff_eq] at hsel
        refine ⟨front, x, List.ne_nil_of_length_pos hsel.1, ?_, by simpa using hx, hsel.2,
          rest, by simp⟩
        intro b hb
        exact UInt8.not_le.mp (by simpa using hfront b hb)
  · rintro ⟨front, x, hne, hfront, hx, hnot, rest, rfl⟩
    have hpos : (front ++ x :: rest).findIdx? (· ≤ Sep.uidValidity) = some front.length :=
      findIdx?_eq_some_iff_append.mpr ⟨front, x, rest, rfl, rfl, by
        simpa using fun b hb ↦ hfront b hb, by simpa using hx⟩
    rw [List.append_assoc, List.append_assoc, List.singleton_append]
    refine ⟨List.prefix_append _ _, ?_⟩
    rw [selectsGone_append _ _ hpos]
    simp only [List.take_left, Bool.and_eq_true, decide_eq_true_eq, Bool.not_eq_true',
      List.any_eq_false, beq_iff_eq]
    exact ⟨List.length_pos_iff.mpr hne, hnot⟩

/-- A scan that picks the keys with a mailbox part and a separator in front: the records it picks
are those of such a mailbox, and the modseqs that spell such a key. -/
theorem begins_cases (h : r.WellFormed) (ha : IsJmapId accountId) {front : Bytes}
    (hfront : ∀ b ∈ front, Sep.uidValidity < b) {x : UInt8} (hx : x ≤ Sep.uidValidity)
    (hb : Begins accountId front x r.key) : Spells accountId front x r ∨
      ∃ m b, m.WellFormed ∧ OfMailbox m r x b ∧ m.accountId = accountId ∧
        m.mailboxBytes = front := by
  obtain ⟨m, s, b, hm, hr⟩ | ⟨a, b, s, ha', hr⟩ := h.layout
  · obtain ⟨rfl, rfl, rfl⟩ := (hr.begins_iff hm ha hfront hx).mp hb
    exact .inr ⟨m, b, hm, hr, rfl, rfl⟩
  · exact .inl ((hr.begins_iff ha' ha hx).mp hb)

theorem Record.Spells.begins {front : Bytes} {x : UInt8} (h : r.WellFormed)
    (hs : Spells accountId front x r) : Begins accountId front x r.key := by
  obtain ⟨n, rfl, hpre⟩ := hs
  rw [Begins, OfAccount.key_eq (.modseqToState h.2), List.prefix_append_right_inj]
  exact hpre.trans (List.prefix_append _ _)

theorem Record.Spells.mailbox?_eq {front : Bytes} {x : UInt8} (hs : Spells accountId front x r) :
    r.mailbox? = none := by
  obtain ⟨n, rfl, -⟩ := hs
  rfl

theorem lt_of_isJmapId {i : String} (hi : IsJmapId i) : ∀ b ∈ asBytes i, Sep.uidValidity < b :=
  fun b hb ↦ UInt8.lt_of_lt_of_le (by decide) (le_of_isIdByte (hi.2 b hb))

theorem MailboxId.WellFormed.lt_of_mem (h : mailbox.WellFormed) :
    ∀ b ∈ mailbox.mailboxBytes, Sep.uidValidity < b := fun b hb ↦
  UInt8.lt_of_lt_of_le (by decide) (le_of_isIdByte (h.mailboxBytes b hb))

/-- The scan of `update_uids` picks up the UIDs of its mailbox and nothing else, unless a modseq
spells one. -/
theorem updateUids_selects_iff (h : r.WellFormed) (hm : mailbox.WellFormed) :
    (UpdateUidsSelects mailbox r.key → ∃ uid, r = .uidToJmap mailbox uid) ↔
      ¬ Spells mailbox.accountId mailbox.mailboxBytes Sep.uidToJmap r := by
  rw [updateUidsSelects_iff, serializeKeyPrefix_eq]
  constructor
  · rintro himp ⟨n, rfl, hpre⟩
    have hkey := Spells.begins h ⟨n, rfl, hpre⟩
    obtain ⟨uid, huid⟩ := himp ⟨hkey, by
      have hlen := hpre.length_le
      rw [OfAccount.key_eq (.modseqToState h.2)]
      simp only [List.length_append, length_toBeBytes, List.length_singleton] at hlen ⊢
      omega⟩
    cases huid
  · rintro hno ⟨hb, -⟩
    obtain hs | ⟨m, b, hwf, hr, hacc, hbytes⟩ :=
      begins_cases h hm.account hm.lt_of_mem (by decide) hb
    · exact absurd hs hno
    · obtain rfl := hwf.ext hm (congrArg asBytes hacc) hbytes
      generalize hsep : Sep.uidToJmap = s at hr
      cases hr with
      | uidToJmap hu => exact ⟨_, rfl⟩
      | jmapToUid | uidNext | uidValidity | jmapDeletedIds => exact absurd hsep (by decide)

/-- `delete_mailbox` removes the records of its mailbox and nothing else, unless a modseq spells
one. -/
theorem deleteMailbox_removes_iff (h : r.WellFormed) (ha : IsJmapId accountId)
    (hm : IsJmapId mailboxId) :
    (Removes (deleteMailbox accountId mailboxId) r.key →
        r.mailbox? = some ⟨accountId, some mailboxId⟩) ↔
      ¬ ∃ x ≤ Sep.uidValidity, Spells accountId (asBytes mailboxId) x r := by
  rw [removes_deleteMailbox_iff]
  constructor
  · rintro himp ⟨x, hx, hs⟩
    have hbox := himp ⟨x, hx, hs.begins h⟩
    rw [hs.mailbox?_eq] at hbox
    cases hbox
  · rintro hno ⟨x, hx, hb⟩
    obtain hs | ⟨m, b, hwf, hr, hacc, hbytes⟩ := begins_cases h ha (lt_of_isJmapId hm) hx hb
    · exact absurd ⟨x, hx, hs⟩ hno
    · have hwf' : MailboxId.WellFormed ⟨accountId, some mailboxId⟩ :=
        ⟨ha, fun _ hm' ↦ Option.some.inj hm' ▸ hm⟩
      rw [hr.mailbox?_eq, hwf.ext hwf' (congrArg asBytes hacc) hbytes]

/-- `purge_deleted_mailboxes` removes the records of mailboxes that are not among the account's
and nothing else, unless a modseq spells one. -/
theorem purgeDeletedMailboxes_removes_iff (h : r.WellFormed) (ha : IsJmapId accountId)
    (mailboxKeys : List String) :
    (Removes (purgeDeletedMailboxes accountId mailboxKeys) r.key →
        ∃ m, m ∉ mailboxKeys ∧ r.mailbox? = some ⟨accountId, some m⟩) ↔
      ¬ (mailboxKeys ≠ [] ∧ ∃ front x, front ≠ [] ∧ (∀ b ∈ front, Sep.uidValidity < b) ∧
        x ≤ Sep.uidValidity ∧ (∀ k ∈ mailboxKeys, asBytes k ≠ front) ∧
          Spells accountId front x r) := by
  rw [removes_purgeDeletedMailboxes_iff]
  constructor
  · rintro himp ⟨hkeys, front, x, hne, hfront, hx, hnot, hs⟩
    obtain ⟨m, -, hbox⟩ := himp ⟨hkeys, front, x, hne, hfront, hx, hnot, hs.begins h⟩
    rw [hs.mailbox?_eq] at hbox
    cases hbox
  · rintro hno ⟨hkeys, front, x, hne, hfront, hx, hnot, hb⟩
    obtain hs | ⟨m, b, hwf, hr, rfl, rfl⟩ := begins_cases h ha hfront hx hb
    · exact absurd ⟨hkeys, front, x, hne, hfront, hx, hnot, hs⟩ hno
    · cases hid : m.mailboxId with
      | none => simp [MailboxId.mailboxBytes, hid] at hne
      | some i =>
          refine ⟨i, fun hmem ↦ hnot i hmem (by simp [MailboxId.mailboxBytes, hid]), ?_⟩
          rw [hr.mailbox?_eq, ← hid]

/-- **The keyspace keeps its records apart as far as modseqs do not spell mailbox keys.**  Two
keys coincide only for the record of an All Mail UID that ends in the byte 4 and that of a modseq
with the byte 1 in front; and each of the three scans picks up only the records it is after unless
the four bytes of a modseq begin with the mailbox part and separator it looks for. -/
theorem keyspace_safe_iff {r' : Record} (h : r.WellFormed) (h' : r'.WellFormed)
    (hm : mailbox.WellFormed) (ha : IsJmapId accountId) (hid : IsJmapId mailboxId)
    (mailboxKeys : List String) :
    ((r.key = r'.key → r = r') ↔ ¬ (Clash r r' ∨ Clash r' r)) ∧
    ((UpdateUidsSelects mailbox r.key → ∃ uid, r = .uidToJmap mailbox uid) ↔
      ¬ Spells mailbox.accountId mailbox.mailboxBytes Sep.uidToJmap r) ∧
    ((Removes (deleteMailbox accountId mailboxId) r.key →
        r.mailbox? = some ⟨accountId, some mailboxId⟩) ↔
      ¬ ∃ x ≤ Sep.uidValidity, Spells accountId (asBytes mailboxId) x r) ∧
    ((Removes (purgeDeletedMailboxes accountId mailboxKeys) r.key →
        ∃ m, m ∉ mailboxKeys ∧ r.mailbox? = some ⟨accountId, some m⟩) ↔
      ¬ (mailboxKeys ≠ [] ∧ ∃ front x, front ≠ [] ∧ (∀ b ∈ front, Sep.uidValidity < b) ∧
        x ≤ Sep.uidValidity ∧ (∀ k ∈ mailboxKeys, asBytes k ≠ front) ∧
          Spells accountId front x r)) := by
  refine ⟨?_, updateUids_selects_iff h hm, deleteMailbox_removes_iff h ha hid,
    purgeDeletedMailboxes_removes_iff h ha mailboxKeys⟩
  rw [h.key_eq_key_iff h']
  constructor
  · rintro himp (hc | hc)
    · obtain rfl := himp (.inr (.inl hc))
      cases r <;> exact hc
    · obtain rfl := himp (.inr (.inr hc))
      cases r <;> exact hc
  · intro hno heq
    exact heq.resolve_right hno

/-- The third message of All Mail, and a state it is not confused with. -/
theorem keyspace_safe_three :
    ¬ Clash (.uidToJmap ⟨"a", none⟩ 3) (.modseqToState "a" 16777216) ∧
    ((Record.uidToJmap ⟨"a", none⟩ 3).key = (Record.modseqToState "a" 16777216).key →
      Record.uidToJmap ⟨"a", none⟩ 3 = Record.modseqToState "a" 16777216) := by
  refine ⟨by decide +kernel, ?_⟩
  exact (@keyspace_safe_iff (.uidToJmap ⟨"a", none⟩ 3) ⟨"a", none⟩ "a" "b"
    (.modseqToState "a" 16777216) (by decide +kernel) (by decide +kernel) (by decide +kernel)
    (by decide +kernel) (by decide +kernel) []).1.mpr (by decide +kernel)

/-- The fourth message of All Mail and the state of modseq 2²⁴ share a key. -/
theorem keyspace_clash : ¬ ∀ (r r' : Record) (mailbox : MailboxId) (accountId mailboxId : String)
    (mailboxKeys : List String), r.WellFormed → r'.WellFormed → mailbox.WellFormed →
      IsJmapId accountId → IsJmapId mailboxId →
    (r.key = r'.key → r = r') ∧
    (UpdateUidsSelects mailbox r.key → ∃ uid, r = .uidToJmap mailbox uid) ∧
    (Removes (deleteMailbox accountId mailboxId) r.key →
      r.mailbox? = some ⟨accountId, some mailboxId⟩) ∧
    (Removes (purgeDeletedMailboxes accountId mailboxKeys) r.key →
      ∃ m, m ∉ mailboxKeys ∧ r.mailbox? = some ⟨accountId, some m⟩) := by
  intro h
  have heq := (h (.uidToJmap ⟨"a", none⟩ 4) (.modseqToState "a" 16777216) ⟨"a", none⟩ "a" "b" []
    (by decide +kernel) (by decide +kernel) (by decide +kernel) (by decide +kernel)
    (by decide +kernel)).1 (by decide +kernel)
  cases heq

end Scans

end ImapToJmap
