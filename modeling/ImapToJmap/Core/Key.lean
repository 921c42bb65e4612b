import ImapToJmap.Core.Bytes
import ImapToJmap.Kv.Prog

/-!
# Database keys

One flat keyspace holds the records of every mailbox of every account.  A record of a mailbox has
the key

```
account_id ++ [0] ++ mailbox_id ++ [separator] ++ value
```

with the mailbox id left out for the virtual All Mail folder.  Nothing but the alphabet of JMAP
ids keeps the parts apart: an id byte is at least `-` (45), a separator at most 7.  The whole of
the parsing argument is `append_cons_inj`, and `serializeKeyPrefix_append_inj` is what the rest of
the development uses: two record keys agree only if mailbox, separator and value do.
-/

namespace ImapToJmap

/-! ## JMAP ids -/

/-- The alphabet of JMAP ids: `A-Z a-z 0-9 - _`. -/
def isIdByte (b : UInt8) : Bool :=
  (65 ≤ b && b ≤ 90) || (97 ≤ b && b ≤ 122) || (48 ≤ b && b ≤ 57) || b == 45 || b == 95

/-- A JMAP id: a non-empty string over the id alphabet. -/
def IsJmapId (s : String) : Prop := asBytes s ≠ [] ∧ ∀ b ∈ asBytes s, isIdByte b = true

instance : DecidablePred IsJmapId := fun s ↦
  inferInstanceAs (Decidable (asBytes s ≠ [] ∧ ∀ b ∈ asBytes s, isIdByte b = true))

theorem le_of_isIdByte {b : UInt8} (h : isIdByte b = true) : 45 ≤ b := by
  simp only [isIdByte, Bool.or_eq_true, Bool.and_eq_true, decide_eq_true_eq, beq_iff_eq,
    UInt8.le_iff_toNat_le, ← UInt8.toNat_inj] at h ⊢
  simp only [UInt8.reduceToNat] at h ⊢
  omega

/-- A separator is not an id byte. -/
theorem not_isIdByte_of_le {s : UInt8} (h : s ≤ 7) : ¬ isIdByte s = true := fun hid ↦ by
  have h45 := le_of_isIdByte hid
  simp only [UInt8.le_iff_toNat_le, UInt8.reduceToNat] at h h45
  omega

/-! ## Mailboxes and separators -/

/-- `MailboxId`; `mailboxId = none` is All Mail. -/
structure MailboxId where
  accountId : String
  mailboxId : Option String
deriving DecidableEq

namespace MailboxId

/-- Account and mailbox are named by JMAP ids. -/
structure WellFormed (mailbox : MailboxId) : Prop where
  account : IsJmapId mailbox.accountId
  mailbox : ∀ m, mailbox.mailboxId = some m → IsJmapId m

/-- The mailbox part of a key. -/
def mailboxBytes (mailbox : MailboxId) : Bytes := mailbox.mailboxId.elim [] asBytes

instance decidableWellFormed (mailbox : MailboxId) : Decidable mailbox.WellFormed :=
  decidable_of_iff (IsJmapId mailbox.accountId ∧ ∀ m ∈ mailbox.mailboxId, IsJmapId m)
    ⟨fun h ↦ ⟨h.1, h.2⟩, fun h ↦ ⟨h.account, h.mailbox⟩⟩

theorem WellFormed.mailboxBytes {mailbox : MailboxId} (h : mailbox.WellFormed) :
    ∀ b ∈ mailbox.mailboxBytes, isIdByte b = true := by
  intro b hb
  cases hm : mailbox.mailboxId with
  | none => simp [MailboxId.mailboxBytes, hm] at hb
  | some m => exact (h.mailbox m hm).2 b (by simpa [MailboxId.mailboxBytes, hm] using hb)

/-- Account and mailbox bytes determine the mailbox: the empty mailbox part is All Mail only. -/
theorem WellFormed.ext {m₁ m₂ : MailboxId} (h₁ : m₁.WellFormed) (h₂ : m₂.WellFormed)
    (ha : asBytes m₁.accountId = asBytes m₂.accountId)
    (hm : m₁.mailboxBytes = m₂.mailboxBytes) : m₁ = m₂ := by
  obtain ⟨a₁, o₁⟩ := m₁
  obtain ⟨a₂, o₂⟩ := m₂
  obtain rfl : a₁ = a₂ := asBytes_injective ha
  cases o₁ with
  | none =>
      cases o₂ with
      | none => rfl
      | some m => exact absurd hm.symm (h₂.mailbox m rfl).1
  | some m =>
      cases o₂ with
      | none => exact absurd hm (h₁.mailbox m rfl).1
      | some m' => rw [asBytes_injective hm]

end MailboxId

namespace Sep

/-- `JMAP_TO_UID` -/
def jmapToUid : UInt8 := 0
/-- `UID_TO_JMAP` -/
def uidToJmap : UInt8 := 1
/-- `UID_NEXT` -/
def uidNext : UInt8 := 2
/-- `UID_VALIDITY` -/
def uidValidity : UInt8 := 3
/-- `MODSEQ_TO_STATE` -/
def modseqToState : UInt8 := 4
/-- `STATE_TO_MODSEQ` -/
def stateToModseq : UInt8 := 5
/-- `HIGHEST_MODSEQ` -/
def highestModseq : UInt8 := 6
/-- `JMAP_DELETED_IDS` -/
def jmapDeletedIds : UInt8 := 7

end Sep

/-! ## Building keys -/

def serializeKeyAccountPrefix (accountId : String) : Bytes := asBytes accountId ++ [0]

def serializeKeyPrefix (mailbox : MailboxId) (separator : UInt8) : Bytes :=
  asBytes mailbox.accountId ++ [0] ++ mailbox.mailboxBytes ++ [separator]

def serializeKey (mailbox : MailboxId) (separator : UInt8) (value : Bytes) : Bytes :=
  asBytes mailbox.accountId ++ [0] ++ mailbox.mailboxBytes ++ [separator] ++ value

def serializeUidNextKey (mailbox : MailboxId) : Bytes :=
  asBytes mailbox.accountId ++ [0] ++ mailbox.mailboxBytes ++ [Sep.uidNext]

def serializeUidValidityKey (mailbox : MailboxId) : Bytes :=
  asBytes mailbox.accountId ++ [0] ++ mailbox.mailboxBytes ++ [Sep.uidValidity]

def serializeModseq (accountId : Bytes) (value : Bytes) (separator : UInt8) : Bytes :=
  accountId ++ [0] ++ value ++ [separator]

def serializeHighestmodseq (accountId : Bytes) : Bytes := accountId ++ [0] ++ [Sep.highestModseq]

theorem serializeKey_eq (mailbox : MailboxId) (s : UInt8) (value : Bytes) :
    serializeKey mailbox s value = serializeKeyPrefix mailbox s ++ value := rfl

theorem serializeUidNextKey_eq (mailbox : MailboxId) :
    serializeUidNextKey mailbox = serializeKeyPrefix mailbox Sep.uidNext ++ [] := by
  simp [serializeUidNextKey, serializeKeyPrefix]

theorem serializeUidValidityKey_eq (mailbox : MailboxId) :
    serializeUidValidityKey mailbox = serializeKeyPrefix mailbox Sep.uidValidity ++ [] := by
  simp [serializeUidValidityKey, serializeKeyPrefix]

/-! ## Reading keys back -/

/-- Two strings split at their first character outside a class split alike. -/
theorem append_cons_inj {α : Type} {P : α → Prop} {l₁ l₂ r₁ r₂ : List α} {c₁ c₂ : α}
    (h₁ : ∀ x ∈ l₁, P x) (h₂ : ∀ x ∈ l₂, P x) (hc₁ : ¬ P c₁) (hc₂ : ¬ P c₂)
    (h : l₁ ++ c₁ :: r₁ = l₂ ++ c₂ :: r₂) : l₁ = l₂ ∧ c₁ = c₂ ∧ r₁ = r₂ := by
  induction l₁ generalizing l₂ with
  | nil =>
      cases l₂ with
      | nil => simpa using h
      | cons y l₂ =>
          obtain ⟨rfl, -⟩ := List.cons_eq_cons.mp h
          exact absurd (h₂ _ List.mem_cons_self) hc₁
  | cons x l₁ ih =>
      cases l₂ with
      | nil =>
          obtain ⟨rfl, -⟩ := List.cons_eq_cons.mp h
          exact absurd (h₁ _ List.mem_cons_self) hc₂
      | cons y l₂ =>
          obtain ⟨rfl, htail⟩ := List.cons_eq_cons.mp h
          obtain ⟨rfl, hc, hr⟩ := ih (fun z hz ↦ h₁ z (List.mem_cons_of_mem _ hz))
            (fun z hz ↦ h₂ z (List.mem_cons_of_mem _ hz)) htail
          exact ⟨rfl, hc, hr⟩

/-- A key is its account, the zero byte, and the rest. -/
theorem accountPrefix_append_inj {a₁ a₂ : String} (h₁ : IsJmapId a₁) (h₂ : IsJmapId a₂)
    {r₁ r₂ : Bytes}
    (h : serializeKeyAccountPrefix a₁ ++ r₁ = serializeKeyAccountPrefix a₂ ++ r₂) :
    a₁ = a₂ ∧ r₁ = r₂ := by
  simp only [serializeKeyAccountPrefix, List.append_assoc, List.singleton_append] at h
  obtain ⟨ha, -, hr⟩ := append_cons_inj (P := fun b ↦ isIdByte b = true) h₁.2 h₂.2
    (not_isIdByte_of_le (by decide)) (not_isIdByte_of_le (by decide)) h
  exact ⟨asBytes_injective ha, hr⟩

theorem serializeKeyPrefix_eq (mailbox : MailboxId) (s : UInt8) :
    serializeKeyPrefix mailbox s =
      serializeKeyAccountPrefix mailbox.accountId ++ (mailbox.mailboxBytes ++ [s]) := by
  simp [serializeKeyPrefix, serializeKeyAccountPrefix]

/-- Within one mailbox a key is its separator and its value. -/
theorem serializeKeyPrefix_append_iff {m : MailboxId} {s₁ s₂ : UInt8} {b₁ b₂ : Bytes} :
    serializeKeyPrefix m s₁ ++ b₁ = serializeKeyPrefix m s₂ ++ b₂ ↔ s₁ = s₂ ∧ b₁ = b₂ := by
  simp [serializeKeyPrefix]

/-- **Record keys are unambiguous.**  Keys of records agree only if they name the same mailbox,
carry the same separator and the same value. -/
theorem serializeKeyPrefix_append_inj {m₁ m₂ : MailboxId} (h₁ : m₁.WellFormed)
    (h₂ : m₂.WellFormed) {s₁ s₂ : UInt8} (hs₁ : s₁ ≤ 7) (hs₂ : s₂ ≤ 7) {b₁ b₂ : Bytes}
    (h : serializeKeyPrefix m₁ s₁ ++ b₁ = serializeKeyPrefix m₂ s₂ ++ b₂) :
    m₁ = m₂ ∧ s₁ = s₂ ∧ b₁ = b₂ := by
  simp only [serializeKeyPrefix_eq, List.append_assoc, List.singleton_append] at h
  obtain ⟨ha, hrest⟩ := accountPrefix_append_inj h₁.account h₂.account h
  obtain ⟨hm, hs, hb⟩ := append_cons_inj (P := fun b ↦ isIdByte b = true) h₁.mailboxBytes
    h₂.mailboxBytes (not_isIdByte_of_le hs₁) (not_isIdByte_of_le hs₂) hrest
  exact ⟨h₁.ext h₂ (congrArg asBytes ha) hm, hs, hb⟩

end ImapToJmap
