import ImapToJmap.Core.Key

/-!
# The UID database

The operations of `core/message.rs` on the database, as programs over the flat tree of keys
(`Kv.Prog`).  Each is written after the source function of the same name, store operation by store
operation, so that its atomic meaning (`Prog.run`) and its interleavings (`Kv.Pool`) come from one
text.

Two things of the source are parameters here.  `SystemTime::now()` is the `Clock` of a call, the
sequence of the values it reads, in seconds since the epoch.  The I/O errors of the database are
not modelled; the failures that remain (`Prog.fail`, a failing `ofOption`) are the ones the code
itself detects, a value of the wrong width or bytes that are not UTF-8.
-/

namespace ImapToJmap

open Kv

/-- The `sled::Db`. -/
abbrev Db := Tree UInt8 Bytes

/-- A database operation: `Result<_, ()>`, run on a worker. -/
abbrev DbM := Prog UInt8 Bytes

/-- What a call's successive readings of the system clock return, in seconds. -/
abbrev Clock := ℕ → ℕ

/-- `MailboxData` -/
structure MailboxData where
  uidNext : ℕ
  uidValidity : ℕ
  jmapIds : List String
  imapUids : List ℕ
  totalMessages : ℕ
  lastState : String
deriving DecidableEq

/-- `MappingOptions` -/
inductive MappingOptions where
  | none
  | addIfMissing
  | includeDeleted
  | onlyIncludeDeleted
deriving DecidableEq

namespace Db

/-! ## Counters -/

/-- `increment_uid`: the addition wraps, overflow checks being off in the build. -/
def incrementUid : Option Bytes → Option Bytes
  | some bytes => (u32FromBe bytes).map fun n ↦ toBeBytes 4 (n + 1)
  | none => some (toBeBytes 4 1)

/-- `insert_jmap_id`: allocate the next UID, then write the two directions of the map. -/
def insertJmapId (mailbox : MailboxId) (jmapId uidNextKey : Bytes) : DbM Bytes := do
  let uid ← Prog.ofOption (← Prog.update uidNextKey incrementUid)
  Prog.write (serializeKey mailbox Sep.jmapToUid jmapId) uid
  Prog.write (serializeKey mailbox Sep.uidToJmap uid) jmapId
  pure uid

/-- `uid_next` -/
def uidNext (mailbox : MailboxId) : DbM ℕ := do
  match ← Prog.read (serializeUidNextKey mailbox) with
  | some uidBytes =>
      let n ← Prog.ofOption (u32FromBe uidBytes)
      pure ((n + 1) % 2 ^ 32)
  | none => pure 1

/-- `uid_validity`: the hours since January 1st, 2000, fixed on first use. -/
def uidValidity (mailbox : MailboxId) (now : ℕ) : DbM ℕ := do
  match ← Prog.read (serializeUidValidityKey mailbox) with
  | some uidBytes => Prog.ofOption (u32FromBe uidBytes)
  | none =>
      let validity := (now - 946684800) / 3600 % 2 ^ 32
      Prog.write (serializeUidValidityKey mailbox) (toBeBytes 4 validity)
      pure validity

/-! ## `update_uids` -/

/-- The locals of the scan in `update_uids`. -/
structure UpdateScan where
  jmapIdsMap : Std.ExtTreeMap Bytes ℕ compare
  imapUids : List ℕ
  jmapIds : List String
  foundIds : List Bool
  batch : List (Edit UInt8 Bytes)
  hasDeletions : Bool
  /-- How often the clock has been read. -/
  readings : ℕ

/-- `jmap_ids_map`: the position of every id, the last one for an id listed twice. -/
def positions (ids : List String) : Std.ExtTreeMap Bytes ℕ compare :=
  ids.zipIdx.foldl (fun m e ↦ m.insert (asBytes e.1) e.2) ∅

def UpdateScan.init (ids : List String) : UpdateScan where
  jmapIdsMap := positions ids
  imapUids := []
  jmapIds := []
  foundIds := ids.map fun _ ↦ false
  batch := []
  hasDeletions := false
  readings := 0

/-- What a removed message leaves in the batch: its UID under `JMAP_DELETED_IDS` with the time of
the removal, and both of its mappings deleted. -/
def deletion (mailbox : MailboxId) (key imapUid jmapId : Bytes) (now : ℕ) :
    List (Edit UInt8 Bytes) :=
  [.insert (serializeKey mailbox Sep.jmapDeletedIds jmapId) (imapUid ++ toBeBytes 8 now),
    .remove key,
    .remove (serializeKey mailbox Sep.jmapToUid jmapId)]

/-- The body of the scan over the `UID_TO_JMAP` records. -/
def UpdateScan.visit (mailbox : MailboxId) (clock : Clock) (prefixLen : ℕ) (st : UpdateScan)
    (kv : Bytes × Bytes) : Option UpdateScan :=
  let (key, value) := kv
  if prefixLen < key.length then
    let imapUid := key.drop prefixLen
    match st.jmapIdsMap[value]? with
    | some pos => do
        let uid ← u32FromBe imapUid
        let jmapId ← fromUtf8 value
        some { st with
          jmapIdsMap := st.jmapIdsMap.erase value
          imapUids := st.imapUids ++ [uid]
          jmapIds := st.jmapIds ++ [jmapId]
          foundIds := st.foundIds.set pos true }
    | none =>
        some { st with
          batch := st.batch ++ deletion mailbox key imapUid value (clock st.readings)
          hasDeletions := true
          readings := st.readings + 1 }
  else some st

/-- The loop of `update_uids` that allocates a UID to every listed id not found in the scan. -/
def addMissing (mailbox : MailboxId) (uidNextKey : Bytes) :
    List (String × Bool) → List String → List ℕ → DbM (List String × List ℕ)
  | [], jmapIds, imapUids => pure (jmapIds, imapUids)
  | (_, true) :: rest, jmapIds, imapUids => addMissing mailbox uidNextKey rest jmapIds imapUids
  | (jmapId, false) :: rest, jmapIds, imapUids => do
      let imapUid ← insertJmapId mailbox (asBytes jmapId) uidNextKey
      let uid ← Prog.ofOption (u32FromBe imapUid)
      addMissing mailbox uidNextKey rest (jmapIds ++ [jmapId]) (imapUids ++ [uid])

/-- The deletions of `update_uids`, applied if there are any. -/
def applyDeletions (st : UpdateScan) : DbM Unit :=
  if st.hasDeletions then Prog.batch st.batch else pure ()

/-- The additions of `update_uids`: none if every listed id was found. -/
def addNewIds (mailbox : MailboxId) (updateJmapIds : List String) (st : UpdateScan) :
    DbM (List String × List ℕ) :=
  if st.jmapIdsMap.isEmpty then pure (st.jmapIds, st.imapUids)
  else
    addMissing mailbox (serializeUidNextKey mailbox) (updateJmapIds.zip st.foundIds)
      st.jmapIds st.imapUids

/-- `Core::update_uids`: bring the UID map of a mailbox in step with a listing of its emails. -/
def updateUids (mailbox : MailboxId) (clock : Clock) (updateJmapIds : List String) :
    DbM MailboxData := do
  let validity ← uidValidity mailbox (clock 0)
  let pre := serializeKeyPrefix mailbox Sep.uidToJmap
  let st ← Prog.fold pre (UpdateScan.init updateJmapIds)
    (UpdateScan.visit mailbox (fun n ↦ clock (n + 1)) pre.length)
  applyDeletions st
  let (jmapIds, imapUids) ← addNewIds mailbox updateJmapIds st
  pure {
    uidValidity := validity
    uidNext := ← uidNext mailbox
    totalMessages := imapUids.length
    jmapIds := jmapIds
    imapUids := imapUids
    lastState := "" }

/-! ## `jmap_to_imap` -/

/-- The look-up of `jmap_to_imap` among the live messages. -/
def lookUp (mailbox : MailboxId) (options : MappingOptions) (jmapId : String) :
    DbM (Option Bytes) :=
  if options = .onlyIncludeDeleted then pure none
  else Prog.read (serializeKey mailbox Sep.jmapToUid (asBytes jmapId))

/-- The loop of `jmap_to_imap`. -/
def mapIds (mailbox : MailboxId) (options : MappingOptions) :
    List String → List String → List ℕ → DbM (List String × List ℕ)
  | [], jmapIds, imapUids => pure (jmapIds, imapUids)
  | jmapId :: rest, jmapIds, imapUids => do
      match ← lookUp mailbox options jmapId with
      | some uid =>
          let uid ← Prog.ofOption (u32FromBe uid)
          mapIds mailbox options rest (jmapIds ++ [jmapId]) (imapUids ++ [uid])
      | none =>
          if options = .addIfMissing then
            let uid ← insertJmapId mailbox (asBytes jmapId) (serializeUidNextKey mailbox)
            let uid ← Prog.ofOption (u32FromBe uid)
            mapIds mailbox options rest (jmapIds ++ [jmapId]) (imapUids ++ [uid])
          else if options = .none then mapIds mailbox options rest jmapIds imapUids
          else
            match ← Prog.read (serializeKey mailbox Sep.jmapDeletedIds (asBytes jmapId)) with
            | some uid =>
                let uid ← Prog.ofOption (u32FromBe (uid.take 4))
                mapIds mailbox options rest jmapIds (imapUids ++ [uid])
            | none => mapIds mailbox options rest jmapIds imapUids

/-- `Core::jmap_to_imap` -/
def jmapToImap (mailbox : MailboxId) (updateJmapIds : List String) (options : MappingOptions) :
    DbM (List String × List ℕ) :=
  mapIds mailbox options updateJmapIds [] []

/-! ## Deletions -/

/-- The loop of `delete_ids`, collecting the batch. -/
def collectDeletions (mailbox : MailboxId) (clock : Clock) :
    List String → List (Edit UInt8 Bytes) → ℕ → DbM (List (Edit UInt8 Bytes))
  | [], batch, _ => pure batch
  | jmapId :: rest, batch, readings => do
      match ← Prog.read (serializeKey mailbox Sep.jmapToUid (asBytes jmapId)) with
      | some imapUid =>
          let edits := [
            .insert (serializeKey mailbox Sep.jmapDeletedIds (asBytes jmapId))
              (imapUid ++ toBeBytes 8 (clock readings)),
            .remove (serializeKey mailbox Sep.jmapToUid (asBytes jmapId)),
            .remove (serializeKey mailbox Sep.uidToJmap imapUid)]
          collectDeletions mailbox clock rest (batch ++ edits) (readings + 1)
      | none => collectDeletions mailbox clock rest batch readings

/-- `Core::delete_ids` -/
def deleteIds (mailbox : MailboxId) (clock : Clock) (jmapIds : List String) : DbM Unit := do
  let batch ← collectDeletions mailbox clock jmapIds [] 0
  if batch.isEmpty then pure () else Prog.batch batch

/-- Scan a prefix and remove the bindings `select` picks, in one batch.  The functions below
differ in the prefix and the choice only; that some of them skip an empty batch makes no
difference. -/
def removeWhere (pre : Bytes) (select : Bytes × Bytes → Bool) : DbM ℕ := do
  let keys ← Prog.fold pre ([] : List Bytes) fun keys kv ↦
    some (if select kv then keys ++ [kv.1] else keys)
  Prog.batch (keys.map .remove)
  pure keys.length

/-- `Core::delete_account` -/
def deleteAccount (accountId : String) : DbM ℕ :=
  removeWhere (serializeKeyAccountPrefix accountId) fun _ ↦ true

/-- `Core::delete_mailbox` -/
def deleteMailbox (accountId mailboxId : String) : DbM ℕ :=
  let pre := serializeKeyAccountPrefix accountId ++ asBytes mailboxId
  removeWhere pre fun kv ↦ (kv.1.drop pre.length).head?.any (· ≤ Sep.uidValidity)

/-- `Core::purge_deleted_mailboxes`; of the account only its id and the ids of its mailboxes are
read.  An account without mailboxes is skipped. -/
def purgeDeletedMailboxes (accountId : String) (mailboxKeys : List String) : DbM ℕ :=
  if mailboxKeys.isEmpty then pure 0
  else
    let pre := serializeKeyAccountPrefix accountId
    removeWhere pre fun kv ↦
      let keyPart := kv.1.drop pre.length
      match keyPart.findIdx? (· ≤ Sep.uidValidity) with
      | some pos => 0 < pos && !mailboxKeys.any fun m ↦ asBytes m == keyPart.take pos
      | none => false

/-- `Core::purge_deleted_ids`: a value of twelve bytes is taken for a record of a deleted id, a
UID followed by the time of its removal. -/
def purgeDeletedIds (ttl now : ℕ) : DbM ℕ :=
  removeWhere [] fun kv ↦
    let insertTime := fromBeBytes (kv.2.drop 4)
    kv.2.length = 12 && (insertTime < now && ttl ≤ now - insertTime)

/-- `Core::uids` -/
def uids (mailbox : MailboxId) (now : ℕ) : DbM (ℕ × ℕ) := do
  pure (← uidValidity mailbox now, ← uidNext mailbox)

/-! ## Modification sequences -/

/-- `Core::state_to_modseq` (`core/mailbox.rs`). -/
def stateToModseq (accountId state : String) : DbM ℕ := do
  let modseqKey := serializeModseq (asBytes accountId) (asBytes state) Sep.stateToModseq
  let modseq ← do
    match ← Prog.read modseqKey with
    | some modseq => pure modseq
    | none =>
        let highest ← Prog.ofOption
          (← Prog.update (serializeHighestmodseq (asBytes accountId)) incrementUid)
        Prog.write modseqKey highest
        Prog.write (serializeModseq (asBytes accountId) highest Sep.modseqToState)
          (asBytes state)
        pure highest
  Prog.ofOption (u32FromBe modseq)

/-- `Core::modseq_to_state` (`core/mailbox.rs`). -/
def modseqToState (accountId : String) (modseq : ℕ) : DbM (Option String) := do
  match ← Prog.read (serializeModseq (asBytes accountId) (toBeBytes 4 modseq)
    Sep.modseqToState) with
  | some state => some <$> Prog.ofOption (fromUtf8 state)
  | none => pure none

end Db

end ImapToJmap
