import ImapToJmap.Core.Operations
import ImapToJmap.Core.View

/-!
# The COPYUID response

`SessionData::copy_move` reports which UID each copied message has received.  It collects the
source UIDs of the messages the JMAP server lists as copied, has the copies numbered in that order,
and then sorts the two lists *separately*.

What comes out belongs together only if sorting does not move the two lists against each other:
`copyUid_paired_iff`.  A message that is in the destination already, and a server that lists the
copies in an order of its own, are enough for a wrong pairing (`copyUid_crosses`).  In a copy to
another account the source UID is looked up under the id of the copy instead of the original's.
-/

namespace ImapToJmap

open Kv

/-- `ResponseCode::CopyUid` -/
structure CopyUid where
  uidValidity : ℕ
  srcUids : List ℕ
  destUids : List ℕ
deriving DecidableEq

/-- What the JMAP server answers to the requests of a COPY or MOVE, request by request and in its
own order. -/
inductive CopyReply where
  | /-- `Email/set` within the account: the updated ids. -/
    set (updated : List (Option (List String)))
  | /-- `Email/copy` to another account: each created email under the id of its original. -/
    copy (created : List (Option (List (String × String))))

/-- The copied messages in the order of the reply: the email in the source account and the one in
the destination account. -/
def CopyReply.listed : CopyReply → List (String × String)
  | set updated => updated.flatMap fun ids ↦ (ids.getD []).map fun id ↦ (id, id)
  | copy created => created.flatMap fun emails ↦ emails.getD []

/-- `src_uids`: looked up under the id of the copy. -/
def srcUids (ids : IdMap) (listed : List (String × String)) : List ℕ :=
  listed.filterMap fun x ↦ (ids.get? x.2).map ImapId.uid

/-- The part of `SessionData::copy_move` that builds the response code. -/
def copyUid (ids : IdMap) (reply : CopyReply) (dest : MailboxId) (now : ℕ) : DbM CopyUid := do
  let (_, destUids) ← Db.jmapToImap dest (reply.listed.map Prod.snd) .addIfMissing
  let (uidValidity, _) ← Db.uids dest now
  pure {
    uidValidity := uidValidity
    srcUids := sortNumbers (srcUids ids reply.listed)
    destUids := sortNumbers destUids }

/-- The two lists of the response code pair up: they have the same length, and at each position a
message of the source view and the UID its copy has received. -/
def Paired (src : MailboxData) (listed : List (String × String)) (dest : MailboxId) (db : Db)
    (code : CopyUid) : Prop :=
  code.srcUids.length = code.destUids.length ∧
    ∀ p ∈ code.srcUids.zip code.destUids, ∃ x ∈ listed, (x.1, p.1) ∈ src.pairs ∧
      db[serializeKey dest Sep.uidToJmap (toBeBytes 4 p.2)]? = some (asBytes x.2)

instance (src : MailboxData) (listed : List (String × String)) (dest : MailboxId) (db : Db)
    (code : CopyUid) : Decidable (Paired src listed dest db code) :=
  inferInstanceAs (Decidable (code.srcUids.length = code.destUids.length ∧
    ∀ p ∈ code.srcUids.zip code.destUids, ∃ x ∈ listed, (x.1, p.1) ∈ src.pairs ∧
      db[serializeKey dest Sep.uidToJmap (toBeBytes 4 p.2)]? = some (asBytes x.2)))

/-- What a server guarantees: it lists messages that were asked for, each of them once, with a
different copy for each. -/
structure CopyReply.Answers (reply : CopyReply) (ids : IdMap) : Prop where
  asked : ∀ x ∈ reply.listed, x.1 ∈ ids.keys
  nodup : (reply.listed.map Prod.fst).Nodup
  nodup_copies : (reply.listed.map Prod.snd).Nodup
  isJmapId : ∀ x ∈ reply.listed, IsJmapId x.2

/-- The server lists the copied messages so that sorting keeps them together: the copies bear the
ids of the originals, and they come into the destination in the order of their source UIDs. -/
def CopyReply.InOrder (reply : CopyReply) (ids : IdMap) (T : UidTable String) : Prop :=
  (reply.listed.map Prod.snd).Perm (reply.listed.map Prod.fst) ∧
    ∀ x ∈ reply.listed, ∀ y ∈ reply.listed, ∀ i j, ids.get? x.1 = some i → ids.get? y.1 = some j →
      (i.uid < j.uid ↔ T.Before (reply.listed.map Prod.snd) x.2 y.2)

section

variable {db : Db} {dest : MailboxId} {T : UidTable String} {ids : IdMap} {reply : CopyReply}

/-- The response code, whatever it says. -/
theorem copyUid_run (hrep : Represents db dest T) (hans : reply.Answers ids)
    (hlt : (T.ensureAll (reply.listed.map Prod.snd)).next + 1 < 2 ^ 32) (now : ℕ) :
    ∃ validity uids db', (copyUid ids reply dest now).run db =
        (some ⟨validity, sortNumbers (srcUids ids reply.listed), sortNumbers uids⟩, db') ∧
      Represents db' dest (T.ensureAll (reply.listed.map Prod.snd)) ∧
      List.Forall₂ (fun i u ↦ (u, i) ∈ (T.ensureAll (reply.listed.map Prod.snd)).entries)
        (reply.listed.map Prod.snd) uids := by
  have hid : ∀ i ∈ reply.listed.map Prod.snd, IsJmapId i := by
    intro i hi
    obtain ⟨x, hx, rfl⟩ := List.mem_map.mp hi
    exact hans.isJmapId x hx
  obtain ⟨uids, db₁, hmap, hrep₁, -, hall⟩ :=
    Db.mapIds_run_add hrep hid [] [] (Nat.lt_of_succ_lt hlt)
  obtain ⟨v, db₂, hval, hrep₂, -⟩ := Db.uidValidity_run hrep₁ now
  refine ⟨v, uids, db₂, ?_, hrep₂, hall⟩
  rw [copyUid, Db.jmapToImap, Prog.run_bind_of_eq hmap]
  have huids : (Db.uids dest now).run db₁ =
      (some (v, (T.ensureAll (reply.listed.map Prod.snd)).next + 1), db₂) := by
    rw [Db.uids, Prog.run_bind_of_eq hval, Prog.run_bind_of_eq (Db.uidNext_run hrep₂ hlt),
      Prog.run_pure]
  dsimp only
  rw [Prog.run_bind_of_eq huids]
  rfl

/-- The source UID of a message, as the sequence set resolved it. -/
def srcUid (ids : IdMap) (id : String) : ℕ := ((ids.get? id).map ImapId.uid).getD 0

/-- The UID of a message in a table. -/
def destUid (T : UidTable String) (id : String) : ℕ := (T.uid? id).getD 0

theorem destUid_eq {T : UidTable String} {u : ℕ} {i : String} (h : (u, i) ∈ T.entries) :
    destUid T i = u := by
  rw [destUid, UidTable.uid?_eq_some.mpr h, Option.getD_some]

theorem eq_map_destUid {T : UidTable String} {l : List String} {uids : List ℕ}
    (h : List.Forall₂ (fun i u ↦ (u, i) ∈ T.entries) l uids) : uids = l.map (destUid T) := by
  induction h with
  | nil => rfl
  | cons hu _ ih => rw [List.map_cons, ← ih, destUid_eq hu]

theorem srcUid_eq {id : String} {i : ImapId} (h : ids.get? id = some i) :
    srcUid ids id = i.uid := by
  rw [srcUid, h, Option.map_some, Option.getD_some]

/-- The originals were resolved. -/
theorem CopyReply.Answers.get? (hans : reply.Answers ids) (hnd : ids.keys.Nodup)
    {x : String × String} (hx : x ∈ reply.listed) : ∃ i, ids.get? x.1 = some i := by
  obtain ⟨e, he, hkey⟩ := List.mem_map.mp (hans.asked x hx)
  exact ⟨e.2, (IdMap.get?_eq_some hnd).mpr (hkey ▸ he)⟩

/-- The UIDs that were collected are those of the originals if and only if the copies bear the ids
of the originals. -/
theorem srcUids_perm_iff (hnd : ids.keys.Nodup) (huid : (ids.map fun e ↦ e.2.uid).Nodup)
    (hans : reply.Answers ids) :
    (srcUids ids reply.listed).Perm (reply.listed.map fun x ↦ srcUid ids x.1) ↔
      (reply.listed.map Prod.snd).Perm (reply.listed.map Prod.fst) := by
  have hsrc : srcUids ids reply.listed =
      (reply.listed.map Prod.snd).filterMap fun id ↦ (ids.get? id).map ImapId.uid := by
    rw [srcUids, List.filterMap_map]
    rfl
  have hfst : (reply.listed.map fun x ↦ srcUid ids x.1) =
      (reply.listed.map Prod.fst).filterMap fun id ↦ (ids.get? id).map ImapId.uid := by
    rw [List.filterMap_map, ← List.filterMap_eq_map]
    refine List.filterMap_congr fun x hx ↦ ?_
    obtain ⟨i, hi⟩ := hans.get? hnd hx
    simp [srcUid, hi]
  constructor
  · intro hperm
    -- the UID of an original is that of a copy with the same id
    have hsub : reply.listed.map Prod.fst ⊆ reply.listed.map Prod.snd := by
      intro o ho
      obtain ⟨x, hx, rfl⟩ := List.mem_map.mp ho
      obtain ⟨i, hi⟩ := hans.get? hnd hx
      have hmem : i.uid ∈ srcUids ids reply.listed :=
        hperm.mem_iff.mpr (List.mem_map.mpr ⟨x, hx, srcUid_eq hi⟩)
      obtain ⟨y, hy, hyu⟩ := List.mem_filterMap.mp hmem
      obtain ⟨j, hj, hji⟩ := Option.map_eq_some_iff.mp hyu
      have heq := List.inj_on_of_nodup_map huid ((IdMap.get?_eq_some hnd).mp hi)
        ((IdMap.get?_eq_some hnd).mp hj) hji.symm
      exact List.mem_map.mpr ⟨y, hy, (congrArg Prod.fst heq).symm⟩
    exact ((hans.nodup.subperm hsub).perm_of_length_le (by simp)).symm
  · intro hperm
    rw [hsrc, hfst]
    exact hperm.filterMap _

/-- The two keys of the copied messages tell them apart. -/
theorem nodup_srcUid (hnd : ids.keys.Nodup) (huid : (ids.map fun e ↦ e.2.uid).Nodup)
    (hans : reply.Answers ids) : (reply.listed.map fun x ↦ srcUid ids x.1).Nodup := by
  refine List.Nodup.map_on (fun x hx y hy heq ↦ ?_) (List.Nodup.of_map Prod.fst hans.nodup)
  obtain ⟨i, hi⟩ := hans.get? hnd hx
  obtain ⟨j, hj⟩ := hans.get? hnd hy
  rw [srcUid_eq hi, srcUid_eq hj] at heq
  have hentry := List.inj_on_of_nodup_map huid ((IdMap.get?_eq_some hnd).mp hi)
    ((IdMap.get?_eq_some hnd).mp hj) heq
  exact List.inj_on_of_nodup_map hans.nodup hx hy (Prod.mk.inj hentry).1

theorem mem_destUid (T : UidTable String) {x : String × String} (hx : x ∈ reply.listed) :
    (destUid (T.ensureAll (reply.listed.map Prod.snd)) x.2, x.2) ∈
      (T.ensureAll (reply.listed.map Prod.snd)).entries := by
  have hx' : x.2 ∈ (T.ensureAll (reply.listed.map Prod.snd)).ids :=
    UidTable.mem_ids_ensureAll.mpr (.inr (List.mem_map.mpr ⟨x, hx, rfl⟩))
  obtain ⟨u, hu⟩ := UidTable.mem_ids.mp hx'
  rwa [destUid_eq hu]

theorem nodup_destUid (T : UidTable String) (hans : reply.Answers ids) :
    (reply.listed.map fun x ↦
      destUid (T.ensureAll (reply.listed.map Prod.snd)) x.2).Nodup := by
  refine List.Nodup.map_on (fun x hx y hy heq ↦ ?_) (List.Nodup.of_map Prod.fst hans.nodup)
  have heq' : x.2 = y.2 := UidTable.id_unique (mem_destUid T hx) (heq ▸ mem_destUid T hy)
  exact List.inj_on_of_nodup_map hans.nodup_copies hx hy heq'

/-- A pair of collected UIDs is right for a message exactly if it is the pair of its keys. -/
theorem pair_iff {src : MailboxData} (huids : src.imapUids.Nodup) (hnd : ids.keys.Nodup)
    (hview : ∀ e ∈ ids, (e.1, e.2.uid) ∈ src.pairs) (hans : reply.Answers ids)
    (hrep : Represents db dest (T.ensureAll (reply.listed.map Prod.snd)))
    {x y z : String × String} (hx : x ∈ reply.listed) (hy : y ∈ reply.listed) {i : ImapId}
    (hz : ids.get? z.2 = some i) :
    ((x.1, i.uid) ∈ src.pairs ∧
      db[serializeKey dest Sep.uidToJmap (toBeBytes 4
        (destUid (T.ensureAll (reply.listed.map Prod.snd)) y.2))]? = some (asBytes x.2)) ↔
    (i.uid, destUid (T.ensureAll (reply.listed.map Prod.snd)) y.2) =
      (srcUid ids x.1, destUid (T.ensureAll (reply.listed.map Prod.snd)) x.2) := by
  rw [getElem?_serializeKey, Prod.mk.injEq]
  refine and_congr ⟨fun h ↦ ?_, fun h ↦ ?_⟩ ⟨fun h ↦ ?_, fun h ↦ ?_⟩
  · -- the UID was found under the id of `z`, so `z` bears the id of the message
    have hzi := hview _ ((IdMap.get?_eq_some hnd).mp hz)
    have heq : x.1 = z.2 := MailboxData.pairs_unique huids h hzi
    rw [srcUid_eq (heq ▸ hz)]
  · obtain ⟨j, hj⟩ := hans.get? hnd hx
    rw [h, srcUid_eq hj]
    exact hview _ ((IdMap.get?_eq_some hnd).mp hj)
  · obtain ⟨e, he, hu, hid⟩ := (hrep.uidToJmap _ _).mp h
    have hy' := mem_destUid T hy
    have hue := (toBeBytes_inj (hrep.lt_of_mem hy') (hrep.lt_of_mem he)).mp hu
    have hmem : (e.1, x.2) ∈ (T.ensureAll (reply.listed.map Prod.snd)).entries :=
      asBytes_injective hid ▸ he
    rw [destUid_eq hmem]
    exact hue
  · rw [h]
    exact (hrep.uidToJmap _ _).mpr ⟨_, mem_destUid T hx, rfl, rfl⟩

/-- **COPYUID pairs source and destination exactly when the server lists the copies in order.**
For any selected mailbox, any sequence set, any order of the id map and any order of the reply, the
response code pairs each source UID with the UID its copy has received if and only if the copies
bear the ids of the originals (as they do within an account) and come into the destination in the
order of their source UIDs. -/
theorem copyUid_paired_iff {src : SelectedMailbox} {sequence : Sequence} {isUid : Bool}
    (huids : src.state.imapUids.Nodup)
    (hsaved : sequence.isSavedSearch = true → src.SavedInPlace)
    (hseq : src.sequenceToJmap sequence isUid = .ok ids) (hans : reply.Answers ids)
    (hrep : Represents db dest T)
    (hlt : (T.ensureAll (reply.listed.map Prod.snd)).next + 1 < 2 ^ 32) (now : ℕ) :
    ∃ code db', (copyUid ids reply dest now).run db = (some code, db') ∧
      (Paired src.state reply.listed dest db' code ↔ reply.InOrder ids T) := by
  obtain ⟨hnd, hview⟩ := SelectedMailbox.sequenceToJmap_pairs hsaved hseq
  obtain ⟨v, uids, db', hrun, hrep', hall⟩ := copyUid_run hrep hans hlt now
  have huid : (ids.map fun e ↦ e.2.uid).Nodup := by
    refine List.Nodup.map_on (fun e he e' he' heq ↦ ?_) (List.Nodup.of_map Prod.fst hnd)
    exact List.inj_on_of_nodup_map hnd he he'
      (MailboxData.pairs_unique huids (hview e he) (heq ▸ hview e' he'))
  have hdest : uids = reply.listed.map fun x ↦
      destUid (T.ensureAll (reply.listed.map Prod.snd)) x.2 := by
    rw [eq_map_destUid hall, List.map_map]
    rfl
  subst hdest
  refine ⟨_, db', hrun, ?_⟩
  rw [CopyReply.InOrder, ← srcUids_perm_iff hnd huid hans]
  refine Iff.trans ?_ ((zip_sortNumbers_iff (P := srcUids ids reply.listed)
    (nodup_srcUid hnd huid hans) (nodup_destUid T hans)).trans ?_)
  · refine and_congr_right fun _ ↦ forall₂_congr fun p hp ↦ exists_congr fun x ↦
      and_congr_right fun hx ↦ ?_
    obtain ⟨p₁, p₂⟩ := p
    obtain ⟨hp₁, hp₂⟩ := List.of_mem_zip hp
    obtain ⟨z, -, hz⟩ := List.mem_filterMap.mp ((perm_sortNumbers _).mem_iff.mp hp₁)
    obtain ⟨i, hi, rfl⟩ := Option.map_eq_some_iff.mp hz
    obtain ⟨y, hy, rfl⟩ := List.mem_map.mp ((perm_sortNumbers _).mem_iff.mp hp₂)
    exact pair_iff huids hnd hview hans hrep' hx hy hi
  · refine and_congr_right fun _ ↦ forall₂_congr fun x hx ↦ forall₂_congr fun y hy ↦ ?_
    rw [UidTable.lt_iff_before hans.nodup_copies (mem_destUid T hx) (mem_destUid T hy)]
    obtain ⟨i, hi⟩ := hans.get? hnd hx
    obtain ⟨j, hj⟩ := hans.get? hnd hy
    simp [srcUid_eq hi, srcUid_eq hj, hi, hj]

end

/-- A source mailbox with the messages `M1` and `M2`. -/
def twoMessages : SelectedMailbox where
  id := ⟨"u1", some "A"⟩
  state := ⟨3, 1, ["M1", "M2"], [1, 2], 2, ""⟩
  savedSearch := .none
  isSelect := true

/-- Both messages copied to an empty mailbox, listed by the server in their order. -/
theorem copyUid_paired_inOrder :
    ∃ code db', (copyUid [("M1", ⟨1, 1⟩), ("M2", ⟨2, 2⟩)] (.set [some ["M1", "M2"]])
        ⟨"u1", some "B"⟩ 0).run ∅ = (some code, db') ∧
      Paired twoMessages.state [("M1", "M1"), ("M2", "M2")] ⟨"u1", some "B"⟩ db' code := by
  have hseq : twoMessages.sequenceToJmap (.range (some 1) none) false =
      .ok [("M1", ⟨1, 1⟩), ("M2", ⟨2, 2⟩)] := rfl
  have hans : (CopyReply.set [some ["M1", "M2"]]).Answers [("M1", ⟨1, 1⟩), ("M2", ⟨2, 2⟩)] :=
    ⟨by decide, by decide, by decide, by decide +kernel⟩
  have hnext : ((UidTable.empty : UidTable String).ensureAll ["M1", "M2"]).next + 1 < 2 ^ 32 := by
    decide +kernel
  obtain ⟨code, db', hrun, hiff⟩ := copyUid_paired_iff (by decide)
    (fun h ↦ absurd h (by simp [Sequence.isSavedSearch])) hseq hans
    (Represents.empty ⟨"u1", some "B"⟩) hnext 0
  refine ⟨code, db', hrun, hiff.mpr ⟨.refl _, ?_⟩⟩
  have hlisted : (CopyReply.set [some ["M1", "M2"]]).listed = [("M1", "M1"), ("M2", "M2")] := rfl
  simp only [hlisted, List.forall_mem_cons, List.not_mem_nil, false_implies, implies_true,
    and_true]
  refine ⟨⟨?_, ?_⟩, ?_, ?_⟩ <;> rintro i j ⟨⟩ ⟨⟩ <;>
    simp [UidTable.Before, UidTable.uid?, UidTable.empty]

/-- **The pairing crosses.**  The server lists `M2` before `M1`, so `M2` gets the UID 1 in the
destination; the response code says that it went to the message with the source UID 1, `M1`. -/
theorem copyUid_crosses :
    (CopyReply.set [some ["M2", "M1"]]).Answers [("M1", ⟨1, 1⟩), ("M2", ⟨2, 2⟩)] ∧
    twoMessages.sequenceToJmap (.range (some 1) none) false =
      .ok [("M1", ⟨1, 1⟩), ("M2", ⟨2, 2⟩)] ∧
    ∃ code db', (copyUid [("M1", ⟨1, 1⟩), ("M2", ⟨2, 2⟩)] (.set [some ["M2", "M1"]])
        ⟨"u1", some "B"⟩ 0).run ∅ = (some code, db') ∧
      ¬ Paired twoMessages.state [("M2", "M2"), ("M1", "M1")] ⟨"u1", some "B"⟩ db' code := by
  refine ⟨⟨by decide, by decide, by decide, by decide +kernel⟩, rfl, ⟨0, [1, 2], [1, 2]⟩,
    ((copyUid [("M1", ⟨1, 1⟩), ("M2", ⟨2, 2⟩)] (.set [some ["M2", "M1"]])
      ⟨"u1", some "B"⟩ 0).run ∅).2, Prod.ext (by decide +kernel) rfl, by decide +kernel⟩

end ImapToJmap
