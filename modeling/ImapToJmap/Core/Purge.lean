import ImapToJmap.Core.Kept

/-!
# The purge of deleted ids

`purge_deleted_ids` goes over all of the database and knows its records by their length.  Another
value of twelve bytes is a text, and a text read as a time lies far ahead.

`purge_exact` is what the purge removes, in every state that a run of the operations reaches, as
long as no call of `update_uids` finds a modseq among the UIDs of its mailbox (`Apart`).  Such a
call leaves a record of a deleted id that is not twelve bytes long, and it stays
(`purge_leaves_record`).
-/

namespace ImapToJmap

open Kv Run

/-- The record of an email deleted at a time that the purge is to reach. -/
def Due (ttl now : ℕ) (k v : Bytes) : Prop :=
  ∃ (m : MailboxId) (i : String) (u : Bytes) (t : ℕ), m.Text ∧ IsText i ∧
    k = serializeKey m Sep.jmapDeletedIds (asBytes i) ∧ v = u ++ toBeBytes 8 t ∧
      t < now ∧ ttl ≤ now - t

/-- What the purge is to do: from `db` to `db'`, removing the records that are due and no other. -/
structure PurgesTo (db db' : Db) (ttl now : ℕ) (removed : List Bytes) : Prop where
  nodup : removed.Nodup
  due : ∀ k, k ∈ removed ↔ ∃ v, db[k]? = some v ∧ Due ttl now k v
  /-- It returns their number. -/
  run : (Db.purgeDeletedIds ttl now).run db = (some removed.length, db')
  get : ∀ k, db'[k]? = if k ∈ removed then none else db[k]?
  /-- The maps of UIDs, the counter and the UIDVALIDITY of every mailbox are kept. -/
  mailbox : ∀ m : MailboxId, m.Text → ∀ x ≤ Sep.uidValidity, ∀ b,
    db'[serializeKey m x b]? = db[serializeKey m x b]?
  /-- So are the modseqs. -/
  modseq : ∀ a b : Bytes, ∀ x ≤ Sep.highestModseq,
    db'[serializeModseq a b x]? = db[serializeModseq a b x]?

/-- The purge does this. -/
def Purges (db : Db) (ttl now : ℕ) : Prop := ∃ db' removed, PurgesTo db db' ttl now removed

/-- What is under `JMAP_DELETED_IDS`. -/
theorem Stored.of_jmapDeletedIds {m : MailboxId} {i : String} {v : Bytes} (hm : m.Text)
    (hi : IsText i)
    (h : Stored (serializeKey m Sep.jmapDeletedIds (asBytes i)) v) :
    ∃ u t, u.length = 4 ∧ t < 2 ^ 56 ∧ v = u ++ toBeBytes 8 t := by
  obtain ⟨a, s, n, -, -, -, -, hk⟩ | ⟨a, p, x, rest, ha, hp, hx, hk, hfits⟩ := h.shape
  · exfalso
    have hlast := congrArg List.getLast? hk
    rw [serializeModseq, List.getLast?_concat, serializeKey,
      List.getLast?_append_of_ne_nil _ hi.1] at hlast
    have hle := (hi.2 _ (List.mem_of_getLast? hlast)).1
    exact absurd hle (by decide)
  · rw [serializeKey_textKey] at hk
    obtain ⟨-, -, rfl, -⟩ := textKey_inj hm.account ha hm.le_of_mem hp (by decide)
      (not_le_of_sep hx) hk
    obtain ⟨i', u, t, -, -, hu, ht, hv⟩ : ∃ (i : String) (u : Bytes) (t : ℕ), IsText i ∧
      rest = asBytes i ∧ u.length = 4 ∧ t < 2 ^ 56 ∧ v = u ++ toBeBytes 8 t := hfits
    exact ⟨u, t, hu, ht, hv⟩

/-- The choice of `purge_deleted_ids`. -/
def isDue (ttl now : ℕ) (kv : Bytes × Bytes) : Bool :=
  kv.2.length = 12 && (fromBeBytes (kv.2.drop 4) < now && ttl ≤ now - fromBeBytes (kv.2.drop 4))

theorem isDue_iff {ttl now : ℕ} {kv : Bytes × Bytes} : isDue ttl now kv = true ↔
    kv.2.length = 12 ∧ fromBeBytes (kv.2.drop 4) < now ∧ ttl ≤ now - fromBeBytes (kv.2.drop 4) := by
  simp [isDue]

section Typed

variable {ttl now : ℕ} {k v : Bytes}

/-- A UID and a time, read as the purge reads them. -/
theorem isDue_append {u : Bytes} {t : ℕ} (hu : u.length = 4) (ht : t < 2 ^ 56) :
    isDue ttl now (k, u ++ toBeBytes 8 t) = true ↔ t < now ∧ ttl ≤ now - t := by
  have hdrop : (u ++ toBeBytes 8 t).drop 4 = toBeBytes 8 t := by
    rw [← hu, List.drop_left]
  have ht' : fromBeBytes (toBeBytes 8 t) = t := by
    rw [fromBeBytes_toBeBytes]
    exact Nat.mod_eq_of_lt (by omega)
  rw [isDue_iff]
  dsimp only
  rw [hdrop, ht', List.length_append, hu, length_toBeBytes]
  exact and_iff_right rfl

/-- A text is never due. -/
theorem not_isDue_text (hnow : now < 2 ^ 56) {s : String} (hs : IsText s) :
    ¬ isDue ttl now (k, asBytes s) = true := by
  intro hdue
  obtain ⟨hlen, hlt, -⟩ := isDue_iff.mp hdue
  have hle := Db.le_fromBeBytes_drop (fun b hb ↦ (hs.2 b hb).1) hlen
  dsimp only at hlt
  omega

theorem not_isDue_of_length (h : v.length = 4) : ¬ isDue ttl now (k, v) = true := by
  intro hdue
  have hlen := (isDue_iff.mp hdue).1
  dsimp only at hlen
  omega

/-- **Among records, the choice is right.** -/
theorem Stored.isDue_iff (h : Stored k v) (hnow : now < 2 ^ 56) :
    isDue ttl now (k, v) = true ↔ Due ttl now k v := by
  constructor
  · intro hdue
    cases h with
    | jmapDeletedIds hm hi hu ht =>
        obtain ⟨hlt, hle⟩ := (isDue_append hu ht).mp hdue
        exact ⟨_, _, _, _, hm, hi, rfl, rfl, hlt, hle⟩
    | uidToJmap _ _ hi => exact absurd hdue (not_isDue_text hnow hi)
    | modseqToState _ _ hs => exact absurd hdue (not_isDue_text hnow hs)
    | jmapToUid _ _ hv => exact absurd hdue (not_isDue_of_length hv)
    | uidNext _ hv => exact absurd hdue (not_isDue_of_length hv)
    | uidValidity _ hv => exact absurd hdue (not_isDue_of_length hv)
    | stateToModseq _ _ hv => exact absurd hdue (not_isDue_of_length hv)
    | highestModseq _ hv => exact absurd hdue (not_isDue_of_length hv)
  · rintro ⟨m, i, u, t, hm, hi, rfl, rfl, hlt, hle⟩
    obtain ⟨u', t', hu', ht', hv⟩ := h.of_jmapDeletedIds hm hi
    obtain ⟨rfl, hbytes⟩ := List.append_inj' hv (by simp)
    obtain rfl := (toBeBytes_inj (by omega) (by omega)).mp hbytes
    exact (isDue_append hu' ht').mpr ⟨hlt, hle⟩

/-- What is due lies under `JMAP_DELETED_IDS`. -/
theorem Due.ne_serializeKey (h : Due ttl now k v) {m : MailboxId} (hm : m.Text) {x : UInt8}
    (hx : x ≤ Sep.uidValidity) (b : Bytes) : serializeKey m x b ≠ k := by
  obtain ⟨m', i, u, t, hm', -, rfl, -⟩ := h
  intro heq
  rw [serializeKey_textKey, serializeKey_textKey] at heq
  have hx' : x ≤ 7 := UInt8.le_trans hx (by decide)
  obtain ⟨-, -, rfl, -⟩ := textKey_inj hm.account hm'.account hm.le_of_mem hm'.le_of_mem
    (not_le_of_sep hx') (not_le_of_sep (by decide)) heq
  exact absurd hx (by decide)

theorem Due.ne_serializeModseq (h : Due ttl now k v) {x : UInt8} (hx : x ≤ Sep.highestModseq)
    (a b : Bytes) : serializeModseq a b x ≠ k := by
  obtain ⟨m, i, u, t, -, hi, rfl, -⟩ := h
  intro heq
  have hlast := congrArg List.getLast? heq
  rw [serializeModseq, List.getLast?_concat, serializeKey,
    List.getLast?_append_of_ne_nil _ hi.1] at hlast
  have hle := (hi.2 _ (List.mem_of_getLast? hlast.symm)).1
  exact not_le_of_sep (UInt8.le_trans hx (by decide)) hle

/-- **The purge of a database of records.** -/
theorem purges_of_typed {db : Db} (h : Typed Stored db) (ttl : ℕ) (hnow : now < 2 ^ 56) :
    Purges db ttl now := by
  have hmem : ∀ k, k ∈ ((db.scanPrefix []).filter (isDue ttl now)).map Prod.fst ↔
      ∃ v, db[k]? = some v ∧ Due ttl now k v := by
    intro k
    simp only [List.mem_map, List.mem_filter, Prod.exists, exists_and_right, exists_eq_right,
      Tree.mem_scanPrefix, List.nil_prefix, and_true]
    constructor
    · rintro ⟨v, hget, hdue⟩
      exact ⟨v, hget, ((h k v hget).isDue_iff hnow).mp hdue⟩
    · rintro ⟨v, hget, hdue⟩
      exact ⟨v, hget, ((h k v hget).isDue_iff hnow).mpr hdue⟩
  have hget := Tree.getElem?_applyBatch_remove db
    (((db.scanPrefix []).filter (isDue ttl now)).map Prod.fst)
  refine ⟨_, _, ?_, hmem, Db.removeWhere_eq db [] (isDue ttl now), hget, ?_, ?_⟩
  · -- the keys of a scan are in strict order
    have hpw := (Tree.pairwise_scanPrefix db []).filter (isDue ttl now)
    refine List.Pairwise.map _ (fun a b hlt heq ↦ ?_) hpw
    rw [heq] at hlt
    simp [Std.ReflCmp.compare_self] at hlt
  · intro m hm x hx b
    rw [hget, if_neg]
    intro hk
    obtain ⟨v, -, hdue⟩ := (hmem _).mp hk
    exact hdue.ne_serializeKey hm hx b rfl
  · intro a b x hx
    rw [hget, if_neg]
    intro hk
    obtain ⟨v, -, hdue⟩ := (hmem _).mp hk
    exact hdue.ne_serializeModseq hx a b rfl

end Typed

/-- The keys of a mailbox with an id of four bytes or more begin like no modseq. -/
theorem apart_of_length (db : Db) {m : MailboxId} (h : 4 ≤ m.mailboxBytes.length) : Apart db m := by
  intro _ n _ hpre
  have hle := hpre.length_le
  rw [List.length_append, List.length_singleton, length_toBeBytes] at hle
  omega

/-- **The purge is exact.**  In every state that a run reaches from nothing it removes the records
of the deletions that are due, and nothing else. -/
theorem purge_exact (calls : List DbOp) (hcalls : ∀ c ∈ calls, c.Printable)
    (hapart : Along DbOp.apply DbOp.Apart ∅ calls) (ttl now : ℕ) (hnow : now < 2 ^ 56) :
    Purges (exec DbOp.apply ∅ calls) ttl now :=
  purges_of_typed (DbOp.typed_exec hcalls hapart) ttl hnow

/-- A message that has come and gone. -/
theorem purge_exact_inbox :
    let calls : List DbOp := [.modseq (.stateToModseq "a" "s"),
      .uid (.updateUids ⟨"a", some "inbox"⟩ (fun _ ↦ 1700000000) ["x", "y"]),
      .uid (.updateUids ⟨"a", some "inbox"⟩ (fun _ ↦ 1700003600) ["y"])]
    (∀ c ∈ calls, c.Printable) ∧ Along DbOp.apply DbOp.Apart ∅ calls ∧
      Purges (exec DbOp.apply ∅ calls) 60 1700007200 := by
  intro calls
  have hinbox : MailboxId.Text ⟨"a", some "inbox"⟩ := ⟨by decide +kernel, by decide +kernel⟩
  have hcalls : ∀ c ∈ calls, c.Printable := by
    simp only [calls, List.forall_mem_cons]
    refine ⟨⟨by decide +kernel, by decide +kernel⟩, ⟨hinbox, fun _ ↦ ?_, by decide +kernel⟩,
      ⟨hinbox, fun _ ↦ ?_, by decide +kernel⟩, by simp⟩
    · show 1700000000 < 2 ^ 56
      decide
    · show 1700003600 < 2 ^ 56
      decide
  have hapart : Along DbOp.apply DbOp.Apart ∅ calls := by
    have hlong : 4 ≤ (MailboxId.mailboxBytes ⟨"a", some "inbox"⟩).length := by decide +kernel
    exact ⟨trivial, apart_of_length _ hlong, apart_of_length _ hlong, trivial⟩
  exact ⟨hcalls, hapart, purge_exact calls hcalls hapart 60 1700007200 (by decide)⟩

/-! ## A record that stays -/

/-- Different states, all texts. -/
def stateName (n : ℕ) : String := String.ofList (List.replicate (n + 1) 's')

theorem asBytes_stateName (n : ℕ) : asBytes (stateName n) = List.replicate (n + 1) 115 := by
  have hs : String.utf8EncodeChar 's' = [115] := by decide
  rw [stateName, asBytes_eq_flatMap, String.toList_ofList, List.flatMap_replicate, hs]
  induction n with
  | zero => rfl
  | succ n ih => rw [List.replicate_succ, List.flatten_cons, ih]; rfl

theorem isText_stateName (n : ℕ) : IsText (stateName n) := by
  rw [IsText, asBytes_stateName]
  refine ⟨by simp, fun b hb ↦ ?_⟩
  rw [List.eq_of_mem_replicate hb]
  decide

theorem stateName_injective : Function.Injective stateName := by
  intro m n h
  have hlen := congrArg (fun s ↦ (asBytes s).length) h
  simpa [asBytes_stateName] using hlen

theorem isText_a : IsText "a" := by decide +kernel

/-- Calls for the modseqs of `n` states. -/
def namings (n : ℕ) : List ModseqCall :=
  (List.range n).map fun j ↦ .stateToModseq "a" (stateName j)

/-- Many states of an account, then a mailbox without messages. -/
def crowded (n : ℕ) : List DbOp :=
  (namings n).map .modseq ++ [.uid (.updateUids ⟨"a", some "!"⟩ (fun _ ↦ 1700000000) [])]

/-- The states are on the roll of the account, each once. -/
theorem length_roll_namings (n : ℕ) : (rollsAfter (namings n) "a").length = n := by
  have hperm : (rollsAfter (namings n) "a").Perm ((List.range n).map stateName) := by
    refine (List.perm_ext_iff_of_nodup (nodup_rollsAfter _ _)
      (List.nodup_range.map stateName_injective)).mpr fun s ↦ ?_
    simp [mem_rollsAfter, namings]
  rw [hperm.length_eq, List.length_map, List.length_range]

/-- Calls for modseqs among the calls of all operations. -/
theorem exec_map_modseq (db : Db) (calls : List ModseqCall) :
    exec DbOp.apply db (calls.map .modseq) = final ModseqCall.call db calls := by
  induction calls generalizing db with
  | nil => rfl
  | cons c calls ih => exact ih _

theorem zero_notMem_of_isText {a : String} (h : IsText a) : 0 ∉ asBytes a := by
  intro h0
  exact absurd (h.2 0 h0).1 (by decide)

/-- A record of the states of account "a": its key ends in a separator, before which is a text or a
number. -/
def OfStates (k _v : Bytes) : Prop :=
  ∃ (b : Bytes) (x : UInt8), k = serializeModseq (asBytes "a") b x ∧
    ((∀ y ∈ b, 32 ≤ y) ∧ (x = Sep.stateToModseq ∨ x = Sep.highestModseq) ∨
      b.length = 4 ∧ x = Sep.modseqToState)

theorem typed_namings (n : ℕ) : Typed OfStates (exec DbOp.apply ∅ ((namings n).map .modseq)) := by
  refine exec_induct (C := fun _ c ↦ ∃ s, IsText s ∧ c = .modseq (.stateToModseq "a" s))
    (Typed OfStates) typed_empty ?_ (along_of_forall fun c hc db ↦ ?_)
  · rintro db c hdb ⟨s, hs, rfl⟩
    have hsound := Db.sound_stateToModseq (P := OfStates) (a := "a") (s := s)
      (fun v _ ↦ ⟨_, _, rfl, .inl ⟨fun y hy ↦ (hs.2 y hy).1, .inl rfl⟩⟩)
      (fun n hn ↦ ⟨_, _, rfl, .inr ⟨hn, rfl⟩⟩)
      fun v _ ↦ ⟨[], _, serializeHighestmodseq_eq _, .inl ⟨by simp, .inr rfl⟩⟩
    exact ((Prog.sound_bind hsound fun n _ ↦
      Prog.sound_pure (Q := fun _ ↦ True) trivial).run hdb).1
  · obtain ⟨c', hc', rfl⟩ := List.mem_map.mp hc
    obtain ⟨j, -, rfl⟩ := List.mem_map.mp hc'
    exact ⟨_, isText_stateName j, rfl⟩

/-- The mailbox of the run. -/
abbrev crowdedMailbox : MailboxId := ⟨"a", some "!"⟩

theorem text_crowdedMailbox : crowdedMailbox.Text where
  account := isText_a
  mailbox := by decide +kernel

/-- Among the records of the states only numbers begin like the keys of the mailbox. -/
theorem OfStates.of_textKey {x : UInt8} {r k v : Bytes} (h : OfStates k v) (hx : x ≤ 3)
    (hk : k = textKey "a" crowdedMailbox.mailboxBytes x r) :
    ∃ b : Bytes, b.length = 4 ∧ crowdedMailbox.mailboxBytes ++ x :: r = b ++ [Sep.modseqToState] ∧
      k = serializeModseq (asBytes "a") b Sep.modseqToState := by
  obtain ⟨b, y, rfl, ⟨hb, hy⟩ | ⟨hb, rfl⟩⟩ := h
  · exfalso
    have hkey : serializeModseq (asBytes "a") b y = textKey "a" b y [] := by
      simp [serializeModseq, textKey]
    rw [hkey] at hk
    have hy7 : y ≤ 7 := by rcases hy with rfl | rfl <;> decide
    obtain ⟨-, -, rfl, -⟩ := textKey_inj isText_a isText_a hb text_crowdedMailbox.le_of_mem
      (not_le_of_sep hy7) (not_le_of_sep (UInt8.le_trans hx (by decide))) hk
    rcases hy with rfl | rfl <;> exact absurd hx (by decide)
  · refine ⟨b, hb, ?_, rfl⟩
    have h' : asBytes "a" ++ (0 :: (b ++ [Sep.modseqToState])) =
        asBytes "a" ++ 0 :: (crowdedMailbox.mailboxBytes ++ x :: r) := by
      simpa [serializeModseq, textKey] using hk
    exact (List.cons_injective (List.append_cancel_left h')).symm

theorem mailboxBytes_crowdedMailbox : crowdedMailbox.mailboxBytes = [33] := by decide +kernel

section Crowded

variable {n : ℕ}

theorem numbers_namings (hlt : n < 2 ^ 32) :
    Numbers (exec DbOp.apply ∅ ((namings n).map .modseq)) (rollsAfter (namings n)) := by
  rw [exec_map_modseq]
  refine numbers_final .empty (fun c hc ↦ ?_) fun a ↦ ?_
  · obtain ⟨j, -, rfl⟩ := List.mem_map.mp hc
    exact zero_notMem_of_isText isText_a
  · by_cases ha : a = "a"
    · rw [ha]
      exact (length_roll_namings n).trans_lt hlt
    · have hnil : rollsAfter (namings n) a = [] := by
        refine List.eq_nil_iff_forall_not_mem.mpr fun s hs ↦ ?_
        obtain ⟨j, -, hj⟩ := List.mem_map.mp (mem_rollsAfter.mp hs)
        injection hj with ha'
        exact ha ha'.symm
      exact (congrArg List.length hnil).trans_lt (by simp)

/-- **Only the last of the numbers lies among the UIDs of the mailbox.** -/
theorem scan_namings (hlt : n < 2 ^ 32) (hn : toBeBytes 4 n = [33, 1, 0, 0]) :
    ∃ s, IsText s ∧ ∀ k v,
    (exec DbOp.apply ∅ ((namings n).map .modseq))[k]? = some v ∧
      serializeKeyPrefix crowdedMailbox Sep.uidToJmap <+: k ↔
    k = serializeModseq (asBytes "a") [33, 1, 0, 0] Sep.modseqToState ∧ v = asBytes s := by
  have hnum := numbers_namings hlt
  have hfrom : n = 553713664 := by
    have h := fromBeBytes_toBeBytes 4 n
    rw [hn, Nat.mod_eq_of_lt (by omega)] at h
    rw [← h]
    decide
  obtain ⟨s, hs⟩ : ∃ s, Roll.valueOf (rollsAfter (namings n) "a") n = some s := by
    have hlen := length_roll_namings n
    cases hn0 : n with
    | zero => omega
    | succ j =>
        rw [hn0] at hlen
        exact ⟨_, List.getElem?_eq_getElem (by omega)⟩
  have hget := hnum.backward "a" n (zero_notMem_of_isText isText_a) hlt
  rw [hs, hn] at hget
  have htext : IsText s := by
    have hmem := (Roll.number_of_valueOf (nodup_rollsAfter _ _) hs).1
    obtain ⟨j, -, hj⟩ := List.mem_map.mp (mem_rollsAfter.mp hmem)
    injection hj with _ hs'
    exact hs' ▸ isText_stateName j
  refine ⟨s, htext, fun k v ↦ ⟨?_, ?_⟩⟩
  · rintro ⟨hv, r, rfl⟩
    have hkey : serializeKeyPrefix crowdedMailbox Sep.uidToJmap ++ r =
        textKey "a" crowdedMailbox.mailboxBytes Sep.uidToJmap r := by
      simp [serializeKeyPrefix, textKey]
    obtain ⟨b, hb, hr, hk⟩ := (typed_namings n _ v hv).of_textKey (by decide) hkey
    rw [mailboxBytes_crowdedMailbox] at hr
    have hback : toBeBytes 4 (fromBeBytes b) = b := hb ▸ toBeBytes_fromBeBytes b
    have hblt : fromBeBytes b < 2 ^ 32 := by
      have h := fromBeBytes_lt b
      rwa [hb] at h
    rw [hk] at hv ⊢
    have hval := hnum.backward "a" (fromBeBytes b) (zero_notMem_of_isText isText_a) hblt
    rw [hback, hv] at hval
    obtain ⟨s', hs', hvs⟩ := Option.map_eq_some_iff.mp hval.symm
    -- a number that begins like the keys of the mailbox is no smaller than the last one
    obtain ⟨hmem, hnumber⟩ := Roll.number_of_valueOf (nodup_rollsAfter _ _) hs'
    have hle := Roll.number_le hmem
    rw [hnumber, length_roll_namings] at hle
    have hge : n ≤ fromBeBytes b := by
      obtain ⟨b₀, b₁, b₂, b₃, rfl⟩ := List.length_eq_four.mp hb
      simp only [List.cons_append, List.nil_append, List.cons.injEq] at hr
      obtain ⟨rfl, rfl, -⟩ := hr
      rw [hfrom, fromBeBytes_cons, fromBeBytes_cons]
      simp only [List.length_cons, List.length_nil]
      have h33 : (33 : UInt8).toNat = 33 := by decide
      have h1 : (Sep.uidToJmap).toNat = 1 := by decide
      rw [h33, h1]
      omega
    obtain rfl : fromBeBytes b = n := Nat.le_antisymm hle hge
    rw [hs] at hs'
    obtain rfl := Option.some.inj hs'
    exact ⟨by rw [← hback, hn], hvs.symm⟩
  · rintro ⟨rfl, rfl⟩
    refine ⟨hget, ⟨[0, 0, Sep.modseqToState], ?_⟩⟩
    simp [serializeKeyPrefix, mailboxBytes_crowdedMailbox, serializeModseq, Sep.uidToJmap]

/-- `update_uids` takes the one record it finds for that of a message that is gone. -/
theorem updateUids_foreign {db : Db} {m : MailboxId} {key b : Bytes} (clock : Clock)
    (hvalidity : db[serializeUidValidityKey m]? = none)
    (hscan : ∀ k v, db[k]? = some v ∧ serializeKeyPrefix m Sep.uidToJmap <+: k ↔ k = key ∧ v = b)
    (hlen : (serializeKeyPrefix m Sep.uidToJmap).length < key.length) :
    ∃ validity, ((Db.updateUids m clock []).run db).2 =
      Tree.applyBatch (db.insert (serializeUidValidityKey m) validity)
        (Db.deletion m key (key.drop (serializeKeyPrefix m Sep.uidToJmap).length) b (clock 1)) := by
  obtain ⟨n, validity, hrun⟩ : ∃ n validity, (Db.uidValidity m (clock 0)).run db =
      (some n, db.insert (serializeUidValidityKey m) validity) := by
    rw [Db.uidValidity, Prog.run_bind_of_eq (Prog.run_read _ _), hvalidity]
    exact ⟨_, _, Prog.run_bind_of_eq (Prog.run_write _ _ _)⟩
  refine ⟨validity, ?_⟩
  have hfound : Tree.scanPrefix (db.insert (serializeUidValidityKey m) validity)
      (serializeKeyPrefix m Sep.uidToJmap) = [(key, b)] := by
    refine Tree.scanPrefix_eq (List.pairwise_singleton _ _) fun k v ↦ ?_
    rw [List.mem_singleton, Prod.mk.injEq, ← hscan]
    refine and_congr_left fun hk ↦ ?_
    obtain ⟨r, rfl⟩ := hk
    have hne : serializeUidValidityKey m ≠ serializeKeyPrefix m Sep.uidToJmap ++ r := by
      simp [serializeUidValidityKey, serializeKeyPrefix, Sep.uidToJmap, Sep.uidValidity]
    rw [Std.ExtTreeMap.getElem?_insert, if_neg]
    rwa [Std.LawfulEqCmp.compare_eq_iff_eq]
  have hfold := Prog.run_fold (serializeKeyPrefix m Sep.uidToJmap) (Db.UpdateScan.init [])
    (Db.UpdateScan.visit m (fun n ↦ clock (n + 1)) (serializeKeyPrefix m Sep.uidToJmap).length)
    (db.insert (serializeUidValidityKey m) validity)
  rw [hfound, List.foldlM_cons, Db.UpdateScan.visit] at hfold
  dsimp only at hfold
  have hnone : (Db.UpdateScan.init []).jmapIdsMap[b]? = none := rfl
  rw [if_pos hlen, hnone] at hfold
  rw [Db.updateUids, Prog.run_bind_of_eq hrun]
  dsimp only
  have hempty : (Db.UpdateScan.init []).jmapIdsMap.isEmpty = true := by
    simp [Db.UpdateScan.init, Db.positions]
  rw [Prog.run_bind_of_eq hfold, Db.applyDeletions, if_pos rfl]
  rw [Prog.run_bind_of_eq (Prog.run_batch _ _), Db.addNewIds, if_pos hempty]
  rw [Prog.run_bind_of_eq (Prog.run_pure _ _)]
  exact Db.uidNext_run_snd m _ _

/-- What `update_uids` leaves of the last state: eleven bytes. -/
theorem get_crowded (hlt : n < 2 ^ 32) (hn : toBeBytes 4 n = [33, 1, 0, 0]) : ∃ s, IsText s ∧
    (exec DbOp.apply ∅ (crowded n))[serializeKey crowdedMailbox Sep.jmapDeletedIds (asBytes s)]? =
      some ([0, 0, Sep.modseqToState] ++ toBeBytes 8 1700000000) := by
  obtain ⟨s, hs, hscan⟩ := scan_namings hlt hn
  refine ⟨s, hs, ?_⟩
  have hvalidity : (exec DbOp.apply ∅ ((namings n).map .modseq))[
      serializeUidValidityKey crowdedMailbox]? = none := by
    refine Option.eq_none_iff_forall_ne_some.mpr fun v hv ↦ ?_
    have hkey : serializeUidValidityKey crowdedMailbox =
        textKey "a" crowdedMailbox.mailboxBytes Sep.uidValidity [] := by
      simp [serializeUidValidityKey, textKey]
    obtain ⟨b, hb, hr, -⟩ := (typed_namings n _ v hv).of_textKey (by decide) hkey
    have hlen := congrArg List.length hr
    rw [mailboxBytes_crowdedMailbox] at hlen
    simp [hb] at hlen
  have hpre : serializeKeyPrefix crowdedMailbox Sep.uidToJmap = asBytes "a" ++ [0, 33, 1] := by
    simp [serializeKeyPrefix, mailboxBytes_crowdedMailbox, Sep.uidToJmap]
  have hkey : serializeModseq (asBytes "a") [33, 1, 0, 0] Sep.modseqToState =
      asBytes "a" ++ [0, 33, 1] ++ [0, 0, Sep.modseqToState] := by
    simp [serializeModseq]
  obtain ⟨validity, hrun⟩ := updateUids_foreign (fun _ ↦ 1700000000) hvalidity hscan
    (by rw [hkey, hpre, List.length_append]; simp)
  rw [hpre, hkey, List.drop_left] at hrun
  have hexec : exec DbOp.apply ∅ (crowded n) = _ := (exec_append _ _ _).trans hrun
  rw [hexec]
  -- the two removals are of other records
  have hmodseq : serializeKey crowdedMailbox Sep.jmapDeletedIds (asBytes s) ≠
      asBytes "a" ++ [0, 33, 1] ++ [0, 0, Sep.modseqToState] := by
    simp [serializeKey, mailboxBytes_crowdedMailbox, Sep.jmapDeletedIds]
  have hmap : serializeKey crowdedMailbox Sep.jmapDeletedIds (asBytes s) ≠
      serializeKey crowdedMailbox Sep.jmapToUid (asBytes s) := by
    simp [serializeKey, Sep.jmapDeletedIds, Sep.jmapToUid]
  simp only [Db.deletion, Tree.applyBatch, List.foldl_cons, List.foldl_nil, Edit.getElem?_apply,
    Edit.key, Edit.result, if_neg hmap.symm, if_neg hmodseq.symm, if_pos]

/-- **The purge leaves it there.** -/
theorem not_purges_crowded (hlt : n < 2 ^ 32) (hn : toBeBytes 4 n = [33, 1, 0, 0]) :
    ¬ Purges (exec DbOp.apply ∅ (crowded n)) 0 1700000001 := by
  obtain ⟨s, hs, hget⟩ := get_crowded hlt hn
  rintro ⟨db', removed, h⟩
  have hmem := (h.due _).mpr ⟨_, hget, _, _, _, _, text_crowdedMailbox, hs, rfl, rfl, by decide,
    by decide⟩
  have hgone := h.get (serializeKey crowdedMailbox Sep.jmapDeletedIds (asBytes s))
  rw [if_pos hmem] at hgone
  obtain ⟨count, db'', hrun, hremoved⟩ := Db.removeWhere_run (exec DbOp.apply ∅ (crowded n)) []
    (isDue 0 1700000001)
  obtain ⟨-, rfl⟩ : count = removed.length ∧ db'' = db' := by
    have hpair := hrun.symm.trans h.run
    simpa using hpair
  have hkept := hremoved (serializeKey crowdedMailbox Sep.jmapDeletedIds (asBytes s))
  rw [hget, hgone] at hkept
  have hno : isDue 0 1700000001 (serializeKey crowdedMailbox Sep.jmapDeletedIds (asBytes s),
      [0, 0, Sep.modseqToState] ++ toBeBytes 8 1700000000) = false := by
    rw [isDue]
    simp
  rw [Option.filter, hno] at hkept
  simp at hkept

end Crowded

/-- Five hundred million states of an account whose mailbox "!" is empty: the last of them begins
like the keys of the mailbox. -/
theorem purge_leaves_record : (∀ c ∈ crowded 553713664, c.Printable) ∧
    ¬ Purges (exec DbOp.apply ∅ (crowded 553713664)) 0 1700000001 := by
  refine ⟨fun c hc ↦ ?_, not_purges_crowded (by decide) (by decide)⟩
  rcases List.mem_append.mp hc with hc | hc
  · obtain ⟨c', hc', rfl⟩ := List.mem_map.mp hc
    obtain ⟨j, -, rfl⟩ := List.mem_map.mp hc'
    exact ⟨isText_a, isText_stateName j⟩
  · obtain rfl := List.mem_singleton.mp hc
    refine ⟨text_crowdedMailbox, fun _ ↦ ?_, by simp⟩
    show 1700000000 < 2 ^ 56
    decide

end ImapToJmap
