import ImapToJmap.Core.Refine

/-!
# `update_uids` synchronizes the table

`updateUids_run`: run on a database that represents `T`, `update_uids` leaves one that represents
`T.sync listing`, and returns exactly the entries of that table.  The scan is the work.  It walks
the `UID_TO_JMAP` records in UID order (`scanPrefix_uidToJmap`), and `Scanned` is its loop
invariant: after the entries `done`, the locals are the ones the listing determines.  Of an id that
is listed twice the scan finds the last place only, so the rest is for listings without repetitions.
-/

namespace ImapToJmap

open Kv

/-- Under a common prefix the order of keys is the order of what follows. -/
theorem compare_append_left (p a b : Bytes) : compare (p ++ a) (p ++ b) = compare a b := by
  induction p with
  | nil => rfl
  | cons x p ih =>
      rw [List.cons_append, List.cons_append, List.compare_cons_cons, ih,
        Std.LawfulEqOrd.compare_eq_iff_eq.mpr (rfl : x = x)]
      rfl

namespace Db

variable {db : Db} {mailbox : MailboxId} {T : UidTable String} {listing : List String}

/-! ## The position map -/

/-- The position map of a longer listing. -/
theorem positions_append (l : List String) (i : String) :
    positions (l ++ [i]) = (positions l).insert (asBytes i) l.length := by
  simp [positions, List.zipIdx_append]

/-- The position map finds every id where it is listed last. -/
theorem getElem?_positions {b : Bytes} {p : ℕ} : (positions listing)[b]? = some p ↔
    ∃ i, b = asBytes i ∧ listing[p]? = some i ∧ ∀ q, listing[q]? = some i → q ≤ p := by
  induction listing using List.reverseRecOn with
  | nil => simp [positions]
  | append_singleton l j ih =>
      rw [positions_append, Std.ExtTreeMap.getElem?_insert]
      have hbound : ∀ {q : ℕ} {i : String}, (l ++ [j])[q]? = some i → q ≤ l.length := by
        intro q i hget
        have hlt := (List.getElem?_eq_some_iff.mp hget).1
        rw [List.length_append, List.length_singleton] at hlt
        omega
      split
      · rename_i hb
        obtain rfl : asBytes j = b := by simpa using hb
        constructor
        · intro hp
          obtain rfl := Option.some.inj hp
          exact ⟨j, rfl, by simp, fun q hq ↦ hbound hq⟩
        · rintro ⟨i, hi, hget, hlast⟩
          obtain rfl := asBytes_injective hi
          have hle := hlast l.length (by simp)
          rw [Nat.le_antisymm hle (hbound hget)]
      · rename_i hb
        rw [ih]
        have hne : ∀ i, b = asBytes i → i ≠ j := by
          rintro i rfl rfl
          exact hb (Std.LawfulEqOrd.compare_eq_iff_eq.mpr rfl)
        -- the new end of the listing is another id
        have hsame : ∀ i, b = asBytes i → ∀ q : ℕ, (l ++ [j])[q]? = some i ↔ l[q]? = some i := by
          intro i hi q
          rcases Nat.lt_trichotomy q l.length with hlt | rfl | hgt
          · rw [List.getElem?_append_left hlt]
          · simpa using (hne i hi).symm
          · rw [List.getElem?_eq_none (l := l) (by omega),
              List.getElem?_eq_none (by simp; omega)]
        refine exists_congr fun i ↦ and_congr_right fun hi ↦ ?_
        simp only [hsame i hi]

/-- Every listed id is in the position map. -/
theorem exists_position {i : String} (hi : i ∈ listing) :
    ∃ p, (positions listing)[asBytes i]? = some p ∧ listing[p]? = some i := by
  obtain ⟨pre, x, post, hl, rfl, hlast⟩ := exists_last (P := fun x ↦ x = i) ⟨i, hi, rfl⟩
  have hget : listing[pre.length]? = some x := by simp [hl]
  refine ⟨pre.length, getElem?_positions.mpr ⟨x, rfl, hget, ?_⟩, hget⟩
  intro q hq
  by_contra hlt
  have hmem : x ∈ post := by
    rw [hl, List.getElem?_append_right (by omega), List.getElem?_cons] at hq
    rw [if_neg (by omega)] at hq
    exact List.mem_of_getElem? hq
  exact hlast x hmem rfl

/-- The position map of a duplicate-free listing finds every id where it is listed. -/
theorem position_of_nodup (hnd : listing.Nodup) {i : String} {p : ℕ} (hp : listing[p]? = some i) :
    (positions listing)[asBytes i]? = some p := by
  refine getElem?_positions.mpr ⟨i, rfl, hp, fun q hq ↦ ?_⟩
  obtain ⟨hlt, hget⟩ := List.getElem?_eq_some_iff.mp hp
  obtain ⟨hqlt, hqget⟩ := List.getElem?_eq_some_iff.mp hq
  exact ((List.Nodup.getElem_inj_iff hnd).mp (hqget.trans hget.symm)).le

/-! ## The scan -/

/-- The key and value of an entry. -/
def encode (mailbox : MailboxId) (e : ℕ × String) : Bytes × Bytes :=
  (serializeKeyPrefix mailbox Sep.uidToJmap ++ toBeBytes 4 e.1, asBytes e.2)

/-- The scan of `update_uids` sees the entries of the table in their order. -/
theorem scanPrefix_uidToJmap (h : Represents db mailbox T) :
    db.scanPrefix (serializeKeyPrefix mailbox Sep.uidToJmap) = T.entries.map (encode mailbox) := by
  refine Tree.scanPrefix_eq ?_ fun k v ↦ ?_
  · refine List.pairwise_map.mpr (List.Pairwise.imp_of_mem ?_ T.sorted)
    intro a b ha hb hab
    simp only [encode]
    rw [compare_append_left, compare_toBeBytes, Nat.mod_eq_of_lt (h.lt_of_mem ha),
      Nat.mod_eq_of_lt (h.lt_of_mem hb)]
    exact compare_lt_iff_lt.mpr hab
  · constructor
    · intro hmem
      obtain ⟨e, he, heq⟩ := List.mem_map.mp hmem
      obtain ⟨rfl, rfl⟩ := Prod.mk.inj heq
      exact ⟨(h.uidToJmap _ _).mpr ⟨e, he, rfl, rfl⟩, List.prefix_append _ _⟩
    · rintro ⟨hget, b, rfl⟩
      obtain ⟨e, he, rfl, rfl⟩ := (h.uidToJmap _ _).mp hget
      exact List.mem_map.mpr ⟨e, he, rfl⟩

/-- The loop invariant of the scan: the locals after the entries `done`. -/
structure Scanned (mailbox : MailboxId) (listing : List String) (done : List (ℕ × String))
    (st : UpdateScan) : Prop where
  map : ∀ b p, st.jmapIdsMap[b]? = some p ↔
    (positions listing)[b]? = some p ∧ ∀ e ∈ done, asBytes e.2 ≠ b
  imapUids : st.imapUids = (done.filter fun e ↦ e.2 ∈ listing).map Prod.fst
  jmapIds : st.jmapIds = (done.filter fun e ↦ e.2 ∈ listing).map Prod.snd
  length_foundIds : st.foundIds.length = listing.length
  foundIds : ∀ p i, listing[p]? = some i → (st.foundIds[p]? = some true ↔
    i ∈ done.map Prod.snd ∧ (positions listing)[asBytes i]? = some p)
  batch : Deletes mailbox (done.filter fun e ↦ e.2 ∉ listing) st.batch
  hasDeletions : st.hasDeletions = false → done.filter (fun e ↦ e.2 ∉ listing) = []

theorem scanned_init (mailbox : MailboxId) (listing : List String) :
    Scanned mailbox listing [] (UpdateScan.init listing) where
  map := by simp [UpdateScan.init]
  imapUids := rfl
  jmapIds := rfl
  length_foundIds := by simp [UpdateScan.init]
  foundIds p i _ := by
    refine iff_of_false ?_ (by simp)
    intro hc
    simpa [UpdateScan.init] using List.mem_of_getElem? hc
  batch := .nil mailbox
  hasDeletions _ := rfl

theorem deletes_deletion (mailbox : MailboxId) (e : ℕ × String) (now : ℕ) :
    Deletes mailbox [e] (deletion mailbox (encode mailbox e).1 (toBeBytes 4 e.1) (asBytes e.2)
      now) where
  edits ed hed := by
    refine ⟨e, List.mem_singleton_self e, ?_⟩
    simp only [deletion, encode, serializeKey_eq, List.mem_cons, List.not_mem_nil, or_false] at hed
    rcases hed with rfl | rfl | rfl
    · exact .inl ⟨now, rfl⟩
    · exact .inr (.inl rfl)
    · exact .inr (.inr rfl)
  deleted e' he' := ⟨now, by simp [deletion, encode, serializeKey_eq, List.mem_singleton.mp he']⟩
  uidToJmap e' he' := by simp [deletion, encode, serializeKey_eq, List.mem_singleton.mp he']
  jmapToUid e' he' := by simp [deletion, encode, serializeKey_eq, List.mem_singleton.mp he']

/-- The scan meets an entry that is listed. -/
theorem visit_listed (clock : Clock) (st : UpdateScan) {e : ℕ × String} (hlt : e.1 < 2 ^ 32)
    {p : ℕ} (hmap : st.jmapIdsMap[asBytes e.2]? = some p) :
    UpdateScan.visit mailbox clock (serializeKeyPrefix mailbox Sep.uidToJmap).length st
        (encode mailbox e) =
      some { st with
        jmapIdsMap := st.jmapIdsMap.erase (asBytes e.2)
        imapUids := st.imapUids ++ [e.1]
        jmapIds := st.jmapIds ++ [e.2]
        foundIds := st.foundIds.set p true } := by
  simpa [UpdateScan.visit, encode, hmap] using hlt

/-- The scan meets an entry that is not listed. -/
theorem visit_unlisted (clock : Clock) (st : UpdateScan) {e : ℕ × String}
    (hmap : st.jmapIdsMap[asBytes e.2]? = none) :
    UpdateScan.visit mailbox clock (serializeKeyPrefix mailbox Sep.uidToJmap).length st
        (encode mailbox e) =
      some { st with
        batch := st.batch ++ deletion mailbox (encode mailbox e).1 (toBeBytes 4 e.1)
          (asBytes e.2) (clock st.readings)
        hasDeletions := true
        readings := st.readings + 1 } := by
  simp [UpdateScan.visit, encode, hmap]

section Visit

variable {done : List (ℕ × String)} {st : UpdateScan} {e : ℕ × String}

/-- Keeping a listed entry keeps the invariant: its position is marked. -/
theorem Scanned.keep (h : Scanned mailbox listing done st) {p : ℕ}
    (hpos : (positions listing)[asBytes e.2]? = some p) (hp : listing[p]? = some e.2) :
    Scanned mailbox listing (done ++ [e]) { st with
      jmapIdsMap := st.jmapIdsMap.erase (asBytes e.2)
      imapUids := st.imapUids ++ [e.1]
      jmapIds := st.jmapIds ++ [e.2]
      foundIds := st.foundIds.set p true } := by
  have hlisted : e.2 ∈ listing := List.mem_of_getElem? hp
  refine ⟨fun b q ↦ ?_, ?_, ?_, ?_, fun q j hq ↦ ?_, ?_, ?_⟩
  · simp only [Std.ExtTreeMap.getElem?_erase, List.mem_append, List.mem_singleton]
    by_cases hb : asBytes e.2 = b
    · subst hb
      rw [if_pos (Std.LawfulEqOrd.compare_eq_iff_eq.mpr rfl)]
      exact ⟨fun hc ↦ by simp at hc, fun hd ↦ absurd rfl (hd.2 e (.inr rfl))⟩
    · have hcmp : ¬ compare (asBytes e.2) b = .eq := by simpa using hb
      rw [if_neg hcmp, h.map]
      refine and_congr_right fun _ ↦ ⟨fun hd e' he' ↦ ?_, fun hd e' he' ↦ hd e' (.inl he')⟩
      rcases he' with he' | rfl
      · exact hd e' he'
      · exact hb
  · simp [h.imapUids, List.filter_append, hlisted]
  · simp [h.jmapIds, List.filter_append, hlisted]
  · simpa using h.length_foundIds
  · rw [List.getElem?_set, List.map_append, List.mem_append, List.map_singleton, List.mem_singleton]
    by_cases hpq : p = q
    · subst hpq
      obtain rfl : e.2 = j := Option.some.inj (hp.symm.trans hq)
      have hlt := (List.getElem?_eq_some_iff.mp hp).1
      rw [if_pos rfl, if_pos (by rwa [h.length_foundIds])]
      exact iff_of_true rfl ⟨.inr rfl, hpos⟩
    · rw [if_neg hpq, h.foundIds q j hq]
      refine and_congr_left fun hj ↦ ⟨.inl, fun hor ↦ hor.elim id ?_⟩
      rintro rfl
      exact absurd (Option.some.inj (hpos.symm.trans hj)) hpq
  · simpa [List.filter_append, hlisted] using h.batch
  · simpa [List.filter_append, hlisted] using h.hasDeletions

/-- Dropping an unlisted entry keeps the invariant: both mappings go into the batch. -/
theorem Scanned.drop (h : Scanned mailbox listing done st)
    (hlisted : e.2 ∉ listing) (now n : ℕ) :
    Scanned mailbox listing (done ++ [e]) { st with
      batch := st.batch ++ deletion mailbox (encode mailbox e).1 (toBeBytes 4 e.1) (asBytes e.2) now
      hasDeletions := true
      readings := n } := by
  refine ⟨fun b q ↦ ?_, ?_, ?_, h.length_foundIds, fun q j hq ↦ ?_, ?_, ?_⟩
  · rw [h.map]
    refine and_congr_right fun hq ↦ ⟨fun hd e' he' ↦ ?_, fun hd e' he' ↦
      hd e' (List.mem_append_left _ he')⟩
    rcases List.mem_append.mp he' with he' | he'
    · exact hd e' he'
    · obtain ⟨i, rfl, hi, -⟩ := getElem?_positions.mp hq
      rw [List.mem_singleton.mp he']
      intro heq
      exact hlisted (asBytes_injective heq ▸ List.mem_of_getElem? hi)
  · simp [h.imapUids, List.filter_append, hlisted]
  · simp [h.jmapIds, List.filter_append, hlisted]
  · have hje : j ≠ e.2 := fun hc ↦ hlisted (hc ▸ List.mem_of_getElem? hq)
    rw [h.foundIds q j hq, List.map_append, List.mem_append, List.map_singleton, List.mem_singleton]
    simp [hje]
  · have hbatch := h.batch.append (deletes_deletion mailbox e now)
    simpa [List.filter_append, hlisted] using hbatch
  · simp

/-- One record of the scan. -/
theorem Scanned.visit (clock : Clock) (h : Scanned mailbox listing done st)
    (hlt : e.1 < 2 ^ 32) (hnew : e.2 ∉ done.map Prod.snd) :
    ∃ st', UpdateScan.visit mailbox clock (serializeKeyPrefix mailbox Sep.uidToJmap).length st
        (encode mailbox e) = some st' ∧
      Scanned mailbox listing (done ++ [e]) st' := by
  by_cases hlisted : e.2 ∈ listing
  · obtain ⟨p, hpos, hp⟩ := exists_position hlisted
    have hnotin : ∀ e' ∈ done, asBytes e'.2 ≠ asBytes e.2 := fun e' he' heq ↦
      hnew (List.mem_map.mpr ⟨e', he', asBytes_injective heq⟩)
    have hmap : st.jmapIdsMap[asBytes e.2]? = some p :=
      (h.map _ _).mpr ⟨hpos, hnotin⟩
    exact ⟨_, visit_listed clock st hlt hmap, h.keep hpos hp⟩
  · have hmap : st.jmapIdsMap[asBytes e.2]? = none := by
      cases hget : st.jmapIdsMap[asBytes e.2]? with
      | none => rfl
      | some p =>
          obtain ⟨i, hi, hp, -⟩ := getElem?_positions.mp ((h.map _ _).mp hget).1
          exact absurd (List.mem_of_getElem? hp) (asBytes_injective hi ▸ hlisted)
    exact ⟨_, visit_unlisted clock st hmap, h.drop hlisted _ _⟩

end Visit

/-- The whole scan. -/
theorem foldlM_visit (clock : Clock) (todo done : List (ℕ × String))
    (st : UpdateScan) (h : Scanned mailbox listing done st)
    (hlt : ∀ e ∈ todo, e.1 < 2 ^ 32) (hids : ((done ++ todo).map Prod.snd).Nodup) :
    ∃ st', (todo.map (encode mailbox)).foldlM (UpdateScan.visit mailbox clock
        (serializeKeyPrefix mailbox Sep.uidToJmap).length) st = some st' ∧
      Scanned mailbox listing (done ++ todo) st' := by
  induction todo generalizing done st with
  | nil => exact ⟨st, rfl, by simpa using h⟩
  | cons e todo ih =>
      have hnew : e.2 ∉ done.map Prod.snd := by
        rw [List.map_append, List.nodup_append] at hids
        exact fun hc ↦ hids.2.2 _ hc e.2 (by simp) rfl
      obtain ⟨st₁, hvisit, hst₁⟩ := h.visit clock (hlt e List.mem_cons_self) hnew
      have happ : done ++ e :: todo = done ++ [e] ++ todo := by simp
      rw [happ] at hids ⊢
      obtain ⟨st₂, hfold, hst₂⟩ := ih (done ++ [e]) st₁ hst₁
        (fun e' he' ↦ hlt e' (List.mem_cons_of_mem _ he')) hids
      refine ⟨st₂, ?_, hst₂⟩
      rw [List.map_cons, List.foldlM_cons, hvisit]
      exact hfold

/-! ## The whole call -/

/-- Reading the counter changes nothing. -/
theorem uidNext_run_snd {R : Type} (m : MailboxId) (f : ℕ → R) (db : Db) :
    ((uidNext m >>= fun n ↦ pure (f n)).run db).2 = db := by
  have hnext : ((uidNext m).run db).2 = db := by
    rw [uidNext, Prog.run_bind_of_eq (Prog.run_read _ _)]
    cases hget : db[serializeUidNextKey m]? with
    | none => rfl
    | some b =>
        dsimp only
        rw [Prog.run_bind, Prog.run_ofOption]
        cases u32FromBe b <;> rfl
  rw [Prog.run_bind]
  cases hrun : (uidNext m).run db with
  | mk o db' =>
      rw [hrun] at hnext
      cases o <;> exact hnext

theorem uidNext_run (h : Represents db mailbox T) (hlt : T.next + 1 < 2 ^ 32) :
    (uidNext mailbox).run db = (some (T.next + 1), db) := by
  rw [uidNext, Prog.run_bind_of_eq (Prog.run_read _ _), getElem?_serializeUidNextKey, h.counter]
  by_cases h0 : T.next = 0
  · simp [h0]
  · simp only [if_neg h0]
    rw [u32FromBe_toBeBytes, Prog.run_bind_of_eq (Prog.run_ofOption _ _), Prog.run_pure,
      Nat.mod_eq_of_lt h.next_lt, Nat.mod_eq_of_lt hlt]

/-- Fixing the UID validity changes no other record. -/
theorem represents_put_validity (h : Represents db mailbox T) (n : ℕ) :
    Represents (put db mailbox Sep.uidValidity [] (toBeBytes 4 n)) mailbox T where
  isJmapId := h.isJmapId
  next_lt := h.next_lt
  uidToJmap b v := by simpa [Sep.uidValidity, Sep.uidToJmap] using h.uidToJmap b v
  jmapToUid b v := by simpa [Sep.uidValidity, Sep.jmapToUid] using h.jmapToUid b v
  counter := by simpa [Sep.uidValidity, Sep.uidNext] using h.counter
  validity v hv := by
    have hv' : toBeBytes 4 n = v := by simpa using hv
    simp [← hv']

theorem uidValidity_run (h : Represents db mailbox T) (now : ℕ) :
    ∃ v db', (uidValidity mailbox now).run db = (some v, db') ∧
      Represents db' mailbox T ∧ Frame mailbox db db' := by
  rw [uidValidity, Prog.run_bind_of_eq (Prog.run_read _ _), getElem?_serializeUidValidityKey]
  cases hget : record db mailbox Sep.uidValidity [] with
  | some b =>
      refine ⟨fromBeBytes b, db, ?_, h, .refl _ _⟩
      simp [u32FromBe, h.validity b hget]
  | none =>
      refine ⟨(now - 946684800) / 3600 % 2 ^ 32, put db mailbox Sep.uidValidity []
        (toBeBytes 4 ((now - 946684800) / 3600 % 2 ^ 32)), ?_, represents_put_validity h _,
        Frame.put mailbox db (by decide) _ _⟩
      dsimp only
      rw [Prog.run_bind_of_eq (Prog.run_write _ _ _), insert_serializeUidValidityKey,
        Prog.run_pure]

/-- Applying the batch of the scan, if there is anything to apply. -/
theorem applyDeletions_run (h : Represents db mailbox T) {st : UpdateScan}
    (hst : Scanned mailbox listing T.entries st) :
    ∃ db', (applyDeletions st).run db = (some (), db') ∧
      Represents db' mailbox (T.restrict (· ∈ listing)) ∧ Frame mailbox db db' := by
  have hgone : ∀ e, e ∈ T.entries.filter (fun e ↦ e.2 ∉ listing) ↔
      e ∈ T.entries ∧ decide (e.2 ∈ listing) = false := by
    simp [List.mem_filter]
  cases hdel : st.hasDeletions with
  | true =>
      refine ⟨db.applyBatch st.batch, by simp [applyDeletions, hdel], hst.batch.represents h hgone,
        hst.batch.frame db⟩
  | false =>
      have hnone := hst.hasDeletions hdel
      have hall : T.restrict (· ∈ listing) = T := by
        refine UidTable.ext (List.filter_eq_self.mpr fun e he ↦ ?_) rfl
        by_contra hc
        have hmem := (hgone e).mpr ⟨he, by simpa using hc⟩
        rw [hnone] at hmem
        exact List.not_mem_nil hmem
      exact ⟨db, by simp [applyDeletions, hdel], hall.symm ▸ h, .refl _ _⟩

/-- If the scan used up the position map, every listed id has a number. -/
theorem Scanned.sync_of_isEmpty {st : UpdateScan} (h : Scanned mailbox listing T.entries st)
    (hempty : st.jmapIdsMap.isEmpty = true) :
    T.sync listing = T.restrict (· ∈ listing) := by
  refine UidTable.ensureAll_of_subset fun i hi ↦ ?_
  by_contra hc
  obtain ⟨p, hpos, -⟩ := exists_position hi
  have hget : st.jmapIdsMap[asBytes i]? = some p := by
    refine (h.map _ _).mpr ⟨hpos, fun e he heq ↦ ?_⟩
    rw [UidTable.mem_ids_restrict] at hc
    exact hc ⟨List.mem_map.mpr ⟨e, he, asBytes_injective heq⟩, by simpa using hi⟩
  rw [Std.ExtTreeMap.isEmpty_iff.mp hempty] at hget
  simp at hget

theorem Scanned.map_fst_zip {st : UpdateScan} {done : List (ℕ × String)}
    (h : Scanned mailbox listing done st) : (listing.zip st.foundIds).map Prod.fst = listing :=
  List.map_fst_zip h.length_foundIds.ge

/-- What the scan has flagged has a number. -/
theorem Scanned.mem_of_flag {st : UpdateScan} (h : Scanned mailbox listing T.entries st)
    {x : String × Bool} (hx : x ∈ listing.zip st.foundIds) (hfound : x.2 = true) :
    x.1 ∈ (T.restrict (· ∈ listing)).ids := by
  obtain ⟨i, found⟩ := x
  obtain ⟨p, hp⟩ := List.getElem?_of_mem hx
  obtain ⟨hi, hflag⟩ := List.getElem?_zip_eq_some.mp hp
  obtain rfl : found = true := hfound
  rw [UidTable.mem_ids_restrict, decide_eq_true_eq]
  exact ⟨((h.foundIds p i hi).mp hflag).1, List.mem_of_getElem? hi⟩

/-- The flags of the scan say which of the ids have a number, if none is listed twice. -/
theorem Scanned.flag_iff {st : UpdateScan} (h : Scanned mailbox listing T.entries st)
    (hnd : listing.Nodup) (x : String × Bool) (hx : x ∈ listing.zip st.foundIds) :
    x.2 = true ↔ x.1 ∈ (T.restrict (· ∈ listing)).ids := by
  refine ⟨h.mem_of_flag hx, fun hmem ↦ ?_⟩
  obtain ⟨i, found⟩ := x
  obtain ⟨p, hp⟩ := List.getElem?_of_mem hx
  obtain ⟨hi, hfound⟩ := List.getElem?_zip_eq_some.mp hp
  have hflag := h.foundIds p i hi
  rw [hfound, Option.some.injEq] at hflag
  exact hflag.mpr ⟨(UidTable.mem_ids_restrict.mp hmem).1, position_of_nodup hnd hi⟩

/-- Numbering the listed ids the scan did not find. -/
theorem addNewIds_run {st : UpdateScan} (h : Represents db mailbox (T.restrict (· ∈ listing)))
    (hst : Scanned mailbox listing T.entries st) (hid : ∀ i ∈ listing, IsJmapId i)
    (hnd : listing.Nodup) (hlt : (T.sync listing).next < 2 ^ 32) :
    ∃ db', (addNewIds mailbox listing st).run db =
        (some ((T.sync listing).ids, (T.sync listing).uids), db') ∧
      Represents db' mailbox (T.sync listing) ∧ Frame mailbox db db' := by
  have hids : st.jmapIds = (T.restrict (· ∈ listing)).ids := hst.jmapIds
  have huids : st.imapUids = (T.restrict (· ∈ listing)).uids := hst.imapUids
  rw [addNewIds]
  cases hempty : st.jmapIdsMap.isEmpty with
  | true =>
      have hsync := hst.sync_of_isEmpty hempty
      refine ⟨db, ?_, hsync ▸ h, .refl _ _⟩
      rw [hsync, if_pos rfl, Prog.run_pure, hids, huids]
  | false =>
      have hfst := hst.map_fst_zip
      obtain ⟨db', hrun, hrep, hf⟩ := addMissing_run h
        (fun x hx ↦ hid x.1 (List.of_mem_zip hx).1) (hfst.symm ▸ hnd) (hst.flag_iff hnd)
        (by rwa [hfst])
      rw [hfst] at hrun hrep
      refine ⟨db', ?_, hrep, hf⟩
      rw [if_neg (by decide), hids, huids]
      exact hrun

/-- The part of `update_uids` before the allocations. -/
theorem updateUids_scan_run (h : Represents db mailbox T) (clock : Clock) :
    ∃ v db₁ st db₂, (uidValidity mailbox (clock 0)).run db = (some v, db₁) ∧
      (Prog.fold (serializeKeyPrefix mailbox Sep.uidToJmap) (UpdateScan.init listing)
        (UpdateScan.visit mailbox (fun n ↦ clock (n + 1))
          (serializeKeyPrefix mailbox Sep.uidToJmap).length)).run db₁ = (some st, db₁) ∧
      (applyDeletions st).run db₁ = (some (), db₂) ∧
      Scanned mailbox listing T.entries st ∧
      Represents db₂ mailbox (T.restrict (· ∈ listing)) ∧ Frame mailbox db db₂ := by
  obtain ⟨v, db₁, hval, hrep₁, hf₁⟩ := uidValidity_run h (clock 0)
  obtain ⟨st, hfold, hst⟩ := foldlM_visit (fun n ↦ clock (n + 1)) T.entries []
    (UpdateScan.init listing) (scanned_init mailbox listing) (fun e he ↦ hrep₁.lt_of_mem he)
    T.nodup
  obtain ⟨db₂, hbatch, hrep₂, hf₂⟩ := applyDeletions_run hrep₁ hst
  refine ⟨v, db₁, st, db₂, hval, ?_, hbatch, hst, hrep₂, hf₁.trans hf₂⟩
  rw [Prog.run_fold, scanPrefix_uidToJmap hrep₁, hfold]

/-- **`update_uids` synchronizes the table**, and returns the table it leaves. -/
theorem updateUids_run (h : Represents db mailbox T) (clock : Clock)
    (hid : ∀ i ∈ listing, IsJmapId i) (hnd : listing.Nodup)
    (hlt : (T.sync listing).next + 1 < 2 ^ 32) :
    ∃ data db', (updateUids mailbox clock listing).run db = (some data, db') ∧
      Represents db' mailbox (T.sync listing) ∧ Frame mailbox db db' ∧
      data.jmapIds = (T.sync listing).ids ∧ data.imapUids = (T.sync listing).uids ∧
      data.totalMessages = data.imapUids.length ∧
      data.uidNext = (T.sync listing).next + 1 := by
  obtain ⟨v, db₁, st, db₂, hval, hscan, hbatch, hst, hrep₂, hf⟩ := updateUids_scan_run h clock
  obtain ⟨db₃, hadd, hrep₃, hf₃⟩ :=
    addNewIds_run hrep₂ hst hid hnd (Nat.lt_of_succ_lt hlt)
  refine ⟨⟨(T.sync listing).next + 1, v, (T.sync listing).ids, (T.sync listing).uids,
    (T.sync listing).uids.length, ""⟩, db₃, ?_, hrep₃, hf.trans hf₃, ?_⟩
  · rw [updateUids, Prog.run_bind_of_eq hval]
    dsimp only
    rw [Prog.run_bind_of_eq hscan, Prog.run_bind_of_eq hbatch, Prog.run_bind_of_eq hadd]
    dsimp only
    rw [Prog.run_bind_of_eq (uidNext_run hrep₃ hlt), Prog.run_pure]
  · exact ⟨rfl, rfl, rfl, rfl⟩

end Db

end ImapToJmap
