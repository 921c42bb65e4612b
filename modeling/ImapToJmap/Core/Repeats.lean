import ImapToJmap.Core.UpdateUids
import ImapToJmap.Core.View

/-!
# `update_uids` on a listing that repeats ids

The scan of `update_uids` finds of every id the place where it is listed last.  If no id is new,
nothing is added.  Otherwise every place that was not found gets a UID: all of a new id, and those
of an old one but the last.  `updateUids_repeats` is how often that leaves an id in the map.

The records then are no table, since an id may have several UIDs: `Entries` is what they are.
-/

namespace ImapToJmap

open Kv

/-- The records hold the entries for the mailbox; of an id with several UIDs `JMAP_TO_UID` holds the
last. -/
structure Entries (db : Db) (mailbox : MailboxId) (entries : List (ℕ × String))
    (next : ℕ) : Prop where
  bounds : ∀ e ∈ entries, e.1 ≤ next
  nodup : (entries.map Prod.fst).Nodup
  next_lt : next < 2 ^ 32
  uidToJmap : ∀ b v, record db mailbox Sep.uidToJmap b = some v ↔
    ∃ e ∈ entries, b = toBeBytes 4 e.1 ∧ v = asBytes e.2
  jmapToUid : ∀ pre u i post, entries = pre ++ (u, i) :: post → (∀ e ∈ post, e.2 ≠ i) →
    record db mailbox Sep.jmapToUid (asBytes i) = some (toBeBytes 4 u)
  counter : record db mailbox Sep.uidNext [] =
    if next = 0 then none else some (toBeBytes 4 next)

/-- Ids with numbers from `n` on. -/
def numberFrom : ℕ → List String → List (ℕ × String)
  | _, [] => []
  | n, i :: l => (n, i) :: numberFrom (n + 1) l

theorem map_snd_numberFrom (n : ℕ) (l : List String) : (numberFrom n l).map Prod.snd = l := by
  induction l generalizing n with
  | nil => rfl
  | cons i l ih => rw [numberFrom, List.map_cons, ih]

section Table

variable {db : Db} {mailbox : MailboxId} {T : UidTable String}
    {entries : List (ℕ × String)} {next : ℕ}

/-- A table is entries. -/
theorem Represents.toEntries (h : Represents db mailbox T) :
    Entries db mailbox T.entries T.next where
  bounds e he := (T.bounds e he).2
  nodup := T.pairwise_uids.imp Nat.ne_of_lt
  next_lt := h.next_lt
  uidToJmap := h.uidToJmap
  jmapToUid pre u i post hsplit _ := h.record_jmapToUid (by rw [hsplit]; simp)
  counter := h.counter

open Db in
theorem Entries.push (h : Entries db mailbox entries next) (i : String) (hlt : next + 1 < 2 ^ 32) :
    Entries (allocate db mailbox (next + 1) i) mailbox (entries ++ [(next + 1, i)]) (next + 1) where
  bounds e he := by
    rcases List.mem_append.mp he with he | he
    · exact Nat.le_succ_of_le (h.bounds e he)
    · rw [List.mem_singleton.mp he]
  nodup := by
    rw [List.map_append, List.nodup_append]
    refine ⟨h.nodup, List.nodup_singleton _, ?_⟩
    rintro u hu v hv rfl
    obtain ⟨e, he, rfl⟩ := List.mem_map.mp hu
    have heq : e.1 = next + 1 := List.mem_singleton.mp hv
    have hle := h.bounds e he
    omega
  next_lt := hlt
  uidToJmap b v := by
    rw [record_allocate_uidToJmap]
    refine mem_append_iff_of_update (x := (next + 1, i)) (fun e ↦ toBeBytes 4 e.1)
      (fun e ↦ asBytes e.2) h.uidToJmap (fun e he hk ↦ ?_) b v
    have hle := h.bounds e he
    rw [toBeBytes_inj (Nat.lt_of_le_of_lt hle h.next_lt) hlt] at hk
    omega
  jmapToUid pre u j post hsplit hlast := by
    rw [record_allocate_jmapToUid]
    rcases List.eq_nil_or_concat post with rfl | ⟨post, e, rfl⟩
    · obtain ⟨-, he⟩ := List.append_inj' hsplit rfl
      obtain ⟨rfl, rfl⟩ : next + 1 = u ∧ i = j := by simpa using he
      rw [if_pos rfl]
    · have hsplit' : entries ++ [(next + 1, i)] = (pre ++ (u, j) :: post) ++ [e] := by
        simpa using hsplit
      obtain ⟨rfl, he⟩ := List.append_inj' hsplit' rfl
      obtain rfl : (next + 1, i) = e := by simpa using he
      have hij : asBytes i ≠ asBytes j := fun hc ↦
        hlast (next + 1, i) (by simp) (asBytes_injective hc)
      rw [if_neg hij]
      exact h.jmapToUid pre u j post rfl fun e he ↦ hlast e (by simp [he])
  counter := by simp [allocate, Sep.uidToJmap, Sep.jmapToUid, Sep.uidNext]

end Table

namespace Db

variable {db : Db} {mailbox : MailboxId} {T : UidTable String} {listing : List String}
  {entries : List (ℕ × String)} {next : ℕ}

/-! ## Allocation -/

theorem insertJmapId_entries (h : Entries db mailbox entries next) (i : String) :
    (insertJmapId mailbox (asBytes i) (serializeUidNextKey mailbox)).run db =
      (some (toBeBytes 4 (next + 1)), allocate db mailbox (next + 1) i) := by
  have hcount : incrementUid (record db mailbox Sep.uidNext []) =
    some (toBeBytes 4 (next + 1)) := by
    rw [h.counter]
    by_cases h0 : next = 0
    · simp [h0, incrementUid]
    · rw [if_neg h0, incrementUid, u32FromBe_toBeBytes, Nat.mod_eq_of_lt h.next_lt]
      rfl
  simp [insertJmapId, Prog.run_bind, Prog.store, hcount, allocate]

/-- The listed ids whose place was not found. -/
def unfound (rest : List (String × Bool)) : List String :=
  (rest.filter fun x ↦ !x.2).map Prod.fst

/-- The allocation loop gives a UID to every place that was not found. -/
theorem addMissing_entries (rest : List (String × Bool)) (h : Entries db mailbox entries next)
    (hlt : next + (unfound rest).length < 2 ^ 32) :
    ∃ db', (addMissing mailbox (serializeUidNextKey mailbox) rest (entries.map Prod.snd)
        (entries.map Prod.fst)).run db =
        (some ((entries ++ numberFrom (next + 1) (unfound rest)).map Prod.snd,
          (entries ++ numberFrom (next + 1) (unfound rest)).map Prod.fst), db') ∧
      Entries db' mailbox (entries ++ numberFrom (next + 1) (unfound rest))
        (next + (unfound rest).length) := by
  induction rest generalizing db entries next with
  | nil =>
      have hnil : entries ++ numberFrom (next + 1) (unfound []) = entries := List.append_nil _
      rw [hnil]
      exact ⟨db, rfl, h⟩
  | cons x rest ih =>
      obtain ⟨i, found⟩ := x
      cases found with
      | true => exact ih h hlt
      | false =>
          have hcons : unfound ((i, false) :: rest) = i :: unfound rest := rfl
          rw [hcons, List.length_cons] at hlt
          have hlt₁ : next + 1 < 2 ^ 32 := by omega
          have hnumber : entries ++ numberFrom (next + 1) (unfound ((i, false) :: rest)) =
              entries ++ [(next + 1, i)] ++ numberFrom (next + 1 + 1) (unfound rest) := by
            rw [hcons, numberFrom, List.append_assoc, List.singleton_append]
          have hlength : next + (unfound ((i, false) :: rest)).length =
              next + 1 + (unfound rest).length := by
            rw [hcons, List.length_cons]
            omega
          obtain ⟨db', hrun, hentries⟩ := ih (h.push i hlt₁) (by omega)
          rw [hnumber, hlength]
          refine ⟨db', ?_, hentries⟩
          rw [addMissing, Prog.run_bind_of_eq (insertJmapId_entries h i), u32FromBe_toBeBytes,
            Nat.mod_eq_of_lt hlt₁, Prog.run_bind_of_eq (Prog.run_ofOption _ _)]
          rw [List.map_append, List.map_append] at hrun
          exact hrun

theorem uidNext_entries (h : Entries db mailbox entries next) :
    ∃ n, (uidNext mailbox).run db = (some n, db) := by
  rw [uidNext, Prog.run_bind_of_eq (Prog.run_read _ _), getElem?_serializeUidNextKey, h.counter]
  by_cases h0 : next = 0
  · rw [if_pos h0]
    exact ⟨_, rfl⟩
  · rw [if_neg h0]
    dsimp only
    rw [u32FromBe_toBeBytes, Prog.run_bind_of_eq (Prog.run_ofOption _ _)]
    exact ⟨_, rfl⟩

/-! ## The places of the listing -/

/-- The listed ids whose place was found. -/
def found (rest : List (String × Bool)) : List String := (rest.filter fun x ↦ x.2).map Prod.fst

theorem count_unfound (rest : List (String × Bool)) (i : String) :
    (unfound rest).count i + (found rest).count i = (rest.map Prod.fst).count i := by
  induction rest with
  | nil => rfl
  | cons x rest ih =>
      obtain ⟨j, b⟩ := x
      cases b with
      | true =>
          show (unfound rest).count i + (j :: found rest).count i = (j :: rest.map Prod.fst).count i
          rw [List.count_cons, List.count_cons, ← ih]
          omega
      | false =>
          show (j :: unfound rest).count i + (found rest).count i = (j :: rest.map Prod.fst).count i
          rw [List.count_cons, List.count_cons, ← ih]
          omega

section Scan

variable {st : UpdateScan} (hst : Scanned mailbox listing T.entries st)

include hst

/-- The scan finds one place of each id. -/
theorem nodup_found : (found (listing.zip st.foundIds)).Nodup := by
  rw [found, List.Nodup, List.pairwise_map, List.pairwise_filter, List.pairwise_iff_getElem]
  intro p q hp hq hpq hfp hfq heq
  have hplace : ∀ r (hr : r < (listing.zip st.foundIds).length),
      (listing.zip st.foundIds)[r].2 = true →
        (positions listing)[asBytes (listing.zip st.foundIds)[r].1]? = some r := by
    intro r hr hflag
    obtain ⟨hi, hf⟩ := List.getElem?_zip_eq_some.mp (List.getElem?_eq_getElem hr)
    rw [hflag] at hf
    exact ((hst.foundIds r _ hi).mp hf).2
  have hpos := hplace p hp hfp
  rw [heq, hplace q hq hfq] at hpos
  have heqpos := Option.some.inj hpos
  omega

/-- The ids that are found are the old ones. -/
theorem mem_found {i : String} :
    i ∈ found (listing.zip st.foundIds) ↔ i ∈ (T.restrict (· ∈ listing)).ids := by
  rw [UidTable.mem_ids_restrict, found, List.mem_map]
  constructor
  · rintro ⟨x, hx, rfl⟩
    obtain ⟨hx, hflag⟩ := List.mem_filter.mp hx
    obtain ⟨p, hp⟩ := List.getElem?_of_mem hx
    obtain ⟨hi, hf⟩ := List.getElem?_zip_eq_some.mp hp
    have hflag' : x.2 = true := hflag
    rw [hflag'] at hf
    exact ⟨((hst.foundIds p _ hi).mp hf).1, by simpa using List.mem_of_getElem? hi⟩
  · rintro ⟨hT, hl⟩
    obtain ⟨p, hpos, hi⟩ := exists_position (show i ∈ listing by simpa using hl)
    have hf := (hst.foundIds p i hi).mpr ⟨hT, hpos⟩
    refine ⟨(i, true), List.mem_filter.mpr ⟨?_, rfl⟩, rfl⟩
    exact List.mem_of_getElem? (List.getElem?_zip_eq_some.mpr ⟨hi, hf⟩)

/-- The position map is used up if no listed id is new. -/
theorem isEmpty_iff_known : st.jmapIdsMap.isEmpty = true ↔ ∀ i ∈ listing, i ∈ T.ids := by
  constructor
  · intro hempty i hi
    have hsync := hst.sync_of_isEmpty hempty
    have hmem : i ∈ (T.sync listing).ids := UidTable.mem_ids_sync.mpr hi
    rw [hsync, UidTable.mem_ids_restrict] at hmem
    exact hmem.1
  · intro hknown
    rw [Std.ExtTreeMap.isEmpty_iff]
    refine Std.ExtTreeMap.ext_getElem? fun b ↦ ?_
    cases hget : st.jmapIdsMap[b]? with
    | none => simp
    | some p =>
        obtain ⟨hpos, hnot⟩ := (hst.map b p).mp hget
        obtain ⟨i, rfl, hi, -⟩ := getElem?_positions.mp hpos
        obtain ⟨u, hu⟩ := UidTable.mem_ids.mp (hknown i (List.mem_of_getElem? hi))
        exact absurd rfl (hnot (u, i) hu)

end Scan

/-! ## The whole call -/

/-- **`update_uids` on any listing**: what the map holds afterwards, and how often each id.  If no
id is new that is once for each listed id, and otherwise as often as it is listed. -/
theorem updateUids_repeats (h : Represents db mailbox T) (clock : Clock)
    (hlt : T.next + listing.length < 2 ^ 32) :
    ∃ data db' entries next, (updateUids mailbox clock listing).run db = (some data, db') ∧
      Entries db' mailbox entries next ∧
      data.jmapIds = entries.map Prod.snd ∧ data.imapUids = entries.map Prod.fst ∧
      (∀ e ∈ T.entries, e.2 ∈ listing → e ∈ entries) ∧
      ∀ i, (entries.map Prod.snd).count i =
        if ∀ j ∈ listing, j ∈ T.ids then if i ∈ listing then 1 else 0 else listing.count i := by
  obtain ⟨v, db₁, st, db₂, hval, hscan, hbatch, hst, hrep, -⟩ := updateUids_scan_run h clock
  have hids : st.jmapIds = (T.restrict (· ∈ listing)).entries.map Prod.snd := hst.jmapIds
  have huids : st.imapUids = (T.restrict (· ∈ listing)).entries.map Prod.fst := hst.imapUids
  have hcount : ∀ i, ((T.restrict (· ∈ listing)).entries.map Prod.snd).count i =
      (found (listing.zip st.foundIds)).count i := by
    intro i
    rw [(T.restrict (· ∈ listing)).nodup.count, (nodup_found hst).count]
    simp only [mem_found hst]
    rfl
  have hkept : ∀ e ∈ T.entries, e.2 ∈ listing → e ∈ (T.restrict (· ∈ listing)).entries :=
    fun e he hl ↦ List.mem_filter.mpr ⟨he, by simpa using hl⟩
  -- what `addNewIds` makes of the entries that are left
  obtain ⟨added, db₃, hadd, hentries, hadded⟩ : ∃ added db₃,
      (addNewIds mailbox listing st).run db₂ =
        (some (((T.restrict (· ∈ listing)).entries ++ added).map Prod.snd,
          ((T.restrict (· ∈ listing)).entries ++ added).map Prod.fst), db₃) ∧
      (∃ next, Entries db₃ mailbox ((T.restrict (· ∈ listing)).entries ++ added) next) ∧
      added.map Prod.snd = if ∀ j ∈ listing, j ∈ T.ids then []
        else unfound (listing.zip st.foundIds) := by
    rw [addNewIds]
    by_cases hknown : ∀ j ∈ listing, j ∈ T.ids
    · rw [if_pos ((isEmpty_iff_known hst).mpr hknown), if_pos hknown]
      refine ⟨[], db₂, ?_, ⟨T.next, ?_⟩, rfl⟩
      · rw [List.append_nil, Prog.run_pure, hids, huids]
      · rw [List.append_nil]
        exact hrep.toEntries
    · rw [if_neg (fun hempty ↦ hknown ((isEmpty_iff_known hst).mp hempty)), if_neg hknown]
      have hlen : (unfound (listing.zip st.foundIds)).length ≤ listing.length := by
        rw [unfound, List.length_map]
        refine (List.length_filter_le _ _).trans ?_
        rw [List.length_zip]
        exact Nat.min_le_left _ _
      obtain ⟨db₃, hrun, hentries⟩ := addMissing_entries (listing.zip st.foundIds) hrep.toEntries
        (show T.next + _ < _ by omega)
      rw [← hids, ← huids] at hrun
      exact ⟨_, db₃, hrun, ⟨_, hentries⟩, map_snd_numberFrom _ _⟩
  obtain ⟨next, hentries⟩ := hentries
  obtain ⟨n, hnext⟩ := uidNext_entries hentries
  refine ⟨⟨n, v, _, _, (((T.restrict (· ∈ listing)).entries ++ added).map Prod.fst).length, ""⟩,
    db₃,
    (T.restrict (· ∈ listing)).entries ++ added, next, ?_, hentries, rfl, rfl,
      fun e he hl ↦ List.mem_append_left _ (hkept e he hl), ?_⟩
  · rw [updateUids, Prog.run_bind_of_eq hval]
    dsimp only
    rw [Prog.run_bind_of_eq hscan, Prog.run_bind_of_eq hbatch, Prog.run_bind_of_eq hadd]
    dsimp only
    rw [Prog.run_bind_of_eq hnext, Prog.run_pure]
  · intro i
    rw [List.map_append, List.count_append, hadded, hcount i]
    split
    · next hknown =>
        rw [List.count_nil, Nat.add_zero, (nodup_found hst).count]
        refine if_congr ?_ rfl rfl
        rw [mem_found hst, UidTable.mem_ids_restrict]
        constructor
        · rintro ⟨-, hl⟩
          simpa using hl
        · intro hl
          exact ⟨hknown i hl, by simpa using hl⟩
    · rw [Nat.add_comm, count_unfound, hst.map_fst_zip]

end Db

end ImapToJmap
