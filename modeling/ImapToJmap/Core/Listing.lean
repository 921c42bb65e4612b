import ImapToJmap.Core.Repeats

/-!
# Listing a mailbox

`SessionData::synchronize_messages` asks for the ids of a mailbox page by page, at most a hundred
times, while the mailbox may change between the requests.  A page begins where the earlier ones end,
so what another client adds or removes in the meantime shifts the messages: an id may be on two
pages, or on none.

`synchronizeMessages_settles_iff` is when the messages that were there all the time come out of it
with one UID each, the one they had.  Each has to be on a page.  And each may be on no page twice,
unless no id on the pages is new.
-/

namespace ImapToJmap

open Kv Db

/-! ## The code -/

/-- What is read of the response to `Email/query`. -/
structure QueryEmail where
  ids : List String
  total : ℕ

/-- A number as an `i32`. -/
def toI32 (n : ℤ) : ℤ := (n + 2 ^ 31) % 2 ^ 32 - 2 ^ 31

/-- The loop over the pages.  `query` answers the requests, by their number and the position asked
for. -/
def fetchIds (query : ℕ → ℤ → QueryEmail) : ℕ → ℕ → ℤ → List String → List String
  | 0, _, _, validIds => validIds
  | left + 1, round, position, validIds =>
      let response := query round position
      if 0 < response.ids.length then
        let validIds := validIds ++ response.ids
        if validIds.length < response.total then
          fetchIds query left (round + 1) (toI32 (position + response.ids.length)) validIds
        else validIds
      else validIds

/-- `SessionData::synchronize_messages`, with requests that succeed. -/
def Db.synchronizeMessages (query : ℕ → ℤ → QueryEmail) (mailbox : MailboxId) (clock : Clock) :
    DbM MailboxData :=
  updateUids mailbox clock (fetchIds query 100 0 0 [])

/-! ## The pages -/

/-- A server that answers `Email/query` with at most `size` ids from a position on; a negative
position counts from the end. -/
def queryPage (contents : List String) (size : ℕ) (position : ℤ) : QueryEmail where
  ids := (contents.drop
    (if 0 ≤ position then position else contents.length + position).toNat).take size
  total := contents.length

section Pages

variable (contents : ℕ → List String) (size : ℕ → ℕ)

/-- The ids on the first pages.  The mailbox holds `contents k` at request `k`. -/
def gathered : ℕ → List String
  | 0 => []
  | k + 1 => gathered k ++ (queryPage (contents k) (size k) (toI32 (gathered k).length)).ids

/-- Request `k` is not the last: it finds something, and the mailbox has more. -/
def GoesOn (k : ℕ) : Prop :=
  0 < (queryPage (contents k) (size k) (toI32 (gathered contents size k).length)).ids.length ∧
    (gathered contents size (k + 1)).length < (contents k).length

/-- As many requests are made. -/
def Requests (n : ℕ) : Prop :=
  0 < n ∧ n ≤ 100 ∧ (∀ k, k + 1 < n → GoesOn contents size k) ∧
    (n = 100 ∨ ¬ GoesOn contents size (n - 1))

variable {contents size}

theorem toI32_add (a b : ℤ) : toI32 (toI32 a + b) = toI32 (a + b) := by
  unfold toI32
  omega

/-- The loop gathers the pages. -/
theorem fetchIds_eq_gathered {n : ℕ} (hn : Requests contents size n) {k : ℕ} (hk : k < n) :
    fetchIds (fun k ↦ queryPage (contents k) (size k)) (100 - k) k
      (toI32 (gathered contents size k).length) (gathered contents size k) =
        gathered contents size n := by
  obtain ⟨hpos, hle, hgoes, hlast⟩ := hn
  obtain ⟨left, hleft⟩ : ∃ left, n - 1 - k = left := ⟨_, rfl⟩
  induction left generalizing k with
  | zero =>
      obtain rfl : k = n - 1 := by omega
      have hround : 100 - (n - 1) = (100 - n) + 1 := by omega
      have hn : n - 1 + 1 = n := by omega
      have hgathered : gathered contents size n = gathered contents size (n - 1) ++
          (queryPage (contents (n - 1)) (size (n - 1))
            (toI32 (gathered contents size (n - 1)).length)).ids := by
        conv_lhs => rw [← hn, gathered]
      rw [hround, fetchIds, ← hgathered]
      split
      · dsimp only
        split
        · next hids htotal =>
            have hgoes' : GoesOn contents size (n - 1) := by
              refine ⟨hids, ?_⟩
              rw [hn]
              exact htotal
            obtain rfl : n = 100 := hlast.resolve_right (not_not_intro hgoes')
            rfl
        · rfl
      · next hids =>
          rw [hgathered, List.eq_nil_of_length_eq_zero (Nat.eq_zero_of_not_pos hids),
            List.append_nil]
  | succ left ih =>
      obtain ⟨hids, htotal⟩ := hgoes k (by omega)
      have hround : 100 - k = (100 - (k + 1)) + 1 := by omega
      rw [hround, fetchIds, if_pos hids]
      have hgathered : gathered contents size (k + 1) = gathered contents size k ++
          (queryPage (contents k) (size k) (toI32 (gathered contents size k).length)).ids := rfl
      rw [toI32_add, ← Nat.cast_add, ← List.length_append, ← hgathered]
      dsimp only
      rw [if_pos (show _ < (queryPage (contents k) (size k) _).total from htotal)]
      exact ih (by omega) (by omega)

theorem exists_requests : ∃ n, Requests contents size n := by
  by_cases hall : ∃ k, k < 99 ∧ ¬ GoesOn contents size k
  · classical
    obtain ⟨hlt, hnot⟩ := Nat.find_spec hall
    refine ⟨Nat.find hall + 1, Nat.succ_pos _, by omega, ?_, .inr ?_⟩
    · intro k hk
      by_contra hc
      exact Nat.find_min hall (by omega) ⟨by omega, hc⟩
    · rw [Nat.add_sub_cancel]
      exact hnot
  · push Not at hall
    exact ⟨100, by decide, le_rfl, fun k hk ↦ hall k (by omega), .inl rfl⟩

end Pages

/-! ## The messages that stay -/

/-- The email has one UID, in the database and in the view, which is the one it had. -/
def InStep (T : UidTable String) (db : Db) (mailbox : MailboxId) (data : MailboxData) (i : String) :
    Prop :=
  ∃ u, (∀ b, record db mailbox Sep.uidToJmap b = some (asBytes i) ↔ b = toBeBytes 4 u) ∧
    record db mailbox Sep.jmapToUid (asBytes i) = some (toBeBytes 4 u) ∧
    data.jmapIds.count i = 1 ∧ (i, u) ∈ data.pairs ∧ ∀ v, (v, i) ∈ T.entries → v = u

/-- An id that stands in a list of entries once, stands there with one number. -/
theorem exists_entry_of_count {entries : List (ℕ × String)} {i : String}
    (h : (entries.map Prod.snd).count i = 1) : ∃ pre u post, entries = pre ++ (u, i) :: post ∧
      (∀ e ∈ pre, e.2 ≠ i) ∧ ∀ e ∈ post, e.2 ≠ i := by
  have hmem : i ∈ entries.map Prod.snd := List.count_pos_iff.mp (by omega)
  obtain ⟨⟨u, j⟩, he, rfl⟩ := List.mem_map.mp hmem
  obtain ⟨pre, post, rfl⟩ := List.append_of_mem he
  have hsum : (pre.map Prod.snd).count j + (post.map Prod.snd).count j = 0 := by
    have h' : (pre.map Prod.snd ++ j :: post.map Prod.snd).count j = 1 := by simpa using h
    rw [List.count_append, List.count_cons_self] at h'
    omega
  have hnone : ∀ l : List (ℕ × String), (l.map Prod.snd).count j = 0 → ∀ e ∈ l, e.2 ≠ j := by
    intro l hl e hel hc
    exact List.count_eq_zero.mp hl (hc ▸ List.mem_map_of_mem hel)
  exact ⟨pre, u, post, rfl, hnone pre (by omega), hnone post (by omega)⟩

/-- What is settled stands in the entries once. -/
theorem settled_iff {T : UidTable String} {db : Db} {mailbox : MailboxId} {data : MailboxData}
    {entries : List (ℕ × String)} {next : ℕ} (h : Entries db mailbox entries next)
    (hids : data.jmapIds = entries.map Prod.snd) (huids : data.imapUids = entries.map Prod.fst)
    {i : String} (hkept : ∀ v, (v, i) ∈ T.entries → i ∈ entries.map Prod.snd → (v, i) ∈ entries) :
    InStep T db mailbox data i ↔ (entries.map Prod.snd).count i = 1 := by
  constructor
  · rintro ⟨u, -, -, hcount, -⟩
    rw [← hids]
    exact hcount
  · intro hcount
    obtain ⟨pre, u, post, hsplit, hpre, hpost⟩ := exists_entry_of_count hcount
    have hmem : (u, i) ∈ entries := by rw [hsplit]; simp
    have honly : ∀ v, (v, i) ∈ entries → v = u := by
      intro v hv
      rw [hsplit, List.mem_append, List.mem_cons] at hv
      rcases hv with hv | hv | hv
      · exact absurd rfl (hpre _ hv)
      · exact (Prod.mk.inj hv).1
      · exact absurd rfl (hpost _ hv)
    refine ⟨u, ?_, h.jmapToUid pre u i post hsplit hpost, by rw [hids]; exact hcount, ?_, ?_⟩
    · intro b
      rw [h.uidToJmap]
      constructor
      · rintro ⟨⟨v, j⟩, he, rfl, hj⟩
        obtain rfl : i = j := asBytes_injective hj
        rw [honly v he]
      · rintro rfl
        exact ⟨_, hmem, rfl, rfl⟩
    · rw [MailboxData.pairs, hids, huids, List.zip_map']
      exact List.mem_map.mpr ⟨_, hmem, rfl⟩
    · intro v hv
      exact honly v (hkept v hv (List.mem_map_of_mem hmem))

/-- **The messages that are in the mailbox during the whole listing** come out of
`synchronize_messages` with one UID, the one they had, if and only if each of them is on the pages,
and there once, unless all that is on the pages had a UID before. -/
theorem synchronizeMessages_settles_iff {db : Db} {mailbox : MailboxId} {T : UidTable String}
    (h : Represents db mailbox T) (clock : Clock) {contents : ℕ → List String}
    {size : ℕ → ℕ} {n : ℕ}
    (hn : Requests contents size n)
    (hroom : T.next + (gathered contents size n).length < 2 ^ 32) :
    ∃ data db',
      (synchronizeMessages (fun k ↦ queryPage (contents k) (size k)) mailbox clock).run db =
        (some data, db') ∧
      ((∀ i, (∀ k < n, i ∈ contents k) → InStep T db' mailbox data i) ↔
        ∀ i, (∀ k < n, i ∈ contents k) → i ∈ gathered contents size n ∧
          ((gathered contents size n).count i = 1 ∨ ∀ j ∈ gathered contents size n,
            j ∈ T.ids)) := by
  have hlisting : fetchIds (fun k ↦ queryPage (contents k) (size k)) 100 0 0 [] =
      gathered contents size n := by
    have hloop := fetchIds_eq_gathered hn hn.1
    have hzero : toI32 ((gathered contents size 0).length : ℤ) = 0 := by
      rw [gathered]
      decide
    rw [hzero, gathered, Nat.sub_zero] at hloop
    exact hloop
  obtain ⟨data, db', entries, next, hrun, hentries, hids, huids, hkept, hcount⟩ :=
    updateUids_repeats h clock hroom
  refine ⟨data, db', ?_, ?_⟩
  · rw [synchronizeMessages, hlisting]
    exact hrun
  · refine forall_congr' fun i ↦ forall_congr' fun _ ↦ ?_
    have hlisted : i ∈ entries.map Prod.snd → i ∈ gathered contents size n := by
      intro hmem
      have hpos := List.count_pos_iff.mpr hmem
      rw [hcount i] at hpos
      split at hpos
      · by_contra hnot
        rw [if_neg hnot] at hpos
        exact absurd hpos (by decide)
      · exact List.count_pos_iff.mp hpos
    rw [settled_iff hentries hids huids fun v hv hmem ↦ hkept _ hv (hlisted hmem), hcount i]
    split
    · next hknown =>
        constructor
        · intro hone
          refine ⟨?_, .inr hknown⟩
          by_contra hnot
          rw [if_neg hnot] at hone
          cases hone
        · rintro ⟨hmem, -⟩
          rw [if_pos hmem]
    · next hnew =>
        constructor
        · intro hone
          exact ⟨List.count_pos_iff.mp (by omega), .inl hone⟩
        · rintro ⟨-, hone⟩
          exact hone.resolve_right hnew

/-- A mailbox with two messages, listed on pages of one; between the requests a third arrives in
front of them. -/
def shifted (k : ℕ) : List String := if k = 0 then ["A", "B"] else ["C", "A", "B"]

theorem requests_shifted : Requests shifted (fun _ ↦ 1) 3 := by
  refine ⟨by decide, by decide, ?_, .inr ?_⟩
  · intro k hk
    obtain rfl | rfl : k = 0 ∨ k = 1 := by omega
    · unfold GoesOn
      decide
    · unfold GoesOn
      decide
  · unfold GoesOn
    decide

theorem synchronizeMessages_settles_iff_shifted :
    Represents ∅ ⟨"u1", some "A"⟩ .empty ∧ Requests shifted (fun _ ↦ 1) 3 ∧
      ∃ data db',
        (synchronizeMessages (fun k ↦ queryPage (shifted k) 1) ⟨"u1", some "A"⟩ fun _ ↦ 0).run ∅ =
          (some data, db') ∧
        ((∀ i, (∀ k < 3, i ∈ shifted k) → InStep .empty db' ⟨"u1", some "A"⟩ data i) ↔
          ∀ i, (∀ k < 3, i ∈ shifted k) → i ∈ gathered shifted (fun _ ↦ 1) 3 ∧
            ((gathered shifted (fun _ ↦ 1) 3).count i = 1 ∨
              ∀ j ∈ gathered shifted (fun _ ↦ 1) 3,
                j ∈ (UidTable.empty : UidTable String).ids)) := by
  have hempty : Represents ∅ ⟨"u1", some "A"⟩ .empty := .empty _
  refine ⟨hempty, requests_shifted, ?_⟩
  exact synchronizeMessages_settles_iff hempty (fun _ ↦ 0) requests_shifted (by decide)

/-- **Two UIDs for one message**: `A` is on the first page and on the second. -/
theorem synchronizeMessages_repeats : ∃ data db',
    (synchronizeMessages (fun k ↦ queryPage (shifted k) 1) ⟨"u1", some "A"⟩ fun _ ↦ 0).run ∅ =
      (some data, db') ∧ data.jmapIds = ["A", "A", "B"] ∧
      (∀ k < 3, "A" ∈ shifted k) ∧ ¬ InStep .empty db' ⟨"u1", some "A"⟩ data "A" := by
  have hall : ∀ k, "A" ∈ shifted k := by
    intro k
    unfold shifted
    split <;> decide
  have hids :
      ((synchronizeMessages (fun k ↦ queryPage (shifted k) 1) ⟨"u1", some "A"⟩ fun _ ↦ 0).run
        ∅).1.map MailboxData.jmapIds = some ["A", "A", "B"] := by decide +kernel
  generalize (synchronizeMessages (fun k ↦ queryPage (shifted k) 1) ⟨"u1", some "A"⟩ fun _ ↦ 0).run
    ∅ = answer at hids
  obtain ⟨answer, db'⟩ := answer
  obtain ⟨data, rfl, hdata⟩ := Option.map_eq_some_iff.mp hids
  refine ⟨data, db', rfl, hdata, fun k _ ↦ hall k, ?_⟩
  rintro ⟨u, -, -, hcount, -⟩
  rw [hdata] at hcount
  exact absurd hcount (by decide)

end ImapToJmap
