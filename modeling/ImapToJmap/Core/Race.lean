import ImapToJmap.Core.Follows
import ImapToJmap.Run.Basic

/-!
# Workers that share a mailbox

Any number of `update_uids` and `jmap_to_imap(AddIfMissing)` calls on one mailbox, interleaved at
the single operations of the store (`Kv.Pool`).

Nothing in the code ties the look-up of an id to the allocation that follows it, or the scan of
the map to the batch that deletes what it saw.  So two workers can number one message twice, and
the next synchronization then takes one of the two records for a deletion and removes the reverse
mapping of a message that is still there (`race_numbers_twice`).

`race_free` says what has to go right.  A step is `Unraced` if it does not act on outdated
knowledge: an id is only linked to a UID while it has none, and a batch only deletes the reverse
mapping it means to delete.  In every run of unraced steps the map is consistent throughout, up to
the records of the messages that are just being numbered (`Consistent`).
-/

namespace ImapToJmap

open Kv

/-! ## Calls -/

/-- A call that may number messages. -/
inductive Call where
  | updateUids (clock : Clock) (listing : List String)
  | addIfMissing (ids : List String)

namespace Call

/-- What a worker runs for the call. -/
def prog (mailbox : MailboxId) : Call → DbM Unit
  | updateUids clock listing => do
      let _ ← Db.updateUids mailbox clock listing
      pure ()
  | addIfMissing ids => do
      let _ ← Db.jmapToImap mailbox ids .addIfMissing
      pure ()

/-- The ids of the call are JMAP ids. -/
def WellFormed : Call → Prop
  | updateUids _ listing => ∀ i ∈ listing, IsJmapId i
  | addIfMissing ids => ∀ i ∈ ids, IsJmapId i

theorem prog_follows {mailbox : MailboxId} {call : Call} (h : call.WellFormed) :
    Db.Follows mailbox (fun _ _ ↦ True) (call.prog mailbox) ⟨.idle, []⟩ := by
  cases call with
  | updateUids clock listing =>
      exact Db.follows_bind (Db.updateUids_follows h clock []) fun _ _ _ ↦
        Db.follows_done fun _ _ ↦ trivial
  | addIfMissing ids =>
      exact Db.follows_bind (Db.jmapToImap_follows h .addIfMissing []) fun _ _ _ ↦
        Db.follows_done fun _ _ ↦ trivial

end Call

/-- The pool of workers at the start. -/
def startCalls (mailbox : MailboxId) (calls : List Call) (db : Db) : Pool UInt8 Bytes Unit :=
  ⟨calls.map (Call.prog mailbox), db⟩

/-! ## The invariant -/

/-- The UID a worker is giving out. -/
def Phase.uid : Phase → Option ℕ
  | .idle => none
  | .allocated u => some u
  | .linked u _ => some u

/-- The map of a mailbox while workers are numbering messages: every `UID_TO_JMAP` record has its
reverse mapping, every reverse mapping has its record or is about to get it, and nobody holds a UID
that is in the map already. -/
structure Consistent (mailbox : MailboxId) (db : Db) (n : ℕ) (ws : ℕ → Worker) : Prop where
  next_lt : n < 2 ^ 32
  counter : record db mailbox Sep.uidNext [] = if n = 0 then none else some (toBeBytes 4 n)
  validity : ∀ v, record db mailbox Sep.uidValidity [] = some v → v.length = 4
  uidToJmap : ∀ b v, record db mailbox Sep.uidToJmap b = some v → ∃ u i, b = toBeBytes 4 u ∧
    v = asBytes i ∧ IsJmapId i ∧ 1 ≤ u ∧ u ≤ n ∧
    record db mailbox Sep.jmapToUid (asBytes i) = some (toBeBytes 4 u)
  jmapToUid : ∀ b v, record db mailbox Sep.jmapToUid b = some v → ∃ u i, b = asBytes i ∧
    v = toBeBytes 4 u ∧ (record db mailbox Sep.uidToJmap (toBeBytes 4 u) = some (asBytes i) ∨
      ∃ k, (ws k).phase = .linked u i)
  fresh : ∀ k u, (ws k).phase.uid = some u → 1 ≤ u ∧ u ≤ n ∧
    record db mailbox Sep.uidToJmap (toBeBytes 4 u) = none
  linked : ∀ k u i, (ws k).phase = .linked u i → IsJmapId i ∧
    record db mailbox Sep.jmapToUid (asBytes i) = some (toBeBytes 4 u)
  distinct : ∀ k k' u, (ws k).phase.uid = some u → (ws k').phase.uid = some u → k = k'
  seen : ∀ k, ∀ e ∈ (ws k).seen, e.1 ≤ n ∧ (∀ k', (ws k').phase.uid ≠ some e.1) ∧
    ∀ v, record db mailbox Sep.uidToJmap (toBeBytes 4 e.1) = some v → v = asBytes e.2

namespace Consistent

variable {mailbox : MailboxId} {db db' : Db} {n : ℕ} {ws : ℕ → Worker}

/-- A mailbox nobody is working on. -/
theorem of_represents {T : UidTable String} (h : Represents db mailbox T) :
    Consistent mailbox db T.next fun _ ↦ ⟨.idle, []⟩ where
  next_lt := h.next_lt
  counter := h.counter
  validity := h.validity
  uidToJmap b v hget := by
    obtain ⟨e, he, rfl, rfl⟩ := (h.uidToJmap _ _).mp hget
    exact ⟨e.1, e.2, rfl, rfl, h.isJmapId e he, (T.bounds e he).1, (T.bounds e he).2,
      h.record_jmapToUid he⟩
  jmapToUid b v hget := by
    obtain ⟨e, he, rfl, rfl⟩ := (h.jmapToUid _ _).mp hget
    exact ⟨e.1, e.2, rfl, rfl, .inl ((h.uidToJmap _ _).mpr ⟨e, he, rfl, rfl⟩)⟩
  fresh k u hu := by simp [Phase.uid] at hu
  linked k u i hl := by simp at hl
  distinct k k' u hu := by simp [Phase.uid] at hu
  seen k e he := by simp at he

/-- No message has two numbers. -/
theorem uid_unique (h : Consistent mailbox db n ws) {uid uid' jmapId : Bytes}
    (h₁ : record db mailbox Sep.uidToJmap uid = some jmapId)
    (h₂ : record db mailbox Sep.uidToJmap uid' = some jmapId) : uid = uid' := by
  obtain ⟨u, i, rfl, rfl, -, -, -, hu⟩ := h.uidToJmap _ _ h₁
  obtain ⟨u', i', rfl, hi, -, -, -, hu'⟩ := h.uidToJmap _ _ h₂
  rw [← hi, hu] at hu'
  exact Option.some.inj hu'

/-- The numbered messages, in order. -/
def entries (mailbox : MailboxId) (db : Db) (n : ℕ) : List (ℕ × String) :=
  (List.range (n + 1)).filterMap fun u ↦
    ((record db mailbox Sep.uidToJmap (toBeBytes 4 u)).bind fromUtf8).map (u, ·)

theorem mem_entries (h : Consistent mailbox db n ws) {e : ℕ × String} :
    e ∈ entries mailbox db n ↔
      e.1 ≤ n ∧ record db mailbox Sep.uidToJmap (toBeBytes 4 e.1) = some (asBytes e.2) := by
  obtain ⟨u, i⟩ := e
  simp only [entries, List.mem_filterMap, List.mem_range, Option.map_eq_some_iff,
    Option.bind_eq_some_iff, Prod.mk.injEq]
  constructor
  · rintro ⟨u', hlt, i', ⟨v, hget, hv⟩, rfl, rfl⟩
    obtain ⟨u, i, -, rfl, -⟩ := h.uidToJmap _ _ hget
    rw [fromUtf8_asBytes] at hv
    obtain rfl := Option.some.inj hv
    exact ⟨by omega, hget⟩
  · rintro ⟨hle, hget⟩
    exact ⟨u, by omega, i, ⟨_, hget, fromUtf8_asBytes i⟩, rfl, rfl⟩

/-- **A mailbox nobody is numbering messages in is represented by a table.** -/
theorem represents (h : Consistent mailbox db n ws) (hidle : ∀ k, (ws k).phase = .idle) :
    ∃ T, Represents db mailbox T := by
  have hU : ∀ b v, record db mailbox Sep.uidToJmap b = some v ↔
      ∃ e ∈ entries mailbox db n, b = toBeBytes 4 e.1 ∧ v = asBytes e.2 := by
    intro b v
    constructor
    · intro hget
      obtain ⟨u, i, rfl, rfl, -, -, hle, -⟩ := h.uidToJmap _ _ hget
      exact ⟨(u, i), h.mem_entries.mpr ⟨hle, hget⟩, rfl, rfl⟩
    · rintro ⟨e, he, rfl, rfl⟩
      exact (h.mem_entries.mp he).2
  -- a number read from the key is the number written there
  have hinj : ∀ e ∈ entries mailbox db n, e.1 < 256 ^ 4 := fun e he ↦
    (h.mem_entries.mp he).1.trans_lt h.next_lt
  have hrev : ∀ e ∈ entries mailbox db n, IsJmapId e.2 ∧ 1 ≤ e.1 ∧
      record db mailbox Sep.jmapToUid (asBytes e.2) = some (toBeBytes 4 e.1) := by
    intro e he
    obtain ⟨u, i, hb, hv, hi, hpos, hle, hJ⟩ := h.uidToJmap _ _ (h.mem_entries.mp he).2
    obtain rfl := asBytes_injective hv
    have hu : e.1 = u := (toBeBytes_inj (hinj e he) (hle.trans_lt h.next_lt)).mp hb
    exact ⟨hi, hu ▸ hpos, hb ▸ hJ⟩
  refine ⟨⟨entries mailbox db n, n, ?_, ?_, ?_⟩, ?_, h.next_lt, hU, ?_, h.counter, h.validity⟩
  · refine List.Pairwise.filterMap _ ?_ List.pairwise_lt_range
    intro a b hab x hx y hy
    obtain ⟨i, -, rfl⟩ := Option.map_eq_some_iff.mp hx
    obtain ⟨j, -, rfl⟩ := Option.map_eq_some_iff.mp hy
    exact hab
  · refine List.Nodup.map_on ?_ ?_
    · intro e he e' he' hid
      have h₁ := (hrev e he).2.2
      have h₂ := (hrev e' he').2.2
      rw [hid, h₂] at h₁
      have hu := (toBeBytes_inj (hinj e' he') (hinj e he)).mp (Option.some.inj h₁)
      exact Prod.ext hu.symm hid
    · refine List.Nodup.filterMap ?_ List.nodup_range
      intro a b x hx hy
      obtain ⟨i, -, rfl⟩ := Option.map_eq_some_iff.mp hx
      obtain ⟨j, -, hj⟩ := Option.map_eq_some_iff.mp hy
      exact (congrArg Prod.fst hj).symm
  · exact fun e he ↦ ⟨(hrev e he).2.1, (h.mem_entries.mp he).1⟩
  · exact fun e he ↦ (hrev e he).1
  · intro b v
    constructor
    · intro hget
      obtain ⟨u, i, rfl, rfl, hor⟩ := h.jmapToUid _ _ hget
      rcases hor with hget' | ⟨k, hk⟩
      · obtain ⟨e, he, hb, hv⟩ := (hU _ _).mp hget'
        exact ⟨e, he, hv, hb⟩
      · rw [hidle k] at hk
        exact absurd hk (by simp)
    · rintro ⟨e, he, rfl, rfl⟩
      exact (hrev e he).2.2

/-! ## Steps -/

/-- Writes elsewhere do not matter. -/
theorem congr (h : Consistent mailbox db n ws)
    (hU : ∀ b, record db' mailbox Sep.uidToJmap b = record db mailbox Sep.uidToJmap b)
    (hJ : ∀ b, record db' mailbox Sep.jmapToUid b = record db mailbox Sep.jmapToUid b)
    (hN : record db' mailbox Sep.uidNext [] = record db mailbox Sep.uidNext [])
    (hV : ∀ v, record db' mailbox Sep.uidValidity [] = some v → v.length = 4) :
    Consistent mailbox db' n ws where
  next_lt := h.next_lt
  counter := hN ▸ h.counter
  validity := hV
  uidToJmap b v := by simpa only [hU, hJ] using h.uidToJmap b v
  jmapToUid b v := by simpa only [hU, hJ] using h.jmapToUid b v
  fresh k u := by simpa only [hU] using h.fresh k u
  linked k u i := by simpa only [hJ] using h.linked k u i
  distinct := h.distinct
  seen k e he := by simpa only [hU] using h.seen k e he

/-- A UID above the counter is not in the map. -/
theorem record_none_of_lt (h : Consistent mailbox db n ws) {u : ℕ} (hlt : n < u)
    (hu : u < 2 ^ 32) : record db mailbox Sep.uidToJmap (toBeBytes 4 u) = none := by
  cases hget : record db mailbox Sep.uidToJmap (toBeBytes 4 u) with
  | none => rfl
  | some v =>
      obtain ⟨u', i, hb, -, -, -, hle, -⟩ := h.uidToJmap _ _ hget
      have := (toBeBytes_inj (show u < 256 ^ 4 from hu) (hle.trans_lt h.next_lt)).mp hb
      omega

section Steps

variable {k : ℕ} {seen : List (ℕ × String)}

/-- A worker that changes its phase has seen what it had seen before. -/
theorem mem_seen_update {w : Worker} (hw : (ws k).seen = w.seen) (k' : ℕ) (e : ℕ × String) :
    e ∈ (Function.update ws k w k').seen ↔ e ∈ (ws k').seen := by
  rcases eq_or_ne k' k with rfl | hne
  · simp [hw]
  · rw [Function.update_of_ne hne]

/-- **Allocating.** -/
theorem allocate (h : Consistent mailbox db n ws) (hw : ws k = ⟨.idle, seen⟩)
    (hlt : n + 1 < 2 ^ 32) :
    Consistent mailbox (put db mailbox Sep.uidNext [] (toBeBytes 4 (n + 1))) (n + 1)
      (Function.update ws k ⟨.allocated (n + 1), seen⟩) where
  next_lt := hlt
  counter := by simp
  validity v hv := h.validity v (by simpa [Sep.uidNext, Sep.uidValidity] using hv)
  uidToJmap b v hget := by
    obtain ⟨u, i, hb, hv, hi, hpos, hle, hJ⟩ :=
      h.uidToJmap b v (by simpa [Sep.uidNext, Sep.uidToJmap] using hget)
    exact ⟨u, i, hb, hv, hi, hpos, by omega, by simpa [Sep.uidNext, Sep.jmapToUid] using hJ⟩
  jmapToUid b v hget := by
    obtain ⟨u, i, hb, hv, hor⟩ :=
      h.jmapToUid b v (by simpa [Sep.uidNext, Sep.jmapToUid] using hget)
    refine ⟨u, i, hb, hv, hor.imp (fun hU ↦ by simpa [Sep.uidNext, Sep.uidToJmap] using hU) ?_⟩
    rintro ⟨k', hk'⟩
    have hne : k' ≠ k := fun hc ↦ by simp [hc, hw] at hk'
    exact ⟨k', by simpa [Function.update_of_ne hne] using hk'⟩
  fresh k' u hu := by
    rcases eq_or_ne k' k with rfl | hne
    · obtain rfl : n + 1 = u := by simpa [Phase.uid] using hu
      refine ⟨by omega, le_rfl, ?_⟩
      simpa [Sep.uidNext, Sep.uidToJmap] using h.record_none_of_lt (Nat.lt_succ_self n) hlt
    · rw [Function.update_of_ne hne] at hu
      obtain ⟨hpos, hle, hnone⟩ := h.fresh k' u hu
      exact ⟨hpos, by omega, by simpa [Sep.uidNext, Sep.uidToJmap] using hnone⟩
  linked k' u i hl := by
    rcases eq_or_ne k' k with rfl | hne
    · simp at hl
    · rw [Function.update_of_ne hne] at hl
      simpa [Sep.uidNext, Sep.jmapToUid] using h.linked k' u i hl
  distinct k₁ k₂ u h₁ h₂ := by
    by_cases hk₁ : k₁ = k <;> by_cases hk₂ : k₂ = k
    · exact hk₁.trans hk₂.symm
    · rw [Function.update_of_ne hk₂] at h₂
      obtain rfl : n + 1 = u := by simpa [hk₁, Phase.uid] using h₁
      have := (h.fresh k₂ _ h₂).2.1
      omega
    · rw [Function.update_of_ne hk₁] at h₁
      obtain rfl : n + 1 = u := by simpa [hk₂, Phase.uid] using h₂
      have := (h.fresh k₁ _ h₁).2.1
      omega
    · rw [Function.update_of_ne hk₁] at h₁
      rw [Function.update_of_ne hk₂] at h₂
      exact h.distinct _ _ u h₁ h₂
  seen k' e he := by
    rw [mem_seen_update (by rw [hw])] at he
    obtain ⟨hle, hnot, hv⟩ := h.seen k' e he
    refine ⟨by omega, fun k'' ↦ ?_, by simpa [Sep.uidNext, Sep.uidToJmap] using hv⟩
    rcases eq_or_ne k'' k with rfl | hne
    · simp only [Function.update_self, Phase.uid, ne_eq, Option.some.injEq]
      omega
    · rw [Function.update_of_ne hne]
      exact hnot k''

/-- **Linking** an id that has no UID. -/
theorem link (h : Consistent mailbox db n ws) {u : ℕ} {i : String}
    (hw : ws k = ⟨.allocated u, seen⟩) (hi : IsJmapId i)
    (hnone : record db mailbox Sep.jmapToUid (asBytes i) = none) :
    Consistent mailbox (put db mailbox Sep.jmapToUid (asBytes i) (toBeBytes 4 u)) n
      (Function.update ws k ⟨.linked u i, seen⟩) := by
  have huid : ∀ k', (Function.update ws k ⟨.linked u i, seen⟩ k').phase.uid =
      (ws k').phase.uid := by
    intro k'
    rcases eq_or_ne k' k with rfl | hne
    · simp [hw, Phase.uid]
    · rw [Function.update_of_ne hne]
  have hU : ∀ b, record (put db mailbox Sep.jmapToUid (asBytes i) (toBeBytes 4 u)) mailbox
      Sep.uidToJmap b = record db mailbox Sep.uidToJmap b := by
    simp [Sep.jmapToUid, Sep.uidToJmap]
  refine ⟨h.next_lt, ?_, fun v hv ↦ h.validity v ?_, fun b v hget ↦ ?_, fun b v hget ↦ ?_,
    fun k' u' hu ↦ ?_, fun k' u' i' hl ↦ ?_, fun k₁ k₂ u' h₁ h₂ ↦ ?_, fun k' e he ↦ ?_⟩
  · simpa [Sep.jmapToUid, Sep.uidNext] using h.counter
  · simpa [Sep.jmapToUid, Sep.uidValidity] using hv
  · rw [hU] at hget
    obtain ⟨u', i', hb, hv, hi', hpos, hle, hJ⟩ := h.uidToJmap b v hget
    refine ⟨u', i', hb, hv, hi', hpos, hle, ?_⟩
    have hne : ¬ asBytes i = asBytes i' := fun hc ↦ by
      rw [← hc, hnone] at hJ
      simp at hJ
    simpa [hne] using hJ
  · rw [record_put] at hget
    split at hget
    · rename_i hb
      obtain rfl := hb.2
      obtain rfl := Option.some.inj hget
      exact ⟨u, i, rfl, rfl, .inr ⟨k, by simp⟩⟩
    · obtain ⟨u', i', hb, hv, hor⟩ := h.jmapToUid b v hget
      refine ⟨u', i', hb, hv, hor.imp (fun hget' ↦ (hU _).trans hget') ?_⟩
      rintro ⟨k', hk'⟩
      have hne : k' ≠ k := fun hc ↦ by simp [hc, hw] at hk'
      exact ⟨k', by rwa [Function.update_of_ne hne]⟩
  · rw [huid] at hu
    rw [hU]
    exact h.fresh k' u' hu
  · rcases eq_or_ne k' k with rfl | hne
    · simp only [Function.update_self, Phase.linked.injEq] at hl
      obtain ⟨rfl, rfl⟩ := hl
      exact ⟨hi, by simp⟩
    · rw [Function.update_of_ne hne] at hl
      obtain ⟨hi', hJ⟩ := h.linked k' u' i' hl
      have hne' : ¬ asBytes i = asBytes i' := fun hc ↦ by
        rw [← hc, hnone] at hJ
        simp at hJ
      exact ⟨hi', by simpa [hne'] using hJ⟩
  · rw [huid] at h₁ h₂
    exact h.distinct k₁ k₂ u' h₁ h₂
  · rw [mem_seen_update (by rw [hw])] at he
    simpa only [huid, hU] using h.seen k' e he

/-- **Finishing**: the record under the UID. -/
theorem finish (h : Consistent mailbox db n ws) {u : ℕ} {i : String}
    (hw : ws k = ⟨.linked u i, seen⟩) :
    Consistent mailbox (put db mailbox Sep.uidToJmap (toBeBytes 4 u) (asBytes i)) n
      (Function.update ws k ⟨.idle, seen⟩) := by
  have huid : (ws k).phase.uid = some u := by simp [hw, Phase.uid]
  obtain ⟨hpos, hle, -⟩ := h.fresh k u huid
  obtain ⟨hi, hJ⟩ := h.linked k u i (by rw [hw])
  -- another worker holds another UID
  have hother : ∀ k' u', (Function.update ws k ⟨.idle, seen⟩ k').phase.uid = some u' →
      (ws k').phase.uid = some u' ∧ ¬ toBeBytes 4 u = toBeBytes 4 u' := by
    intro k' u' hu'
    rcases eq_or_ne k' k with rfl | hne
    · simp [Phase.uid] at hu'
    · rw [Function.update_of_ne hne] at hu'
      refine ⟨hu', fun hc ↦ hne (h.distinct k' k u ?_ huid)⟩
      have hlt : u' < 256 ^ 4 := (h.fresh k' u' hu').2.1.trans_lt h.next_lt
      rw [(toBeBytes_inj (hle.trans_lt h.next_lt) hlt).mp hc]
      exact hu'
  have hJ' : ∀ b, record (put db mailbox Sep.uidToJmap (toBeBytes 4 u) (asBytes i)) mailbox
      Sep.jmapToUid b = record db mailbox Sep.jmapToUid b := by
    simp [Sep.jmapToUid, Sep.uidToJmap]
  refine ⟨h.next_lt, ?_, fun v hv ↦ h.validity v ?_, fun b v hget ↦ ?_, fun b v hget ↦ ?_,
    fun k' u' hu ↦ ?_, fun k' u' i' hl ↦ ?_, fun k₁ k₂ u' h₁ h₂ ↦ ?_, fun k' e he ↦ ?_⟩
  · simpa [Sep.uidToJmap, Sep.uidNext] using h.counter
  · simpa [Sep.uidToJmap, Sep.uidValidity] using hv
  · rw [record_put] at hget
    simp only [hJ']
    split at hget
    · rename_i hb
      exact ⟨u, i, hb.2.symm, (Option.some.inj hget).symm, hi, hpos, hle, hJ⟩
    · exact h.uidToJmap b v hget
  · rw [hJ'] at hget
    obtain ⟨u', i', rfl, rfl, hor⟩ := h.jmapToUid b v hget
    refine ⟨u', i', rfl, rfl, ?_⟩
    rcases hor with hU | ⟨k', hk'⟩
    · refine .inl ?_
      have hne : ¬ toBeBytes 4 u = toBeBytes 4 u' := fun hc ↦ by
        rw [← hc, (h.fresh k u huid).2.2] at hU
        simp at hU
      simpa [hne] using hU
    · rcases eq_or_ne k' k with rfl | hne
      · rw [hw] at hk'
        obtain ⟨rfl, rfl⟩ := Phase.linked.inj hk'
        exact .inl (by simp)
      · exact .inr ⟨k', by rwa [Function.update_of_ne hne]⟩
  · obtain ⟨hu', hne⟩ := hother k' u' hu
    simpa [hne] using h.fresh k' u' hu'
  · rcases eq_or_ne k' k with rfl | hne
    · simp at hl
    · rw [Function.update_of_ne hne] at hl
      rw [hJ']
      exact h.linked k' u' i' hl
  · exact h.distinct k₁ k₂ u' (hother k₁ u' h₁).1 (hother k₂ u' h₂).1
  · rw [mem_seen_update (by rw [hw])] at he
    obtain ⟨hle', hnot, hv⟩ := h.seen k' e he
    refine ⟨hle', fun k'' hk'' ↦ hnot k'' (hother k'' _ hk'').1, fun v hget ↦ hv v ?_⟩
    have hne : ¬ toBeBytes 4 u = toBeBytes 4 e.1 := fun hc ↦ by
      have := (toBeBytes_inj (hle.trans_lt h.next_lt) (hle'.trans_lt h.next_lt)).mp hc
      exact hnot k (this ▸ huid)
    simpa [hne] using hget

/-- **Seeing** a record. -/
theorem see (h : Consistent mailbox db n ws) (hw : ws k = ⟨.idle, seen⟩) {u : ℕ} {i : String}
    (hget : record db mailbox Sep.uidToJmap (toBeBytes 4 u) = some (asBytes i)) (hle : u ≤ n) :
    Consistent mailbox db n (Function.update ws k ⟨.idle, (u, i) :: seen⟩) := by
  have hphase : ∀ k', (Function.update ws k ⟨.idle, (u, i) :: seen⟩ k').phase = (ws k').phase := by
    intro k'
    rcases eq_or_ne k' k with rfl | hne
    · simp [hw]
    · rw [Function.update_of_ne hne]
  refine ⟨h.next_lt, h.counter, h.validity, h.uidToJmap, ?_, ?_, ?_, ?_, fun k' e he ↦ ?_⟩
  · simpa only [hphase] using h.jmapToUid
  · simpa only [hphase] using h.fresh
  · simpa only [hphase] using h.linked
  · simpa only [hphase] using h.distinct
  · simp only [hphase]
    rcases eq_or_ne k' k with rfl | hne
    · rw [Function.update_self, List.mem_cons] at he
      rcases he with rfl | he
      · refine ⟨hle, fun k'' hk'' ↦ ?_, fun v hv ↦ ?_⟩
        · rw [(h.fresh k'' u hk'').2.2] at hget
          simp at hget
        · rw [hget] at hv
          exact (Option.some.inj hv).symm
      · exact h.seen k' e (by rw [hw]; exact he)
    · rw [Function.update_of_ne hne] at he
      exact h.seen k' e he

/-- **Deleting** what has been seen, where every reverse mapping that goes is the one seen. -/
theorem delete (h : Consistent mailbox db n ws) {gone : List (ℕ × String)}
    {batch : List (Edit UInt8 Bytes)} (hgone : ∀ e ∈ gone, e ∈ (ws k).seen)
    (hdel : Db.Deletes mailbox gone batch)
    (hsame : ∀ e ∈ gone, ∀ v, record db mailbox Sep.jmapToUid (asBytes e.2) = some v →
      v = toBeBytes 4 e.1) :
    Consistent mailbox (db.applyBatch batch) n ws := by
  have hother : ∀ {s : UInt8}, s = Sep.uidNext ∨ s = Sep.uidValidity →
      record (db.applyBatch batch) mailbox s [] = record db mailbox s [] := by
    rintro s (rfl | rfl) <;> exact hdel.record_other db [] (by decide) (by decide) (by decide)
  have hU := hdel.record_uidToJmap db
  have hJ := hdel.record_jmapToUid db
  have hlt : ∀ e ∈ gone, e.1 < 256 ^ 4 := fun e he ↦
    (h.seen k e (hgone e he)).1.trans_lt h.next_lt
  refine ⟨h.next_lt, ?_, fun v hv ↦ h.validity v ?_, fun b v hget ↦ ?_, fun b v hget ↦ ?_,
    fun k' u' hu ↦ ?_, fun k' u' i' hl ↦ ?_, h.distinct, fun k' e he ↦ ?_⟩
  · rw [hother (.inl rfl)]
    exact h.counter
  · rwa [hother (.inr rfl)] at hv
  · rw [hU] at hget
    split at hget
    · simp at hget
    · rename_i hb
      obtain ⟨u, i, rfl, rfl, hi, hpos, hle, hJ'⟩ := h.uidToJmap b v hget
      refine ⟨u, i, rfl, rfl, hi, hpos, hle, ?_⟩
      rw [hJ, if_neg]
      · exact hJ'
      · rintro ⟨e, he, hie⟩
        exact hb ⟨e, he, hsame e he _ (hie ▸ hJ')⟩
  · rw [hJ] at hget
    split at hget
    · simp at hget
    · rename_i hb
      obtain ⟨u, i, rfl, rfl, hor⟩ := h.jmapToUid b v hget
      refine ⟨u, i, rfl, rfl, hor.imp_left fun hU' ↦ ?_⟩
      rw [hU, if_neg]
      · exact hU'
      · rintro ⟨e, he, hue⟩
        exact hb ⟨e, he, (h.seen k e (hgone e he)).2.2 _ (hue ▸ hU')⟩
  · obtain ⟨hpos, hle, hnone⟩ := h.fresh k' u' hu
    refine ⟨hpos, hle, ?_⟩
    rw [hU, hnone]
    exact ite_self _
  · obtain ⟨hi, hJ'⟩ := h.linked k' u' i' hl
    refine ⟨hi, ?_⟩
    rw [hJ, if_neg]
    · exact hJ'
    · rintro ⟨e, he, hie⟩
      have hue := hsame e he _ (hie ▸ hJ')
      have huid : (ws k').phase.uid = some u' := by rw [hl]; rfl
      have hlt' : u' < 256 ^ 4 := (h.fresh k' u' huid).2.1.trans_lt h.next_lt
      rw [toBeBytes_inj hlt' (hlt e he)] at hue
      exact (h.seen k e (hgone e he)).2.1 k' (hue ▸ huid)
  · obtain ⟨hle, hnot, hv⟩ := h.seen k' e he
    refine ⟨hle, hnot, fun v hget ↦ ?_⟩
    rw [hU] at hget
    split at hget
    · simp at hget
    · exact hv v hget

end Steps

end Consistent

/-! ## Runs -/

section Runs

variable {mailbox : MailboxId} {db : Db} {R : Type}

/-- The next operation of the program does not act on outdated knowledge: an id is linked to a UID
only while it is linked to none, a batch deletes a reverse mapping only while it is the one that
was seen, and the counter is not at its end. -/
def Fresh (mailbox : MailboxId) (db : Db) : DbM R → Prop
  | .insert k _ _ => serializeKeyPrefix mailbox Sep.jmapToUid <+: k → db[k]? = none
  | .updateAndFetch k _ _ => db[k]? ≠ some (toBeBytes 4 (2 ^ 32 - 1))
  | .applyBatch b _ => ∀ edit ∈ b, match edit with
      | .insert k v => ∀ uid ∈ db[serializeKey mailbox Sep.jmapToUid
          (k.drop (serializeKeyPrefix mailbox Sep.jmapDeletedIds).length)]?, uid = v.take 4
      | .remove _ => True
  | _ => True

instance decidableFresh (mailbox : MailboxId) (db : Db) :
    (p : DbM R) → Decidable (Fresh mailbox db p)
  | .insert k _ _ => inferInstanceAs
      (Decidable (serializeKeyPrefix mailbox Sep.jmapToUid <+: k → db[k]? = none))
  | .updateAndFetch k _ _ => inferInstanceAs
      (Decidable (db[k]? ≠ some (toBeBytes 4 (2 ^ 32 - 1))))
  | .applyBatch b _ =>
      have (edit : Edit UInt8 Bytes) : Decidable (match edit with
          | .insert k v => ∀ uid ∈ db[serializeKey mailbox Sep.jmapToUid
              (k.drop (serializeKeyPrefix mailbox Sep.jmapDeletedIds).length)]?, uid = v.take 4
          | .remove _ => True) :=
        match edit with
        | .insert k v => inferInstanceAs (Decidable (∀ uid ∈ db[serializeKey mailbox
            Sep.jmapToUid (k.drop (serializeKeyPrefix mailbox Sep.jmapDeletedIds).length)]?,
              uid = v.take 4))
        | .remove _ => inferInstanceAs (Decidable True)
      inferInstanceAs (Decidable (∀ edit ∈ b, _))
  | .done _ => inferInstanceAs (Decidable True)
  | .get _ _ => inferInstanceAs (Decidable True)
  | .scan _ _ _ _ _ => inferInstanceAs (Decidable True)

/-- The step of worker `i` does not act on outdated knowledge. -/
def Unraced (mailbox : MailboxId) (c : Pool UInt8 Bytes R) (i : ℕ) : Prop :=
  ∀ p ∈ c.threads[i]?, Fresh mailbox c.tree p

instance (mailbox : MailboxId) (c : Pool UInt8 Bytes R) (i : ℕ) : Decidable (Unraced mailbox c i) :=
  inferInstanceAs (Decidable (∀ p ∈ c.threads[i]?, Fresh mailbox c.tree p))

/-- **One operation of one worker.** -/
theorem step_consistent {Q : R → List (ℕ × String) → Prop} {n : ℕ} {ws : ℕ → Worker}
    (h : Consistent mailbox db n ws) {k : ℕ} {p : DbM R} (hp : Db.Follows mailbox Q p (ws k))
    (hfresh : Fresh mailbox db p) :
    ∃ n' w, Consistent mailbox (p.step db).2 n' (Function.update ws k w) ∧
      Db.Follows mailbox Q (p.step db).1 w := by
  have hself : Consistent mailbox db n (Function.update ws k (ws k)) := by
    rwa [Function.update_eq_self]
  generalize hw : ws k = w at hp hself
  obtain ⟨phase, seen⟩ := w
  cases p with
  | done r => exact ⟨n, _, hself, hp⟩
  | get k' next => exact ⟨n, _, hself, hp _⟩
  | insert k' v next =>
      cases phase with
      | idle =>
          obtain ⟨rfl, hv, hnext⟩ := hp
          refine ⟨n, _, hself.congr ?_ ?_ ?_ ?_, hnext⟩
          all_goals simp only [Prog.step, insert_serializeUidValidityKey]
          · simp [Sep.uidValidity, Sep.uidToJmap]
          · simp [Sep.uidValidity, Sep.jmapToUid]
          · simp [Sep.uidValidity, Sep.uidNext]
          · intro v' hv'
            obtain rfl : v = v' := by simpa using hv'
            exact hv
      | allocated u =>
          obtain ⟨i, hi, rfl, rfl, hnext⟩ := hp
          exact ⟨n, _, h.link hw hi (hfresh (List.prefix_append _ _)), hnext⟩
      | linked u i =>
          obtain ⟨rfl, rfl, hnext⟩ := hp
          exact ⟨n, _, h.finish hw, hnext⟩
  | updateAndFetch k' f next =>
      obtain ⟨hidle, rfl, rfl, hnext⟩ := hp
      obtain rfl : phase = .idle := hidle
      have hcounter : Db.incrementUid db[serializeUidNextKey mailbox]? =
          some (toBeBytes 4 (n + 1)) := by
        rw [getElem?_serializeUidNextKey, h.counter]
        by_cases h0 : n = 0
        · simp [h0, Db.incrementUid]
        · rw [if_neg h0, Db.incrementUid, u32FromBe_toBeBytes, Nat.mod_eq_of_lt h.next_lt]
          rfl
      have hlt : n + 1 < 2 ^ 32 := by
        have hn := h.next_lt
        by_contra hc
        obtain rfl : n = 2 ^ 32 - 1 := by omega
        refine hfresh ?_
        rw [getElem?_serializeUidNextKey, h.counter, if_neg (by decide)]
      refine ⟨n + 1, ⟨.allocated (n + 1), seen⟩, ?_, ?_⟩
      · simp only [Prog.step, hcounter, Prog.store, insert_serializeUidNextKey]
        exact h.allocate hw hlt
      · simp only [Prog.step, hcounter]
        exact hnext _
  | applyBatch b next =>
      obtain ⟨hidle, ⟨gone, hgone, hdel⟩, hnext⟩ := hp
      refine ⟨n, _, hself.delete (k := k) (by simpa using hgone) hdel fun e he v hv ↦ ?_, hnext⟩
      obtain ⟨now, hmem⟩ := hdel.deleted e he
      have hfresh' := hfresh _ hmem v
      rw [List.drop_left, getElem?_serializeKey, List.take_left' (length_toBeBytes 4 e.1)]
        at hfresh'
      exact hfresh' hv
  | scan pre cur acc body next =>
      obtain ⟨hidle, rfl, I, hI, hbody, hnext⟩ := hp
      obtain rfl : phase = .idle := hidle
      simp only [Prog.step]
      cases hscan : db.scanNext (serializeKeyPrefix mailbox Sep.uidToJmap) cur with
      | none => exact ⟨n, _, hself, hnext _ _ hI⟩
      | some e =>
          obtain ⟨⟨b, hb⟩, hget⟩ := Tree.mem_of_scanNext hscan
          rw [← hb] at hget
          obtain ⟨u, i, rfl, hv, -, -, hle, -⟩ := h.uidToJmap b e.2 hget
          have he : e = Db.encode mailbox (u, i) := Prod.ext hb.symm hv
          dsimp only
          cases hacc : body acc e with
          | none => exact ⟨n, _, hself, rfl, fun x hx ↦ by simp at hx⟩
          | some acc' =>
              exact ⟨n, ⟨.idle, (u, i) :: seen⟩, h.see hw (hv ▸ hget) hle, rfl, rfl, I,
                hbody _ _ _ _ hI (he ▸ hacc), hbody, hnext⟩

/-- The invariant of a pool of workers. -/
def PoolConsistent (mailbox : MailboxId) (c : Pool UInt8 Bytes Unit) : Prop :=
  ∃ n ws, Consistent mailbox c.tree n ws ∧ (∀ k, c.threads[k]? = none → (ws k).phase = .idle) ∧
    ∀ k p, c.threads[k]? = some p → Db.Follows mailbox (fun _ _ ↦ True) p (ws k)

theorem poolConsistent_start {T : UidTable String} (h : Represents db mailbox T)
    {calls : List Call} (hcalls : ∀ call ∈ calls, call.WellFormed) :
    PoolConsistent mailbox (startCalls mailbox calls db) := by
  refine ⟨T.next, _, .of_represents h, fun _ _ ↦ rfl, fun k p hk ↦ ?_⟩
  rw [startCalls, List.getElem?_map, Option.map_eq_some_iff] at hk
  obtain ⟨call, hcall, rfl⟩ := hk
  exact Call.prog_follows (hcalls call (List.mem_of_getElem? hcall))

theorem poolConsistent_step {c : Pool UInt8 Bytes Unit} (h : PoolConsistent mailbox c) {i : ℕ}
    (hi : Unraced mailbox c i) : PoolConsistent mailbox (c.step i) := by
  cases hp : c.threads[i]? with
  | none => rwa [Pool.step, hp]
  | some p =>
      obtain ⟨n, ws, hcons, hidle, hfollows⟩ := h
      obtain ⟨n', w, hcons', hw⟩ := step_consistent hcons (hfollows i p hp) (hi p hp)
      rw [Pool.step_of_getElem? hp]
      refine ⟨n', _, hcons', fun k hk ↦ ?_, fun k q hq ↦ ?_⟩
      · have hk' : c.threads[k]? = none := by simpa using hk
        rw [Function.update_of_ne (fun hc ↦ by simp [hc, hp] at hk')]
        exact hidle k hk'
      · rcases eq_or_ne k i with rfl | hne
        · have hlt : k < c.threads.length := (List.getElem?_eq_some_iff.mp hp).1
          rw [List.getElem?_set_self hlt] at hq
          rw [Function.update_self, ← Option.some.inj hq]
          exact hw
        · rw [List.getElem?_set_ne hne.symm] at hq
          rw [Function.update_of_ne hne]
          exact hfollows k q hq

/-- When all workers have finished, the mailbox is represented by a table again. -/
theorem PoolConsistent.represents {c : Pool UInt8 Bytes Unit} (h : PoolConsistent mailbox c)
    (hfin : c.Finished) : ∃ T, Represents c.tree mailbox T := by
  obtain ⟨n, ws, hcons, hidle, hfollows⟩ := h
  refine hcons.represents fun k ↦ ?_
  cases hk : c.threads[k]? with
  | none => exact hidle k hk
  | some p =>
      obtain ⟨r, rfl⟩ := Prog.isDone_iff.mp (hfin p (List.mem_of_getElem? hk))
      exact (hfollows k _ hk).1

end Runs

/-! ## What the next synchronization finds -/

namespace Db

variable {db : Db} {mailbox : MailboxId} {T : UidTable String}

/-- Numbering never removes a reverse mapping, and gives every message that is not marked as found
one; that the counter may wrap does not matter here. -/
theorem addMissing_linked (mailbox : MailboxId) (rest : List (String × Bool)) (ids : List String)
    (uids : List ℕ)
    (db : Db) (hcounter : ∀ b, record db mailbox Sep.uidNext [] = some b → b.length = 4) :
    ∃ r db', (addMissing mailbox (serializeUidNextKey mailbox) rest ids uids).run db =
        (some r, db') ∧
      (∀ b, (record db mailbox Sep.jmapToUid b).isSome →
        (record db' mailbox Sep.jmapToUid b).isSome) ∧
      ∀ x ∈ rest, x.2 = false → (record db' mailbox Sep.jmapToUid (asBytes x.1)).isSome := by
  induction rest generalizing ids uids db with
  | nil => exact ⟨_, _, rfl, fun _ h ↦ h, by simp⟩
  | cons x rest ih =>
      obtain ⟨i, found⟩ := x
      cases found with
      | true =>
          obtain ⟨r, db', hrun, hkeep, hnew⟩ := ih ids uids db hcounter
          refine ⟨r, db', hrun, hkeep, fun x hx hx' ↦ ?_⟩
          rcases List.mem_cons.mp hx with rfl | hx
          · simp at hx'
          · exact hnew x hx hx'
      | false =>
          have huid : ∃ m, incrementUid db[serializeUidNextKey mailbox]? =
            some (toBeBytes 4 m) := by
            rw [getElem?_serializeUidNextKey]
            cases hget : record db mailbox Sep.uidNext [] with
            | none => exact ⟨1, rfl⟩
            | some b => simp [incrementUid, u32FromBe, hcounter b hget]
          obtain ⟨m, hm⟩ := huid
          have hinsert : (insertJmapId mailbox (asBytes i) (serializeUidNextKey mailbox)).run db =
              (some (toBeBytes 4 m), allocate db mailbox m i) := by
            simp only [insertJmapId, Prog.run_bind, Prog.run_update, hm, Prog.run_ofOption,
              Prog.run_write, Prog.run_pure, Prog.store]
            rw [insert_serializeUidNextKey, insert_serializeKey, insert_serializeKey, allocate]
          obtain ⟨r, db', hrun, hkeep, hnew⟩ := ih (ids ++ [i]) (uids ++ [m % 2 ^ 32])
            (allocate db mailbox m i) (by simp [allocate, Sep.uidToJmap, Sep.jmapToUid,
              Sep.uidNext])
          refine ⟨r, db', ?_, fun b hb ↦ hkeep b ?_, fun x hx hx' ↦ ?_⟩
          · rw [addMissing, Prog.run_bind_of_eq hinsert, u32FromBe_toBeBytes,
              Prog.run_bind_of_eq (Prog.run_ofOption _ _)]
            exact hrun
          · rw [record_allocate_jmapToUid]
            split
            · rfl
            · exact hb
          · rcases List.mem_cons.mp hx with rfl | hx
            · refine hkeep _ ?_
              rw [record_allocate_jmapToUid, if_pos rfl]
              rfl
            · exact hnew x hx hx'

/-- After `update_uids` on a mailbox represented by a table every listed id has a UID. -/
theorem updateUids_linked (h : Represents db mailbox T) {listing : List String} (clock : Clock)
    {i : String} (hi : i ∈ listing) :
    (record ((updateUids mailbox clock listing).run db).2 mailbox Sep.jmapToUid
      (asBytes i)).isSome := by
  obtain ⟨v, db₁, st, db₂, hval, hscan, hbatch, hst, hrep, -⟩ := updateUids_scan_run h clock
  have hnext : ∀ db, ∃ o, (uidNext mailbox).run db = (o, db) := by
    intro db
    rw [uidNext, Prog.run_bind_of_eq (Prog.run_read _ _)]
    cases db[serializeUidNextKey mailbox]? with
    | none => exact ⟨_, rfl⟩
    | some b =>
        rw [Prog.run_bind, Prog.run_ofOption]
        cases u32FromBe b with
        | none => exact ⟨_, rfl⟩
        | some m => exact ⟨_, rfl⟩
  -- every id that has a number keeps it, every other one gets one
  have hadd : ∃ r db₃, (addNewIds mailbox listing st).run db₂ = (some r, db₃) ∧
      (record db₃ mailbox Sep.jmapToUid (asBytes i)).isSome := by
    have hkept : i ∈ (T.restrict (· ∈ listing)).ids →
        (record db₂ mailbox Sep.jmapToUid (asBytes i)).isSome := fun hmem ↦ by
      obtain ⟨u, hu⟩ := UidTable.mem_ids.mp hmem
      rw [hrep.record_jmapToUid hu]
      rfl
    rw [addNewIds]
    cases hempty : st.jmapIdsMap.isEmpty with
    | true =>
        refine ⟨_, db₂, rfl, hkept ?_⟩
        rw [← hst.sync_of_isEmpty hempty, UidTable.mem_ids_sync]
        exact hi
    | false =>
        obtain ⟨r, db₃, hrun, hkeep, hnew⟩ := addMissing_linked mailbox
          (listing.zip st.foundIds) st.jmapIds st.imapUids db₂ fun b hb ↦ by
            rw [hrep.counter] at hb
            split at hb
            · simp at hb
            · rw [← Option.some.inj hb, length_toBeBytes]
        refine ⟨r, db₃, hrun, ?_⟩
        obtain ⟨x, hx, rfl⟩ := List.mem_map.mp (hst.map_fst_zip.symm ▸ hi)
        cases hfound : x.2 with
        | true => exact hkeep _ (hkept (hst.mem_of_flag hx hfound))
        | false => exact hnew x hx hfound
  obtain ⟨r, db₃, hrun, hsome⟩ := hadd
  obtain ⟨o, ho⟩ := hnext db₃
  have hstate : ((updateUids mailbox clock listing).run db).2 = db₃ := by
    rw [updateUids, Prog.run_bind_of_eq hval]
    dsimp only
    rw [Prog.run_bind_of_eq hscan, Prog.run_bind_of_eq hbatch, Prog.run_bind_of_eq hrun,
      Prog.run_bind, ho]
    cases o with
    | none => rfl
    | some m => rfl
  rw [hstate]
  exact hsome

end Db

/-- No two `UID_TO_JMAP` records of the mailbox carry the same email id. -/
def UniqueIds (mailbox : MailboxId) (db : Db) : Prop :=
  ∀ uid uid' jmapId, db[serializeKey mailbox Sep.uidToJmap uid]? = some jmapId →
    db[serializeKey mailbox Sep.uidToJmap uid']? = some jmapId → uid = uid'

/-- After a further `update_uids`, run on its own, every listed id has a `JMAP_TO_UID` record. -/
def KeepsListed (mailbox : MailboxId) (db : Db) : Prop :=
  ∀ clock listing, ∀ i ∈ listing,
    (((Db.updateUids mailbox clock listing).run db).2[serializeKey mailbox Sep.jmapToUid
      (asBytes i)]?).isSome

/-- **Runs without races.**  However the operations of any number of calls are interleaved, if no
step acts on outdated knowledge then no message ever has two UIDs, and once all calls have
finished no listed message loses its UID at the next synchronization. -/
theorem race_free {mailbox : MailboxId} {db : Db} {T : UidTable String}
    (h : Represents db mailbox T) (calls : List Call) (hcalls : ∀ call ∈ calls, call.WellFormed)
    (schedule : List ℕ)
    (hrun : Run.Along Pool.step (Unraced mailbox) (startCalls mailbox calls db) schedule) :
    UniqueIds mailbox (Run.exec Pool.step (startCalls mailbox calls db) schedule).tree ∧
      ((Run.exec Pool.step (startCalls mailbox calls db) schedule).Finished →
        KeepsListed mailbox (Run.exec Pool.step (startCalls mailbox calls db) schedule).tree) := by
  have hinv : PoolConsistent mailbox (Run.exec Pool.step (startCalls mailbox calls db) schedule) :=
    Run.exec_induct (PoolConsistent mailbox) (poolConsistent_start h hcalls)
      (fun c i hc hi ↦ poolConsistent_step hc hi) hrun
  constructor
  · obtain ⟨n, ws, hcons, -⟩ := hinv
    exact fun uid uid' jmapId h₁ h₂ ↦ hcons.uid_unique h₁ h₂
  · intro hfin clock listing i hi
    obtain ⟨T', hT'⟩ := hinv.represents hfin
    exact Db.updateUids_linked hT' clock hi

/-- A worker adds `M1` while another lists `M1` and `M3`; the scan of the second comes to the
record of the first. -/
theorem race_free_inbox :
    let c := Run.exec Pool.step (startCalls ⟨"u1", some "inbox"⟩
      [.addIfMissing ["M1"], .updateUids (fun _ ↦ 0) ["M1", "M3"]] ∅)
      [0, 1, 0, 1, 0, 0, 1, 1, 1, 1, 1, 1]
    c.Finished ∧ UniqueIds ⟨"u1", some "inbox"⟩ c.tree ∧
      KeepsListed ⟨"u1", some "inbox"⟩ c.tree := by
  have hfin : (Run.exec Pool.step (startCalls ⟨"u1", some "inbox"⟩
      [.addIfMissing ["M1"], .updateUids (fun _ ↦ 0) ["M1", "M3"]] ∅)
      [0, 1, 0, 1, 0, 0, 1, 1, 1, 1, 1, 1]).Finished := by decide +kernel
  have hrun := race_free (Represents.empty ⟨"u1", some "inbox"⟩)
    [.addIfMissing ["M1"], .updateUids (fun _ ↦ 0) ["M1", "M3"]]
    (by simp [Call.WellFormed]; decide +kernel) [0, 1, 0, 1, 0, 0, 1, 1, 1, 1, 1, 1]
    (by decide +kernel)
  exact ⟨hfin, hrun.1, hrun.2 hfin⟩

/-- **One message, two UIDs.**  Both workers look `M1` up before either has numbered it.  The
message then has two UIDs, and the next synchronization removes its reverse mapping. -/
theorem race_numbers_twice :
    let c := Run.exec Pool.step (startCalls ⟨"u1", some "inbox"⟩
      [.addIfMissing ["M1"], .addIfMissing ["M1"]] ∅) [0, 1, 0, 0, 0, 1, 1, 1]
    c.Finished ∧ ¬ UniqueIds ⟨"u1", some "inbox"⟩ c.tree ∧
      ¬ KeepsListed ⟨"u1", some "inbox"⟩ c.tree := by
  refine ⟨by decide +kernel, fun h ↦ ?_, fun h ↦ ?_⟩
  · have := h (toBeBytes 4 1) (toBeBytes 4 2) (asBytes "M1") (by decide +kernel)
      (by decide +kernel)
    exact absurd this (by decide)
  · have := h (fun _ ↦ 0) ["M1"] "M1" (by decide)
    exact absurd this (by decide +kernel)

end ImapToJmap
