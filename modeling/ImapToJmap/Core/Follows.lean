import ImapToJmap.Core.Operations

/-!
# What a worker does to the UID map, one operation at a time

Several workers may run `update_uids` and `jmap_to_imap` on one mailbox at once, with nothing
between them but the atomicity of a single operation of the store.  `Follows` is the protocol each
of them keeps on its own, whatever the store answers it:

* a UID is allocated, then written under `JMAP_TO_UID`, then under `UID_TO_JMAP`, with nothing in
  between (`Phase`);
* a batch deletes messages the worker has seen under `UID_TO_JMAP` (`Worker.seen`);
* apart from that only the UID validity is written.

`updateUids_follows` and `jmapToImap_follows` derive it from the text of the two programs.  What
the protocol is worth when several workers keep it is the subject of `Core/Race.lean`.
-/

namespace ImapToJmap

open Kv

/-- Where a worker is in numbering a message. -/
inductive Phase where
  | /-- Not numbering. -/
    idle
  | /-- A UID has been taken from the counter. -/
    allocated (u : ℕ)
  | /-- It has been written under `JMAP_TO_UID`. -/
    linked (u : ℕ) (i : String)
deriving DecidableEq

/-- What there is to know about a worker beside the rest of its program. -/
structure Worker where
  phase : Phase
  /-- The `UID_TO_JMAP` records it has seen. -/
  seen : List (ℕ × String)

namespace Db

variable {R S : Type} {mailbox : MailboxId}

/-- The program keeps the protocol from here on; if it returns, its result and what it has seen
satisfy `Q`. -/
def Follows (mailbox : MailboxId) (Q : R → List (ℕ × String) → Prop) : DbM R → Worker → Prop
  | .done r, w => w.phase = .idle ∧ ∀ x, r = some x → Q x w.seen
  | .get _ next, w => ∀ o, Follows mailbox Q (next o) w
  | .insert k v next, w =>
      match w.phase with
      | .idle => k = serializeUidValidityKey mailbox ∧ v.length = 4 ∧ Follows mailbox Q next w
      | .allocated u => ∃ i, IsJmapId i ∧ k = serializeKey mailbox Sep.jmapToUid (asBytes i) ∧
          v = toBeBytes 4 u ∧ Follows mailbox Q next ⟨.linked u i, w.seen⟩
      | .linked u i => k = serializeKey mailbox Sep.uidToJmap (toBeBytes 4 u) ∧ v = asBytes i ∧
          Follows mailbox Q next ⟨.idle, w.seen⟩
  | .updateAndFetch k f next, w =>
      w.phase = .idle ∧ k = serializeUidNextKey mailbox ∧ f = incrementUid ∧
        ∀ u, Follows mailbox Q (next (some (toBeBytes 4 u))) ⟨.allocated u, w.seen⟩
  | .applyBatch b next, w =>
      w.phase = .idle ∧ (∃ gone, (∀ e ∈ gone, e ∈ w.seen) ∧ Deletes mailbox gone b) ∧
        Follows mailbox Q next w
  | .scan (σ := σ) pre _ acc body next, w =>
      w.phase = .idle ∧ pre = serializeKeyPrefix mailbox Sep.uidToJmap ∧
        ∃ I : σ → List (ℕ × String) → Prop, I acc w.seen ∧
          (∀ acc seen e acc', I acc seen → body acc (encode mailbox e) = some acc' →
            I acc' (e :: seen)) ∧
          ∀ acc seen, I acc seen → Follows mailbox Q (next acc) ⟨.idle, seen⟩

/-- **Sequencing.** -/
theorem follows_bind {Q : R → List (ℕ × String) → Prop} {Q' : S → List (ℕ × String) → Prop}
    {p : DbM R} {f : R → DbM S} {w : Worker} (hp : Follows mailbox Q p w)
    (hf : ∀ r seen, Q r seen → Follows mailbox Q' (f r) ⟨.idle, seen⟩) :
    Follows mailbox Q' (p >>= f) w := by
  change Follows mailbox Q' (p.bind f) w
  induction p generalizing w with
  | done r =>
      obtain ⟨phase, seen⟩ := w
      obtain ⟨hidle, hQ⟩ := hp
      obtain rfl : phase = .idle := hidle
      cases r with
      | none => exact ⟨rfl, fun x hx ↦ by simp at hx⟩
      | some r => exact hf r seen (hQ r rfl)
  | get k next ih => exact fun o ↦ ih o (hp o)
  | insert k v next ih =>
      obtain ⟨phase, seen⟩ := w
      cases phase with
      | idle => exact ⟨hp.1, hp.2.1, ih hp.2.2⟩
      | allocated u =>
          obtain ⟨i, hi, hk, hv, hnext⟩ := hp
          exact ⟨i, hi, hk, hv, ih hnext⟩
      | linked u i => exact ⟨hp.1, hp.2.1, ih hp.2.2⟩
  | updateAndFetch k g next ih => exact ⟨hp.1, hp.2.1, hp.2.2.1, fun u ↦ ih _ (hp.2.2.2 u)⟩
  | applyBatch b next ih => exact ⟨hp.1, hp.2.1, ih hp.2.2⟩
  | scan pre cur acc body next ih =>
      obtain ⟨hidle, hpre, I, hI, hbody, hnext⟩ := hp
      exact ⟨hidle, hpre, I, hI, hbody, fun acc seen h ↦ ih acc (hnext acc seen h)⟩

/-- A program that has nothing to do. -/
theorem follows_done {Q : R → List (ℕ × String) → Prop} {r : Option R} {seen : List (ℕ × String)}
    (h : ∀ x, r = some x → Q x seen) :
    Follows mailbox Q (.done r) ⟨.idle, seen⟩ := ⟨rfl, h⟩

/-! ## The programs -/

theorem insertJmapId_follows {i : String} (hi : IsJmapId i) (seen : List (ℕ × String)) :
    Follows mailbox (fun _ seen' ↦ seen' = seen)
      (insertJmapId mailbox (asBytes i) (serializeUidNextKey mailbox)) ⟨.idle, seen⟩ := by
  refine ⟨rfl, rfl, rfl, fun u ↦ ⟨i, hi, rfl, rfl, rfl, rfl, ?_⟩⟩
  exact follows_done fun _ _ ↦ rfl

theorem uidValidity_follows (now : ℕ) (seen : List (ℕ × String)) :
    Follows mailbox (fun _ seen' ↦ seen' = seen) (uidValidity mailbox now) ⟨.idle, seen⟩ := by
  intro o
  cases o with
  | none => exact ⟨rfl, length_toBeBytes _ _, follows_done fun _ _ ↦ rfl⟩
  | some b => exact follows_done fun _ _ ↦ rfl

theorem uidNext_follows (seen : List (ℕ × String)) :
    Follows mailbox (fun _ seen' ↦ seen' = seen) (uidNext mailbox) ⟨.idle, seen⟩ := by
  intro o
  cases o with
  | none => exact follows_done fun _ _ ↦ rfl
  | some b =>
      change Follows mailbox _ (Prog.ofOption (u32FromBe b) >>= fun n ↦
        pure ((n + 1) % 2 ^ 32)) _
      refine follows_bind (Q := fun _ seen' ↦ seen' = seen) (follows_done fun _ _ ↦ rfl) ?_
      rintro n seen rfl
      exact follows_done fun _ _ ↦ rfl

theorem addMissing_follows {rest : List (String × Bool)} (hid : ∀ x ∈ rest, IsJmapId x.1)
    (ids : List String) (uids : List ℕ) (seen : List (ℕ × String)) :
    Follows mailbox (fun _ seen' ↦ seen' = seen)
      (addMissing mailbox (serializeUidNextKey mailbox) rest ids uids) ⟨.idle, seen⟩ := by
  induction rest generalizing ids uids with
  | nil => exact follows_done fun _ _ ↦ rfl
  | cons x rest ih =>
      obtain ⟨i, found⟩ := x
      have hid' : ∀ x ∈ rest, IsJmapId x.1 := fun x hx ↦ hid x (List.mem_cons_of_mem _ hx)
      cases found with
      | true => exact ih hid' ids uids
      | false =>
          refine follows_bind (insertJmapId_follows (hid _ List.mem_cons_self) seen) ?_
          rintro b seen rfl
          refine follows_bind (Q := fun _ seen' ↦ seen' = seen) (follows_done fun _ _ ↦ rfl) ?_
          rintro u seen rfl
          exact ih hid' _ _

/-- The batch of the scan deletes messages the scan has seen. -/
def SeenBatch (mailbox : MailboxId) (st : UpdateScan) (seen : List (ℕ × String)) : Prop :=
  ∃ gone, (∀ e ∈ gone, e ∈ seen) ∧ Deletes mailbox gone st.batch

theorem seenBatch_visit {st st' : UpdateScan} {seen : List (ℕ × String)} {e : ℕ × String}
    {clock : Clock} (h : SeenBatch mailbox st seen)
    (hvisit : UpdateScan.visit mailbox clock (serializeKeyPrefix mailbox Sep.uidToJmap).length st
      (encode mailbox e) = some st') : SeenBatch mailbox st' (e :: seen) := by
  obtain ⟨gone, hgone, hdel⟩ := h
  cases hmap : st.jmapIdsMap[asBytes e.2]? with
  | some p =>
      refine ⟨gone, fun x hx ↦ List.mem_cons_of_mem _ (hgone x hx), ?_⟩
      have hbatch : st'.batch = st.batch := by
        simp only [UpdateScan.visit, encode, hmap] at hvisit
        simp only [List.drop_left, fromUtf8_asBytes, u32FromBe_toBeBytes] at hvisit
        simp at hvisit
        rw [← hvisit]
      rw [hbatch]
      exact hdel
  | none =>
      rw [visit_unlisted clock st hmap] at hvisit
      obtain rfl := Option.some.inj hvisit
      refine ⟨gone ++ [e], fun x hx ↦ ?_, hdel.append (deletes_deletion mailbox e _)⟩
      rcases List.mem_append.mp hx with hx | hx
      · exact List.mem_cons_of_mem _ (hgone x hx)
      · rw [List.mem_singleton.mp hx]
        exact List.mem_cons_self

/-- `update_uids` keeps the protocol. -/
theorem updateUids_follows {listing : List String} (hid : ∀ i ∈ listing, IsJmapId i)
    (clock : Clock) (seen : List (ℕ × String)) :
    Follows mailbox (fun _ _ ↦ True) (updateUids mailbox clock listing) ⟨.idle, seen⟩ := by
  refine follows_bind (uidValidity_follows _ _) ?_
  rintro v seen rfl
  refine follows_bind (Q := SeenBatch mailbox) ⟨rfl, rfl, SeenBatch mailbox, ?_, ?_, ?_⟩ ?_
  · exact ⟨[], by simp, .nil mailbox⟩
  · exact fun _ _ _ _ h hvisit ↦ seenBatch_visit h hvisit
  · exact fun st seen h ↦ follows_done fun x hx ↦ Option.some.inj hx ▸ h
  intro st seen hst
  have hdel : Follows mailbox (fun _ seen' ↦ seen' = seen) (applyDeletions st) ⟨.idle, seen⟩ := by
    rw [applyDeletions]
    split
    · exact ⟨rfl, hst, follows_done fun _ _ ↦ rfl⟩
    · exact follows_done fun _ _ ↦ rfl
  refine follows_bind hdel ?_
  rintro _ seen rfl
  have hadd : Follows mailbox (fun _ seen' ↦ seen' = seen) (addNewIds mailbox listing st)
      ⟨.idle, seen⟩ := by
    rw [addNewIds]
    split
    · exact follows_done fun _ _ ↦ rfl
    · exact addMissing_follows (fun x hx ↦ hid x.1 (List.of_mem_zip hx).1) _ _ _
  refine follows_bind hadd ?_
  rintro r seen rfl
  exact follows_bind (uidNext_follows _) fun _ _ _ ↦ follows_done fun _ _ ↦ trivial

/-- `jmap_to_imap` keeps the protocol. -/
theorem jmapToImap_follows {ids : List String} (hid : ∀ i ∈ ids, IsJmapId i)
    (options : MappingOptions) (seen : List (ℕ × String)) :
    Follows mailbox (fun _ _ ↦ True) (jmapToImap mailbox ids options) ⟨.idle, seen⟩ := by
  rw [jmapToImap]
  generalize ([] : List String) = jmapIds
  generalize ([] : List ℕ) = imapUids
  induction ids generalizing jmapIds imapUids with
  | nil => exact follows_done fun _ _ ↦ trivial
  | cons i ids ih =>
      have hrest := ih fun j hj ↦ hid j (List.mem_cons_of_mem _ hj)
      have hlook : Follows mailbox (fun _ seen' ↦ seen' = seen) (lookUp mailbox options i)
          ⟨.idle, seen⟩ := by
        rw [lookUp]
        split
        · exact follows_done fun _ _ ↦ rfl
        · exact fun _ ↦ follows_done fun _ _ ↦ rfl
      -- what comes after a UID has been found, one way or the other
      have hparse : ∀ (o : Option ℕ) (f : ℕ → DbM (List String × List ℕ)),
          (∀ u, Follows mailbox (fun _ _ ↦ True) (f u) ⟨.idle, seen⟩) →
          Follows mailbox (fun _ _ ↦ True) (Prog.ofOption o >>= f) ⟨.idle, seen⟩ :=
        fun o f hf ↦ follows_bind (Q := fun _ seen' ↦ seen' = seen) (follows_done fun _ _ ↦ rfl)
          fun u _ hs ↦ hs ▸ hf u
      refine follows_bind hlook ?_
      rintro o seen rfl
      cases o with
      | some uid => exact hparse _ _ fun u ↦ hrest _ _
      | none =>
          dsimp only
          split
          · refine follows_bind (insertJmapId_follows (hid i List.mem_cons_self) _) ?_
            rintro b seen rfl
            exact hparse _ _ fun u ↦ hrest _ _
          · split
            · exact hrest _ _
            · intro o
              cases o with
              | some uid => exact hparse _ _ fun u ↦ hrest _ _
              | none => exact hrest _ _

end Db

end ImapToJmap
