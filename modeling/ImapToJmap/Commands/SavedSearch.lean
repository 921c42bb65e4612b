import ImapToJmap.Commands.Selected
import ImapToJmap.Run.Basic

/-!
# Saved searches

A search saved with `SEARCH RETURN (SAVE)` stores UIDs together with the sequence numbers the
messages had at that moment.  When the result is used as `$`, `sequence_to_jmap` asks whether the
*UID* is still in the view, but takes the email id from the stored *position*.

`savedSearch_resolves_iff`: in every state a selected mailbox can reach, `$` resolves to the saved
messages exactly as long as none of them has moved, and no two of them are the same email.  After a
removal further up, `$` names another message (`savedSearch_names_other`), and at the end of the
list it is an index out of range.
-/

namespace ImapToJmap

namespace SelectedMailbox

/-! ## The invariant -/

/-- Snapshots are tables: two lists of one length, no UID twice. -/
def ViewStep.WellFormed : ViewStep → Prop
  | .synchronize snapshot _ => snapshot.Aligned
  | .expunge snapshot _ => ∀ data ∈ snapshot, data.Aligned
  | _ => True

/-- What holds in every state: the view is aligned, and a saved result has each UID once, with a
sequence number. -/
structure Invariant (m : SelectedMailbox) : Prop where
  aligned : m.state.Aligned
  saved : ∀ items, m.savedSearch = .results items → ∀ a ∈ items, 1 ≤ a.seqnum ∧
    ∀ b ∈ items, a.uid = b.uid → a = b

theorem mem_jmapToImap {state : MailboxData} {jmapIds : List String} {a : ImapId}
    (h : a ∈ jmapToImap state jmapIds) :
    1 ≤ a.seqnum ∧ state.imapUids[a.seqnum - 1]? = some a.uid := by
  obtain ⟨i, -, hi⟩ := List.mem_filterMap.mp h
  obtain ⟨pos, -, hpos⟩ := Option.bind_eq_some_iff.mp hi
  obtain ⟨uid, huid, rfl⟩ := Option.map_eq_some_iff.mp hpos
  exact ⟨by simp, by simpa using huid⟩

theorem mem_searchResults {state : MailboxData} {jmapIds : List String}
    {isUid hasMin hasMax : Bool} {a : ImapId}
    (h : a ∈ searchResults state jmapIds isUid hasMin hasMax) : a ∈ jmapToImap state jmapIds := by
  simp only [searchResults] at h
  split at h
  · obtain ⟨n, -, hn⟩ := List.mem_filterMap.mp h
    exact List.mem_of_find?_eq_some hn
  · exact h

theorem invariant_apply {m : SelectedMailbox} {step : ViewStep} (h : m.Invariant)
    (hstep : step.WellFormed) : (m.apply step).Invariant := by
  cases step with
  | saveSearch jmapIds isUid hasMin hasMax =>
      refine ⟨h.aligned, fun items hitems a ha ↦ ?_⟩
      obtain rfl := SavedSearch.results.inj hitems
      obtain ⟨hpos, hget⟩ := mem_jmapToImap (mem_searchResults ha)
      refine ⟨hpos, fun b hb hab ↦ ?_⟩
      -- a UID stands at one position of the view
      obtain ⟨hpos', hget'⟩ := mem_jmapToImap (mem_searchResults hb)
      obtain ⟨hlt, hv⟩ := List.getElem?_eq_some_iff.mp hget
      obtain ⟨hlt', hv'⟩ := List.getElem?_eq_some_iff.mp hget'
      have hidx := (List.Nodup.getElem_inj_iff h.aligned.nodup).mp (hv.trans (hab.trans hv'.symm))
      obtain ⟨u, s⟩ := a
      obtain ⟨u', s'⟩ := b
      simp only [ImapId.mk.injEq] at *
      omega
  | synchronize snapshot removeMissing =>
      exact ⟨h.aligned.synchronizeUids hstep.length_eq hstep.nodup _, h.saved⟩
  | move destroyedIds => exact ⟨h.aligned.removeMessages _, h.saved⟩
  | expunge snapshot jmapState =>
      cases snapshot with
      | none => exact ⟨h.aligned, fun items hitems ↦ by simp [apply] at hitems⟩
      | some data =>
          obtain ⟨hlen, hnd⟩ := hstep data rfl
          exact ⟨⟨hlen, hnd⟩, fun items hitems ↦ by simp [apply] at hitems⟩

/-! ## What `$` resolves to -/

/-- `$` resolves to the saved messages that are still in the view: each with the email id its UID
has in the view, and its sequence number there. -/
def Resolves (m : SelectedMailbox) (items : List ImapId) (isUid : Bool) : Prop :=
  ∃ ids, m.sequenceToJmap .savedSearch isUid = .ok ids ∧ ids.keys.Nodup ∧
    ∀ e, e ∈ ids ↔ ∃ a ∈ items, ∃ pos, m.state.imapUids[pos]? = some a.uid ∧
      m.state.jmapIds[pos]? = some e.1 ∧ e.2 = ⟨a.uid, pos + 1⟩

/-- No two saved messages that are in the view are the same email. -/
def SavedDistinct (m : SelectedMailbox) (items : List ImapId) : Prop :=
  ∀ a ∈ items, ∀ b ∈ items, ∀ i, (i, a.uid) ∈ m.state.pairs → (i, b.uid) ∈ m.state.pairs →
    a.uid = b.uid

theorem mem_matchedSaved {state : MailboxData} {items : List ImapId} {x : ℕ × ImapId} :
    x ∈ matchedSaved state items ↔
      x.2 ∈ items ∧ x.2.uid ∈ state.imapUids ∧ x.1 = x.2.seqnum - 1 := by
  obtain ⟨n, a⟩ := x
  simp only [matchedSaved, List.mem_map, List.mem_filter, decide_eq_true_eq, Prod.mk.injEq]
  constructor
  · rintro ⟨b, ⟨hb, hin⟩, hn, rfl⟩
    exact ⟨hb, hin, hn.symm⟩
  · rintro ⟨ha, hin, hn⟩
    exact ⟨a, ⟨ha, hin⟩, hn.symm, rfl⟩

theorem sequenceToJmap_savedSearch {m : SelectedMailbox} {items : List ImapId}
    (hitems : m.savedSearch = .results items) (isUid : Bool) :
    m.sequenceToJmap .savedSearch isUid =
      insertMatches m.state.jmapIds (matchedSaved m.state items) := by
  simp [sequenceToJmap, Sequence.isSavedSearch, hitems]

section

variable {m : SelectedMailbox} {items : List ImapId} {isUid : Bool}

/-- If `$` resolves, no saved message has moved: the entry with its UID and its position was
inserted for a saved message, which is the message itself. -/
theorem savedInPlace_of_resolves (h : m.Invariant) (hitems : m.savedSearch = .results items)
    (hres : m.Resolves items isUid) : m.SavedInPlace := by
  intro items' hitems' a ha hin
  obtain rfl := SavedSearch.results.inj (hitems.symm.trans hitems')
  obtain ⟨ids, hok, -, hmem⟩ := hres
  rw [sequenceToJmap_savedSearch hitems] at hok
  obtain ⟨pos, hpos⟩ := List.getElem?_of_mem hin
  have hlt : pos < m.state.jmapIds.length := by
    rw [h.aligned.length_eq]
    exact (List.getElem?_eq_some_iff.mp hpos).1
  have he := (hmem (m.state.jmapIds[pos], ⟨a.uid, pos + 1⟩)).mpr
    ⟨a, ha, pos, hpos, List.getElem?_eq_getElem hlt, rfl⟩
  obtain ⟨ids', hok', -, -, hspec⟩ | ⟨herr, -⟩ :=
    insertMatches_spec m.state.jmapIds (matchedSaved m.state items)
  · obtain rfl : ids' = ids := by simpa [hok] using hok'.symm
    obtain ⟨pre, x, post, hx, -, hxe, -⟩ := (hspec _).mp he
    obtain ⟨hxi, -, -⟩ := mem_matchedSaved.mp
      (show x ∈ matchedSaved m.state items by rw [hx]; simp)
    have hxa : x.2 = a := (h.saved items hitems x.2 hxi).2 a ha (by rw [hxe])
    have hseqnum : a.seqnum = pos + 1 := by rw [← hxa, hxe]
    rw [hseqnum]
    exact hpos
  · rw [hok] at herr
    exact absurd herr (by simp)

/-- If `$` resolves, the saved messages are different emails: the result has one entry for each
email id. -/
theorem savedDistinct_of_resolves (hres : m.Resolves items isUid) : m.SavedDistinct items := by
  obtain ⟨ids, -, hkeys, hmem⟩ := hres
  intro a ha b hb i hia hib
  obtain ⟨p, hpi, hpu⟩ := MailboxData.mem_pairs.mp hia
  obtain ⟨q, hqi, hqu⟩ := MailboxData.mem_pairs.mp hib
  have h₁ := (hmem (i, ⟨a.uid, p + 1⟩)).mpr ⟨a, ha, p, hpu, hpi, rfl⟩
  have h₂ := (hmem (i, ⟨b.uid, q + 1⟩)).mpr ⟨b, hb, q, hqu, hqi, rfl⟩
  have hentry := List.inj_on_of_nodup_map hkeys h₁ h₂ rfl
  simpa using congrArg (fun e ↦ e.2.uid) hentry

/-- A saved message in its place, as the code finds it. -/
theorem matchedSaved_at (h : m.Invariant) (hitems : m.savedSearch = .results items)
    (hplace : m.SavedInPlace) {x : ℕ × ImapId} (hx : x ∈ matchedSaved m.state items) :
    m.state.imapUids[x.1]? = some x.2.uid ∧ x.2 = ⟨x.2.uid, x.1 + 1⟩ := by
  obtain ⟨hxi, hin, hx1⟩ := mem_matchedSaved.mp hx
  refine ⟨hx1 ▸ hplace items hitems x.2 hxi hin, ?_⟩
  rw [hx1, Nat.sub_add_cancel (h.saved items hitems x.2 hxi).1]

theorem resolves_of_savedInPlace (h : m.Invariant) (hitems : m.savedSearch = .results items)
    (hplace : m.SavedInPlace) (hdistinct : m.SavedDistinct items) : m.Resolves items isUid := by
  have hat := fun {x} ↦ matchedSaved_at (x := x) h hitems hplace
  obtain ⟨ids, hok, -, hnd, -⟩ | ⟨-, x, hx, hle⟩ :=
    insertMatches_spec m.state.jmapIds (matchedSaved m.state items)
  · have hsame : ∀ x ∈ matchedSaved m.state items, ∀ y ∈ matchedSaved m.state items, ∀ i,
        m.state.jmapIds[x.1]? = some i → m.state.jmapIds[y.1]? = some i → x.2 = y.2 := by
      intro x hx y hy i hxi hyi
      have hx' := (mem_matchedSaved.mp hx).1
      have hy' := (mem_matchedSaved.mp hy).1
      have huid := hdistinct x.2 hx' y.2 hy' i (MailboxData.mem_pairs.mpr ⟨x.1, hxi, (hat hx).1⟩)
        (MailboxData.mem_pairs.mpr ⟨y.1, hyi, (hat hy).1⟩)
      exact (h.saved items hitems x.2 hx').2 y.2 hy' huid
    refine ⟨ids, (sequenceToJmap_savedSearch hitems isUid).trans hok, hnd, fun e ↦ ?_⟩
    rw [mem_insertMatches hok hsame]
    constructor
    · rintro ⟨x, hx, hget, hxe⟩
      obtain ⟨hu, heq⟩ := hat hx
      exact ⟨x.2, (mem_matchedSaved.mp hx).1, x.1, hu, hget, hxe.symm.trans heq⟩
    · rintro ⟨a, ha, pos, hpos, hget, he⟩
      have hmem : (a.seqnum - 1, a) ∈ matchedSaved m.state items :=
        mem_matchedSaved.mpr ⟨ha, List.mem_of_getElem? hpos, rfl⟩
      obtain ⟨hau, heq⟩ := hat hmem
      obtain ⟨hlt, hv⟩ := List.getElem?_eq_some_iff.mp hau
      obtain ⟨hlt', hv'⟩ := List.getElem?_eq_some_iff.mp hpos
      have hidx : a.seqnum - 1 = pos :=
        (List.Nodup.getElem_inj_iff h.aligned.nodup).mp (hv.trans hv'.symm)
      refine ⟨_, hmem, hidx ▸ hget, ?_⟩
      rw [he]
      exact hidx ▸ heq
  · -- a position of the view is a position of its email ids
    have hlt := (List.getElem?_eq_some_iff.mp (hat hx).1).1
    rw [h.aligned.length_eq] at hle
    omega

end

/-! ## Every state -/

/-- A mailbox as SELECT leaves it. -/
def selected (id : MailboxId) (data : MailboxData) (isSelect : Bool) : SelectedMailbox where
  id := id
  state := data
  savedSearch := .none
  isSelect := isSelect

/-- **`$` in every reachable state.**  After any sequence of saving searches, synchronizing, moving
and expunging, `$` resolves to the saved messages that are still in the view, with the email ids
and sequence numbers they have there and without an index out of range, if and only if each of them
is still at the position it was saved with, and no two of them are the same email. -/
theorem savedSearch_resolves_iff (id : MailboxId) (data : MailboxData) (isSelect : Bool)
    (hdata : data.Aligned) (steps : List ViewStep) (hsteps : ∀ step ∈ steps, step.WellFormed)
    (items : List ImapId)
    (hitems : (Run.exec apply (selected id data isSelect) steps).savedSearch = .results items)
    (isUid : Bool) :
    (Run.exec apply (selected id data isSelect) steps).Resolves items isUid ↔
      (Run.exec apply (selected id data isSelect) steps).SavedInPlace ∧
      (Run.exec apply (selected id data isSelect) steps).SavedDistinct items := by
  have h₀ : (selected id data isSelect).Invariant := ⟨hdata, fun items h ↦ by simp [selected] at h⟩
  have hinv : (Run.exec apply (selected id data isSelect) steps).Invariant :=
    Run.exec_induct Invariant h₀ (fun _ _ h hC ↦ invariant_apply h hC)
      (Run.along_of_forall fun step hstep _ ↦ hsteps step hstep)
  constructor
  · exact fun h ↦ ⟨savedInPlace_of_resolves hinv hitems h, savedDistinct_of_resolves h⟩
  · exact fun h ↦ resolves_of_savedInPlace hinv hitems h.1 h.2

/-- `M2` is found and saved, and a new message arrives: `$` is still `M2`. -/
theorem savedSearch_resolves_new_message :
    (Run.exec apply (selected ⟨"u1", some "A"⟩ ⟨3, 1, ["M1", "M2"], [1, 2], 2, ""⟩ true) [
      .saveSearch ["M2"] true false false,
      .synchronize ⟨4, 1, ["M1", "M2", "M3"], [1, 2, 3], 3, ""⟩ false]).Resolves
        [⟨2, 2⟩] true := by
  refine (savedSearch_resolves_iff _ _ _ ⟨rfl, by decide⟩ _ ?_ _ rfl true).mpr ⟨?_, ?_⟩
  · simp only [List.forall_mem_cons, ViewStep.WellFormed, List.not_mem_nil, false_implies,
      implies_true, and_true, true_and]
    exact ⟨rfl, by decide⟩
  · intro items hitems a ha _
    obtain rfl : [⟨2, 2⟩] = items := SavedSearch.results.inj hitems
    obtain rfl := List.mem_singleton.mp ha
    rfl
  · intro a ha b hb _ _ _
    rw [List.mem_singleton.mp ha, List.mem_singleton.mp hb]

/-- **`$` names another message.**  `M2` is found and saved, then `M1` disappears from the view.
With `M3` behind it, `$` resolves to `M3` under the number of `M2`; without, it is an index out of
range. -/
theorem savedSearch_names_other :
    let three := Run.exec apply
      (selected ⟨"u1", some "A"⟩ ⟨4, 1, ["M1", "M2", "M3"], [1, 2, 3], 3, ""⟩ true) [
        .saveSearch ["M2"] true false false, .move ["M1"]]
    let two := Run.exec apply
      (selected ⟨"u1", some "A"⟩ ⟨3, 1, ["M1", "M2"], [1, 2], 2, ""⟩ true) [
        .saveSearch ["M2"] true false false, .move ["M1"]]
    three.sequenceToJmap .savedSearch true = .ok [("M3", ⟨2, 2⟩)] ∧
      ¬ three.Resolves [⟨2, 2⟩] true ∧
      two.sequenceToJmap .savedSearch true = .error .outOfBounds ∧
      ¬ two.Resolves [⟨2, 2⟩] true := by
  refine ⟨rfl, ?_, rfl, ?_⟩
  · rintro ⟨ids, hok, -, hmem⟩
    have hM2 : ("M2", (⟨2, 1⟩ : ImapId)) ∈ ids :=
      (hmem _).mpr ⟨⟨2, 2⟩, List.mem_singleton_self _, 0, rfl, rfl, rfl⟩
    obtain rfl : [("M3", ⟨2, 2⟩)] = ids := Except.ok.inj hok
    exact absurd hM2 (by decide)
  · rintro ⟨ids, hok, -⟩
    have herr : (Except.error .outOfBounds : Except SequenceError IdMap) = .ok ids := hok
    exact absurd herr (by simp)

end SelectedMailbox

end ImapToJmap
