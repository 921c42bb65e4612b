import ImapToJmap.Commands.Expunge
import ImapToJmap.Commands.SavedSearch
import ImapToJmap.Commands.Store
import ImapToJmap.Core.Receiver
import ImapToJmap.Parser.SequenceText

/-!
# The scope of UID EXPUNGE

`Session::handle_expunge` reads the first token of either command as a sequence set, whether the
command has one or not, and takes a set that it cannot read for none at all, which is all of the
mailbox.

`expungesExactly_iff` is when what is destroyed is what the command says.  It is so for UID EXPUNGE
with any sequence set but those with `$` in them, and otherwise only where the messages on which the
two differ are not flagged `\Deleted`.
-/

namespace ImapToJmap

open Jmap Receiver

/-! ## The code -/

/-- The sequence set `handle_expunge` finds in the tokens. -/
def expungeSequence : List Token → Option Sequence
  | .argument value :: _ => (parseSequenceSet value).toOption
  | _ => none

/-- The emails that `handle_expunge` has destroyed by a server that does as it is asked.  Only the
text of the response depends on whether the command is UID EXPUNGE. -/
def handleExpunge (s : Store) (mailbox : SelectedMailbox) (tokens : List Token) (_isUid : Bool) :
    String → Bool :=
  ClientCommand.expunged s mailbox (expungeSequence tokens) fun _ ↦ true

/-! ## What the commands say -/

/-- The email is in the mailbox, and flagged `\Deleted`. -/
def Deleted (s : Store) (mailbox : SelectedMailbox) (id : String) : Prop :=
  ∃ email, s id = some email ∧ Flag.deleted.toJmap ∈ email.keywords ∧
    ∀ m ∈ mailbox.id.mailboxId, m ∈ email.mailboxIds

/-- `*` is the UID of the last message. -/
def SetNumber.value (mailbox : SelectedMailbox) : SetNumber → ℕ
  | number n => n
  | greatest => mailbox.state.imapUids.getLast?.getD 0

/-- The item stands for the UID. -/
def SetItem.HasUid (mailbox : SelectedMailbox) (uid : ℕ) : SetItem → Prop
  | single n => uid = n.value mailbox
  | range first last => uid ∈ Set.uIcc (first.value mailbox) (last.value mailbox)
  | saved => ∃ items, mailbox.savedSearch = .results items ∧ ∃ imapId ∈ items, imapId.uid = uid

/-- The email has a UID in the set. -/
def SequenceSet.Names (set : SequenceSet) (mailbox : SelectedMailbox) (id : String) : Prop :=
  ∃ uid, (id, uid) ∈ mailbox.state.pairs ∧ uid ≠ 0 ∧ ∃ item ∈ set.items, item.HasUid mailbox uid

/-- The argument of the command is a sequence set. -/
def GivenSet (tokens : List Token) (set : SequenceSet) : Prop :=
  set.Valid ∧ tokens.head? = some (.argument set.text)

/-- What is destroyed are the deleted emails in the mailbox, and for UID EXPUNGE those with a UID in
the set, none if there is no set. -/
def ExpungesExactly (s : Store) (mailbox : SelectedMailbox) (tokens : List Token) (isUid : Bool) :
    Prop :=
  ∀ id, handleExpunge s mailbox tokens isUid id = true ↔ Deleted s mailbox id ∧
    (isUid = true → ∃ set, GivenSet tokens set ∧ set.Names mailbox id)

/-! ## What is destroyed -/

/-- The email stands where one of the saved messages stood, and all of these places are left. -/
def AtSavedPosition (mailbox : SelectedMailbox) (id : String) : Prop :=
  ∃ items, mailbox.savedSearch = .results items ∧
    (∀ imapId ∈ items, imapId.uid ∈ mailbox.state.imapUids →
      imapId.seqnum - 1 < mailbox.state.jmapIds.length) ∧
    ∃ imapId ∈ items, imapId.uid ∈ mailbox.state.imapUids ∧
      mailbox.state.jmapIds[imapId.seqnum - 1]? = some id

/-- What the code takes a set for, once it is read. -/
def Sequence.Takes (sequence : Sequence) (mailbox : SelectedMailbox) (id : String) : Prop :=
  if sequence.isSavedSearch then AtSavedPosition mailbox id
  else ∃ uid, (id, uid) ∈ mailbox.state.pairs ∧ uid ≠ 0 ∧
    sequence.contains uid (mailbox.state.maxNumber true) = true

/-- Where the code is right: EXPUNGE has no argument that can be read, or one that takes every
deleted message; UID EXPUNGE has a set without `$`, or with `$` and the saved messages are where
they were, or no set and there is nothing deleted that is taken. -/
def ScopeAgrees (s : Store) (mailbox : SelectedMailbox) (tokens : List Token)
    (isUid : Bool) : Prop :=
  if isUid then
    ((∃ set, GivenSet tokens set ∧ .saved ∈ set.items) → ∀ id, Deleted s mailbox id →
      (AtSavedPosition mailbox id ↔ ∃ set, GivenSet tokens set ∧ set.Names mailbox id)) ∧
    ((¬ ∃ set, GivenSet tokens set) → ∀ id, Deleted s mailbox id →
      ∃ sequence ∈ expungeSequence tokens, ¬ sequence.Takes mailbox id)
  else
    ∀ sequence ∈ expungeSequence tokens, ∀ id, Deleted s mailbox id → sequence.Takes mailbox id

namespace SelectedMailbox

theorem mem_keys_insertMatches {jmapIds : List String} {matched : List (ℕ × ImapId)} {ids : IdMap}
    (hok : insertMatches jmapIds matched = .ok ids) {id : String} :
    id ∈ ids.keys ↔ ∃ x ∈ matched, jmapIds[x.1]? = some id := by
  obtain ⟨ids', hok', -, -, hspec⟩ | ⟨herr, -⟩ := insertMatches_spec jmapIds matched
  · obtain rfl : ids' = ids := by simpa [hok] using hok'.symm
    constructor
    · intro hmem
      obtain ⟨e, he, rfl⟩ := List.mem_map.mp hmem
      obtain ⟨pre, x, post, rfl, hget, -, -⟩ := (hspec e).mp he
      exact ⟨x, by simp, hget⟩
    · rintro ⟨x, hx, hget⟩
      obtain ⟨pre, y, post, hy, hyget, hlast⟩ :=
        exists_last (P := fun z : ℕ × ImapId ↦ jmapIds[z.1]? = some id) ⟨x, hx, hget⟩
      exact List.mem_map.mpr ⟨(id, y.2), (hspec _).mpr ⟨pre, y, post, hy, hyget, rfl, hlast⟩, rfl⟩
  · rw [hok] at herr
    cases herr

end SelectedMailbox

section Scope

variable {s : Store} {mailbox : SelectedMailbox} {tokens : List Token} {id : String}

theorem mem_targets (h : mailbox.state.Aligned) {sequence : Sequence} :
    id ∈ ClientCommand.targets mailbox sequence true ↔ sequence.Takes mailbox id := by
  rw [ClientCommand.targets, SelectedMailbox.sequenceToJmap, Sequence.Takes]
  cases hsaved : sequence.isSavedSearch with
  | false =>
      have hmatched : ∀ x ∈ SelectedMailbox.matchedMessages mailbox.state sequence true,
          x.1 < mailbox.state.jmapIds.length := by
        intro x hx
        obtain ⟨hget, -⟩ := SelectedMailbox.mem_matchedMessages.mp hx
        rw [h.length_eq]
        exact (List.getElem?_eq_some_iff.mp hget).1
      obtain ⟨ids, hok, -⟩ | ⟨-, x, hx, hle⟩ := SelectedMailbox.insertMatches_spec
        mailbox.state.jmapIds (SelectedMailbox.matchedMessages mailbox.state sequence true)
      · simp only [Bool.not_false, if_true, hok, Bool.false_eq_true, if_false]
        rw [SelectedMailbox.mem_keys_insertMatches hok]
        constructor
        · rintro ⟨x, hx, hget⟩
          obtain ⟨huid, -, hne, hcontains⟩ := SelectedMailbox.mem_matchedMessages.mp hx
          exact ⟨x.2.uid, MailboxData.mem_pairs.mpr ⟨x.1, hget, huid⟩, hne, hcontains⟩
        · rintro ⟨uid, hpair, hne, hcontains⟩
          obtain ⟨pos, hget, huid⟩ := MailboxData.mem_pairs.mp hpair
          exact ⟨(pos, ⟨uid, pos + 1⟩),
            SelectedMailbox.mem_matchedMessages.mpr ⟨huid, rfl, hne, hcontains⟩, hget⟩
      · exact absurd (hmatched x hx) (by omega)
  | true =>
      simp only [Bool.not_true, Bool.false_eq_true, if_false, if_true]
      cases hitems : mailbox.savedSearch with
      | none => simp [AtSavedPosition, hitems]
      | results items =>
          have hsome : ∀ items', SavedSearch.results items = .results items' → items = items' :=
            fun _ ↦ SavedSearch.results.inj
          obtain ⟨ids, hok, hlt, -⟩ | ⟨herr, x, hx, hle⟩ := SelectedMailbox.insertMatches_spec
            mailbox.state.jmapIds (SelectedMailbox.matchedSaved mailbox.state items)
          · simp only [hok]
            rw [SelectedMailbox.mem_keys_insertMatches hok]
            constructor
            · rintro ⟨x, hx, hget⟩
              obtain ⟨hxi, hin, hpos⟩ := SelectedMailbox.mem_matchedSaved.mp hx
              refine ⟨items, hitems, ?_, x.2, hxi, hin, hpos ▸ hget⟩
              intro a ha hain
              exact hlt (a.seqnum - 1, a) (SelectedMailbox.mem_matchedSaved.mpr ⟨ha, hain, rfl⟩)
            · rintro ⟨items', hitems', -, a, ha, hain, hget⟩
              obtain rfl := hsome items' (hitems.symm.trans hitems')
              exact ⟨(a.seqnum - 1, a), SelectedMailbox.mem_matchedSaved.mpr ⟨ha, hain, rfl⟩, hget⟩
          · simp only [herr]
            refine iff_of_false (by simp) ?_
            rintro ⟨items', hitems', hall, -⟩
            obtain rfl := hsome items' (hitems.symm.trans hitems')
            obtain ⟨hxi, hin, hpos⟩ := SelectedMailbox.mem_matchedSaved.mp hx
            have hlt := hall x.2 hxi hin
            omega

theorem handleExpunge_iff (h : mailbox.state.Aligned) (isUid : Bool) :
    handleExpunge s mailbox tokens isUid id = true ↔ Deleted s mailbox id ∧
      ∀ sequence ∈ expungeSequence tokens, sequence.Takes mailbox id := by
  rw [handleExpunge, ClientCommand.expunged_iff]
  simp only [ClientCommand.Marked, mem_targets h, Deleted, and_true]
  constructor
  · rintro ⟨email, hid, hkeyword, hin, htakes⟩
    exact ⟨⟨email, hid, hkeyword, hin⟩, htakes⟩
  · rintro ⟨⟨email, hid, hkeyword, hin⟩, htakes⟩
    exact ⟨email, hid, hkeyword, hin, htakes⟩

/-! ## What a set says -/

theorem bound_getD (n : SetNumber) :
    n.bound.getD (mailbox.state.maxNumber true) = n.value mailbox := by
  cases n <;> rfl

/-- The code's reading of an item, and the item's meaning. -/
theorem hasUid_iff {item : SetItem} (hitem : item ≠ .saved) {uid : ℕ} :
    item.HasUid mailbox uid ↔
      item.toSequence.contains uid (mailbox.state.maxNumber true) = true := by
  cases item with
  | single n =>
      cases n with
      | number n =>
          show uid = n ↔ (n == uid) = true
          rw [beq_iff_eq]
          exact eq_comm
      | greatest =>
          show uid = mailbox.state.maxNumber true ↔ (uid == mailbox.state.maxNumber true) = true
          rw [beq_iff_eq]
  | range first last =>
      have hflat : (SetItem.range first last).toSequence.IsItem := trivial
      rw [hflat.contains_iff]
      show uid ∈ Set.uIcc (first.value mailbox) (last.value mailbox) ↔
        uid ∈ Finset.uIcc (first.bound.getD _) (last.bound.getD _)
      rw [bound_getD, bound_getD, Finset.mem_uIcc', Set.mem_uIcc]
  | saved => exact absurd rfl hitem

theorem isSavedSearch_item {item : SetItem} :
    item.toSequence.isSavedSearch = true ↔ item = .saved := by
  cases item with
  | single n => cases n <;> simp [SetItem.toSequence, Sequence.isSavedSearch]
  | range first last => simp [SetItem.toSequence, Sequence.isSavedSearch]
  | saved => simp [SetItem.toSequence, Sequence.isSavedSearch]

theorem anySavedSearch_iff {items : List SetItem} :
    Sequence.anySavedSearch (items.map SetItem.toSequence) = true ↔ .saved ∈ items := by
  induction items with
  | nil => simp [Sequence.anySavedSearch]
  | cons item items ih =>
      rw [List.map_cons, Sequence.anySavedSearch, Bool.or_eq_true, isSavedSearch_item, ih,
        List.mem_cons]
      exact or_congr_left eq_comm

theorem isSavedSearch_iff {set : SequenceSet} :
    set.toSequence.isSavedSearch = true ↔ .saved ∈ set.items := by
  rw [SequenceSet.toSequence, SequenceSet.items]
  cases set.tail with
  | nil =>
      rw [isSavedSearch_item, List.mem_singleton]
      exact eq_comm
  | cons next items => exact anySavedSearch_iff

/-- A set without `$` is taken for what it says. -/
theorem names_iff_takes {set : SequenceSet} (hsaved : .saved ∉ set.items) :
    set.Names mailbox id ↔ set.toSequence.Takes mailbox id := by
  have hnot : set.toSequence.isSavedSearch = false := by
    rw [← Bool.not_eq_true]
    exact fun hc ↦ hsaved (isSavedSearch_iff.mp hc)
  have hitems : ∀ uid, (∃ item ∈ set.items, item.HasUid mailbox uid) ↔
      set.toSequence.contains uid (mailbox.state.maxNumber true) = true := by
    intro uid
    have hmap : (∃ item ∈ set.items, item.HasUid mailbox uid) ↔
        ∃ item ∈ set.items.map SetItem.toSequence,
          item.contains uid (mailbox.state.maxNumber true) = true := by
      constructor
      · rintro ⟨item, hitem, huid⟩
        exact ⟨_, List.mem_map_of_mem hitem, (hasUid_iff fun hc ↦ hsaved (hc ▸ hitem)).mp huid⟩
      · rintro ⟨_, hmem, huid⟩
        obtain ⟨item, hitem, rfl⟩ := List.mem_map.mp hmem
        exact ⟨item, hitem, (hasUid_iff fun hc ↦ hsaved (hc ▸ hitem)).mpr huid⟩
    rw [hmap, SequenceSet.toSequence, SequenceSet.items]
    cases set.tail with
    | nil => simp
    | cons next items => exact Sequence.anyContains_iff.symm
  rw [SequenceSet.Names, Sequence.Takes, hnot, if_neg Bool.false_ne_true]
  simp only [hitems]

theorem expungeSequence_of_given {set : SequenceSet} (h : GivenSet tokens set) :
    expungeSequence tokens = some set.toSequence := by
  obtain ⟨hvalid, hhead⟩ := h
  cases tokens with
  | nil => cases hhead
  | cons token tokens =>
      obtain rfl := Option.some.inj hhead
      rw [expungeSequence, parseSequenceSet_text hvalid]
      rfl

end Scope

/-- **What EXPUNGE and UID EXPUNGE destroy** is what they say they do if and only if the scopes
agree on the deleted messages of the mailbox. -/
theorem expungesExactly_iff (s : Store) {mailbox : SelectedMailbox} (h : mailbox.state.Aligned)
    (tokens : List Token) (isUid : Bool) :
    ExpungesExactly s mailbox tokens isUid ↔ ScopeAgrees s mailbox tokens isUid := by
  simp only [ExpungesExactly, handleExpunge_iff h, and_congr_right_iff]
  cases isUid with
  | false =>
      show (∀ id, Deleted s mailbox id → ((∀ sequence ∈ expungeSequence tokens, _) ↔ _)) ↔
        ∀ sequence ∈ expungeSequence tokens, ∀ id, Deleted s mailbox id → sequence.Takes mailbox id
      constructor
      · intro hall sequence hsequence id hid
        exact (hall id hid).mpr (by simp) sequence hsequence
      · intro hall id hid
        exact iff_of_true (fun sequence hsequence ↦ hall sequence hsequence id hid) (by simp)
  | true =>
      simp only [ScopeAgrees, if_true, true_implies]
      by_cases hgiven : ∃ set, GivenSet tokens set
      · obtain ⟨set, hset⟩ := hgiven
        have hread := expungeSequence_of_given hset
        have hcode : ∀ id, (∀ sequence ∈ expungeSequence tokens, sequence.Takes mailbox id) ↔
            set.toSequence.Takes mailbox id := by
          intro id
          rw [hread]
          simp
        simp only [hcode]
        by_cases hsaved : .saved ∈ set.items
        · have htakes : ∀ id, set.toSequence.Takes mailbox id ↔ AtSavedPosition mailbox id := by
            intro id
            rw [Sequence.Takes, if_pos (isSavedSearch_iff.mpr hsaved)]
          simp only [htakes]
          constructor
          · intro hall
            exact ⟨fun _ ↦ hall, fun hno ↦ absurd ⟨set, hset⟩ hno⟩
          · intro hall
            exact hall.1 ⟨set, hset, hsaved⟩
        · -- a set with the same text is read as the same items, and has no `$` either
          have hsame : ∀ set', GivenSet tokens set' → set'.toSequence = set.toSequence ∧
              .saved ∉ set'.items := by
            intro set' hset'
            have heq := Option.some.inj ((expungeSequence_of_given hset').symm.trans hread)
            refine ⟨heq, fun hc ↦ hsaved ?_⟩
            exact isSavedSearch_iff.mp (heq ▸ isSavedSearch_iff.mpr hc)
          have hnames : ∀ id, (∃ set', GivenSet tokens set' ∧ set'.Names mailbox id) ↔
              set.toSequence.Takes mailbox id := by
            intro id
            constructor
            · rintro ⟨set', hset', hid⟩
              obtain ⟨heq, hsaved'⟩ := hsame set' hset'
              exact heq ▸ (names_iff_takes hsaved').mp hid
            · intro hid
              exact ⟨set, hset, (names_iff_takes hsaved).mpr hid⟩
          refine iff_of_true (fun id _ ↦ (hnames id).symm) ⟨?_, fun hno ↦ absurd ⟨set, hset⟩ hno⟩
          rintro ⟨set', hset', hsaved'⟩
          exact absurd hsaved' (hsame set' hset').2
      · have hno : ∀ id, ¬ ∃ set, GivenSet tokens set ∧ set.Names mailbox id := by
          rintro id ⟨set, hset, -⟩
          exact hgiven ⟨set, hset⟩
        simp only [hno, iff_false, not_forall, exists_prop]
        constructor
        · intro hall
          refine ⟨?_, fun _ ↦ hall⟩
          rintro ⟨set, hset, -⟩
          exact absurd ⟨set, hset⟩ hgiven
        · intro hall
          exact hall.2 hgiven

/-- The second and the third of four messages are flagged `\Deleted`. -/
def twoDeleted : Store := fun id ↦
  if id = "M2" ∨ id = "M3" then some ⟨{"A"}, {"$deleted"}⟩
  else if id = "M1" ∨ id = "M4" then some ⟨{"A"}, ∅⟩ else none

/-- `UID EXPUNGE 4:*` -/
theorem expungesExactly_iff_two : fourMessages.state.Aligned ∧
    (ExpungesExactly twoDeleted fourMessages [.argument [52, 58, 42]] true ↔
      ScopeAgrees twoDeleted fourMessages [.argument [52, 58, 42]] true) := by
  have haligned : fourMessages.state.Aligned := ⟨rfl, by decide⟩
  exact ⟨haligned, expungesExactly_iff twoDeleted haligned [.argument [52, 58, 42]] true⟩

/-- What is destroyed without a set that is read is more than the command says. -/
theorem not_expungesExactly_of_none {s : Store} {mailbox : SelectedMailbox} {tokens : List Token}
    {id : String} (hnone : expungeSequence tokens = none)
    (h : handleExpunge s mailbox tokens true id = true) :
    ¬ ExpungesExactly s mailbox tokens true := by
  intro hexact
  obtain ⟨-, hset⟩ := (hexact id).mp h
  obtain ⟨set, hgiven, -⟩ := hset rfl
  rw [expungeSequence_of_given hgiven] at hnone
  cases hnone

/-- `UID EXPUNGE` without a set destroys what is deleted, and so does one with a set that cannot be
read. -/
theorem expunge_without_set :
    (handleExpunge twoDeleted fourMessages [] true "M2" = true ∧
      ¬ ExpungesExactly twoDeleted fourMessages [] true) ∧
    handleExpunge twoDeleted fourMessages [.argument [120]] true "M2" = true ∧
      ¬ ExpungesExactly twoDeleted fourMessages [.argument [120]] true := by
  have hmissing : handleExpunge twoDeleted fourMessages [] true "M2" = true := by decide +kernel
  have hrefused : handleExpunge twoDeleted fourMessages [.argument [120]] true "M2" = true := by
    decide +kernel
  exact ⟨⟨hmissing, not_expungesExactly_of_none rfl hmissing⟩, hrefused,
    not_expungesExactly_of_none rfl hrefused⟩

end ImapToJmap
