import ImapToJmap.Commands.SavedSearch
import ImapToJmap.Commands.Store
import ImapToJmap.Jmap.Query
import ImapToJmap.Parser.SearchMeaning

/-!
# What a search finds

The keys of a search and the query that is made of them, both as conditions on an email.  The two
agree (`query_iff`) but for

* OLD, which becomes the query for RECENT, and OLDER, which becomes that for YOUNGER;
* YOUNGER with more seconds than the clock has, and LARGER with the greatest number of 32 bits;
* a MODSEQ of more than 32 bits;
* a sequence set of UID SEARCH, which is read as one of UIDs, a set with `$` and something else in
  it, and `$` itself when a saved message has moved;
* ALL, which becomes nothing: below an AND, but also below OR and NOT;
* NOT of one filter in All Mail, where a list of one query is taken for the query.

`key_iff` is about the keys one by one: a key that is not read as it is meant is wrong for some
email.
-/

namespace ImapToJmap

open Search

/-- The email has the flag. -/
def Jmap.IndexedEmail.Has (email : Jmap.IndexedEmail) (flag : Flag) : Prop :=
  flag.toJmap ∈ email.keywords

namespace SearchContext

variable (c : SearchContext)

/-! ## The meaning of the keys -/

/-- The search that `$` stands for. -/
def saved : Option (List ImapId) :=
  match c.prevSavedSearch, c.mailbox.savedSearch with
  | some items, _ => items
  | none, .results items => some items
  | none, .none => none

/-- The message is in the sequence set: it is there by its number, or `$` is and it has been
saved. -/
def Includes (sequence : Sequence) (isUid : Bool) (jmapId : String) : Prop :=
  ∃ pos uid, c.mailbox.state.jmapIds[pos]? = some jmapId ∧
    c.mailbox.state.imapUids[pos]? = some uid ∧
      (uid ≠ 0 ∧ sequence.contains (ImapId.number ⟨uid, pos + 1⟩ isUid)
          (c.mailbox.state.maxNumber isUid) = true ∨
        sequence.isSavedSearch = true ∧ ∃ items ∈ c.saved, ∃ a ∈ items, a.uid = uid)

/-- The email has been created or updated since the state that the modseq stands for. -/
def ChangedSince (changesEmail : String → Option Jmap.Changes) (modseq : ℕ) (jmapId : String) :
    Prop :=
  ∃ state changes, c.db.modseqToState modseq = some (some state) ∧
    changesEmail state = some changes ∧ (jmapId ∈ changes.updated ∨ jmapId ∈ changes.created)

/-- The meaning of a key. -/
def Means (changesEmail : String → Option Jmap.Changes) (email : Jmap.IndexedEmail) :
    Filter → Prop
  | .all => True
  | .sequence sequence uidFilter => c.Includes sequence uidFilter email.id
  | .from text => email.contains .from text
  | .to text => email.contains .to text
  | .cc text => email.contains .cc text
  | .bcc text => email.contains .bcc text
  | .body text => email.contains .body text
  | .subject text => email.contains .subject text
  | .text text => email.contains .text text
  | .header header value => email.contains (.header header) value
  | .on date => date ≤ email.receivedAt ∧ email.receivedAt < date + 86400
  | .since date => date ≤ email.receivedAt
  | .before date => email.receivedAt < date
  | .sentOn date => date ≤ email.sentAt ∧ email.sentAt < date + 86400
  | .sentSince date => date ≤ email.sentAt
  | .sentBefore date => email.sentAt < date
  | .older seconds => email.receivedAt < c.now - seconds
  | .younger seconds => (c.now : ℤ) - seconds ≤ email.receivedAt
  | .larger size => size < email.size
  | .smaller size => email.size < size
  | .answered => email.Has .answered
  | .deleted => email.Has .deleted
  | .draft => email.Has .draft
  | .flagged => email.Has .flagged
  | .keyword keyword => email.Has keyword
  | .seen => email.Has .seen
  | .unanswered => ¬email.Has .answered
  | .undeleted => ¬email.Has .deleted
  | .undraft => ¬email.Has .draft
  | .unflagged => ¬email.Has .flagged
  | .unkeyword keyword => ¬email.Has keyword
  | .unseen => ¬email.Has .seen
  | .recent => email.Has .recent
  | .new => email.Has .recent ∧ ¬email.Has .seen
  | .old => ¬email.Has .recent
  | .modSeq modseq _ => c.ChangedSince changesEmail modseq email.id
  | .emailId id => email.id = id
  | .threadId id => email.threadId = id
  -- an operator is no key
  | .operator .. => False

/-- The email is what the search is for: it is in the mailbox and the keys hold of it. -/
def Finds (changesEmail : String → Option Jmap.Changes) (filter : Filter)
    (email : Jmap.IndexedEmail) : Prop :=
  (∀ mailboxId ∈ c.mailbox.id.mailboxId, mailboxId ∈ email.mailboxIds) ∧
    filter.Matches (c.Means changesEmail email)

/-! ## The keys that are read as they are meant -/

/-- A set of UIDs, or of sequence numbers in SEARCH; `$` alone, if it is the search from before the
command or the saved messages have not moved. -/
def ReadsSequence (sequence : Sequence) (uidFilter : Bool) : Prop :=
  if sequence.isSavedSearch then
    sequence = .savedSearch ∧ (c.prevSavedSearch.isSome = true ∨ c.mailbox.SavedInPlace)
  else c.isUid = true → uidFilter = true

/-- The key is read as it is meant. -/
def Reads : Filter → Prop
  | .sequence sequence uidFilter => c.ReadsSequence sequence uidFilter
  | .older _ | .old => False
  | .younger seconds => seconds ≤ c.now
  | .larger size => size + 1 < 2 ^ 32
  | .modSeq modseq _ => modseq < 2 ^ 32
  | _ => True

mutual

/-- All keys are read as they are meant, and ALL stands below AND only. -/
def ReadsAll : Filter → Prop
  | .operator .and filters => ReadsEach filters
  | .operator _ filters => ReadsEach filters ∧ .all ∉ filters
  | key => c.Reads key

def ReadsEach : List Filter → Prop
  | [] => True
  | filter :: filters => ReadsAll filter ∧ ReadsEach filters

end

/-- So is the search: in All Mail it is not NOT of one filter. -/
def Exact (filter : Filter) : Prop :=
  c.ReadsAll filter ∧
    (c.mailbox.id.mailboxId = none → ∀ negated, filter ≠ .operator .not [negated])

/-! ## Sequence sets -/

section

variable {c : SearchContext} {sequence : Sequence} {isUid uidFilter : Bool} {jmapId : String}
  {ids : IdMap}

open SelectedMailbox

/-- The email ids that are inserted. -/
theorem mem_keys_insertMatches {jmapIds : List String} {matched : List (ℕ × ImapId)}
    (h : insertMatches jmapIds matched = .ok ids) :
    jmapId ∈ ids.keys ↔ ∃ x ∈ matched, jmapIds[x.1]? = some jmapId := by
  obtain ⟨ids', hok, -, -, hmem⟩ | ⟨herror, -⟩ := insertMatches_spec jmapIds matched
  · obtain rfl : ids' = ids := Except.ok.inj (hok.symm.trans h)
    rw [IdMap.keys, List.mem_map]
    constructor
    · rintro ⟨e, he, rfl⟩
      obtain ⟨pre, x, post, rfl, hget, -, -⟩ := (hmem e).mp he
      exact ⟨x, by simp, hget⟩
    · rintro ⟨x, hx, hget⟩
      obtain ⟨pre, y, post, heq, hyget, hlast⟩ :=
        exists_last (P := fun y : ℕ × ImapId ↦ jmapIds[y.1]? = some jmapId) ⟨x, hx, hget⟩
      exact ⟨(jmapId, y.2), (hmem _).mpr ⟨pre, y, post, heq, hyget, rfl, hlast⟩, rfl⟩
  · cases herror.symm.trans h

/-- A set without `$`. -/
theorem mem_keys_sequenceToJmap (hset : sequence.isSavedSearch = false)
    (h : c.mailbox.sequenceToJmap sequence isUid = .ok ids) :
    jmapId ∈ ids.keys ↔ c.Includes sequence isUid jmapId := by
  rw [sequenceToJmap, hset] at h
  rw [mem_keys_insertMatches h, Includes, hset]
  constructor
  · rintro ⟨x, hx, hget⟩
    obtain ⟨⟨uid, pos⟩, hmem, rfl⟩ := List.mem_map.mp hx
    obtain ⟨hzip, hcond⟩ := List.mem_filter.mp hmem
    rw [Bool.and_eq_true, decide_eq_true_eq] at hcond
    refine ⟨pos, uid, hget, List.mem_zipIdx_iff_getElem?.mp hzip, .inl ⟨hcond.1, ?_⟩⟩
    cases isUid <;> exact hcond.2
  · rintro ⟨pos, uid, hget, huid, ⟨hne, hcontains⟩ | ⟨hfalse, -⟩⟩
    · refine ⟨(pos, ⟨uid, pos + 1⟩), List.mem_map.mpr ⟨(uid, pos), ?_, rfl⟩, hget⟩
      refine List.mem_filter.mpr ⟨List.mem_zipIdx_iff_getElem?.mpr huid, ?_⟩
      rw [Bool.and_eq_true, decide_eq_true_eq]
      refine ⟨hne, ?_⟩
      cases isUid <;> exact hcontains
    · cases hfalse

/-- `$`, by what has been saved. -/
theorem includes_savedSearch : c.Includes .savedSearch isUid jmapId ↔
    ∃ items ∈ c.saved, ∃ a ∈ items, (jmapId, a.uid) ∈ c.mailbox.state.pairs := by
  constructor
  · rintro ⟨pos, uid, hget, huid, ⟨-, hcontains⟩ | ⟨-, items, hitems, a, ha, rfl⟩⟩
    · cases hcontains
    · exact ⟨items, hitems, a, ha, MailboxData.mem_pairs.mpr ⟨pos, hget, huid⟩⟩
  · rintro ⟨items, hitems, a, ha, hpair⟩
    obtain ⟨pos, hget, huid⟩ := MailboxData.mem_pairs.mp hpair
    exact ⟨pos, a.uid, hget, huid, .inr ⟨rfl, items, hitems, a, ha, rfl⟩⟩

/-- The place of a UID. -/
theorem idxOf?_imapUids (hview : c.mailbox.state.Aligned) {uid pos : ℕ} :
    c.mailbox.state.imapUids.idxOf? uid = some pos ↔
      c.mailbox.state.imapUids[pos]? = some uid := by
  rw [List.idxOf?, List.findIdx?_eq_some_iff_getElem, List.getElem?_eq_some_iff]
  constructor
  · rintro ⟨hlt, heq, -⟩
    exact ⟨hlt, beq_iff_eq.mp heq⟩
  · rintro ⟨hlt, heq⟩
    refine ⟨hlt, beq_iff_eq.mpr heq, fun pos' hlt' hbeq ↦ ?_⟩
    have hsame := (beq_iff_eq.mp hbeq).trans heq.symm
    exact hlt'.ne ((List.Nodup.getElem_inj_iff hview.nodup).mp hsame)

/-- `$`, as the search from before the command. -/
theorem mem_imapToJmap (hview : c.mailbox.state.Aligned) {items : List ImapId} :
    jmapId ∈ imapToJmap c.mailbox.state items ↔
      ∃ a ∈ items, (jmapId, a.uid) ∈ c.mailbox.state.pairs := by
  rw [imapToJmap, List.mem_filterMap]
  refine exists_congr fun a ↦ and_congr_right fun _ ↦ ?_
  rw [Option.bind_eq_some_iff, MailboxData.mem_pairs]
  simp only [idxOf?_imapUids hview, and_comm]

/-- `$`, as the mailbox has saved it. -/
theorem mem_keys_savedSearch (hview : c.mailbox.Invariant) (hplace : c.mailbox.SavedInPlace)
    {items : List ImapId} (hitems : c.mailbox.savedSearch = .results items)
    (h : c.mailbox.sequenceToJmap .savedSearch isUid = .ok ids) :
    jmapId ∈ ids.keys ↔ ∃ a ∈ items, (jmapId, a.uid) ∈ c.mailbox.state.pairs := by
  rw [sequenceToJmap_savedSearch hitems] at h
  rw [mem_keys_insertMatches h]
  constructor
  · rintro ⟨x, hx, hget⟩
    have huid := (matchedSaved_at hview hitems hplace hx).1
    exact ⟨x.2, (mem_matchedSaved.mp hx).1, MailboxData.mem_pairs.mpr ⟨x.1, hget, huid⟩⟩
  · rintro ⟨a, ha, hpair⟩
    obtain ⟨pos, hget, huid⟩ := MailboxData.mem_pairs.mp hpair
    have hmem : (a.seqnum - 1, a) ∈ matchedSaved c.mailbox.state items :=
      mem_matchedSaved.mpr ⟨ha, List.mem_of_getElem? huid, rfl⟩
    obtain ⟨hlt, hat⟩ :=
      List.getElem?_eq_some_iff.mp (matchedSaved_at hview hitems hplace hmem).1
    obtain ⟨hlt', hat'⟩ := List.getElem?_eq_some_iff.mp huid
    -- a UID stands at one position of the view
    have hpos : a.seqnum - 1 = pos :=
      (List.Nodup.getElem_inj_iff hview.aligned.nodup).mp (hat.trans hat'.symm)
    exact ⟨_, hmem, hpos ▸ hget⟩

/-- A sequence set that is resolved by the mailbox. -/
theorem exists_sequenceToJmap {jmapIds : List String}
    (hset : sequence = .savedSearch → c.prevSavedSearch = none)
    (h : c.sequenceIds sequence uidFilter = .ok jmapIds) :
    ∃ ids, c.mailbox.sequenceToJmap sequence (c.isUid || uidFilter) = .ok ids ∧
      jmapIds = (c.order ids).keys := by
  rw [sequenceIds.eq_3] at h
  · cases hok : c.mailbox.sequenceToJmap sequence (c.isUid || uidFilter) with
    | error e =>
        rw [hok] at h
        cases h
    | ok ids =>
        rw [hok] at h
        exact ⟨ids, rfl, (Except.ok.inj h).symm⟩
  · intro items hdollar hprev
    cases hprev.symm.trans (hset hdollar)
  · intro hdollar hprev
    cases hprev.symm.trans (hset hdollar)

/-- **A sequence set that is read as it is meant** names its messages. -/
theorem mem_sequenceIds (hview : c.mailbox.Invariant) (horder : ∀ ids, (c.order ids).Perm ids)
    (hreads : c.ReadsSequence sequence uidFilter) {jmapIds : List String}
    (h : c.sequenceIds sequence uidFilter = .ok jmapIds) :
    jmapId ∈ jmapIds ↔ c.Includes sequence uidFilter jmapId := by
  have hkeys (ids : IdMap) : jmapId ∈ (c.order ids).keys ↔ jmapId ∈ ids.keys :=
    ((horder ids).map Prod.fst).mem_iff
  rw [ReadsSequence] at hreads
  split at hreads
  · next hset =>
      obtain ⟨rfl, hsaved⟩ := hreads
      rw [includes_savedSearch]
      cases hprev : c.prevSavedSearch with
      | some items =>
          rw [sequenceIds.eq_def, hprev] at h
          rw [saved, hprev]
          cases items with
          | none => cases h
          | some items =>
              rw [← Except.ok.inj h, mem_imapToJmap hview.aligned]
              simp
      | none =>
          have hplace := hsaved.resolve_left (by simp [hprev])
          obtain ⟨ids, hok, rfl⟩ := exists_sequenceToJmap (fun _ ↦ hprev) h
          rw [hkeys, saved, hprev]
          cases hitems : c.mailbox.savedSearch with
          | none => simp [sequenceToJmap, Sequence.isSavedSearch, hitems] at hok
          | results items =>
              rw [mem_keys_savedSearch hview hplace hitems hok]
              simp
  · next hset =>
      have hset : sequence.isSavedSearch = false := Bool.eq_false_iff.mpr hset
      have hisUid : (c.isUid || uidFilter) = uidFilter := by
        cases hc : c.isUid with
        | false => rfl
        | true => exact (hreads hc).symm
      have hne : sequence = .savedSearch → c.prevSavedSearch = none := by
        rintro rfl
        cases hset
      obtain ⟨ids, hok, rfl⟩ := exists_sequenceToJmap hne h
      rw [hisUid] at hok
      rw [hkeys, mem_keys_sequenceToJmap hset hok]

end

/-! ## Keys -/

section

variable {c : SearchContext} {changesEmail : String → Option Jmap.Changes}
  {email : Jmap.IndexedEmail} {s s' : SeenModseq} {key filter : Filter} {filters : List Filter}
  {queries : List Jmap.Query}

/-- What the query of a key means; a key but ALL has one query. -/
structure Agrees (holds : Prop) (email : Jmap.IndexedEmail) (isAll : Prop)
    (queries : List Jmap.Query) : Prop where
  forall_iff : (∀ query ∈ queries, query.Matches email) ↔ holds
  length_eq : ¬isAll → queries.length = 1

theorem agrees_singleton {holds isAll : Prop} {query : Jmap.Query}
    (h : query.Matches email ↔ holds) : Agrees holds email isAll [query] where
  forall_iff := List.forall_mem_singleton.trans h
  length_eq _ := rfl

/-- A key that asks nobody. -/
theorem agrees_conditions (hkey : key.IsKey) (hseq : ∀ sequence uid, key ≠ .sequence sequence uid)
    (hmod : key.modseq? = none) (hreads : c.Reads key) :
    Agrees (c.Means changesEmail email key) email (key = .all) (c.conditions key) := by
  cases key
  case all => exact ⟨by simp [conditions, Means], fun h ↦ absurd rfl h⟩
  case operator operator filters => exact absurd rfl (hkey operator filters)
  case sequence sequence uidFilter => exact absurd rfl (hseq sequence uidFilter)
  case modSeq modseq entry => cases hmod
  case older seconds => exact hreads.elim
  case old => exact hreads.elim
  case younger seconds =>
    refine agrees_singleton ?_
    rw [Reads] at hreads
    rw [Jmap.Query.matches_condition, Jmap.Condition.Holds, Means, ago, Nat.cast_sub hreads]
  case larger size =>
    refine agrees_singleton ?_
    rw [Reads] at hreads
    rw [Jmap.Query.matches_condition, Jmap.Condition.Holds, Means, Nat.mod_eq_of_lt hreads,
      Nat.succ_le_iff]
  case header header value =>
    refine agrees_singleton ?_
    rw [Jmap.Query.matches_condition, Jmap.Condition.Holds, Means]
    split <;> simp_all
  all_goals
    refine agrees_singleton ?_
    simp [Jmap.Condition.Holds, Means, Jmap.IndexedEmail.Has]

/-- MODSEQ. -/
theorem agrees_translateModseq {modseq : ℕ} (hmodseq : modseq < 2 ^ 32)
    (hok : c.translateModseq changesEmail modseq s = .ok (queries, s')) (isAll : Prop) :
    Agrees (c.ChangedSince changesEmail modseq email.id) email isAll queries := by
  rw [translateModseq, Nat.mod_eq_of_lt hmodseq] at hok
  split at hok
  · cases hok
  · split at hok
    · cases hok
    · cases hok
    · next state hstate =>
        split at hok
        · cases hok
        · next changes hchanges =>
            split at hok
            · cases hok
            · cases hok
              refine agrees_singleton ?_
              rw [Jmap.Query.matches_condition, Jmap.Condition.Holds, List.mem_append,
                ChangedSince]
              constructor
              · exact fun hmem ↦ ⟨state, changes, hstate, hchanges, hmem⟩
              · rintro ⟨state', changes', hstate', hchanges', hmem⟩
                obtain rfl : state = state' := by simpa [hstate] using hstate'
                obtain rfl := Option.some.inj (hchanges.symm.trans hchanges')
                exact hmem

/-- **A key that is read as it is meant.** -/
theorem agrees_translateKey (hview : c.mailbox.Invariant)
    (horder : ∀ ids, (c.order ids).Perm ids) (hkey : key.IsKey) (hreads : c.Reads key)
    (hok : c.translateKey changesEmail s key = .ok (queries, s')) :
    Agrees (c.Means changesEmail email key) email (key = .all) queries := by
  by_cases hseq : ∃ sequence uidFilter, key = .sequence sequence uidFilter
  · obtain ⟨sequence, uidFilter, rfl⟩ := hseq
    rw [translateKey] at hok
    cases hids : c.sequenceIds sequence uidFilter with
    | error e =>
        rw [hids] at hok
        cases hok
    | ok ids =>
        rw [hids] at hok
        cases hok
        refine agrees_singleton ?_
        rw [Jmap.Query.matches_condition, Jmap.Condition.Holds, Means]
        exact mem_sequenceIds hview horder hreads hids
  · cases hmod : key.modseq? with
    | some modseq =>
        cases key
        case modSeq modseq' entry => exact agrees_translateModseq hreads hok _
        all_goals cases hmod
    | none =>
        push Not at hseq
        have hconditions : c.translateKey changesEmail s key = .ok (c.conditions key, s) := by
          cases key
          case sequence sequence uidFilter => exact absurd rfl (hseq sequence uidFilter)
          case modSeq modseq entry => cases hmod
          all_goals rfl
        rw [hconditions] at hok
        cases hok
        exact agrees_conditions hkey hseq hmod hreads

/-! ## Trees -/

/-- What the queries of a list of filters mean. -/
structure AgreesEach (holds : Filter → Prop) (email : Jmap.IndexedEmail) (filters : List Filter)
    (queries : List Jmap.Query) : Prop where
  forall_iff : (∀ query ∈ queries, query.Matches email) ↔
    ∀ filter ∈ filters, filter.Matches holds
  exists_iff : .all ∉ filters → ((∃ query ∈ queries, query.Matches email) ↔
    ∃ filter ∈ filters, filter.Matches holds)
  length_eq : .all ∉ filters → queries.length = filters.length

theorem AgreesEach.nil {holds : Filter → Prop} : AgreesEach holds email [] [] where
  forall_iff := by simp
  exists_iff _ := by simp
  length_eq _ := rfl

/-- The queries of one filter in front of those of others. -/
theorem AgreesEach.cons {holds : Filter → Prop} {queries' : List Jmap.Query}
    (h : Agrees (filter.Matches holds) email (filter = .all) queries)
    (h' : AgreesEach holds email filters queries') :
    AgreesEach holds email (filter :: filters) (queries ++ queries') where
  forall_iff := by rw [List.forall_mem_append, List.forall_mem_cons, h.forall_iff, h'.forall_iff]
  exists_iff hall := by
    rw [List.mem_cons, not_or] at hall
    obtain ⟨query, rfl⟩ := List.length_eq_one_iff.mp (h.length_eq (Ne.symm hall.1))
    have hquery := h.forall_iff
    rw [List.forall_mem_singleton] at hquery
    simp only [List.singleton_append, List.mem_cons, exists_eq_or_imp]
    rw [hquery, h'.exists_iff hall.2]
  length_eq hall := by
    rw [List.mem_cons, not_or] at hall
    rw [List.length_append, h.length_eq (Ne.symm hall.1), h'.length_eq hall.2, List.length_cons,
      Nat.add_comm]

/-- An operator over them. -/
theorem AgreesEach.operator {holds : Filter → Prop} {operator : Jmap.Operator}
    (h : AgreesEach holds email filters queries) (hall : operator ≠ .and → .all ∉ filters) :
    (Jmap.Query.operator operator queries).Matches email ↔
      (Filter.operator operator filters).Matches holds := by
  cases operator with
  | and => rw [Jmap.Query.matches_and, Filter.matches_and, h.forall_iff]
  | or => rw [Jmap.Query.matches_or, Filter.matches_or, h.exists_iff (hall (by decide))]
  | not => rw [Jmap.Query.matches_not, Filter.matches_not, h.exists_iff (hall (by decide))]

theorem readsAll_operator {operator : Jmap.Operator} :
    c.ReadsAll (.operator operator filters) ↔
      c.ReadsEach filters ∧ (operator ≠ .and → .all ∉ filters) := by
  cases operator with
  | and => simp [ReadsAll]
  | or => simp [ReadsAll]
  | not => simp [ReadsAll]

theorem readsAll_of_isKey (hkey : key.IsKey) : c.ReadsAll key ↔ c.Reads key := by
  cases key
  case operator operator filters => exact absurd rfl (hkey operator filters)
  all_goals simp [ReadsAll]

theorem agrees_key (hview : c.mailbox.Invariant) (horder : ∀ ids, (c.order ids).Perm ids)
    (hkey : key.IsKey) (hreads : c.ReadsAll key)
    (hok : c.translate changesEmail s key = .ok (queries, s')) :
    Agrees (key.Matches (c.Means changesEmail email)) email (key = .all) queries := by
  rw [translate_of_isKey hkey] at hok
  rw [hkey.matches_iff]
  exact agrees_translateKey hview horder hkey ((readsAll_of_isKey hkey).mp hreads) hok

mutual

/-- The query of a filter. -/
theorem agrees_translate (hview : c.mailbox.Invariant) (horder : ∀ ids, (c.order ids).Perm ids)
    (filter : Filter) {s s' : SeenModseq} {queries : List Jmap.Query}
    (hreads : c.ReadsAll filter)
    (hok : c.translate changesEmail s filter = .ok (queries, s')) :
    Agrees (filter.Matches (c.Means changesEmail email)) email (filter = .all) queries := by
  cases filter
  case operator operator filters =>
    rw [translate] at hok
    cases hall : c.translateAll changesEmail s filters with
    | error e =>
        rw [hall] at hok
        cases hok
    | ok found =>
        rw [hall] at hok
        cases hok
        obtain ⟨heach, hnot⟩ := readsAll_operator.mp hreads
        exact agrees_singleton ((agrees_translateAll hview horder filters heach hall).operator hnot)
  all_goals
    refine agrees_key hview horder (fun operator filters h ↦ ?_) hreads hok
    cases h

theorem agrees_translateAll (hview : c.mailbox.Invariant)
    (horder : ∀ ids, (c.order ids).Perm ids) (filters : List Filter) {s s' : SeenModseq}
    {queries : List Jmap.Query} (hreads : c.ReadsEach filters)
    (hok : c.translateAll changesEmail s filters = .ok (queries, s')) :
    AgreesEach (c.Means changesEmail email) email filters queries := by
  match filters with
  | [] =>
      rw [translateAll] at hok
      cases hok
      exact .nil
  | filter :: filters =>
      rw [ReadsEach] at hreads
      rw [translateAll] at hok
      cases hone : c.translate changesEmail s filter with
      | error e =>
          rw [hone] at hok
          cases hok
      | ok found =>
          rw [hone] at hok
          dsimp only at hok
          cases hrest : c.translateAll changesEmail found.2 filters with
          | error e =>
              rw [hrest] at hok
              cases hok
          | ok found' =>
              rw [hrest] at hok
              cases hok
              exact .cons (agrees_translate hview horder filter hreads.1 hone)
                (agrees_translateAll hview horder filters hreads.2 hrest)

end

/-! ## The search -/

/-- The query is confined to the mailbox; in All Mail a NOT must not be lost. -/
theorem matches_confine {operator : Jmap.Operator}
    (h : c.mailbox.id.mailboxId = none → operator = .not → queries.length ≠ 1) :
    (c.confine operator queries).Matches email ↔
      (∀ mailboxId ∈ c.mailbox.id.mailboxId, mailboxId ∈ email.mailboxIds) ∧
        (Jmap.Query.operator operator queries).Matches email := by
  rw [confine.eq_def]
  cases hid : c.mailbox.id.mailboxId with
  | none =>
      have hone : ∀ query, queries = [query] →
          (query.Matches email ↔ (Jmap.Query.operator operator queries).Matches email) := by
        rintro query rfl
        cases operator with
        | and => simp
        | or => simp
        | not => exact absurd rfl (h hid rfl)
      dsimp only
      split
      · next query => simpa using hone query rfl
      · simp
  | some mailboxId =>
      cases operator with
      | and =>
          dsimp only
          split
          · next hempty =>
              rw [List.isEmpty_iff] at hempty
              simp [hempty, Jmap.Condition.Holds]
          · rw [Jmap.Query.matches_and, List.forall_mem_append, List.forall_mem_singleton, and_comm]
            simp [Jmap.Condition.Holds]
      | or => simp [Jmap.Condition.Holds]
      | not => simp [Jmap.Condition.Holds]

/-- A search as an operator over its filters. -/
theorem matches_rootFilters {holds : Filter → Prop} :
    (Filter.operator (rootFilters filter).2 (rootFilters filter).1).Matches holds ↔
      filter.Matches holds := by
  cases filter
  case operator operator filters => rfl
  all_goals exact Filter.matches_and.trans List.forall_mem_singleton

theorem readsAll_rootFilters :
    c.ReadsAll (.operator (rootFilters filter).2 (rootFilters filter).1) ↔ c.ReadsAll filter := by
  cases filter
  case operator operator filters => rfl
  all_goals simp [rootFilters, readsAll_operator, ReadsEach]

/-- **What a search finds**: the query matches the emails of the mailbox that the keys hold of. -/
theorem query_iff (hview : c.mailbox.Invariant) (horder : ∀ ids, (c.order ids).Perm ids)
    (hexact : c.Exact filter) {query : Jmap.Query} {highest : Option ℕ}
    (hok : c.imapFilterToJmap filter changesEmail = .ok (query, highest))
    (email : Jmap.IndexedEmail) : query.Matches email ↔ c.Finds changesEmail filter email := by
  obtain ⟨hreads, hnot⟩ := hexact
  obtain ⟨heach, hall⟩ := readsAll_operator.mp (readsAll_rootFilters.mpr hreads)
  rw [imapFilterToJmap] at hok
  cases htranslate : c.translateAll changesEmail {} (rootFilters filter).1 with
  | error e =>
      rw [htranslate] at hok
      cases hok
  | ok found =>
      rw [htranslate] at hok
      cases hok
      have hagrees : AgreesEach (c.Means changesEmail email) email _ _ :=
        agrees_translateAll hview horder _ heach htranslate
      have hone : c.mailbox.id.mailboxId = none → (rootFilters filter).2 = .not →
          found.1.length ≠ 1 := by
        intro hid hoperator hlength
        rw [hagrees.length_eq (hall (by rw [hoperator]; decide))] at hlength
        obtain ⟨negated, hnegated⟩ := List.length_eq_one_iff.mp hlength
        cases filter
        case operator operator filters =>
          obtain rfl : operator = .not := hoperator
          obtain rfl : filters = [negated] := hnegated
          exact hnot hid negated rfl
        all_goals cases hoperator
      rw [matches_confine hone, hagrees.operator hall, matches_rootFilters, Finds]

/-! ## What is not read as it is meant -/

/-- A search for one key that asks nobody. -/
theorem query_key (hkey : key.IsKey) (hseq : ∀ sequence uid, key ≠ .sequence sequence uid)
    (hmod : key.modseq? = none) : c.imapFilterToJmap key changesEmail =
      .ok (c.confine .and (c.conditions key), none) := by
  cases key
  case operator operator filters => exact absurd rfl (hkey operator filters)
  case sequence sequence uidFilter => exact absurd rfl (hseq sequence uidFilter)
  case modSeq modseq entry => cases hmod
  all_goals simp [imapFilterToJmap, rootFilters, translateAll, translate, translateKey]

/-- An email of the mailbox. -/
def sample (c : SearchContext) (keywords : Finset String) (receivedAt : ℤ) (size : ℕ) :
    Jmap.IndexedEmail where
  mailboxIds := c.mailbox.id.mailboxId.toFinset
  keywords := keywords
  id := ""
  threadId := ""
  receivedAt := receivedAt
  sentAt := 0
  size := size
  contains _ _ := False

/-- **One key**: some email is found that should not be, or the other way round, if and only if the
key is one of those that are not read as they are meant. -/
theorem key_iff (hkey : key.IsKey) (hseq : ∀ sequence uid, key ≠ .sequence sequence uid)
    (hmod : key.modseq? = none) :
    (∀ query highest, c.imapFilterToJmap key changesEmail = .ok (query, highest) →
      ∀ email, query.Matches email ↔ c.Finds changesEmail key email) ↔ c.Reads key := by
  have hconfine (email : Jmap.IndexedEmail) :
      (c.confine .and (c.conditions key)).Matches email ↔ _ ∧ _ :=
    matches_confine fun _ h ↦ by cases h
  constructor
  · intro h
    have hsample (keywords : Finset String) (receivedAt : ℤ) (size : ℕ) :
        (∀ query ∈ c.conditions key, query.Matches (c.sample keywords receivedAt size)) ↔
          c.Means changesEmail (c.sample keywords receivedAt size) key := by
      have hfinds := h _ _ (query_key hkey hseq hmod) (c.sample keywords receivedAt size)
      have hmailbox : ∀ mailboxId ∈ c.mailbox.id.mailboxId,
          mailboxId ∈ (c.sample keywords receivedAt size).mailboxIds := by
        simp [sample]
      rw [hconfine, Finds, hkey.matches_iff, and_iff_right hmailbox, and_iff_right hmailbox,
        Jmap.Query.matches_and] at hfinds
      exact hfinds
    cases key
    case old =>
      have hold := hsample ∅ 0 0
      simp [conditions, Means, Jmap.Condition.Holds, Jmap.IndexedEmail.Has, sample] at hold
    case older seconds =>
      have hnow := hsample ∅ c.now 0
      simp [conditions, Means, Jmap.Condition.Holds, ago, sample] at hnow
      omega
    case younger seconds =>
      by_contra hlt
      rw [Reads] at hlt
      have hbefore := hsample ∅ (-1) 0
      simp [conditions, Means, Jmap.Condition.Holds, ago, sample] at hbefore
      omega
    case larger size =>
      by_contra hle
      rw [Reads] at hle
      have hsize := hsample ∅ 0 ((size + 1) % 2 ^ 32)
      simp only [conditions, List.forall_mem_singleton, Jmap.Query.matches_condition,
        Jmap.Condition.Holds, Means, sample, le_refl, true_iff] at hsize
      omega
    case sequence sequence uidFilter => exact absurd rfl (hseq sequence uidFilter)
    case modSeq modseq entry => cases hmod
    all_goals exact trivial
  · intro hreads query highest hok email
    rw [query_key hkey hseq hmod] at hok
    cases hok
    rw [hconfine, Finds, hkey.matches_iff, Jmap.Query.matches_and,
      (agrees_conditions hkey hseq hmod hreads).forall_iff]

/-- In All Mail, NOT of a filter finds what the filter is about. -/
theorem negated_allMail (hview : c.mailbox.Invariant) (horder : ∀ ids, (c.order ids).Perm ids)
    (hid : c.mailbox.id.mailboxId = none) (hreads : c.ReadsAll filter) (hall : filter ≠ .all)
    {query : Jmap.Query} {highest : Option ℕ}
    (hok : c.imapFilterToJmap (.operator .not [filter]) changesEmail = .ok (query, highest))
    (email : Jmap.IndexedEmail) :
    query.Matches email ↔ ¬c.Finds changesEmail (.operator .not [filter]) email := by
  rw [imapFilterToJmap] at hok
  cases htranslate : c.translateAll changesEmail {} [filter] with
  | error e =>
      rw [rootFilters, htranslate] at hok
      cases hok
  | ok found =>
      rw [rootFilters, htranslate] at hok
      cases hok
      have hagrees : AgreesEach (c.Means changesEmail email) email [filter] _ :=
        agrees_translateAll hview horder [filter] (by simp [ReadsEach, hreads]) htranslate
      have hmem : Filter.all ∉ [filter] := by simpa using Ne.symm hall
      obtain ⟨query, hquery⟩ := List.length_eq_one_iff.mp (hagrees.length_eq hmem)
      have hforall := hagrees.forall_iff
      rw [hquery, List.forall_mem_singleton, List.forall_mem_singleton] at hforall
      rw [hquery, Finds, hid, confine.eq_def, hid]
      simpa using hforall

end

/-- A search in a mailbox, with two messages in the view, or in All Mail. -/
def inMailbox (mailboxId : Option String) : SearchContext where
  db := ⟨fun _ ↦ none, fun _ ↦ none, fun _ ↦ none⟩
  mailbox := SelectedMailbox.selected ⟨"u", mailboxId⟩ ⟨3, 1, ["M1", "M2"], [1, 2], 2, ""⟩ true
  order ids := ids
  now := 0
  prevSavedSearch := none
  isUid := false

/-- `2 NOT (SEEN FLAGGED)` in a mailbox. -/
theorem query_iff_unseen : ∃ query highest,
    (inMailbox (some "A")).imapFilterToJmap
      (.operator .and [.sequence (.number 2) false, .operator .not [.seen, .flagged]])
      (fun _ ↦ none) = .ok (query, highest) ∧
    (query.Matches ((inMailbox (some "A")).sample {"$answered"} 0 0) ↔
      (inMailbox (some "A")).Finds (fun _ ↦ none)
        (.operator .and [.sequence (.number 2) false, .operator .not [.seen, .flagged]])
        ((inMailbox (some "A")).sample {"$answered"} 0 0)) := by
  have hview : (inMailbox (some "A")).mailbox.Invariant :=
    ⟨⟨rfl, by decide⟩, fun items h ↦ by cases h⟩
  have hexact : (inMailbox (some "A")).Exact
      (.operator .and [.sequence (.number 2) false, .operator .not [.seen, .flagged]]) := by
    refine ⟨?_, fun h ↦ by cases h⟩
    simp [ReadsAll, ReadsEach, Reads, ReadsSequence, Sequence.isSavedSearch, inMailbox]
  have hids : (inMailbox (some "A")).sequenceIds (.number 2) false = .ok ["M2"] := rfl
  have hok : (inMailbox (some "A")).imapFilterToJmap
      (.operator .and [.sequence (.number 2) false, .operator .not [.seen, .flagged]])
      (fun _ ↦ none) = .ok (.operator .and [.condition (.id ["M2"]),
        .operator .not [.condition (.hasKeyword "$seen"), .condition (.hasKeyword "$flagged")],
        .condition (.inMailbox "A")], none) := by
    simp only [imapFilterToJmap, rootFilters, translateAll, translate, translateKey, hids,
      conditions]
    rfl
  exact ⟨_, _, hok, query_iff hview (fun ids ↦ .refl ids) hexact hok _⟩

/-- `NOT SEEN` in All Mail finds what has been seen. -/
theorem query_differs :
    (inMailbox none).imapFilterToJmap (.operator .not [.seen]) (fun _ ↦ none) =
        .ok (.condition (.hasKeyword "$seen"), none) ∧
      (Jmap.Query.condition (.hasKeyword "$seen")).Matches
        ((inMailbox none).sample {"$seen"} 0 0) ∧
      ¬(inMailbox none).Finds (fun _ ↦ none) (.operator .not [.seen])
        ((inMailbox none).sample {"$seen"} 0 0) := by
  have hkey : Filter.seen.IsKey := fun operator filters h ↦ by cases h
  refine ⟨?_, ?_, ?_⟩
  · simp only [imapFilterToJmap, rootFilters, translateAll, translate, translateKey, conditions]
    rfl
  · simp [Jmap.Condition.Holds, sample]
  · rw [Finds, Filter.matches_not]
    simp [hkey.matches_iff, Means, Jmap.IndexedEmail.Has, Flag.toJmap, sample]

end SearchContext

end ImapToJmap
