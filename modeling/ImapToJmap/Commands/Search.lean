import ImapToJmap.Commands.Fetch
import ImapToJmap.Protocol.Search

/-!
# SEARCH

`imap_filter_to_jmap`, the translation of search keys to a query.  The source goes over the tree of
filters with a stack of its own, here it is a recursion; what it keeps from key to key is whether a
MODSEQ has been seen, and the highest modseq.

A MODSEQ is resolved where it stands.  Whether a search gets that far is a matter of the keys before
it (`scan`, the translation without its queries, goes over the keys as a list), and what comes of it
then depends on the changes since the state of the first MODSEQ only (`translateAll_congr`).
-/

namespace ImapToJmap

open Search

/-- The errors of `imap_filter_to_jmap`. -/
inductive SearchError where
  | sequence (error : SequenceError)
  | /-- `Only one MODSEQ parameter per query is allowed.` -/
    secondModseq
  | /-- `MODSEQ '{}' does not exist.` -/
    unknownModseq (modseq : ℕ)
  | databaseFailure
  | /-- The request for the changes has failed. -/
    server
deriving DecidableEq

/-- What `imap_filter_to_jmap` works with.  `order` is the order in which the keys of a map are gone
over, `now` the clock. -/
structure SearchContext where
  db : AccountDb
  mailbox : SelectedMailbox
  order : IdMap → IdMap
  now : ℕ
  /-- The saved search from before the command, if the command saves its results. -/
  prevSavedSearch : Option (Option (List ImapId))
  isUid : Bool

/-- What is kept from key to key. -/
structure SeenModseq where
  seen : Bool := false
  highest : Option ℕ := none

namespace SearchContext

/-- The email ids of a key that is a sequence set. -/
def sequenceIds (c : SearchContext) (sequence : Sequence) (uidFilter : Bool) :
    Except SearchError (List String) :=
  match sequence, c.prevSavedSearch with
  | .savedSearch, some (some items) => .ok (SelectedMailbox.imapToJmap c.mailbox.state items)
  | .savedSearch, some none => .error (.sequence .noSavedSearch)
  | _, _ =>
      match c.mailbox.sequenceToJmap sequence (c.isUid || uidFilter) with
      | .error e => .error (.sequence e)
      | .ok ids => .ok (c.order ids).keys

/-- The clock less a number of seconds, not below zero. -/
def ago (c : SearchContext) (seconds : ℕ) : ℤ := ((c.now - seconds : ℕ) : ℤ)

/-- The conditions of a key that asks nobody. -/
def conditions (c : SearchContext) : Filter → List Jmap.Query
  | .from text => [.condition (.from text)]
  | .to text => [.condition (.to text)]
  | .cc text => [.condition (.cc text)]
  | .bcc text => [.condition (.bcc text)]
  | .body text => [.condition (.body text)]
  | .subject text => [.condition (.subject text)]
  | .text text => [.condition (.text text)]
  | .header header value =>
      [.condition (.header header (if value = "" then none else some value))]
  | .on date =>
      [.operator .and [.condition (.after date), .condition (.before (date + 86400))]]
  | .since date => [.condition (.after date)]
  | .before date => [.condition (.before date)]
  | .sentOn date =>
      [.operator .and [.condition (.sentAfter date), .condition (.sentBefore (date + 86400))]]
  | .sentSince date => [.condition (.sentAfter date)]
  | .sentBefore date => [.condition (.sentBefore date)]
  | .older seconds => [.condition (.after (c.ago seconds))]
  | .younger seconds => [.condition (.after (c.ago seconds))]
  | .larger size => [.condition (.minSize ((size + 1) % 2 ^ 32))]
  | .smaller size => [.condition (.maxSize size)]
  | .answered => [.condition (.hasKeyword Flag.answered.toJmap)]
  | .deleted => [.condition (.hasKeyword Flag.deleted.toJmap)]
  | .draft => [.condition (.hasKeyword Flag.draft.toJmap)]
  | .flagged => [.condition (.hasKeyword Flag.flagged.toJmap)]
  | .keyword keyword => [.condition (.hasKeyword keyword.toJmap)]
  | .seen => [.condition (.hasKeyword Flag.seen.toJmap)]
  | .unanswered => [.condition (.notKeyword Flag.answered.toJmap)]
  | .undeleted => [.condition (.notKeyword Flag.deleted.toJmap)]
  | .undraft => [.condition (.notKeyword Flag.draft.toJmap)]
  | .unflagged => [.condition (.notKeyword Flag.flagged.toJmap)]
  | .unkeyword keyword => [.condition (.notKeyword keyword.toJmap)]
  | .unseen => [.condition (.notKeyword Flag.seen.toJmap)]
  | .recent => [.condition (.hasKeyword Flag.recent.toJmap)]
  | .new =>
      [.operator .and [.condition (.hasKeyword Flag.recent.toJmap),
        .condition (.notKeyword Flag.seen.toJmap)]]
  | .old => [.condition (.hasKeyword Flag.recent.toJmap)]
  | .emailId id => [.condition (.id [id])]
  | .threadId id => [.condition (.inThread id)]
  -- ALL adds no condition; sequence sets, MODSEQ and operators are not for this function
  | .all | .sequence .. | .modSeq .. | .operator .. => []

/-- MODSEQ. -/
def translateModseq (c : SearchContext) (changesEmail : String → Option Jmap.Changes) (modseq : ℕ)
    (s : SeenModseq) : Except SearchError (List Jmap.Query × SeenModseq) :=
  if s.seen then .error .secondModseq
  else
    match c.db.modseqToState (modseq % 2 ^ 32) with
    | none => .error .databaseFailure
    | some none => .error (.unknownModseq modseq)
    | some (some state) =>
        match changesEmail state with
        | none => .error .server
        | some changes =>
            match c.db.stateToModseq changes.newState with
            | none => .error .databaseFailure
            | some highest =>
                .ok ([.condition (.id (changes.updated ++ changes.created))], ⟨true, some highest⟩)

/-- One key. -/
def translateKey (c : SearchContext) (changesEmail : String → Option Jmap.Changes)
    (s : SeenModseq) :
    Filter → Except SearchError (List Jmap.Query × SeenModseq)
  | .sequence sequence uidFilter =>
      match c.sequenceIds sequence uidFilter with
      | .error e => .error e
      | .ok ids => .ok ([.condition (.id ids)], s)
  | .modSeq modseq _ => c.translateModseq changesEmail modseq s
  | key => .ok (c.conditions key, s)

mutual

/-- The loop of `imap_filter_to_jmap`, on one filter. -/
def translate (c : SearchContext) (changesEmail : String → Option Jmap.Changes) (s : SeenModseq) :
    Filter → Except SearchError (List Jmap.Query × SeenModseq)
  | .operator operator filters =>
      match c.translateAll changesEmail s filters with
      | .error e => .error e
      | .ok (queries, s) => .ok ([.operator operator queries], s)
  | key => c.translateKey changesEmail s key

def translateAll (c : SearchContext) (changesEmail : String → Option Jmap.Changes)
    (s : SeenModseq) :
    List Filter → Except SearchError (List Jmap.Query × SeenModseq)
  | [] => .ok ([], s)
  | filter :: filters =>
      match c.translate changesEmail s filter with
      | .error e => .error e
      | .ok (queries, s) =>
          match c.translateAll changesEmail s filters with
          | .error e => .error e
          | .ok (queries', s) => .ok (queries ++ queries', s)

end

/-- The query is confined to the mailbox, All Mail apart. -/
def confine (c : SearchContext) (operator : Jmap.Operator) (queries : List Jmap.Query) :
    Jmap.Query :=
  match c.mailbox.id.mailboxId, operator with
  | some mailboxId, .and =>
      if queries.isEmpty then .condition (.inMailbox mailboxId)
      else .operator .and (queries ++ [.condition (.inMailbox mailboxId)])
  | some mailboxId, operator =>
      .operator .and [.condition (.inMailbox mailboxId), .operator operator queries]
  | none, operator =>
      match queries with
      | [query] => query
      | queries => .operator operator queries

/-- The filters of the search and the operator that joins them. -/
def rootFilters : Filter → List Filter × Jmap.Operator
  | .operator operator filters => (filters, operator)
  | filter => ([filter], .and)

/-- `SessionData::imap_filter_to_jmap`; `changesEmail` asks the server for the changes since a
state. -/
def imapFilterToJmap (c : SearchContext) (filter : Filter)
    (changesEmail : String → Option Jmap.Changes) : Except SearchError (Jmap.Query × Option ℕ) :=
  match c.translateAll changesEmail {} (rootFilters filter).1 with
  | .error e => .error e
  | .ok (queries, s) => .ok (c.confine (rootFilters filter).2 queries, s.highest)

/-! ## The keys as a list -/

section Scan

variable {c : SearchContext} {changesEmail changesEmail' : String → Option Jmap.Changes}
variable {s : SeenModseq}

/-- The translation of a key, without its queries. -/
def scanKey (c : SearchContext) (changesEmail : String → Option Jmap.Changes) (s : SeenModseq)
    (key : Filter) : Except SearchError SeenModseq :=
  (c.translateKey changesEmail s key).map Prod.snd

/-- The translation of a list of keys, without its queries. -/
def scan (c : SearchContext) (changesEmail : String → Option Jmap.Changes) (s : SeenModseq)
    (keys : List Filter) : Except SearchError SeenModseq :=
  keys.foldlM (c.scanKey changesEmail) s

theorem scan_append (s : SeenModseq) (keys keys' : List Filter) :
    c.scan changesEmail s (keys ++ keys') =
      c.scan changesEmail s keys >>= fun s ↦ c.scan changesEmail s keys' := List.foldlM_append ..

theorem translate_of_isKey {filter : Filter} (h : filter.IsKey) :
    c.translate changesEmail s filter = c.translateKey changesEmail s filter := by
  cases filter
  case operator o filters => exact absurd rfl (h o filters)
  all_goals rw [translate]; simp

theorem translate_scan_of_isKey {filter : Filter} (h : filter.IsKey) :
    (c.translate changesEmail s filter).map Prod.snd = c.scan changesEmail s filter.leaves := by
  rw [translate_of_isKey h, h.leaves, scan, List.foldlM_cons]
  exact (bind_pure (c.scanKey changesEmail s filter)).symm

mutual

theorem translate_scan (filter : Filter) (s : SeenModseq) :
    (c.translate changesEmail s filter).map Prod.snd = c.scan changesEmail s filter.leaves := by
  cases filter
  case operator o filters =>
    rw [translate, Filter.leaves_operator, ← translateAll_scan filters s]
    cases c.translateAll changesEmail s filters <;> rfl
  all_goals
    refine translate_scan_of_isKey fun o filters h ↦ ?_
    cases h

theorem translateAll_scan (filters : List Filter) (s : SeenModseq) :
    (c.translateAll changesEmail s filters).map Prod.snd =
      c.scan changesEmail s (Filter.leavesOf filters) := by
  match filters with
  | [] =>
      rw [translateAll, Filter.leavesOf_nil]
      rfl
  | filter :: filters =>
      rw [translateAll, Filter.leavesOf_cons, scan_append, ← translate_scan filter s]
      cases c.translate changesEmail s filter with
      | error e => rfl
      | ok r =>
          have hrest := translateAll_scan filters r.2
          dsimp only [Except.map]
          show _ = c.scan changesEmail r.2 (Filter.leavesOf filters)
          rw [← hrest]
          cases c.translateAll changesEmail r.2 filters <;> rfl

end

/-! ## The first MODSEQ -/

/-- A key that is a sequence set names messages of the view, or of the saved search. -/
def Names (c : SearchContext) (key : Filter) : Prop :=
  ∀ sequence uidFilter, key = .sequence sequence uidFilter →
    ∃ ids, c.sequenceIds sequence uidFilter = .ok ids

theorem sequenceIds_error {sequence : Sequence} {uidFilter : Bool} {error : SearchError}
    (h : c.sequenceIds sequence uidFilter = .error error) : ∃ e, error = .sequence e := by
  rw [sequenceIds.eq_def] at h
  split at h
  · cases h
  · exact ⟨_, (Except.error.inj h).symm⟩
  · split at h
    · exact ⟨_, (Except.error.inj h).symm⟩
    · cases h

/-- A key other than MODSEQ changes nothing that is kept. -/
theorem scanKey_of_names {key : Filter} (hkey : key.modseq? = none) (h : c.Names key)
    (s : SeenModseq) : c.scanKey changesEmail s key = .ok s := by
  cases key
  case sequence sequence uidFilter =>
    obtain ⟨ids, hids⟩ := h _ _ rfl
    rw [scanKey, translateKey, hids]
    rfl
  case modSeq modseq entry => cases hkey
  all_goals rfl

theorem scanKey_of_not_names {key : Filter} (h : ¬ c.Names key) :
    ∃ e, ∀ changesEmail s, c.scanKey changesEmail s key = .error (.sequence e) := by
  rw [Names] at h
  push Not at h
  obtain ⟨sequence, uidFilter, rfl, hno⟩ := h
  cases hids : c.sequenceIds sequence uidFilter with
  | ok ids => exact absurd hids (hno ids)
  | error error =>
      obtain ⟨e, rfl⟩ := sequenceIds_error hids
      refine ⟨e, fun changesEmail s ↦ ?_⟩
      rw [scanKey, translateKey, hids]
      rfl

theorem scan_of_names {keys : List Filter} (hkeys : ∀ key ∈ keys, key.modseq? = none)
    (h : ∀ key ∈ keys, c.Names key) (s : SeenModseq) : c.scan changesEmail s keys = .ok s := by
  induction keys with
  | nil => rfl
  | cons key keys ih =>
      obtain ⟨hkey, hkeys'⟩ := List.forall_mem_cons.mp hkeys
      obtain ⟨hname, h'⟩ := List.forall_mem_cons.mp h
      rw [scan, List.foldlM_cons, scanKey_of_names hkey hname]
      exact ih hkeys' h'

theorem scan_of_not_names {keys : List Filter} (hkeys : ∀ key ∈ keys, key.modseq? = none)
    (h : ¬ ∀ key ∈ keys, c.Names key) :
    ∃ e, ∀ changesEmail s, c.scan changesEmail s keys = .error (.sequence e) := by
  induction keys with
  | nil => exact absurd (by simp) h
  | cons key keys ih =>
      obtain ⟨hkey, hkeys'⟩ := List.forall_mem_cons.mp hkeys
      by_cases hname : c.Names key
      · have h' : ¬ ∀ key ∈ keys, c.Names key := fun h' ↦ h (List.forall_mem_cons.mpr ⟨hname, h'⟩)
        obtain ⟨e, he⟩ := ih hkeys' h'
        refine ⟨e, fun changesEmail s ↦ ?_⟩
        rw [scan, List.foldlM_cons, scanKey_of_names hkey hname]
        exact he changesEmail s
      · obtain ⟨e, he⟩ := scanKey_of_not_names hname
        refine ⟨e, fun changesEmail s ↦ ?_⟩
        rw [scan, List.foldlM_cons, he]
        rfl

/-- After the first MODSEQ only a second one or a sequence set can fail. -/
theorem scan_seen {keys : List Filter} {s : SeenModseq} (hs : s.seen = true) {error : SearchError}
    (h : c.scan changesEmail s keys = .error error) :
    error = .secondModseq ∨ ∃ e, error = .sequence e := by
  induction keys with
  | nil => cases h
  | cons key keys ih =>
      rw [scan, List.foldlM_cons] at h
      cases hkey : key.modseq? with
      | none =>
          by_cases hname : c.Names key
          · rw [scanKey_of_names hkey hname] at h
            exact ih h
          · obtain ⟨e, he⟩ := scanKey_of_not_names hname
            rw [he] at h
            exact .inr ⟨e, (Except.error.inj h).symm⟩
      | some modseq =>
          cases key
          case modSeq modseq entry =>
            have hsecond : c.scanKey changesEmail s (.modSeq modseq entry) =
                .error .secondModseq := by
              rw [scanKey, translateKey, translateModseq, if_pos hs]
              rfl
            rw [hsecond] at h
            exact .inl (Except.error.inj h).symm
          all_goals cases hkey

/-- What has been seen in the end. -/
theorem seen_of_scan {keys : List Filter} {s s' : SeenModseq}
    (h : c.scan changesEmail s keys = .ok s') (hs' : s'.seen = false) :
    s.seen = false ∧ ∀ key ∈ keys, key.modseq? = none := by
  induction keys generalizing s with
  | nil =>
      obtain rfl := Except.ok.inj h
      exact ⟨hs', by simp⟩
  | cons key keys ih =>
      rw [scan, List.foldlM_cons] at h
      cases hone : c.scanKey changesEmail s key with
      | error e =>
          rw [hone] at h
          cases h
      | ok s₁ =>
          rw [hone] at h
          obtain ⟨hs₁, hkeys⟩ := ih h
          cases hkey : key.modseq? with
          | none =>
              have hs : s₁ = s := by
                by_cases hname : c.Names key
                · rw [scanKey_of_names hkey hname] at hone
                  exact (Except.ok.inj hone).symm
                · obtain ⟨e, he⟩ := scanKey_of_not_names hname
                  rw [he] at hone
                  cases hone
              exact ⟨hs ▸ hs₁, List.forall_mem_cons.mpr ⟨hkey, hkeys⟩⟩
          | some modseq =>
              exfalso
              cases key
              case modSeq modseq entry =>
                rw [scanKey, translateKey, translateModseq] at hone
                split at hone
                · cases hone
                · split at hone
                  · cases hone
                  · cases hone
                  · split at hone
                    · cases hone
                    · split at hone
                      · cases hone
                      · obtain rfl := Except.ok.inj hone
                        cases hs₁
              all_goals cases hkey

/-! ## One state -/

/-- The server is asked for no changes but those since the state of the first MODSEQ. -/
def AsksOnly (c : SearchContext) (s : SeenModseq) (keys : List Filter) (state : String) : Prop :=
  s.seen = false → ∀ modseq ∈ keys.findSome? Filter.modseq?, ∀ state',
    c.db.modseqToState (modseq % 2 ^ 32) = some (some state') → state' = state

theorem translateKey_congr {key : Filter} {state : String} (hasks : c.AsksOnly s [key] state)
    (h : changesEmail state = changesEmail' state) :
    c.translateKey changesEmail s key = c.translateKey changesEmail' s key := by
  cases key
  case modSeq modseq entry =>
    rw [translateKey, translateKey, translateModseq, translateModseq]
    cases hs : s.seen with
    | true => rfl
    | false =>
        cases hstate : c.db.modseqToState (modseq % 2 ^ 32) with
        | none => rfl
        | some found =>
            cases found with
            | none => rfl
            | some state' =>
                obtain rfl := hasks hs modseq rfl state' hstate
                dsimp only
                rw [h]
  all_goals rfl

theorem AsksOnly.head {filter : Filter} {filters : List Filter} {state : String}
    (h : c.AsksOnly s (Filter.leavesOf (filter :: filters)) state) :
    c.AsksOnly s filter.leaves state := by
  intro hs modseq hmodseq state' hstate'
  refine h hs modseq ?_ state' hstate'
  rw [Filter.leavesOf_cons, List.findSome?_append, hmodseq]
  rfl

theorem AsksOnly.tail {filter : Filter} {filters : List Filter} {state : String}
    (h : c.AsksOnly s (Filter.leavesOf (filter :: filters)) state) {queries : List Jmap.Query}
    {s' : SeenModseq} (hfilter : c.translate changesEmail s filter = .ok (queries, s')) :
    c.AsksOnly s' (Filter.leavesOf filters) state := by
  intro hs' modseq hmodseq state' hstate'
  have hscan : (c.translate changesEmail s filter).map Prod.snd =
      c.scan changesEmail s filter.leaves := translate_scan filter s
  rw [hfilter] at hscan
  obtain ⟨hs, hno⟩ := seen_of_scan hscan.symm hs'
  refine h hs modseq ?_ state' hstate'
  rw [Filter.leavesOf_cons, List.findSome?_append, List.findSome?_eq_none_iff.mpr hno]
  exact hmodseq

mutual

theorem translate_congr (filter : Filter) (s : SeenModseq) {state : String}
    (hasks : c.AsksOnly s filter.leaves state) (h : changesEmail state = changesEmail' state) :
    c.translate changesEmail s filter = c.translate changesEmail' s filter := by
  cases filter
  case operator o filters =>
    rw [Filter.leaves_operator] at hasks
    rw [translate, translate, translateAll_congr filters s hasks h]
  all_goals
    rw [translate_of_isKey (by intro o filters hc; cases hc),
      translate_of_isKey (by intro o filters hc; cases hc)]
    exact translateKey_congr hasks h

theorem translateAll_congr (filters : List Filter) (s : SeenModseq) {state : String}
    (hasks : c.AsksOnly s (Filter.leavesOf filters) state)
    (h : changesEmail state = changesEmail' state) :
    c.translateAll changesEmail s filters = c.translateAll changesEmail' s filters := by
  match filters with
  | [] => rw [translateAll, translateAll]
  | filter :: filters =>
      rw [translateAll, translateAll, translate_congr filter s hasks.head h]
      cases hfilter : c.translate changesEmail' s filter with
      | error e => rfl
      | ok r =>
          dsimp only
          rw [translateAll_congr filters r.2 (hasks.tail hfilter) h]

end

/-! ## How far a search gets -/

theorem leavesOf_rootFilters (filter : Filter) :
    Filter.leavesOf (rootFilters filter).1 = filter.leaves := by
  cases filter
  case operator o filters => exact (Filter.leaves_operator o filters).symm
  all_goals rfl

/-- An error of the translation is one of its keys. -/
theorem imapFilterToJmap_error {filter : Filter} {error : SearchError} :
    c.imapFilterToJmap filter changesEmail = .error error ↔
      c.scan changesEmail {} filter.leaves = .error error := by
  have hscan : (c.translateAll changesEmail {} (rootFilters filter).1).map Prod.snd =
      c.scan changesEmail {} (Filter.leavesOf (rootFilters filter).1) := translateAll_scan _ {}
  rw [leavesOf_rootFilters] at hscan
  rw [← hscan, imapFilterToJmap]
  cases c.translateAll changesEmail {} (rootFilters filter).1 with
  | error e => simp [Except.map]
  | ok r => simp [Except.map]

/-- The search gets as far as its first MODSEQ. -/
def Reaches (c : SearchContext) (filter : Filter) : Prop :=
  ∀ key ∈ filter.leaves.takeWhile (·.modseq? = none), c.Names key

variable {filter : Filter} {modseq : ℕ}

/-- The keys up to the first MODSEQ. -/
theorem exists_leaves (h : filter.leaves.findSome? Filter.modseq? = some modseq) :
    ∃ pre entry post, filter.leaves = pre ++ .modSeq modseq entry :: post ∧
      filter.leaves.takeWhile (·.modseq? = none) = pre ∧ ∀ key ∈ pre, key.modseq? = none := by
  obtain ⟨pre, key, post, heq, hkey, hpre⟩ := List.findSome?_eq_some_iff.mp h
  have hmod : ∃ entry, key = .modSeq modseq entry := by
    cases key
    case modSeq modseq' entry =>
      obtain rfl := Option.some.inj hkey
      exact ⟨entry, rfl⟩
    all_goals cases hkey
  obtain ⟨entry, rfl⟩ := hmod
  refine ⟨pre, entry, post, heq, ?_, hpre⟩
  rw [heq, List.takeWhile_append_of_pos (by simpa using hpre), List.takeWhile_cons]
  simp [Filter.modseq?]

/-- **Before the first MODSEQ a search fails on a sequence set**, whatever the server says. -/
theorem search_of_not_reaches (hfirst : filter.leaves.findSome? Filter.modseq? = some modseq)
    (h : ¬ c.Reaches filter) :
    ∃ e, ∀ changesEmail, c.imapFilterToJmap filter changesEmail = .error (.sequence e) := by
  obtain ⟨pre, entry, post, heq, htake, hpre⟩ := exists_leaves hfirst
  rw [Reaches, htake] at h
  obtain ⟨e, he⟩ := scan_of_not_names hpre h
  refine ⟨e, fun changesEmail ↦ imapFilterToJmap_error.mpr ?_⟩
  rw [heq, scan_append, he]
  rfl

/-- **There it fails on a modseq that is unknown.** -/
theorem search_of_unknown (hfirst : filter.leaves.findSome? Filter.modseq? = some modseq)
    (h : c.Reaches filter) (hunknown : c.db.modseqToState (modseq % 2 ^ 32) = some none)
    (changesEmail : String → Option Jmap.Changes) :
    c.imapFilterToJmap filter changesEmail = .error (.unknownModseq modseq) := by
  obtain ⟨pre, entry, post, heq, htake, hpre⟩ := exists_leaves hfirst
  rw [Reaches, htake] at h
  refine imapFilterToJmap_error.mpr ?_
  rw [heq, scan_append, scan_of_names hpre h]
  show c.scan changesEmail {} (.modSeq modseq entry :: post) = _
  rw [scan, List.foldlM_cons, scanKey, translateKey, translateModseq, if_neg (by simp), hunknown]
  rfl

/-- **Else it goes by the changes since the state of the modseq.** -/
theorem search_of_known (hfirst : filter.leaves.findSome? Filter.modseq? = some modseq)
    (h : c.Reaches filter) {state : String}
    (hstate : c.db.modseqToState (modseq % 2 ^ 32) = some (some state)) :
    ∃ k : Option Jmap.Changes → Except SearchError (Jmap.Query × Option ℕ),
      (∀ changesEmail, c.imapFilterToJmap filter changesEmail = k (changesEmail state)) ∧
        k none = .error .server ∧ ∀ changes, k (some changes) ≠ .error .server := by
  obtain ⟨pre, entry, post, heq, htake, hpre⟩ := exists_leaves hfirst
  rw [Reaches, htake] at h
  have hscan : ∀ changesEmail, c.scan changesEmail {} filter.leaves =
      c.scanKey changesEmail {} (.modSeq modseq entry) >>= fun s ↦ c.scan changesEmail s post := by
    intro changesEmail
    rw [heq, scan_append, scan_of_names hpre h]
    rfl
  have hkey : ∀ changesEmail, c.scanKey changesEmail {} (.modSeq modseq entry) =
      match changesEmail state with
      | none => .error .server
      | some changes =>
          match c.db.stateToModseq changes.newState with
          | none => .error .databaseFailure
          | some highest => .ok ⟨true, some highest⟩ := by
    intro changesEmail
    rw [scanKey, translateKey, translateModseq, if_neg (by simp), hstate]
    dsimp only
    cases changesEmail state with
    | none => rfl
    | some changes =>
        dsimp only
        cases c.db.stateToModseq changes.newState <;> rfl
  refine ⟨fun r ↦ c.imapFilterToJmap filter fun _ ↦ r, fun changesEmail ↦ ?_, ?_, fun changes ↦ ?_⟩
  · have hasks : c.AsksOnly {} (Filter.leavesOf (rootFilters filter).1) state := by
      rw [leavesOf_rootFilters]
      intro _ modseq' hmodseq' state' hstate'
      rw [hfirst] at hmodseq'
      obtain rfl := Option.some.inj hmodseq'
      rw [hstate] at hstate'
      exact (Option.some.inj (Option.some.inj hstate')).symm
    have hcongr : c.translateAll changesEmail {} (rootFilters filter).1 =
        c.translateAll (fun _ ↦ changesEmail state) {} (rootFilters filter).1 :=
      translateAll_congr _ _ hasks rfl
    show c.imapFilterToJmap filter changesEmail = c.imapFilterToJmap filter fun _ ↦
      changesEmail state
    rw [imapFilterToJmap, imapFilterToJmap, hcongr]
  · refine imapFilterToJmap_error.mpr ?_
    rw [hscan, hkey]
    rfl
  · intro herror
    have herror' := imapFilterToJmap_error.mp herror
    rw [hscan, hkey] at herror'
    dsimp only at herror'
    cases hhighest : c.db.stateToModseq changes.newState with
    | none =>
        rw [hhighest] at herror'
        cases herror'
    | some highest =>
        rw [hhighest] at herror'
        have hpost : c.scan (fun _ ↦ some changes) ⟨true, some highest⟩ post = .error .server :=
          herror'
        obtain hc | ⟨e, hc⟩ := scan_seen rfl hpost
        · cases hc
        · cases hc

end Scan

end SearchContext

end ImapToJmap
