import ImapToJmap.Commands.Search
import ImapToJmap.Commands.Select
import ImapToJmap.Commands.Store
import ImapToJmap.Core.Modseq

/-!
# Modseqs from the client

Four commands take a modseq from the client: FETCH CHANGEDSINCE, STORE UNCHANGEDSINCE, SEARCH MODSEQ
and SELECT QRESYNC.  The client sends up to 64 bits, the database has 32, and the commands cut off
the rest; `Resolves` is that a command goes by the state the number was issued for, and refuses a
number that was not issued.  `resolves_iff` is when cutting off does no harm.

SELECT calls `fetch` and drops its status, so it refuses no number at all.
-/

namespace ImapToJmap

open Kv Roll Run

/-! ## What a command depends on -/

section Consults

variable {ρ ω : Type} {command : (String → Option ρ) → ω} {state state' : String}

/-- What comes of the command depends on the changes since this state, and on those since no
other. -/
def Consults (command : (String → Option ρ) → ω) (state : String) : Prop :=
  ∃ k : Option ρ → ω, (∀ changesEmail, command changesEmail = k (changesEmail state)) ∧
    ∃ r r', k r ≠ k r'

theorem Consults.unique (h : Consults command state) (h' : Consults command state') :
    state = state' := by
  obtain ⟨k, hk, r, r', hne⟩ := h
  obtain ⟨k', hk', -⟩ := h'
  by_contra hstates
  have hboth : ∀ x, k x = k' none := by
    intro x
    have hx := (hk (Function.update (fun _ ↦ none) state x)).symm.trans (hk' _)
    rwa [Function.update_self, Function.update_of_ne (Ne.symm hstates)] at hx
  exact hne ((hboth r).trans (hboth r').symm)

/-- What is made of the outcome, if nothing gets lost. -/
theorem Consults.map {ω' : Type} {g : ω → ω'} (hg : Function.Injective g)
    (h : Consults command state) :
    Consults (fun changesEmail ↦ g (command changesEmail)) state := by
  obtain ⟨k, hk, r, r', hne⟩ := h
  exact ⟨fun r ↦ g (k r), fun changesEmail ↦ congrArg g (hk changesEmail), r, r',
    fun hc ↦ hne (hg hc)⟩

/-- It is not the same whatever the server says. -/
theorem Consults.not_const (h : Consults command state) {w : ω} :
    ¬ ∀ changesEmail, command changesEmail = w := by
  obtain ⟨k, hk, r, r', hne⟩ := h
  intro hconst
  have hr := (hk fun _ ↦ r).symm.trans (hconst _)
  have hr' := (hk fun _ ↦ r').symm.trans (hconst _)
  exact hne (hr.trans hr'.symm)

end Consults

/-! ## Numbers that were issued -/

section Issued

variable {calls : List ModseqCall} {a state : String} {modseq : ℕ}

/-- The number was issued for a state of the account, in a run of the calls for modseqs. -/
def Issued (calls : List ModseqCall) (a : String) (modseq : ℕ) (state : String) : Prop :=
  (.stateToModseq a state, some (.modseq modseq)) ∈ answers ModseqCall.call ∅ calls

/-- The modseqs that the run leaves in the database, as the commands read them. -/
def Reads (db : AccountDb) (calls : List ModseqCall) (a : String) : Prop :=
  ∀ n, db.modseqToState n = ((Db.modseqToState a n).run (final ModseqCall.call ∅ calls)).1

/-- What the callers provide: account ids without a zero byte, 32-bit numbers, and no more states
than there are numbers. -/
structure Numberable (calls : List ModseqCall) : Prop where
  wellFormed : ∀ c ∈ calls, c.WellFormed
  few : ∀ a, (calls.filterMap (ModseqCall.stateOf a)).dedup.length < 2 ^ 32 - 1

theorem issued_iff (h : Numberable calls) :
    Issued calls a modseq state ↔ valueOf (rollsAfter calls a) modseq = some state := by
  rw [Issued, answers_run .empty h.wellFormed (length_rollsAfter_lt (List.Subset.refl calls) h.few)]
  constructor
  · intro hmem
    obtain ⟨hstate, hr⟩ := number_of_mem_answers hmem
    obtain rfl : modseq = number (rollsAfter calls a) state := by simpa using hr
    exact valueOf_number hstate
  · intro hvalue
    obtain ⟨hstate, rfl⟩ := number_of_valueOf (nodup_rollsAfter calls a) hvalue
    exact mem_answers_of_mem hstate

theorem Issued.lt (hcalls : Numberable calls) (h : Issued calls a modseq state) :
    modseq < 2 ^ 32 := by
  obtain ⟨hstate, rfl⟩ := number_of_valueOf (nodup_rollsAfter calls a) ((issued_iff hcalls).mp h)
  exact (number_le hstate).trans_lt (length_rollsAfter_lt (List.Subset.refl calls) hcalls.few a)

theorem Issued.modseq_unique (hcalls : Numberable calls) {modseq' : ℕ}
    (h : Issued calls a modseq state)
    (h' : Issued calls a modseq' state) : modseq = modseq' := by
  have hn := (number_of_valueOf (nodup_rollsAfter calls a) ((issued_iff hcalls).mp h)).2
  have hn' := (number_of_valueOf (nodup_rollsAfter calls a) ((issued_iff hcalls).mp h')).2
  exact hn.symm.trans hn'

theorem Reads.eq_valueOf {db : AccountDb} (h : Reads db calls a) (hcalls : Numberable calls)
    (ha : 0 ∉ asBytes a) {n : ℕ} (hn : n < 2 ^ 32) :
    db.modseqToState n = some (valueOf (rollsAfter calls a) n) := by
  have hnum := numbers_final .empty hcalls.wellFormed
    (length_rollsAfter_lt (List.Subset.refl calls) hcalls.few)
  rw [h, modseqToState_run hnum ha hn]

end Issued

/-! ## Going by a modseq -/

section Resolves

variable {ρ ω : Type} {command : (String → Option ρ) → ω} {refuses : ω → Prop}
variable {calls : List ModseqCall} {a : String} {modseq : ℕ}

/-- The command goes by the state the number was issued for, and refuses a number that was not. -/
structure Resolves (calls : List ModseqCall) (a : String) (modseq : ℕ)
    (command : (String → Option ρ) → ω) (refuses : ω → Prop) : Prop where
  issued : ∀ state, Issued calls a modseq state → Consults command state
  unissued : (∀ state, ¬ Issued calls a modseq state) → ∀ changesEmail,
    refuses (command changesEmail)

/-- The number is one the database can hold, or what is left of it was not issued either. -/
def Unmistakable (calls : List ModseqCall) (a : String) (modseq : ℕ) : Prop :=
  modseq < 2 ^ 32 ∨ ∀ state, ¬ Issued calls a (modseq % 2 ^ 32) state

/-- **A command that looks up what is left of a number.** -/
theorem resolves_iff (hcalls : Numberable calls)
    (hknown : ∀ state, Issued calls a (modseq % 2 ^ 32) state →
      Consults command state ∧ ∃ changesEmail, ¬ refuses (command changesEmail))
    (hunknown : (∀ state, ¬ Issued calls a (modseq % 2 ^ 32) state) →
      ∀ changesEmail, refuses (command changesEmail)) :
    Resolves calls a modseq command refuses ↔ Unmistakable calls a modseq := by
  constructor
  · intro h
    by_contra hno
    rw [Unmistakable] at hno
    push Not at hno
    obtain ⟨hle, state, hstate⟩ := hno
    obtain ⟨-, changesEmail, hrefuses⟩ := hknown state hstate
    refine hrefuses (h.unissued (fun state' hissued ↦ ?_) changesEmail)
    exact absurd (hissued.lt hcalls) (by omega)
  · rintro (hlt | hno)
    · have hmod : modseq % 2 ^ 32 = modseq := Nat.mod_eq_of_lt hlt
      rw [hmod] at hknown hunknown
      exact ⟨fun state hstate ↦ (hknown state hstate).1, hunknown⟩
    · refine ⟨fun state hstate ↦ ?_, fun _ ↦ hunknown hno⟩
      have hmod : modseq % 2 ^ 32 = modseq := Nat.mod_eq_of_lt (hstate.lt hcalls)
      rw [hmod] at hno
      exact absurd hstate (hno state)

/-- A command that does not get as far as the modseq. -/
theorem not_resolves_of_const {w : ω} (hconst : ∀ changesEmail, command changesEmail = w)
    (hrefuses : ¬ refuses w) : ¬ Resolves calls a modseq command refuses := by
  intro h
  by_cases hissued : ∃ state, Issued calls a modseq state
  · obtain ⟨state, hstate⟩ := hissued
    exact (h.issued state hstate).not_const hconst
  · have hno : ∀ state, ¬ Issued calls a modseq state := fun state hstate ↦ hissued ⟨state, hstate⟩
    have := h.unissued hno fun _ ↦ none
    rw [hconst] at this
    exact hrefuses this

end Resolves

/-! ## The commands -/

section Commands

variable {calls : List ModseqCall} {db : AccountDb} {m : SelectedMailbox} {modseq : ℕ}

theorem lookUp_issued {a : String} (hcalls : Numberable calls) (ha : 0 ∉ asBytes a)
    (hdb : Reads db calls a) {state : String} (h : Issued calls a (modseq % 2 ^ 32) state) :
    db.modseqToState (modseq % 2 ^ 32) = some (some state) := by
  rw [hdb.eq_valueOf hcalls ha (Nat.mod_lt _ (by decide)), (issued_iff hcalls).mp h]

theorem lookUp_unissued {a : String} (hcalls : Numberable calls) (ha : 0 ∉ asBytes a)
    (hdb : Reads db calls a) (h : ∀ state, ¬ Issued calls a (modseq % 2 ^ 32) state) :
    db.modseqToState (modseq % 2 ^ 32) = some none := by
  rw [hdb.eq_valueOf hcalls ha (Nat.mod_lt _ (by decide))]
  cases hvalue : valueOf (rollsAfter calls a) (modseq % 2 ^ 32) with
  | none => rfl
  | some state => exact absurd ((issued_iff hcalls).mpr hvalue) (h state)

/-- Any response of the server to a request for changes. -/
def someChanges : Jmap.Changes := ⟨"", "", [], [], [], none⟩

/-- What `fetch` depends on. -/
theorem fetch_consults {arguments : FetchArguments} {isUid isQresync enabledCondstore : Bool}
    (hsince : arguments.changedSince = some modseq) (h : FetchReaches m arguments isUid isQresync)
    {state : String} (hstate : db.modseqToState (modseq % 2 ^ 32) = some (some state)) :
    Consults (fetch db m arguments isUid isQresync enabledCondstore) state ∧
      (fetch db m arguments isUid isQresync enabledCondstore fun _ ↦ none) =
        ⟨[], .error .server⟩ := by
  obtain ⟨ids, hfetch⟩ : ∃ ids, ∀ changesEmail,
      fetch db m arguments isUid isQresync enabledCondstore changesEmail = _ :=
        fetch_of_reaches h hsince
  rw [hstate] at hfetch
  dsimp only at hfetch
  refine ⟨⟨fun r ↦ r.elim ⟨[], .error .server⟩ (fetchChanged db arguments enabledCondstore ids),
    fun changesEmail ↦ ?_, none, some someChanges, fun hc ↦ ?_⟩, hfetch _⟩
  · rw [hfetch]
    cases changesEmail state <;> rfl
  exact fetchChanged_next_ne_server ids someChanges (congrArg FetchStart.next hc).symm

/-- **FETCH CHANGEDSINCE.** -/
theorem fetch_resolves_iff (hcalls : Numberable calls) (ha : 0 ∉ asBytes m.id.accountId)
    (hdb : Reads db calls m.id.accountId) (arguments : FetchArguments)
    (isUid isQresync enabledCondstore : Bool) (hsince : arguments.changedSince = some modseq) :
    Resolves calls m.id.accountId modseq (fetch db m arguments isUid isQresync enabledCondstore)
        (fun start ↦ Refuses modseq start.responses) ↔
      FetchReaches m arguments isUid isQresync ∧ Unmistakable calls m.id.accountId modseq := by
  by_cases h : FetchReaches m arguments isUid isQresync
  · rw [and_iff_right h]
    refine resolves_iff hcalls (fun state hstate ↦ ?_) fun hno changesEmail ↦ ?_
    · obtain ⟨hconsults, hserver⟩ := fetch_consults hsince h (lookUp_issued hcalls ha hdb hstate)
      refine ⟨hconsults, fun _ ↦ none, ?_⟩
      rw [hserver]
      rintro ⟨hmem, -⟩
      simp [FetchStart.responses, FetchStart.written] at hmem
    · obtain ⟨ids, hfetch⟩ : ∃ ids, ∀ changesEmail,
          fetch db m arguments isUid isQresync enabledCondstore changesEmail = _ :=
        fetch_of_reaches h hsince
      rw [lookUp_unissued hcalls ha hdb hno] at hfetch
      rw [hfetch]
      exact ⟨by simp [FetchStart.responses, FetchStart.written],
        by simp [FetchStart.responses, FetchStart.written]⟩
  · obtain ⟨status, hstatus, hfetch⟩ := fetch_of_not_reaches h
    refine ⟨fun hc ↦ absurd hc (not_resolves_of_const hfetch ?_), fun hc ↦ absurd hc.1 h⟩
    rintro ⟨hmem, -⟩
    simp only [FetchStart.responses, FetchStart.written, List.map_nil, List.append_nil,
      List.nil_append, List.mem_singleton, FetchResponse.status.injEq] at hmem
    exact hstatus modseq hmem.symm

/-- Where there are messages, the modseq is looked up and the changes are fetched. -/
theorem store_of_ids {sequence : Sequence} {isUid : Bool} {e : String × ImapId} {ids : IdMap}
    (modseq : ℕ) (order : IdMap → IdMap) (modseqToState : ℕ → Option (Option String))
    (changesEmail : String → Option EmailChanges)
    (hids : m.sequenceToJmap sequence isUid = .ok (e :: ids)) :
    store order modseqToState changesEmail m sequence isUid (some modseq) =
      match modseqToState (modseq % 2 ^ 32) with
      | none => .error .databaseFailure
      | some none => .error (.unknownModseq modseq)
      | some (some state) =>
          match changesEmail state with
          | none => .error .server
          | some changes => .ok (unchangedSince m sequence isUid changes (order (e :: ids))) := by
  unfold store
  generalize m.sequenceToJmap sequence isUid = result at hids
  subst hids
  rfl

/-- **STORE UNCHANGEDSINCE.** -/
theorem store_resolves_iff (hcalls : Numberable calls) (ha : 0 ∉ asBytes m.id.accountId)
    (hdb : Reads db calls m.id.accountId) (order : IdMap → IdMap) (sequence : Sequence)
    (isUid : Bool) :
    Resolves calls m.id.accountId modseq
        (fun changesEmail ↦ store order db.modseqToState changesEmail m sequence isUid
          (some modseq))
        (fun r ↦ r = .error (.unknownModseq modseq)) ↔
      (∃ ids, ids ≠ [] ∧ m.sequenceToJmap sequence isUid = .ok ids) ∧
        Unmistakable calls m.id.accountId modseq := by
  cases hids : m.sequenceToJmap sequence isUid with
  | error e =>
      have hstore : ∀ changesEmail, store order db.modseqToState changesEmail m sequence isUid
          (some modseq) = .error (.sequence e) := fun _ ↦ by rw [store, hids]
      exact ⟨fun hc ↦ absurd hc (not_resolves_of_const hstore (by simp)), fun hc ↦ by simp at hc⟩
  | ok ids =>
      cases ids with
      | nil =>
          have hstore : ∀ changesEmail, store order db.modseqToState changesEmail m sequence isUid
              (some modseq) = .error .completed := fun _ ↦ by rw [store, hids]
          exact ⟨fun hc ↦ absurd hc (not_resolves_of_const hstore (by simp)),
            fun hc ↦ by simp at hc⟩
      | cons e ids =>
          have hstore := fun changesEmail ↦ store_of_ids modseq order db.modseqToState
            changesEmail hids
          rw [and_iff_right ⟨e :: ids, by simp, rfl⟩]
          refine resolves_iff hcalls (fun state hstate ↦ ?_) fun hno changesEmail ↦ ?_
          · rw [lookUp_issued hcalls ha hdb hstate] at hstore
            dsimp only at hstore
            refine ⟨⟨fun r ↦ r.elim (.error .server) fun changes ↦
              .ok (unchangedSince m sequence isUid changes (order (e :: ids))),
              fun changesEmail ↦ ?_, none, some ⟨[], [], []⟩, by simp⟩, fun _ ↦ none, ?_⟩
            · refine (hstore changesEmail).trans ?_
              cases changesEmail state <;> rfl
            rw [hstore]
            simp
          · rw [lookUp_unissued hcalls ha hdb hno] at hstore
            exact hstore changesEmail

/-- SEARCH with its first MODSEQ. -/
theorem search_resolves_first {c : SearchContext} (hcalls : Numberable calls)
    (ha : 0 ∉ asBytes c.mailbox.id.accountId) (hdb : Reads c.db calls c.mailbox.id.accountId)
    {filter : Search.Filter}
    (hfirst : filter.leaves.findSome? Search.Filter.modseq? = some modseq) :
    Resolves calls c.mailbox.id.accountId modseq (c.imapFilterToJmap filter)
        (fun r ↦ r = .error (.unknownModseq modseq)) ↔
      c.Reaches filter ∧ Unmistakable calls c.mailbox.id.accountId modseq := by
  by_cases h : c.Reaches filter
  · rw [and_iff_right h]
    refine resolves_iff hcalls (fun state hstate ↦ ?_) fun hno changesEmail ↦ ?_
    · obtain ⟨k, hk, hserver, hsome⟩ := SearchContext.search_of_known hfirst h
        (lookUp_issued hcalls ha hdb hstate)
      refine ⟨⟨k, hk, none, some someChanges, fun hc ↦ hsome someChanges (hc ▸ hserver)⟩,
        fun _ ↦ none, ?_⟩
      rw [hk, hserver]
      simp
    · exact SearchContext.search_of_unknown hfirst h
        (lookUp_unissued hcalls ha hdb hno) changesEmail
  · obtain ⟨e, he⟩ := SearchContext.search_of_not_reaches hfirst h
    exact ⟨fun hc ↦ absurd hc (not_resolves_of_const he (by simp)), fun hc ↦ absurd hc.1 h⟩

/-- **SEARCH MODSEQ**, for all the numbers of a search: a second one must be the first one again. -/
theorem search_resolves_iff {c : SearchContext} (hcalls : Numberable calls)
    (ha : 0 ∉ asBytes c.mailbox.id.accountId) (hdb : Reads c.db calls c.mailbox.id.accountId)
    (filter : Search.Filter) :
    (∀ modseq ∈ filter.leaves.filterMap Search.Filter.modseq?,
        Resolves calls c.mailbox.id.accountId modseq (c.imapFilterToJmap filter)
          (fun r ↦ r = .error (.unknownModseq modseq))) ↔
      ∀ modseq ∈ filter.leaves.findSome? Search.Filter.modseq?, c.Reaches filter ∧
        Unmistakable calls c.mailbox.id.accountId modseq ∧
          ∀ modseq' ∈ filter.leaves.filterMap Search.Filter.modseq?, modseq' = modseq := by
  cases hfirst : filter.leaves.findSome? Search.Filter.modseq? with
  | none =>
      have hnil : filter.leaves.filterMap Search.Filter.modseq? = [] :=
        List.filterMap_eq_nil_iff.mpr (List.findSome?_eq_none_iff.mp hfirst)
      simp [hnil]
  | some modseq =>
      have hmem : modseq ∈ filter.leaves.filterMap Search.Filter.modseq? := by
        obtain ⟨key, hkey, hmodseq⟩ := List.exists_of_findSome?_eq_some hfirst
        exact List.mem_filterMap.mpr ⟨key, hkey, hmodseq⟩
      simp only [Option.mem_def, Option.some.injEq, forall_eq']
      constructor
      · intro h
        obtain ⟨hreaches, hcut⟩ := (search_resolves_first hcalls ha hdb hfirst).mp (h modseq hmem)
        refine ⟨hreaches, hcut, fun modseq' hmem' ↦ ?_⟩
        have hone := h modseq hmem
        have htwo := h modseq' hmem'
        by_cases hissued : ∃ state, Issued calls c.mailbox.id.accountId modseq state
        · obtain ⟨state, hstate⟩ := hissued
          by_cases hissued' : ∃ state, Issued calls c.mailbox.id.accountId modseq' state
          · obtain ⟨state', hstate'⟩ := hissued'
            obtain rfl := (hone.issued state hstate).unique (htwo.issued state' hstate')
            exact hstate'.modseq_unique hcalls hstate
          · have hno := htwo.unissued fun state' hstate' ↦ hissued' ⟨state', hstate'⟩
            exact absurd hno (hone.issued state hstate).not_const
        · have hno := hone.unissued fun state hstate ↦ hissued ⟨state, hstate⟩
          by_cases hissued' : ∃ state, Issued calls c.mailbox.id.accountId modseq' state
          · obtain ⟨state', hstate'⟩ := hissued'
            exact absurd hno (htwo.issued state' hstate').not_const
          · have hno' := htwo.unissued fun state' hstate' ↦ hissued' ⟨state', hstate'⟩
            have heq := (hno fun _ ↦ none).symm.trans (hno' fun _ ↦ none)
            simpa using heq.symm
      · rintro ⟨hreaches, hcut, hall⟩ modseq' hmem'
        rw [hall modseq' hmem']
        exact (search_resolves_first hcalls ha hdb hfirst).mpr ⟨hreaches, hcut⟩

/-- The mailbox that is opened. -/
theorem openMailbox_id {context : SelectContext} {session : SelectSession}
    {arguments : SelectArguments} {isSelect : Bool} {mailbox : MailboxId} {highestModseq : Option ℕ}
    (hmailbox : context.getMailboxByName arguments.mailboxName = some mailbox)
    (h : context.openMailbox session arguments isSelect = .ok (m, highestModseq)) :
    m.id = mailbox := by
  rw [SelectContext.openMailbox, hmailbox] at h
  dsimp only at h
  split at h
  · cases h
  · split at h
    · cases h
    · split at h
      · cases h
      · split at h
        · split at h
          · cases h
          · cases h
            rfl
        · cases h
          rfl

/-- **SELECT QRESYNC** refuses nothing. -/
theorem select_resolves_iff {context : SelectContext} (hcalls : Numberable calls)
    {mailbox : MailboxId} (ha : 0 ∉ asBytes mailbox.accountId)
    (hdb : Reads (context.db mailbox.accountId) calls mailbox.accountId) (session : SelectSession)
    (arguments : SelectArguments) (isSelect : Bool) {qresync : QResync}
    (hmailbox : context.getMailboxByName arguments.mailboxName = some mailbox)
    (hqresync : arguments.qresync = some qresync) :
    Resolves calls mailbox.accountId qresync.modseq
      (context.handleSelect session arguments isSelect)
        (fun outcome ↦ Refuses qresync.modseq outcome.responses) ↔
      (∃ m highestModseq, context.openMailbox session arguments isSelect = .ok (m, highestModseq) ∧
        SelectContext.Reaches session qresync m) ∧
          ∃ state, Issued calls mailbox.accountId qresync.modseq state := by
  constructor
  · intro h
    obtain ⟨state, hstate⟩ : ∃ state, Issued calls mailbox.accountId qresync.modseq state := by
      by_contra hno
      push Not at hno
      exact SelectOutcome.not_refuses _ _ (h.unissued hno fun _ ↦ none)
    refine ⟨?_, state, hstate⟩
    have hconsults := h.issued state hstate
    cases hopen : context.openMailbox session arguments isSelect with
    | error status =>
        refine absurd (fun changesEmail ↦ ?_) (hconsults.not_const (w := ⟨none, status⟩))
        rw [SelectContext.handleSelect, hopen]
    | ok opened =>
        obtain ⟨m, highestModseq⟩ := opened
        refine ⟨m, highestModseq, rfl, ?_⟩
        by_contra hreaches
        obtain ⟨outcome, houtcome⟩ : ∃ outcome, ∀ changesEmail, SelectContext.resynchronize
            (context.db m.id.accountId) session qresync m (.completed
              (SelectContext.response session arguments m highestModseq)) changesEmail = outcome :=
          SelectContext.resynchronize_of_not_reaches hreaches
        refine absurd (fun changesEmail ↦ ?_) (hconsults.not_const (w := outcome))
        rw [SelectContext.handleSelect, hopen]
        dsimp only
        rw [hqresync]
        exact houtcome changesEmail
  · rintro ⟨⟨m, highestModseq, hopen, hreaches⟩, state, hstate⟩
    refine ⟨fun state' hstate' ↦ ?_, fun hno ↦ absurd hstate (hno state)⟩
    obtain rfl := openMailbox_id hmailbox hopen
    obtain ⟨sequenceSet, hfetch, hselect⟩ := SelectContext.resynchronize_of_reaches hreaches
    have hmod : qresync.modseq % 2 ^ 32 = qresync.modseq := Nat.mod_eq_of_lt (hstate'.lt hcalls)
    have hlookUp := lookUp_issued hcalls ha hdb (hmod.symm ▸ hstate')
    have hconsults : Consults (fetch (context.db m.id.accountId) m
        ⟨sequenceSet, some qresync.modseq, true⟩ true true false) state' :=
      (fetch_consults rfl hfetch hlookUp).1
    have hall : ∀ changesEmail, context.handleSelect session arguments isSelect changesEmail =
        ⟨some (fetch (context.db m.id.accountId) m
            ⟨sequenceSet, some qresync.modseq, true⟩ true true false changesEmail),
          .completed (SelectContext.response session arguments m highestModseq)⟩ := by
      intro changesEmail
      rw [SelectContext.handleSelect, hopen]
      dsimp only
      rw [hqresync]
      exact hselect changesEmail
    rw [funext hall]
    refine hconsults.map (g := fun start ↦ SelectOutcome.mk (some start) _) fun start start' heq ↦
      ?_
    exact Option.some.inj (congrArg SelectOutcome.fetched heq)

/-- **Modseqs from the client.**  In every run of the calls for modseqs, for every number: FETCH,
STORE and SEARCH go by the right state, or refuse the number, if and only if they get as far as the
number and cutting it off makes it no other that was issued.  SELECT does so only for a number that
was issued. -/
theorem modseq_commands_iff (calls : List ModseqCall) (hcalls : Numberable calls) :
    (∀ (m : SelectedMailbox) (db : AccountDb), 0 ∉ asBytes m.id.accountId →
      Reads db calls m.id.accountId → ∀ modseq,
      (∀ (arguments : FetchArguments) (isUid isQresync enabledCondstore : Bool),
        arguments.changedSince = some modseq →
          (Resolves calls m.id.accountId modseq
            (fetch db m arguments isUid isQresync enabledCondstore)
              (fun start ↦ Refuses modseq start.responses) ↔
            FetchReaches m arguments isUid isQresync ∧ Unmistakable calls m.id.accountId modseq)) ∧
      ∀ (order : IdMap → IdMap) (sequence : Sequence) (isUid : Bool),
        (Resolves calls m.id.accountId modseq (fun changesEmail ↦
              store order db.modseqToState changesEmail m sequence isUid (some modseq))
            (fun r ↦ r = .error (.unknownModseq modseq)) ↔
          (∃ ids, ids ≠ [] ∧ m.sequenceToJmap sequence isUid = .ok ids) ∧
            Unmistakable calls m.id.accountId modseq)) ∧
    (∀ c : SearchContext, 0 ∉ asBytes c.mailbox.id.accountId →
      Reads c.db calls c.mailbox.id.accountId →
      ∀ filter : Search.Filter,
        ((∀ modseq ∈ filter.leaves.filterMap Search.Filter.modseq?,
            Resolves calls c.mailbox.id.accountId modseq (c.imapFilterToJmap filter)
              (fun r ↦ r = .error (.unknownModseq modseq))) ↔
          ∀ modseq ∈ filter.leaves.findSome? Search.Filter.modseq?, c.Reaches filter ∧
            Unmistakable calls c.mailbox.id.accountId modseq ∧
              ∀ modseq' ∈ filter.leaves.filterMap Search.Filter.modseq?, modseq' = modseq)) ∧
    ∀ (context : SelectContext) (mailbox : MailboxId), 0 ∉ asBytes mailbox.accountId →
      Reads (context.db mailbox.accountId) calls mailbox.accountId →
      ∀ (session : SelectSession) (arguments : SelectArguments) (isSelect : Bool)
        (qresync : QResync),
        context.getMailboxByName arguments.mailboxName = some mailbox →
        arguments.qresync = some qresync →
          (Resolves calls mailbox.accountId qresync.modseq
              (context.handleSelect session arguments isSelect)
              (fun outcome ↦ Refuses qresync.modseq outcome.responses) ↔
            (∃ m highestModseq,
              context.openMailbox session arguments isSelect = .ok (m, highestModseq) ∧
                SelectContext.Reaches session qresync m) ∧
              ∃ state, Issued calls mailbox.accountId qresync.modseq state) := by
  refine ⟨fun m db ha hdb modseq ↦ ⟨?_, ?_⟩, ?_, ?_⟩
  · intro arguments isUid isQresync enabledCondstore hsince
    exact fetch_resolves_iff hcalls ha hdb arguments isUid isQresync enabledCondstore hsince
  · intro order sequence isUid
    exact store_resolves_iff hcalls ha hdb order sequence isUid
  · intro c ha hdb filter
    exact search_resolves_iff hcalls ha hdb filter
  · intro context mailbox ha hdb session arguments isSelect qresync hmailbox hqresync
    exact select_resolves_iff hcalls ha hdb session arguments isSelect hmailbox hqresync

end Commands

/-! ## One state -/

/-- An account with one state, and a view of one message. -/
def oneState : List ModseqCall := [.stateToModseq "a" "s"]

def oneStateDb : AccountDb where
  modseqToState n := ((Db.modseqToState "a" n).run (final ModseqCall.call ∅ oneState)).1
  stateToModseq _ := some 1
  deletedUids _ := some []

def oneStateView : SelectedMailbox where
  id := ⟨"a", none⟩
  state := ⟨2, 1, ["x"], [1], 1, "s"⟩
  savedSearch := .none
  isSelect := true

theorem numberable_oneState : Numberable oneState where
  wellFormed := by decide
  few a := Nat.lt_of_le_of_lt ((List.dedup_sublist _).length_le.trans
    (List.length_filterMap_le _ _)) (by decide)

theorem issued_oneState {modseq : ℕ} {state : String} :
    Issued oneState "a" modseq state ↔ modseq = 1 ∧ state = "s" := by
  have hanswers : answers ModseqCall.call ∅ oneState =
      [(.stateToModseq "a" "s", some (.modseq 1))] := by decide
  rw [Issued, hanswers]
  simp [and_comm]

/-- The number 1 in all four commands. -/
theorem modseq_commands_one :
    Resolves oneState "a" 1
        (fetch oneStateDb oneStateView ⟨.number 1, some 1, false⟩ false false false)
        (fun start ↦ Refuses 1 start.responses) ∧
      Resolves oneState "a" 1
        (fun changesEmail ↦ store id oneStateDb.modseqToState changesEmail oneStateView
          (.number 1) false (some 1))
        (fun r ↦ r = .error (.unknownModseq 1)) := by
  have hall := modseq_commands_iff oneState numberable_oneState
  have hview := hall.1 oneStateView oneStateDb (by decide) (fun _ ↦ rfl) 1
  refine ⟨(hview.1 ⟨.number 1, some 1, false⟩ false false false rfl).mpr ⟨⟨by simp, ?_⟩,
    .inl (by decide)⟩,
    (hview.2 id (.number 1) false).mpr ⟨?_, .inl (by decide)⟩⟩
  · exact ⟨[("x", ⟨1, 1⟩)], by rfl⟩
  · exact ⟨[("x", ⟨1, 1⟩)], by simp, by rfl⟩

/-- STORE takes 2³² + 1 for 1, and SELECT says nothing of 7. -/
theorem modseq_mistaken :
    ¬ Resolves oneState "a" 4294967297
        (fun changesEmail ↦
          store id oneStateDb.modseqToState changesEmail oneStateView (.number 1) false
            (some 4294967297))
        (fun r ↦ r = .error (.unknownModseq 4294967297)) ∧
      ∀ (context : SelectContext) (session : SelectSession) (arguments : SelectArguments)
        (isSelect : Bool), ¬ Resolves oneState "a" 7
          (context.handleSelect session arguments isSelect)
          (fun outcome ↦ Refuses 7 outcome.responses) := by
  refine ⟨fun h ↦ ?_, fun context session arguments isSelect h ↦ ?_⟩
  · have hno := h.unissued (fun state hstate ↦ by simp [issued_oneState] at hstate) fun _ ↦ none
    have hlookUp : oneStateDb.modseqToState (4294967297 % 2 ^ 32) = some (some "s") := by
      decide
    have hids : oneStateView.sequenceToJmap (.number 1) false = .ok [("x", ⟨1, 1⟩)] := by rfl
    rw [store, hids] at hno
    dsimp only at hno
    rw [hlookUp] at hno
    simp at hno
  · have hno := h.unissued (fun state hstate ↦ by simp [issued_oneState] at hstate) fun _ ↦ none
    exact SelectOutcome.not_refuses _ _ hno

end ImapToJmap
