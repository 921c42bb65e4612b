import ImapToJmap.Commands.Search

/-!
# Searches that are saved while others wait

`SEARCH RETURN (SAVE)` leaves its result in the mailbox, where `$` finds it.  The search runs as a
task of its own, and until it is done the mailbox holds the receiver of a channel instead: whoever
asks for `$` then waits for what comes through.  The machine here is one mailbox with the main loop
of its session and the tasks that the loop has spawned.  A step is what one of them does until
another one can come in between: the lock of the saved search is taken, something is sent or a
sender dropped, an `await` returns.

`Spawned.Moves` and `Happens` are all that a task can do, and all that can happen; what is proved of
every run goes through them.  With no search under way a key fails here where `sequenceIds` fails
(`handleKey_eq_fail_iff`).
-/

namespace ImapToJmap.Saving

open Search (Filter)

/-- `SavedSearch`; a channel goes by the number of the task that sends. -/
inductive SavedSearch where
  | inFlight (rx : ℕ)
  | results (items : List ImapId)
  | none

/-- `get_saved_search`, up to its `await`. -/
inductive Lookup where
  | waits (rx : ℕ)
  | returns (items : Option (List ImapId))

def SavedSearch.getSavedSearch : SavedSearch → Lookup
  | inFlight rx => .waits rx
  | results items => .returns (some items)
  | none => .returns Option.none

theorem SavedSearch.eq_inFlight {savedSearch : SavedSearch} {rx : ℕ}
    (h : savedSearch.getSavedSearch = .waits rx) : savedSearch = inFlight rx := by
  cases savedSearch with
  | inFlight rx' => exact congrArg inFlight (Lookup.waits.inj h)
  | _ => cases h

/-- The `prev_saved_search` that is put back. -/
def SavedSearch.ofPrev : Option (List ImapId) → SavedSearch
  | some items => results items
  | Option.none => none

/-! ## Tasks -/

/-- How far a task is. -/
inductive Phase where
  | /-- It goes over its keys, or asks the server once there are none left. -/
    resolving
  | /-- It has asked for `$` and waits for a channel. -/
    waiting (rx : ℕ)
  | /-- The results are in the mailbox and not yet sent. -/
    stored (items : List ImapId)
  | sent (items : List ImapId)
  | /-- The sender is gone and the search from before not yet put back. -/
    failed
  | done
  | /-- An index was out of range. -/
    panicked

/-- A command that has been spawned: a search with the keys it has not come to yet, or another one
with its sequence set for a key. -/
structure Spawned where
  /-- The saved search from before, if the command saves its results. -/
  prevSavedSearch : Option (Option (List ImapId))
  keys : List Filter
  phase : Phase

namespace Spawned

/-- Does the command save its results? -/
def Saves (task : Spawned) : Prop := task.prevSavedSearch.isSome = true

/-- It has been answered. -/
def Answered (task : Spawned) : Prop := task.phase = .done ∨ ∃ items, task.phase = .sent items

/-- It has come to its end, if not to an answer. -/
def Over (task : Spawned) : Prop := task.Answered ∨ task.phase = .panicked

/-- What `changed` and `borrow` find in the channel of a task: nothing yet, what has been sent, or
the list the channel was made with if the sender is gone. -/
def received (task : Spawned) : Option (List ImapId) :=
  match task.phase with
  | .resolving | .waiting _ | .stored _ => none
  | .sent items => some items
  | .failed | .done | .panicked => some []

/-- On to the next key. -/
def next (task : Spawned) : Spawned := { task with keys := task.keys.tail, phase := .resolving }

/-- The command ends with an error. -/
def fail (task : Spawned) : Spawned :=
  { task with phase := if task.prevSavedSearch.isSome then .failed else .done }

/-- The task panics. -/
def panic (task : Spawned) : Spawned := { task with phase := .panicked }

/-- `sequence_to_jmap` of a set with `$`, up to its `await`; not `ok` is a saved position that the
view does not have. -/
def ask (task : Spawned) (savedSearch : SavedSearch) (ok : Bool) : Spawned :=
  match savedSearch.getSavedSearch with
  | .waits rx => { task with phase := .waiting rx }
  | .returns (some _) => if ok then task.next else task.panic
  | .returns none => task.fail

/-- The key is a sequence set with a `$` that the task has to ask the mailbox for. -/
def Asks (task : Spawned) : Filter → Prop
  | .sequence .savedSearch _ => ¬task.Saves
  | .sequence sequence _ => sequence.isSavedSearch = true
  | _ => False

/-- A key in `imap_filter_to_jmap`, or the `sequence_to_jmap` of another command.  For a MODSEQ
`ok` is what comes of asking the server and the database. -/
def handleKey (task : Spawned) (savedSearch : SavedSearch) (ok : Bool) : Filter → Spawned
  | .sequence sequence _ =>
      match sequence, task.prevSavedSearch with
      | .savedSearch, some (some _) => task.next
      | .savedSearch, some none => task.fail
      | _, _ =>
          if sequence.isSavedSearch then task.ask savedSearch ok else task.next
  | .modSeq .. => if ok then task.next else task.fail
  | _ => task.next

/-- The answer of the server to the query, and for a search that saves what
`SessionData::search` then leaves in the mailbox. -/
def answered (task : Spawned) (savedSearch : SavedSearch) :
    Option (List ImapId) → Spawned × SavedSearch
  | none => (task.fail, savedSearch)
  | some items =>
      match task.prevSavedSearch with
      | some _ => ({ task with phase := .stored items }, .results items)
      | none => ({ task with phase := .done }, savedSearch)

end Spawned

/-- What a task does up to its next `await`. -/
inductive TaskStep where
  | key (ok : Bool)
  | /-- `changed` has returned. -/
    changed (ok : Bool)
  | answered (found : Option (List ImapId))
  | send
  | restore

/-- The task and the mailbox after a step, if the task can take it. -/
def Spawned.step (task : Spawned) (savedSearch : SavedSearch)
    (received : ℕ → Option (List ImapId)) : TaskStep → Option (Spawned × SavedSearch)
  | .key ok =>
      match task.phase, task.keys with
      | .resolving, key :: _ => some (task.handleKey savedSearch ok key, savedSearch)
      | _, _ => none
  | .changed ok =>
      match task.phase with
      | .waiting rx =>
          (received rx).map fun _ ↦ (if ok then task.next else task.panic, savedSearch)
      | _ => none
  | .answered found =>
      match task.phase, task.keys with
      | .resolving, [] => some (task.answered savedSearch found)
      | _, _ => none
  | .send =>
      match task.phase with
      | .stored items => some ({ task with phase := .sent items }, savedSearch)
      | _ => none
  | .restore =>
      match task.phase, task.prevSavedSearch with
      | .failed, some prevSavedSearch =>
          some ({ task with phase := .done }, .ofPrev prevSavedSearch)
      | _, _ => none

/-! ## The mailbox and the main loop -/

/-- The requests that have to do with saved searches. -/
inductive Request where
  | /-- SEARCH or SORT with SAVE. -/
    save (filter : Filter)
  | /-- FETCH, STORE, COPY and MOVE with their sequence set; THREAD, and a search that does not
    save. -/
    resolve (keys : List Filter)
  | /-- With a `$` in the set, not `ok` is a saved position that the view does not have. -/
    expunge (sequence : Option Sequence) (ok : Bool)

/-- Where the main loop is. -/
inductive Main where
  | idle
  | /-- It waits for a channel, on behalf of a search that saves or of EXPUNGE. -/
    waiting (rx : ℕ) (search : Option Filter)
  | /-- `handle_search` has the saved search from before, and has not yet put in the channel. -/
    saving (prevSavedSearch : Option (List ImapId)) (filter : Filter)
  | /-- EXPUNGE waits for the server. -/
    expunging
  | /-- An index was out of range, and the session is gone. -/
    panicked

/-- A selected mailbox, and who is at work on it. -/
structure Searches where
  savedSearch : SavedSearch := .none
  tasks : List Spawned := []
  main : Main := .idle

def start : Searches := {}

/-- What happens. -/
inductive Event where
  | request (request : Request)
  | /-- What the main loop waits for has come; `ok` is that of EXPUNGE. -/
    changed (ok : Bool)
  | /-- `handle_search` makes the channel and spawns the search. -/
    spawn
  | expunged (ok : Bool)
  | task (i : ℕ) (step : TaskStep)

namespace Searches

/-- What has come through a channel. -/
def received (s : Searches) (rx : ℕ) : Option (List ImapId) := s.tasks[rx]?.bind Spawned.received

/-- The saved positions are looked up for EXPUNGE. -/
def lookUp (s : Searches) (ok : Bool) : Searches :=
  { s with main := if ok then .expunging else .panicked }

/-- The main loop takes a request. -/
def handle (s : Searches) : Request → Searches
  | .resolve keys => { s with tasks := s.tasks ++ [⟨none, keys, .resolving⟩] }
  | .save filter =>
      match s.savedSearch.getSavedSearch with
      | .waits rx => { s with main := .waiting rx (some filter) }
      | .returns items => { s with main := .saving items filter }
  | .expunge sequence ok =>
      if sequence.any Sequence.isSavedSearch then
        match s.savedSearch.getSavedSearch with
        | .waits rx => { s with main := .waiting rx none }
        | .returns (some _) => s.lookUp ok
        -- the response is that there is no saved search
        | .returns none => s
      else { s with main := .expunging }

/-- The main loop goes on with what it has waited for. -/
def resume (s : Searches) (items : List ImapId) (ok : Bool) : Option Filter → Searches
  | some filter => { s with main := .saving (some items) filter }
  | none => s.lookUp ok

/-- The state after an event, if it can happen. -/
def next (s : Searches) : Event → Option Searches
  | .request request =>
      match s.main with
      | .idle => some (s.handle request)
      | _ => none
  | .changed ok =>
      match s.main with
      | .waiting rx search => (s.received rx).map fun items ↦ s.resume items ok search
      | _ => none
  | .spawn =>
      match s.main with
      | .saving prevSavedSearch filter =>
          some {
            savedSearch := .inFlight s.tasks.length
            tasks := s.tasks ++ [⟨some prevSavedSearch, filter.leaves, .resolving⟩]
            main := .idle }
      | _ => none
  | .expunged ok =>
      match s.main with
      | .expunging =>
          some { s with savedSearch := if ok then .none else s.savedSearch, main := .idle }
      | _ => none
  | .task i step =>
      match s.tasks[i]? with
      | some task =>
          (task.step s.savedSearch s.received step).map fun (task, savedSearch) ↦
            { s with tasks := s.tasks.set i task, savedSearch }
      | none => none

end Searches

/-- What cannot happen changes nothing. -/
def step (s : Searches) (e : Event) : Searches := (s.next e).getD s

/-! ## What a task can do -/

namespace Spawned

variable {task task' : Spawned} {savedSearch savedSearch' : SavedSearch}
  {received : ℕ → Option (List ImapId)} {taskStep : TaskStep}

@[simp] theorem next_prevSavedSearch : task.next.prevSavedSearch = task.prevSavedSearch := rfl

@[simp] theorem next_phase : task.next.phase = .resolving := rfl

@[simp] theorem fail_prevSavedSearch : task.fail.prevSavedSearch = task.prevSavedSearch := rfl

@[simp] theorem panic_prevSavedSearch : task.panic.prevSavedSearch = task.prevSavedSearch := rfl

@[simp] theorem panic_phase : task.panic.phase = .panicked := rfl

theorem fail_phase_cases : task.fail.phase = .failed ∧ task.Saves ∨ task.fail.phase = .done := by
  rw [Saves, fail]
  cases task.prevSavedSearch.isSome with
  | false => exact .inr rfl
  | true => exact .inl ⟨rfl, rfl⟩

theorem handleKey_of_asks {key : Filter} (h : task.Asks key) (savedSearch : SavedSearch)
    (ok : Bool) : task.handleKey savedSearch ok key = task.ask savedSearch ok := by
  cases key with
  | sequence sequence uidFilter =>
      cases sequence with
      | savedSearch =>
          have hprev : task.prevSavedSearch = none := by simpa [Asks, Saves] using h
          simp [handleKey, hprev, Sequence.isSavedSearch]
      | number value => cases h
      | range first last => cases h
      | list items => simp [handleKey, show (Sequence.list items).isSavedSearch = true from h]
  | _ => cases h

/-- A key that does not ask is done with or fails. -/
theorem handleKey_of_not_asks {key : Filter} (h : ¬task.Asks key) (savedSearch : SavedSearch)
    (ok : Bool) : task.handleKey savedSearch ok key = task.next ∨
      task.handleKey savedSearch ok key = task.fail := by
  cases key with
  | sequence sequence uidFilter =>
      cases sequence with
      | savedSearch =>
          cases hprev : task.prevSavedSearch with
          | none => simp [Asks, Saves, hprev] at h
          | some items =>
              cases items with
              | none => exact .inr (by simp [handleKey, hprev])
              | some items => exact .inl (by simp [handleKey, hprev])
      | number value => exact .inl (by simp [handleKey, Sequence.isSavedSearch])
      | range first last => exact .inl (by simp [handleKey, Sequence.isSavedSearch])
      | list items =>
          have hlist : (Sequence.list items).isSavedSearch = false := by simpa [Asks] using h
          exact .inl (by simp [handleKey, hlist])
  | modSeq modseq entry =>
      cases ok with
      | false => exact .inr rfl
      | true => exact .inl rfl
  | _ => exact .inl rfl

/-- The key is done with, the command has failed, or it waits for the search that is under way. -/
theorem handleKey_cases (task : Spawned) (savedSearch : SavedSearch) (ok : Bool) (key : Filter) :
    task.handleKey savedSearch ok key = task.next ∨
      task.handleKey savedSearch ok key = task.fail ∨
      (ok = false ∧ task.Asks key ∧ task.handleKey savedSearch ok key = task.panic) ∨
      ∃ rx, savedSearch = .inFlight rx ∧ task.Asks key ∧
        task.handleKey savedSearch ok key = { task with phase := .waiting rx } := by
  by_cases hasks : task.Asks key
  · rw [handleKey_of_asks hasks]
    cases savedSearch with
    | inFlight rx => exact .inr (.inr (.inr ⟨rx, rfl, hasks, rfl⟩))
    | results items =>
        cases ok with
        | false => exact .inr (.inr (.inl ⟨rfl, hasks, rfl⟩))
        | true => exact .inl rfl
    | none => exact .inr (.inl rfl)
  · rcases handleKey_of_not_asks hasks savedSearch ok with hnext | hfail
    · exact .inl hnext
    · exact .inr (.inl hfail)

section Step

variable {r : Spawned × SavedSearch} {ok : Bool} {found : Option (List ImapId)}

theorem step_key_iff : task.step savedSearch received (.key ok) = some r ↔
    task.phase = .resolving ∧
      ∃ key keys, task.keys = key :: keys ∧
        r = (task.handleKey savedSearch ok key, savedSearch) := by
  rw [step]
  cases task.phase with
  | resolving =>
      cases task.keys with
      | nil => simp
      | cons key keys => simp [eq_comm]
  | _ => simp

theorem step_changed_iff : task.step savedSearch received (.changed ok) = some r ↔
    ∃ rx items, task.phase = .waiting rx ∧ received rx = some items ∧
      r = (if ok then task.next else task.panic, savedSearch) := by
  rw [step]
  cases task.phase with
  | waiting rx => simp [eq_comm]
  | _ => simp

theorem step_answered_iff : task.step savedSearch received (.answered found) = some r ↔
    task.phase = .resolving ∧ task.keys = [] ∧ r = task.answered savedSearch found := by
  rw [step]
  cases task.phase with
  | resolving =>
      cases task.keys with
      | nil => simp [eq_comm]
      | cons key keys => simp
  | _ => simp

theorem step_send_iff : task.step savedSearch received .send = some r ↔
    ∃ items, task.phase = .stored items ∧
      r = ({ task with phase := .sent items }, savedSearch) := by
  rw [step]
  cases task.phase with
  | stored items => simp [eq_comm]
  | _ => simp

theorem step_restore_iff : task.step savedSearch received .restore = some r ↔
    task.phase = .failed ∧ ∃ prevSavedSearch, task.prevSavedSearch = some prevSavedSearch ∧
      r = ({ task with phase := .done }, .ofPrev prevSavedSearch) := by
  rw [step]
  cases task.phase with
  | failed =>
      cases task.prevSavedSearch with
      | none => simp
      | some prevSavedSearch => simp [eq_comm]
  | _ => simp

end Step

/-- All that a step can do. -/
inductive Moves (task : Spawned) (savedSearch : SavedSearch)
    (received : ℕ → Option (List ImapId)) : TaskStep → Spawned → SavedSearch → Prop
  | next {key : Filter} {keys : List Filter} (ok : Bool) (hphase : task.phase = .resolving)
      (hkeys : task.keys = key :: keys) :
      Moves task savedSearch received (.key ok) task.next savedSearch
  | fail (taskStep : TaskStep) (hphase : task.phase = .resolving) :
      Moves task savedSearch received taskStep task.fail savedSearch
  | panic {key : Filter} {keys : List Filter} (hphase : task.phase = .resolving)
      (hkeys : task.keys = key :: keys) (hasks : task.Asks key) :
      Moves task savedSearch received (.key false) task.panic savedSearch
  | wait {rx : ℕ} {key : Filter} {keys : List Filter} (ok : Bool) (hphase : task.phase = .resolving)
      (hkeys : task.keys = key :: keys) (hasks : task.Asks key)
      (hrx : savedSearch = .inFlight rx) :
      Moves task savedSearch received (.key ok) { task with phase := .waiting rx } savedSearch
  | resume {rx : ℕ} {items : List ImapId} (ok : Bool) (hphase : task.phase = .waiting rx)
      (hitems : received rx = some items) :
      Moves task savedSearch received (.changed ok) (if ok then task.next else task.panic)
        savedSearch
  | store (items : List ImapId) (hphase : task.phase = .resolving) (hkeys : task.keys = [])
      (hsaves : task.Saves) :
      Moves task savedSearch received (.answered (some items)) { task with phase := .stored items }
        (.results items)
  | finish (items : List ImapId) (hphase : task.phase = .resolving) (hkeys : task.keys = [])
      (hsaves : ¬task.Saves) :
      Moves task savedSearch received (.answered (some items)) { task with phase := .done }
        savedSearch
  | send {items : List ImapId} (hphase : task.phase = .stored items) :
      Moves task savedSearch received .send { task with phase := .sent items } savedSearch
  | restore {prevSavedSearch : Option (List ImapId)} (hphase : task.phase = .failed)
      (hprev : task.prevSavedSearch = some prevSavedSearch) :
      Moves task savedSearch received .restore { task with phase := .done }
        (.ofPrev prevSavedSearch)

theorem moves_of_step
    (h : task.step savedSearch received taskStep = some (task', savedSearch')) :
    task.Moves savedSearch received taskStep task' savedSearch' := by
  cases taskStep with
  | key ok =>
      obtain ⟨hphase, key, keys, hkeys, heq⟩ := step_key_iff.mp h
      obtain ⟨rfl, rfl⟩ := Prod.mk.inj heq
      obtain heq | heq | ⟨rfl, hasks, heq⟩ | ⟨rx, hrx, hasks, heq⟩ :=
        handleKey_cases task savedSearch' ok key
      · exact heq ▸ .next ok hphase hkeys
      · exact heq ▸ .fail _ hphase
      · exact heq ▸ .panic hphase hkeys hasks
      · exact heq ▸ .wait ok hphase hkeys hasks hrx
  | changed ok =>
      obtain ⟨rx, items, hphase, hitems, heq⟩ := step_changed_iff.mp h
      obtain ⟨rfl, rfl⟩ := Prod.mk.inj heq
      exact .resume ok hphase hitems
  | answered found =>
      obtain ⟨hphase, hkeys, heq⟩ := step_answered_iff.mp h
      cases found with
      | none =>
          obtain ⟨rfl, rfl⟩ := Prod.mk.inj heq
          exact .fail _ hphase
      | some items =>
          cases hprev : task.prevSavedSearch with
          | none =>
              simp only [answered, hprev] at heq
              obtain ⟨rfl, rfl⟩ := Prod.mk.inj heq
              exact hprev ▸ .finish items hphase hkeys (by simp [Saves, hprev])
          | some items' =>
              simp only [answered, hprev] at heq
              obtain ⟨rfl, rfl⟩ := Prod.mk.inj heq
              exact hprev ▸ .store items hphase hkeys (by simp [Saves, hprev])
  | send =>
      obtain ⟨items, hphase, heq⟩ := step_send_iff.mp h
      obtain ⟨rfl, rfl⟩ := Prod.mk.inj heq
      exact .send hphase
  | restore =>
      obtain ⟨hphase, prevSavedSearch, hprev, heq⟩ := step_restore_iff.mp h
      obtain ⟨rfl, rfl⟩ := Prod.mk.inj heq
      exact .restore hphase hprev

namespace Moves

theorem prevSavedSearch_eq (h : task.Moves savedSearch received taskStep task' savedSearch') :
    task'.prevSavedSearch = task.prevSavedSearch := by
  cases h with
  | resume ok => cases ok <;> rfl
  | _ => rfl

/-- The search that is under way stays the same as long as none is spawned. -/
theorem of_inFlight (h : task.Moves savedSearch received taskStep task' savedSearch') {rx : ℕ}
    (hrx : savedSearch' = .inFlight rx) : savedSearch = .inFlight rx := by
  cases h with
  | store => cases hrx
  | @restore prevSavedSearch => cases prevSavedSearch <;> cases hrx
  | _ => exact hrx

/-- A task that has come to wait. -/
theorem of_waiting (h : task.Moves savedSearch received taskStep task' savedSearch') {rx : ℕ}
    (hrx : task'.phase = .waiting rx) :
    savedSearch = .inFlight rx ∧ task' = { task with phase := .waiting rx } ∧
      ∃ key keys, task.keys = key :: keys ∧ task.Asks key := by
  cases h with
  | wait ok hphase hkeys hasks hss =>
      obtain rfl := Phase.waiting.inj hrx
      exact ⟨hss, rfl, _, _, hkeys, hasks⟩
  | fail =>
      rcases task.fail_phase_cases with ⟨hphase, -⟩ | hphase <;> cases hphase.symm.trans hrx
  | resume ok => cases ok <;> cases hrx
  | _ => cases hrx

/-- Keys are only taken away. -/
theorem keys_subset (h : task.Moves savedSearch received taskStep task' savedSearch') :
    task'.keys ⊆ task.keys := by
  cases h with
  | next ok hphase hkeys => exact List.tail_subset _
  | resume ok =>
      cases ok with
      | false => exact List.Subset.refl _
      | true => exact List.tail_subset _
  | _ => exact List.Subset.refl _

/-- A search that has just failed is one that saves. -/
theorem of_failed (h : task.Moves savedSearch received taskStep task' savedSearch')
    (hphase' : task'.phase = .failed) : task'.Saves := by
  cases h with
  | fail =>
      rcases task.fail_phase_cases with ⟨-, hsaves⟩ | hphase
      · exact hsaves
      · cases hphase.symm.trans hphase'
  | resume ok => cases ok <;> cases hphase'
  | _ => cases hphase'

end Moves

end Spawned

/-! ## What can happen -/

namespace Searches

variable {s s' : Searches} {e : Event} {i rx : ℕ} {task task' : Spawned}

/-- All that can happen. -/
inductive Happens (s : Searches) : Event → Searches → Prop
  | resolve (keys : List Filter) (hmain : s.main = .idle) :
      Happens s (.request (.resolve keys))
        { s with tasks := s.tasks ++ [⟨none, keys, .resolving⟩] }
  | wait {rx : ℕ} {request : Request} {search : Option Filter} (hmain : s.main = .idle)
      (hrx : s.savedSearch = .inFlight rx)
      (hsearch : ∀ filter, search = some filter → request = .save filter) :
      Happens s (.request request) { s with main := .waiting rx search }
  | save {items : Option (List ImapId)} (filter : Filter) (hmain : s.main = .idle)
      (hitems : s.savedSearch.getSavedSearch = .returns items) :
      Happens s (.request (.save filter)) { s with main := .saving items filter }
  | expunge (sequence : Option Sequence) (ok : Bool) (hmain : s.main = .idle) :
      Happens s (.request (.expunge sequence ok)) { s with main := .expunging }
  | panic (sequence : Option Sequence) (hmain : s.main = .idle) :
      Happens s (.request (.expunge sequence false)) { s with main := .panicked }
  | refuse (sequence : Option Sequence) (ok : Bool) (hmain : s.main = .idle) :
      Happens s (.request (.expunge sequence ok)) s
  | resume {rx : ℕ} {search : Option Filter} {items : List ImapId} (ok : Bool)
      (hmain : s.main = .waiting rx search) (hitems : s.received rx = some items) :
      Happens s (.changed ok) (s.resume items ok search)
  | spawn {prevSavedSearch : Option (List ImapId)} {filter : Filter}
      (hmain : s.main = .saving prevSavedSearch filter) :
      Happens s .spawn
        { savedSearch := .inFlight s.tasks.length
          tasks := s.tasks ++ [⟨some prevSavedSearch, filter.leaves, .resolving⟩]
          main := .idle }
  | expunged (ok : Bool) (hmain : s.main = .expunging) :
      Happens s (.expunged ok)
        { s with savedSearch := if ok then .none else s.savedSearch, main := .idle }
  | task {i : ℕ} {task task' : Spawned} {savedSearch : SavedSearch} (taskStep : TaskStep)
      (htask : s.tasks[i]? = some task)
      (h : task.Moves s.savedSearch s.received taskStep task' savedSearch) :
      Happens s (.task i taskStep) { s with tasks := s.tasks.set i task', savedSearch }

theorem happens_handle (hmain : s.main = .idle) (request : Request) :
    s.Happens (.request request) (s.handle request) := by
  cases request with
  | resolve keys => exact .resolve keys hmain
  | save filter =>
      rw [handle]
      cases hlookup : s.savedSearch.getSavedSearch with
      | waits rx =>
          refine .wait hmain (SavedSearch.eq_inFlight hlookup) fun filter' heq ↦ ?_
          rw [Option.some.inj heq]
      | returns items => exact .save filter hmain hlookup
  | expunge sequence ok =>
      rw [handle]
      split
      · cases hlookup : s.savedSearch.getSavedSearch with
        | waits rx => exact .wait hmain (SavedSearch.eq_inFlight hlookup) (by simp)
        | returns items =>
            cases items with
            | none => exact .refuse sequence ok hmain
            | some items =>
                cases ok with
                | false => exact .panic sequence hmain
                | true => exact .expunge sequence true hmain
      · exact .expunge sequence ok hmain

theorem happens_of_next (h : s.next e = some s') : s.Happens e s' := by
  cases e with
  | request request =>
      cases hmain : s.main with
      | idle =>
          simp only [next, hmain, Option.some.injEq] at h
          exact h ▸ happens_handle hmain request
      | _ => simp [next, hmain] at h
  | changed ok =>
      cases hmain : s.main with
      | waiting rx search =>
          simp only [next, hmain, Option.map_eq_some_iff] at h
          obtain ⟨items, hitems, rfl⟩ := h
          exact .resume ok hmain hitems
      | _ => simp [next, hmain] at h
  | spawn =>
      cases hmain : s.main with
      | saving prevSavedSearch filter =>
          simp only [next, hmain, Option.some.injEq] at h
          exact h ▸ .spawn hmain
      | _ => simp [next, hmain] at h
  | expunged ok =>
      cases hmain : s.main with
      | expunging =>
          simp only [next, hmain, Option.some.injEq] at h
          exact h ▸ .expunged ok hmain
      | _ => simp [next, hmain] at h
  | task i taskStep =>
      cases htask : s.tasks[i]? with
      | none => simp [next, htask] at h
      | some task =>
          simp only [next, htask, Option.map_eq_some_iff] at h
          obtain ⟨⟨task', savedSearch⟩, hstep, rfl⟩ := h
          exact .task taskStep htask (Spawned.moves_of_step hstep)

/-- Either the event cannot happen, or it does. -/
theorem step_cases (s : Searches) (e : Event) :
    s.next e = none ∧ step s e = s ∨ s.Happens e (step s e) := by
  rw [step]
  cases h : s.next e with
  | none => exact .inl ⟨rfl, rfl⟩
  | some s' => exact .inr (happens_of_next h)

end Searches

/-! ## With no search under way -/

/-- A mailbox as the commands find it that run one at a time. -/
def SavedSearch.ofMailbox : ImapToJmap.SavedSearch → SavedSearch
  | .none => none
  | .results items => results items

theorem sequenceToJmap_eq_noSavedSearch_iff {m : SelectedMailbox} {sequence : Sequence}
    {isUid : Bool} : m.sequenceToJmap sequence isUid = .error .noSavedSearch ↔
      sequence.isSavedSearch = true ∧ m.savedSearch = .none := by
  have hne (matched : List (ℕ × ImapId)) :
      SelectedMailbox.insertMatches m.state.jmapIds matched ≠ .error .noSavedSearch := by
    obtain ⟨ids, hok, -⟩ | ⟨herror, -⟩ :=
      SelectedMailbox.insertMatches_spec m.state.jmapIds matched
    · simp [hok]
    · simp [herror]
  rw [SelectedMailbox.sequenceToJmap]
  cases sequence.isSavedSearch with
  | false => simp [hne]
  | true =>
      cases m.savedSearch with
      | none => simp
      | results items => simp [hne]

theorem Spawned.next_ne_fail (task : Spawned) : task.next ≠ task.fail := by
  intro heq
  have hphase := congrArg phase heq
  rcases task.fail_phase_cases with ⟨hfail, -⟩ | hfail <;> cases hphase.trans hfail

/-- A set with a `$` that the search asks the mailbox for, or one without. -/
theorem Spawned.ask_eq_fail_iff {task : Spawned} {m : SelectedMailbox} {sequence : Sequence}
    {isUid : Bool} :
    (if sequence.isSavedSearch then task.ask (.ofMailbox m.savedSearch) true else task.next) =
      task.fail ↔ m.sequenceToJmap sequence isUid = .error .noSavedSearch := by
  rw [sequenceToJmap_eq_noSavedSearch_iff]
  cases sequence.isSavedSearch with
  | false => simp [next_ne_fail]
  | true =>
      cases m.savedSearch with
      | none => simp [ask, SavedSearch.ofMailbox, SavedSearch.getSavedSearch]
      | results items =>
          simp [ask, SavedSearch.ofMailbox, SavedSearch.getSavedSearch, next_ne_fail]

theorem sequenceIds_eq_noSavedSearch_iff {c : SearchContext} {sequence : Sequence}
    {uidFilter : Bool} (h : sequence = .savedSearch → c.prevSavedSearch = none) :
    c.sequenceIds sequence uidFilter = .error (.sequence .noSavedSearch) ↔
      c.mailbox.sequenceToJmap sequence (c.isUid || uidFilter) = .error .noSavedSearch := by
  rw [SearchContext.sequenceIds.eq_3]
  · cases c.mailbox.sequenceToJmap sequence (c.isUid || uidFilter) with
    | error e => simp
    | ok ids => simp
  · intro items hdollar hprev
    cases hprev.symm.trans (h hdollar)
  · intro hdollar hprev
    cases hprev.symm.trans (h hdollar)

theorem Spawned.handleKey_sequence {task : Spawned} {sequence : Sequence}
    (h : sequence = .savedSearch → task.prevSavedSearch = none) (savedSearch : SavedSearch)
    (ok uidFilter : Bool) : task.handleKey savedSearch ok (.sequence sequence uidFilter) =
      if sequence.isSavedSearch then task.ask savedSearch ok else task.next := by
  cases sequence with
  | savedSearch => simp [handleKey, h rfl]
  | _ => simp [handleKey]

/-- **A key fails where `sequenceIds` fails**, for want of a saved search. -/
theorem Spawned.handleKey_eq_fail_iff {task : Spawned} {c : SearchContext}
    (hprev : task.prevSavedSearch = c.prevSavedSearch) {sequence : Sequence} {uidFilter : Bool} :
    task.handleKey (.ofMailbox c.mailbox.savedSearch) true (.sequence sequence uidFilter) =
      task.fail ↔ c.sequenceIds sequence uidFilter = .error (.sequence .noSavedSearch) := by
  by_cases h : sequence = .savedSearch → c.prevSavedSearch = none
  · rw [handleKey_sequence (hprev ▸ h), ask_eq_fail_iff, sequenceIds_eq_noSavedSearch_iff h]
  · obtain ⟨rfl, hsome⟩ := Classical.not_imp.mp h
    obtain ⟨items, hitems⟩ := Option.ne_none_iff_exists'.mp hsome
    cases items with
    | none => simp [handleKey, SearchContext.sequenceIds, hprev, hitems]
    | some items => simp [handleKey, SearchContext.sequenceIds, hprev, hitems, next_ne_fail]

end ImapToJmap.Saving
