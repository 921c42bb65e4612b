import ImapToJmap.Commands.Hanging

/-!
# What `$` stands for while searches run

The saves of a mailbox and the times it has been cleared are written down in a log as the main loop
gets to them, and what the log stands for is a matter of what has come of its searches: the results
of the last one that has not failed, nothing if the mailbox has been cleared since, and nothing yet
as long as the last one is under way (`value`).

`get_saved_search` returns what the log stands for, as the log was when it was called and as its
searches have come out by now (`saved_in_order`).  So it is in runs that are `Orderly`.  A search
that fails while others wait for it leaves them with the empty list its channel was made with, and
puts the search from before back over what they may have saved in the meantime; an EXPUNGE that
clears the mailbox while a search is under way is undone when that comes to its end.
-/

namespace ImapToJmap.Saving

open Search (Filter)
open Run (exec Along)

/-! ## The log -/

/-- What happens to the saved search of a mailbox. -/
inductive Entry where
  | save (i : ℕ)
  | clear

/-- What has come of a search that saves: results, or none for good. -/
def Spawned.outcome (task : Spawned) : Option (Option (List ImapId)) :=
  match task.phase with
  | .resolving | .waiting _ => none
  | .stored items | .sent items => some (some items)
  | .failed | .done | .panicked => some none

/-- What has come of task `i`. -/
def outcome (tasks : List Spawned) (i : ℕ) : Option (Option (List ImapId)) :=
  tasks[i]?.bind Spawned.outcome

/-- What a log stands for, the latest entry first, if that is settled. -/
def value (tasks : List Spawned) : List Entry → Option (Option (List ImapId))
  | [] => some none
  | .clear :: _ => some none
  | .save i :: log =>
      match outcome tasks i with
      | none => none
      | some (some items) => some (some items)
      | some none => value tasks log

/-- The machine, with the log of the mailbox.  `seen` is the log at the last step of each task, and
`asked` the log at the last request. -/
structure Watched where
  searches : Searches := start
  log : List Entry := []
  seen : ℕ → List Entry := fun _ ↦ []
  asked : List Entry := []

namespace Watched

/-- The log after an event. -/
def logged (w : Watched) : Event → List Entry
  | .spawn => .save w.searches.tasks.length :: w.log
  | .expunged true => .clear :: w.log
  | _ => w.log

/-- The event has led to the state `searches`. -/
def noted (w : Watched) (e : Event) (searches : Searches) : Watched where
  searches := searches
  log := w.logged e
  seen := match e with
    | .task i _ => Function.update w.seen i w.log
    | _ => w.seen
  asked := match e with
    | .request _ => w.log
    | _ => w.asked

def step (w : Watched) (e : Event) : Watched :=
  match w.searches.next e with
  | none => w
  | some searches => w.noted e searches

/-- Watching changes nothing. -/
theorem searches_step (w : Watched) (e : Event) :
    (w.step e).searches = Saving.step w.searches e := by
  unfold step Saving.step
  cases w.searches.next e <;> rfl

theorem searches_exec (w : Watched) (es : List Event) :
    (exec step w es).searches = exec Saving.step w.searches es := by
  induction es generalizing w with
  | nil => rfl
  | cons e es ih => rw [Run.exec_cons, Run.exec_cons, ih, searches_step]

/-- The event makes `get_saved_search` return `items` to somebody who called it at `log`. -/
inductive Returns (w : Watched) : Event → List Entry → Option (List ImapId) → Prop
  | key {i : ℕ} {task : Spawned} {key : Filter} {keys : List Filter}
      {items : Option (List ImapId)} (ok : Bool) (htask : w.searches.tasks[i]? = some task)
      (hphase : task.phase = .resolving) (hkeys : task.keys = key :: keys) (hasks : task.Asks key)
      (hitems : w.searches.savedSearch.getSavedSearch = .returns items) :
      Returns w (.task i (.key ok)) w.log items
  | taskChanged {i rx : ℕ} {task : Spawned} {items : List ImapId} (ok : Bool)
      (htask : w.searches.tasks[i]? = some task) (hphase : task.phase = .waiting rx)
      (hitems : w.searches.received rx = some items) :
      Returns w (.task i (.changed ok)) (w.seen i) (some items)
  | request {items : Option (List ImapId)} (request : Request) (hmain : w.searches.main = .idle)
      (hitems : w.searches.savedSearch.getSavedSearch = .returns items) :
      Returns w (.request request) w.log items
  | changed {rx : ℕ} {search : Option Filter} {items : List ImapId} (ok : Bool)
      (hmain : w.searches.main = .waiting rx search)
      (hitems : w.searches.received rx = some items) :
      Returns w (.changed ok) w.asked (some items)

end Watched

/-- A search has failed. -/
def Searches.Gone (s : Searches) (i : ℕ) : Prop := outcome s.tasks i = some none

/-- Nobody goes on after waiting for a search that has failed, nothing is cleared while a search is
under way, and a search that saves has no `$` in a list. -/
def Searches.Orderly (s : Searches) : Event → Prop
  | .changed _ => ∀ rx search, s.main = .waiting rx search → ¬s.Gone rx
  | .expunged ok => ok = true → ∀ rx, s.savedSearch ≠ .inFlight rx
  | .task i _ => ∀ task : Spawned, s.tasks[i]? = some task →
      (task.Saves → ∀ key keys, task.keys = key :: keys → ¬Tangled key) ∧
        ∀ rx, task.phase = .waiting rx → ¬s.Gone rx
  | _ => True

/-! ## Values that are settled -/

section Value

variable {tasks tasks' : List Spawned} {task task' : Spawned} {i rx : ℕ} {log : List Entry}
  {items : List ImapId} {result : Option (List ImapId)}

theorem value_of_outcome (h : outcome tasks i = some (some items)) (log : List Entry) :
    value tasks (.save i :: log) = some (some items) := by
  rw [value, h]

theorem value_of_gone (h : outcome tasks i = some none) (log : List Entry) :
    value tasks (.save i :: log) = value tasks log := by
  rw [value, h]

/-- What is settled stays so as long as what has come of the searches does. -/
theorem value_mono (h : ∀ i result, outcome tasks i = some result → outcome tasks' i = some result)
    (hvalue : value tasks log = some result) : value tasks' log = some result := by
  induction log with
  | nil => exact hvalue
  | cons entry log ih =>
      cases entry with
      | clear => exact hvalue
      | save i =>
          cases hi : outcome tasks i with
          | none => simp [value, hi] at hvalue
          | some found =>
              cases found with
              | none =>
                  rw [value_of_gone (h i _ hi)]
                  exact ih ((value_of_gone hi log).symm.trans hvalue)
              | some items =>
                  rw [value_of_outcome (h i _ hi)]
                  exact (value_of_outcome hi log).symm.trans hvalue

theorem outcome_spawn (h : outcome tasks i = some result) :
    outcome (tasks ++ [task]) i = some result := by
  obtain ⟨task', htask, hresult⟩ := Option.bind_eq_some_iff.mp h
  have hlt := (List.getElem?_eq_some_iff.mp htask).1
  rw [outcome, List.getElem?_append_left hlt, htask]
  exact hresult

theorem outcome_update_self (htask : tasks[i]? = some task) (task' : Spawned) :
    outcome (tasks.set i task') i = task'.outcome := by
  rw [outcome, List.getElem?_set_self (List.getElem?_eq_some_iff.mp htask).1]
  rfl

theorem outcome_update_ne {j : ℕ} (hne : i ≠ j) :
    outcome (tasks.set i task') j = outcome tasks j := by
  rw [outcome, List.getElem?_set_ne hne, outcome]

/-- What has come of a task is settled. -/
theorem Spawned.Moves.outcome_eq {savedSearch savedSearch' : SavedSearch}
    {received : ℕ → Option (List ImapId)} {taskStep : TaskStep}
    (h : task.Moves savedSearch received taskStep task' savedSearch')
    (hresult : task.outcome = some result) : task'.outcome = some result := by
  cases h with
  | send hphase => simpa [outcome, hphase] using hresult
  | restore hphase => simpa [outcome, hphase] using hresult
  | resume ok hphase => simp [outcome, hphase] at hresult
  | next ok hphase | fail taskStep hphase | panic hphase | wait ok hphase | store items hphase
  | finish items hphase =>
      simp [outcome, hphase] at hresult

theorem outcome_update {savedSearch savedSearch' : SavedSearch}
    {received : ℕ → Option (List ImapId)} {taskStep : TaskStep} (htask : tasks[i]? = some task)
    (h : task.Moves savedSearch received taskStep task' savedSearch') (j : ℕ)
    (hresult : outcome tasks j = some result) : outcome (tasks.set i task') j = some result := by
  by_cases hij : i = j
  · subst hij
    rw [outcome_update_self htask]
    rw [outcome, htask] at hresult
    exact h.outcome_eq hresult
  · rwa [outcome_update_ne hij]

end Value

/-! ## The invariant -/

/-- The search has not saved its results, or put back what was there before. -/
def Spawned.Working (task : Spawned) : Prop :=
  match task.phase with
  | .resolving | .waiting _ | .failed => True
  | .stored _ | .sent _ | .done | .panicked => False

theorem Spawned.not_working_of_outcome (task : Spawned) {items : List ImapId}
    (h : task.outcome = some (some items)) : ¬task.Working := by
  rw [outcome] at h
  rw [Working]
  cases hphase : task.phase <;> simp [hphase] at h ⊢

/-- What a step of an orderly task does to the mailbox: nothing, or it ends the work of a search
that saves, and the mailbox then has what has come of that. -/
theorem Spawned.Moves.savedSearch_cases {task task' : Spawned}
    {savedSearch savedSearch' : SavedSearch} {received : ℕ → Option (List ImapId)}
    (h : task.Moves savedSearch received taskStep task' savedSearch')
    (huntangled : task.Saves → ∀ key keys, task.keys = key :: keys → ¬Tangled key)
    (hwaiting : ∀ rx, task.phase = .waiting rx → ¬task.Saves) :
    savedSearch' = savedSearch ∧ (task.Saves → (task'.Working ↔ task.Working)) ∨
      task.Saves ∧ task.Working ∧ ¬task'.Working ∧
        ((∃ items, savedSearch' = .results items ∧ task'.outcome = some (some items)) ∨
          ∃ prevSavedSearch, task.prevSavedSearch = some prevSavedSearch ∧
            savedSearch' = .ofPrev prevSavedSearch ∧ task'.outcome = some none) := by
  cases h with
  | next ok hphase => exact .inl ⟨rfl, fun _ ↦ by simp [Working, hphase]⟩
  | fail taskStep hphase =>
      refine .inl ⟨rfl, fun hsaves ↦ ?_⟩
      have hfailed : task.fail.phase = .failed := by
        simp [Spawned.fail, show task.prevSavedSearch.isSome = true from hsaves]
      simp [Working, hphase, hfailed]
  | panic hphase hkeys hasks =>
      refine .inl ⟨rfl, fun hsaves ↦ ?_⟩
      exact absurd ((asks_iff_tangled hsaves).mp hasks) (huntangled hsaves _ _ hkeys)
  | wait ok hphase => exact .inl ⟨rfl, fun _ ↦ by simp [Working, hphase]⟩
  | resume ok hphase => exact .inl ⟨rfl, fun hsaves ↦ absurd hsaves (hwaiting _ hphase)⟩
  | store items hphase hkeys hsaves =>
      refine .inr ⟨hsaves, ?_, id, .inl ⟨items, rfl, rfl⟩⟩
      simp [Working, hphase]
  | finish items hphase hkeys hsaves => exact .inl ⟨rfl, fun hc ↦ absurd hc hsaves⟩
  | send hphase => exact .inl ⟨rfl, fun _ ↦ by simp [Working, hphase]⟩
  | restore hphase hprev =>
      refine .inr ⟨?_, ?_, id, .inr ⟨_, hprev, rfl, rfl⟩⟩
      · rw [Saves, hprev]
        rfl
      · simp [Working, hphase]

theorem SavedSearch.getSavedSearch_ofPrev (prevSavedSearch : Option (List ImapId)) :
    (ofPrev prevSavedSearch).getSavedSearch = .returns prevSavedSearch := by
  cases prevSavedSearch <;> rfl

namespace Watched

variable {w : Watched} {s : Searches} {e : Event} {rx : ℕ} {items : List ImapId}

/-- The mailbox agrees with the log. -/
structure InOrder (w : Watched) : Prop where
  returns : ∀ items, w.searches.savedSearch.getSavedSearch = .returns items →
    value w.searches.tasks w.log = some items
  /-- The search that is under way is the last entry. -/
  inFlight : ∀ rx, w.searches.savedSearch = .inFlight rx →
    (∃ log, w.log = .save rx :: log) ∧
      ∃ task, w.searches.tasks[rx]? = some task ∧ task.Working
  /-- There is no other one. -/
  working : ∀ (i : ℕ) (task : Spawned), w.searches.tasks[i]? = some task → task.Saves →
    task.Working → w.searches.savedSearch = .inFlight i
  /-- It knows what was there before. -/
  prev : ∀ i log, w.log = .save i :: log → ∃ task prevSavedSearch,
    w.searches.tasks[i]? = some task ∧ task.prevSavedSearch = some prevSavedSearch ∧
      value w.searches.tasks log = some prevSavedSearch
  waiting : ∀ (i : ℕ) (task : Spawned) rx, w.searches.tasks[i]? = some task →
    task.phase = .waiting rx → ¬task.Saves ∧ ∃ log, w.seen i = .save rx :: log
  mainWaiting : ∀ rx search, w.searches.main = .waiting rx search →
    w.asked = w.log ∧ ∃ log, w.log = .save rx :: log
  mainSaving : ∀ items filter, w.searches.main = .saving items filter →
    (∀ rx, w.searches.savedSearch ≠ .inFlight rx) ∧ value w.searches.tasks w.log = some items

theorem inOrder_start : ({} : Watched).InOrder where
  returns items h := by
    obtain rfl : none = items := Lookup.returns.inj h
    rfl
  inFlight rx h := by cases h
  working i task h := by simp [start] at h
  prev i log h := by cases h
  waiting i task rx h := by simp [start] at h
  mainWaiting rx search h := by cases h
  mainSaving items filter h := by cases h

/-- What has been sent is what has come of the search, if that has not failed. -/
theorem outcome_of_received (h : s.received rx = some items) (hgone : ¬s.Gone rx) :
    outcome s.tasks rx = some (some items) := by
  obtain ⟨task, htask, hitems⟩ := Option.bind_eq_some_iff.mp h
  rw [Searches.Gone, outcome, htask] at hgone
  rw [outcome, htask]
  show task.outcome = _
  have hgone : task.outcome ≠ some none := hgone
  rw [Spawned.received] at hitems
  rw [Spawned.outcome] at hgone ⊢
  cases hphase : task.phase <;> simp_all

/-- **What is returned is the value of the log.** -/
theorem Returns.value_eq {log : List Entry} {items : Option (List ImapId)}
    (h : w.Returns e log items) (hw : w.InOrder) (he : w.searches.Orderly e) :
    value w.searches.tasks log = some items := by
  cases h with
  | key ok htask hphase hkeys hasks hitems => exact hw.returns items hitems
  | taskChanged ok htask hphase hitems =>
      obtain ⟨-, log, hlog⟩ := hw.waiting _ _ _ htask hphase
      rw [hlog]
      exact value_of_outcome (outcome_of_received hitems ((he _ htask).2 _ hphase)) log
  | request request hmain hitems => exact hw.returns items hitems
  | changed ok hmain hitems =>
      obtain ⟨hasked, log, hlog⟩ := hw.mainWaiting _ _ hmain
      rw [hasked, hlog]
      exact value_of_outcome (outcome_of_received hitems (he _ _ hmain)) log

theorem InOrder.noted_resolve (hw : w.InOrder) (keys : List Filter)
    (hmain : w.searches.main = .idle) :
    (w.noted (.request (.resolve keys)) { w.searches with
      tasks := w.searches.tasks ++ [⟨none, keys, .resolving⟩] }).InOrder := by
  have hvalue {log : List Entry} {result : Option (List ImapId)}
      (h : value w.searches.tasks log = some result) :
      value (w.searches.tasks ++ [⟨none, keys, .resolving⟩]) log = some result :=
    value_mono (fun _ _ ↦ outcome_spawn) h
  have hget {i : ℕ} {task : Spawned} (h : w.searches.tasks[i]? = some task) :
      (w.searches.tasks ++ [⟨none, keys, .resolving⟩])[i]? = some task :=
    (List.getElem?_append_left (List.getElem?_eq_some_iff.mp h).1).trans h
  constructor
  case returns => exact fun items hitems ↦ hvalue (hw.returns items hitems)
  case inFlight =>
    intro rx hrx
    obtain ⟨hlog, task, htask, hworking⟩ := hw.inFlight rx hrx
    exact ⟨hlog, task, hget htask, hworking⟩
  case working =>
    intro i task htask hsaves hworking
    rcases getElem?_spawn htask with htask | ⟨-, rfl⟩
    · exact hw.working i task htask hsaves hworking
    · cases hsaves
  case prev =>
    intro i log hlog
    obtain ⟨task, prevSavedSearch, htask, hprev, hlog⟩ := hw.prev i log hlog
    exact ⟨task, prevSavedSearch, hget htask, hprev, hvalue hlog⟩
  case waiting =>
    intro i task rx htask hphase
    rcases getElem?_spawn htask with htask | ⟨-, rfl⟩
    · exact hw.waiting i task rx htask hphase
    · cases hphase
  case mainWaiting => exact fun rx search hrx ↦ absurd (hmain.symm.trans hrx) (by simp)
  case mainSaving => exact fun items filter hitems ↦ absurd (hmain.symm.trans hitems) (by simp)

theorem InOrder.noted_spawn (hw : w.InOrder) {prevSavedSearch : Option (List ImapId)}
    {filter : Filter} (hmain : w.searches.main = .saving prevSavedSearch filter) :
    (w.noted .spawn
      { savedSearch := .inFlight w.searches.tasks.length
        tasks := w.searches.tasks ++ [⟨some prevSavedSearch, filter.leaves, .resolving⟩]
        main := .idle }).InOrder := by
  obtain ⟨hno, hvalue⟩ := hw.mainSaving _ _ hmain
  constructor
  case returns => exact fun items hitems ↦ by cases hitems
  case inFlight =>
    intro rx hrx
    obtain rfl := SavedSearch.inFlight.inj hrx
    exact ⟨⟨w.log, rfl⟩, _, List.getElem?_concat_length, trivial⟩
  case working =>
    intro i task htask hsaves hworking
    rcases getElem?_spawn htask with htask | ⟨rfl, -⟩
    -- no other search is at work
    · exact absurd (hw.working i task htask hsaves hworking) (hno i)
    · rfl
  case prev =>
    intro i log hlog
    obtain ⟨hentry, rfl⟩ := List.cons.inj hlog
    obtain rfl := Entry.save.inj hentry
    exact ⟨_, prevSavedSearch, List.getElem?_concat_length, rfl,
      value_mono (fun _ _ ↦ outcome_spawn) hvalue⟩
  case waiting =>
    intro i task rx htask hphase
    rcases getElem?_spawn htask with htask | ⟨-, rfl⟩
    · exact hw.waiting i task rx htask hphase
    · cases hphase
  case mainWaiting => exact fun rx search hrx ↦ by cases hrx
  case mainSaving => exact fun items filter hitems ↦ by cases hitems

theorem InOrder.noted_task (hw : w.InOrder) {i : ℕ} {task task' : Spawned}
    {savedSearch : SavedSearch} (taskStep : TaskStep) (htask : w.searches.tasks[i]? = some task)
    (h : task.Moves w.searches.savedSearch w.searches.received taskStep task' savedSearch)
    (he : w.searches.Orderly (.task i taskStep)) :
    (w.noted (.task i taskStep) { w.searches with
      tasks := w.searches.tasks.set i task', savedSearch }).InOrder := by
  obtain ⟨huntangled, -⟩ := he task htask
  have hvalue {log : List Entry} {result : Option (List ImapId)}
      (hresult : value w.searches.tasks log = some result) :
      value (w.searches.tasks.set i task') log = some result :=
    value_mono (fun j _ ↦ outcome_update htask h j) hresult
  have hself : (w.searches.tasks.set i task')[i]? = some task' :=
    List.getElem?_set_self (List.getElem?_eq_some_iff.mp htask).1
  have hprev {j : ℕ} {log : List Entry} (hlog : w.log = .save j :: log) :
      ∃ task prevSavedSearch, (w.searches.tasks.set i task')[j]? = some task ∧
        task.prevSavedSearch = some prevSavedSearch ∧
          value (w.searches.tasks.set i task') log = some prevSavedSearch := by
    obtain ⟨task'', prevSavedSearch, htask'', hprev, hrest⟩ := hw.prev j log hlog
    by_cases hij : i = j
    · subst hij
      obtain rfl := Option.some.inj (htask.symm.trans htask'')
      exact ⟨task', prevSavedSearch, hself, h.prevSavedSearch_eq.trans hprev, hvalue hrest⟩
    · exact ⟨task'', prevSavedSearch, (List.getElem?_set_ne hij).trans htask'', hprev,
        hvalue hrest⟩
  have hwaiting (j : ℕ) (task'' : Spawned) (rx : ℕ)
      (hget : (w.searches.tasks.set i task')[j]? = some task'')
      (hphase : task''.phase = .waiting rx) :
      ¬task''.Saves ∧ ∃ log, Function.update w.seen i w.log j = .save rx :: log := by
    rcases getElem?_update hget with ⟨rfl, rfl⟩ | ⟨hne, hget⟩
    · obtain ⟨hss, rfl, key, keys, hkeys, hasks⟩ := h.of_waiting hphase
      refine ⟨fun hsaves ↦ ?_, (hw.inFlight rx hss).1.imp fun log hlog ↦ ?_⟩
      · exact huntangled hsaves key keys hkeys ((asks_iff_tangled hsaves).mp hasks)
      · rwa [Function.update_self]
    · rw [Function.update_of_ne hne]
      exact hw.waiting j task'' rx hget hphase
  obtain ⟨rfl, hworking⟩ | ⟨hsaves, hworking, hended, hresult⟩ :=
    h.savedSearch_cases huntangled fun rx hphase ↦ (hw.waiting i task rx htask hphase).1
  · constructor
    case returns => exact fun items hitems ↦ hvalue (hw.returns items hitems)
    case inFlight =>
      intro rx hrx
      obtain ⟨⟨log, hlog⟩, task'', htask'', hworking''⟩ := hw.inFlight rx hrx
      refine ⟨⟨log, hlog⟩, ?_⟩
      by_cases hij : i = rx
      · subst hij
        obtain rfl := Option.some.inj (htask.symm.trans htask'')
        obtain ⟨task'', prevSavedSearch, htask'', hprev, -⟩ := hw.prev _ _ hlog
        obtain rfl := Option.some.inj (htask.symm.trans htask'')
        have hsaves : task.Saves := by
          rw [Spawned.Saves, hprev]
          rfl
        exact ⟨task', hself, (hworking hsaves).mpr hworking''⟩
      · exact ⟨task'', (List.getElem?_set_ne hij).trans htask'', hworking''⟩
    case working =>
      intro j task'' hget hsaves hworking''
      rcases getElem?_update hget with ⟨rfl, rfl⟩ | ⟨-, hget⟩
      · have hsaves : task.Saves := by rwa [Spawned.Saves, ← h.prevSavedSearch_eq]
        exact hw.working j task htask hsaves ((hworking hsaves).mp hworking'')
      · exact hw.working j task'' hget hsaves hworking''
    case prev => exact fun j log ↦ hprev
    case waiting => exact hwaiting
    case mainWaiting => exact hw.mainWaiting
    case mainSaving =>
      intro items filter hitems
      obtain ⟨hno, hitems⟩ := hw.mainSaving items filter hitems
      exact ⟨hno, hvalue hitems⟩
  · -- the search was the one under way
    have hss := hw.working i task htask hsaves hworking
    obtain ⟨⟨log, hlog⟩, -⟩ := hw.inFlight i hss
    have houtcome : outcome (w.searches.tasks.set i task') i = task'.outcome :=
      outcome_update_self htask task'
    have hsettled : ∃ items, savedSearch.getSavedSearch = .returns items ∧
        value (w.searches.tasks.set i task') w.log = some items := by
      rcases hresult with ⟨items, rfl, hitems⟩ | ⟨prevSavedSearch, hprev', rfl, hgone⟩
      · refine ⟨some items, rfl, ?_⟩
        rw [hlog]
        exact value_of_outcome (houtcome.trans hitems) log
      · refine ⟨prevSavedSearch, SavedSearch.getSavedSearch_ofPrev _, ?_⟩
        obtain ⟨task'', prevSavedSearch', htask'', hprev'', hrest⟩ := hw.prev i log hlog
        obtain rfl := Option.some.inj (htask.symm.trans htask'')
        obtain rfl := Option.some.inj (hprev'.symm.trans hprev'')
        rw [hlog, value_of_gone (houtcome.trans hgone)]
        exact hvalue hrest
    obtain ⟨items, hreturns, hitems⟩ := hsettled
    have hno (rx : ℕ) : savedSearch ≠ .inFlight rx := by
      rintro rfl
      cases hreturns
    constructor
    case returns =>
      intro items' hitems'
      obtain rfl := Lookup.returns.inj (hreturns.symm.trans hitems')
      exact hitems
    case inFlight => exact fun rx hrx ↦ absurd hrx (hno rx)
    case working =>
      intro j task'' hget hsaves' hworking'
      rcases getElem?_update hget with ⟨rfl, rfl⟩ | ⟨hne, hget⟩
      · exact absurd hworking' hended
      · have hj := hw.working j task'' hget hsaves' hworking'
        exact absurd (SavedSearch.inFlight.inj (hj.symm.trans hss)) hne
    case prev => exact fun j log ↦ hprev
    case waiting => exact hwaiting
    case mainWaiting => exact hw.mainWaiting
    case mainSaving =>
      intro items filter hitems
      exact absurd hss ((hw.mainSaving items filter hitems).1 i)

/-- The main loop goes on, and nothing is written down. -/
theorem InOrder.noted_main (hw : w.InOrder) {main : Main} {asked : List Entry}
    (hwaiting : ∀ rx search, main = .waiting rx search →
      asked = w.log ∧ ∃ log, w.log = .save rx :: log)
    (hsaving : ∀ items filter, main = .saving items filter →
      (∀ rx, w.searches.savedSearch ≠ .inFlight rx) ∧
        value w.searches.tasks w.log = some items) :
    (⟨{ w.searches with main }, w.log, w.seen, asked⟩ : Watched).InOrder :=
  { hw with
    mainWaiting := hwaiting
    mainSaving := hsaving }

/-- What the main loop has waited for has come, and no search is under way. -/
theorem InOrder.noted_changed (hw : w.InOrder) {search : Option Filter} (ok : Bool)
    (hmain : w.searches.main = .waiting rx search) (hitems : w.searches.received rx = some items)
    (hgone : ¬w.searches.Gone rx) :
    (w.noted (.changed ok) (w.searches.resume items ok search)).InOrder := by
  obtain ⟨-, log, hlog⟩ := hw.mainWaiting rx search hmain
  have houtcome := outcome_of_received hitems hgone
  cases search with
  | none => exact hw.noted_main (by cases ok <;> simp) (by cases ok <;> simp)
  | some filter =>
      refine hw.noted_main (by simp) fun items' filter' heq ↦ ⟨fun rx' hrx' ↦ ?_, ?_⟩
      · obtain ⟨⟨log', hlog'⟩, task, htask, hworking⟩ := hw.inFlight rx' hrx'
        obtain ⟨hentry, -⟩ := List.cons.inj (hlog.symm.trans hlog')
        obtain rfl := Entry.save.inj hentry
        -- the last search has come to its end
        rw [outcome, htask] at houtcome
        exact task.not_working_of_outcome houtcome hworking
      · obtain ⟨rfl, -⟩ := Main.saving.inj heq
        rw [hlog]
        exact value_of_outcome houtcome log

theorem InOrder.noted_expunged (hw : w.InOrder) {ok : Bool}
    (hno : ok = true → ∀ rx, w.searches.savedSearch ≠ .inFlight rx) :
    (w.noted (.expunged ok) { w.searches with
      savedSearch := if ok then .none else w.searches.savedSearch, main := .idle }).InOrder := by
  cases ok with
  | false => exact hw.noted_main (by simp) (by simp)
  | true =>
      constructor
      case returns =>
        intro items hitems
        obtain rfl := Lookup.returns.inj hitems
        rfl
      case inFlight => exact fun rx hrx ↦ by cases hrx
      case working =>
        intro i task htask hsaves hworking
        exact absurd (hw.working i task htask hsaves hworking) (hno rfl i)
      case prev => exact fun i log hlog ↦ by cases hlog
      case waiting => exact hw.waiting
      case mainWaiting => exact fun rx search hrx ↦ by cases hrx
      case mainSaving => exact fun items filter hitems ↦ by cases hitems

theorem InOrder.noted (hw : w.InOrder) (h : w.searches.Happens e s)
    (he : w.searches.Orderly e) : (w.noted e s).InOrder := by
  cases h with
  | resolve keys hmain => exact hw.noted_resolve keys hmain
  | wait hmain hrx =>
      refine hw.noted_main (fun rx' search' heq ↦ ?_) (by simp)
      obtain ⟨rfl, -⟩ := Main.waiting.inj heq
      exact ⟨rfl, (hw.inFlight _ hrx).1⟩
  | save filter hmain hitems =>
      refine hw.noted_main (by simp) fun items' filter' heq ↦ ?_
      obtain ⟨rfl, -⟩ := Main.saving.inj heq
      refine ⟨fun rx hrx ↦ ?_, hw.returns _ hitems⟩
      rw [hrx] at hitems
      cases hitems
  | expunge sequence ok => exact hw.noted_main (by simp) (by simp)
  | panic sequence => exact hw.noted_main (by simp) (by simp)
  | refuse sequence ok hmain => exact hw.noted_main (by simp [hmain]) (by simp [hmain])
  | resume ok hmain hitems => exact hw.noted_changed ok hmain hitems (he _ _ hmain)
  | spawn hmain => exact hw.noted_spawn hmain
  | expunged ok hmain => exact hw.noted_expunged he
  | task taskStep htask h => exact hw.noted_task taskStep htask h he

theorem InOrder.step (hw : w.InOrder) (he : w.searches.Orderly e) : (w.step e).InOrder := by
  unfold Watched.step
  cases hnext : w.searches.next e with
  | none => exact hw
  | some s => exact hw.noted (Searches.happens_of_next hnext) he

end Watched

/-- A search that saves its results is at work. -/
def Searches.AtWork (s : Searches) (i : ℕ) : Prop :=
  ∃ task, s.tasks[i]? = some task ∧ task.Saves ∧ task.Working

open Watched in
/-- **Saved searches are seen in order.**  In every orderly run, whatever `get_saved_search` returns
and whoever called it, it is what the log stands for as it was at the time of the call; and of the
searches that save their results never more than one is at work. -/
theorem saved_in_order {es : List Event}
    (h : Along Watched.step (fun w e ↦ w.searches.Orderly e) {} es) :
    Along Watched.step (fun w e ↦
      (∀ log items, w.Returns e log items → value w.searches.tasks log = some items) ∧
        ∀ i j, w.searches.AtWork i → w.searches.AtWork j → i = j) {} es := by
  refine Run.along_of_inv InOrder inOrder_start (fun w e hw he ↦ hw.step he)
    (fun w e hw he ↦ ⟨fun log items hreturns ↦ hreturns.value_eq hw he, ?_⟩) h
  rintro i j ⟨task, htask, hsaves, hworking⟩ ⟨task', htask', hsaves', hworking'⟩
  have hi := hw.working i task htask hsaves hworking
  have hj := hw.working j task' htask' hsaves' hworking'
  exact SavedSearch.inFlight.inj (hi.symm.trans hj)

theorem saved_in_order_fetch :
    value (exec Watched.step {} fetchWaits).searches.tasks [.save 0] = some (some [⟨7, 1⟩]) := by
  have horderly : Along Watched.step (fun w e ↦ w.searches.Orderly e) {}
      (fetchWaits ++ [.task 1 (.changed true)]) := by
    refine ⟨trivial, trivial, trivial, ?_, ?_, ?_, ?_, ?_, trivial⟩
    all_goals
      intro task htask
      obtain rfl := Option.some.inj htask
      refine ⟨fun hsaves key keys hkeys ↦ ?_, fun rx hrx ↦ ?_⟩
    · cases hsaves
    · cases hrx
    · obtain ⟨rfl, -⟩ := List.cons.inj hkeys
      exact id
    · cases hrx
    · cases hkeys
    · cases hrx
    · cases hkeys
    · cases hrx
    · cases hsaves
    · obtain rfl := Phase.waiting.inj hrx
      intro hgone
      cases hgone
  obtain ⟨-, hlast, -⟩ := Run.along_append.mp (saved_in_order horderly)
  exact hlast.1 _ _ (.taskChanged true rfl rfl rfl)

/-- A search that is waited for fails; the one that has waited saves its results, and loses them. -/
example : (exec step start
    [.request (.save .all), .spawn, .request (.save .all), .task 0 (.key true),
      .task 0 (.answered none), .changed true, .spawn, .task 1 (.key true),
      .task 1 (.answered (some [⟨7, 1⟩])), .task 1 .send, .task 0 .restore]).savedSearch =
    .none := rfl

end ImapToJmap.Saving
