import ImapToJmap.Commands.InFlight
import ImapToJmap.Parser.SequenceSet
import ImapToJmap.Run.Rank

/-!
# Searches that wait for themselves

Whoever waits, waits for a search that saves its results, and a search that saves waits for itself
or for one spawned later (`Invariant`).  So nothing stands in the way but a search that waits for
itself: once no step is left but new requests, a command is over unless it hangs on such a search,
and what hangs does so for ever (`settles`).

A search comes to wait for itself if `$` stands in a list of its keys, as in `1,$`.  Only `$` alone
is taken from before the command; the list is left to `sequence_to_jmap`, and that finds the channel
of the search itself (`search_hangs_iff`).  A session in which no search that saves has such a list
comes to its end whatever the order of the steps (`quiet_of_plain`).
-/

namespace ImapToJmap.Saving

open Search (Filter)
open Run (exec Along Lowers)

/-! ## Who waits for whom -/

/-- Task `i` is a search that saves. -/
def SavesAt (tasks : List Spawned) (i : ℕ) : Prop := ∃ task, tasks[i]? = some task ∧ task.Saves

section Tasks

variable {tasks : List Spawned} {task task' task'' : Spawned} {i j : ℕ}

theorem getElem?_spawn (h : (tasks ++ [task])[i]? = some task') :
    tasks[i]? = some task' ∨ i = tasks.length ∧ task' = task := by
  rw [List.getElem?_append] at h
  split at h
  · exact .inl h
  · obtain ⟨hlt, rfl⟩ := List.getElem?_eq_some_iff.mp h
    rw [List.length_singleton] at hlt
    exact .inr ⟨by omega, List.getElem_singleton _⟩

theorem getElem?_update (h : (tasks.set i task)[j]? = some task') :
    j = i ∧ task' = task ∨ j ≠ i ∧ tasks[j]? = some task' := by
  rw [List.getElem?_set] at h
  split at h
  · next hij =>
      split at h
      · exact .inl ⟨hij.symm, (Option.some.inj h).symm⟩
      · cases h
  · next hij => exact .inr ⟨Ne.symm hij, h⟩

theorem savesAt_spawn :
    SavesAt (tasks ++ [task]) i ↔ SavesAt tasks i ∨ i = tasks.length ∧ task.Saves := by
  constructor
  · rintro ⟨task', hget, hsaves⟩
    rcases getElem?_spawn hget with hget | ⟨rfl, rfl⟩
    · exact .inl ⟨task', hget, hsaves⟩
    · exact .inr ⟨rfl, hsaves⟩
  · rintro (⟨task', hget, hsaves⟩ | ⟨rfl, hsaves⟩)
    · have hlt := (List.getElem?_eq_some_iff.mp hget).1
      exact ⟨task', (List.getElem?_append_left hlt).trans hget, hsaves⟩
    · exact ⟨task, List.getElem?_concat_length, hsaves⟩

theorem savesAt_update (htask : tasks[i]? = some task)
    (hprev : task'.prevSavedSearch = task.prevSavedSearch) :
    SavesAt (tasks.set i task') j ↔ SavesAt tasks j := by
  constructor
  · rintro ⟨task'', hget, hsaves⟩
    rcases getElem?_update hget with ⟨rfl, rfl⟩ | ⟨-, hget⟩
    · exact ⟨task, htask, by rwa [Spawned.Saves, ← hprev]⟩
    · exact ⟨task'', hget, hsaves⟩
  · rintro ⟨task'', hget, hsaves⟩
    by_cases hij : i = j
    · subst hij
      obtain rfl := Option.some.inj (htask.symm.trans hget)
      refine ⟨task', List.getElem?_set_self (List.getElem?_eq_some_iff.mp hget).1, ?_⟩
      rwa [Spawned.Saves, hprev]
    · exact ⟨task'', (List.getElem?_set_ne hij).trans hget, hsaves⟩

end Tasks

namespace Searches

variable {s s' : Searches} {e : Event} {i rx : ℕ} {task task' : Spawned}

/-- Only searches that save are waited for, the one that is under way has been spawned last of them,
and one that waits itself waits for none from before. -/
structure Invariant (s : Searches) : Prop where
  inFlight : ∀ rx, s.savedSearch = .inFlight rx →
    SavesAt s.tasks rx ∧ ∀ i, SavesAt s.tasks i → i ≤ rx
  main : ∀ rx search, s.main = .waiting rx search → SavesAt s.tasks rx
  waiting : ∀ (i : ℕ) (task : Spawned) rx, s.tasks[i]? = some task → task.phase = .waiting rx →
    SavesAt s.tasks rx ∧ (task.Saves → i ≤ rx) ∧
      ∃ key keys, task.keys = key :: keys ∧ task.Asks key
  failed : ∀ (i : ℕ) (task : Spawned), s.tasks[i]? = some task → task.phase = .failed → task.Saves

theorem invariant_start : start.Invariant where
  inFlight rx h := by cases h
  main rx search h := by cases h
  waiting i task rx h := by simp [start] at h
  failed i task h := by simp [start] at h

/-- A task that has been spawned has its keys before it. -/
theorem Invariant.tasks_spawn (h : s.Invariant) {prevSavedSearch : Option (Option (List ImapId))}
    {keys : List Filter} {tasks : List Spawned}
    (htasks : tasks = s.tasks ++ [⟨prevSavedSearch, keys, .resolving⟩]) :
    (∀ (i : ℕ) (task : Spawned) rx, tasks[i]? = some task → task.phase = .waiting rx →
      SavesAt tasks rx ∧ (task.Saves → i ≤ rx) ∧
        ∃ key keys, task.keys = key :: keys ∧ task.Asks key) ∧
      ∀ (i : ℕ) (task : Spawned), tasks[i]? = some task → task.phase = .failed → task.Saves := by
  subst htasks
  constructor
  · intro i task rx hget hphase
    rcases getElem?_spawn hget with hget | ⟨-, rfl⟩
    · obtain ⟨hsaves, hrest⟩ := h.waiting i task rx hget hphase
      exact ⟨savesAt_spawn.mpr (.inl hsaves), hrest⟩
    · cases hphase
  · intro i task hget hphase
    rcases getElem?_spawn hget with hget | ⟨-, rfl⟩
    · exact h.failed i task hget hphase
    · cases hphase

/-- The main loop has nothing to wait for. -/
theorem Invariant.withMain (h : s.Invariant) {main : Main}
    (hmain : ∀ rx search, main ≠ .waiting rx search) : ({ s with main } : Searches).Invariant :=
  ⟨h.inFlight, fun rx search hrx ↦ absurd hrx (hmain rx search), h.waiting, h.failed⟩

theorem Happens.invariant (h : s.Happens e s') (hs : s.Invariant) : s'.Invariant := by
  cases h with
  | resolve keys hmain =>
      obtain ⟨hwaiting, hfailed⟩ := hs.tasks_spawn rfl
      refine ⟨fun rx hrx ↦ ?_, fun rx search hrx ↦ ?_, hwaiting, hfailed⟩
      · obtain ⟨hsaves, hlast⟩ := hs.inFlight rx hrx
        refine ⟨savesAt_spawn.mpr (.inl hsaves), fun i hi ↦ ?_⟩
        rcases savesAt_spawn.mp hi with hi | ⟨-, hi⟩
        · exact hlast i hi
        · cases hi
      · cases hmain.symm.trans hrx
  | wait hmain hrx =>
      refine ⟨hs.inFlight, fun rx' search' hrx' ↦ ?_, hs.waiting, hs.failed⟩
      obtain ⟨rfl, -⟩ := Main.waiting.inj hrx'
      exact (hs.inFlight _ hrx).1
  | save filter => exact hs.withMain (by simp)
  | expunge sequence ok => exact hs.withMain (by simp)
  | panic sequence => exact hs.withMain (by simp)
  | refuse sequence ok hmain => exact hs
  | @resume rx search items ok hmain hitems =>
      cases search with
      | none => exact hs.withMain (by cases ok <;> simp)
      | some filter => exact hs.withMain (by simp)
  | spawn hmain =>
      obtain ⟨hwaiting, hfailed⟩ := hs.tasks_spawn rfl
      refine ⟨fun rx hrx ↦ ?_, by simp, hwaiting, hfailed⟩
      obtain rfl := SavedSearch.inFlight.inj hrx
      refine ⟨savesAt_spawn.mpr (.inr ⟨rfl, rfl⟩), fun i hi ↦ ?_⟩
      rcases savesAt_spawn.mp hi with ⟨task, hget, -⟩ | ⟨rfl, -⟩
      · exact (List.getElem?_eq_some_iff.mp hget).1.le
      · exact le_rfl
  | expunged ok hmain =>
      refine ⟨fun rx hrx ↦ ?_, by simp, hs.waiting, hs.failed⟩
      cases ok with
      | false => exact hs.inFlight rx hrx
      | true => cases hrx
  | @task i task task' savedSearch taskStep htask h =>
      have hsaves (j : ℕ) : SavesAt (s.tasks.set i task') j ↔ SavesAt s.tasks j :=
        savesAt_update htask h.prevSavedSearch_eq
      refine ⟨fun rx hrx ↦ ?_, fun rx search hrx ↦ ?_, fun j task'' rx hget hphase ↦ ?_,
        fun j task'' hget hphase ↦ ?_⟩
      · simp only [hsaves]
        exact hs.inFlight rx (h.of_inFlight hrx)
      · exact (hsaves rx).mpr (hs.main rx search hrx)
      · rw [hsaves]
        rcases getElem?_update hget with ⟨rfl, rfl⟩ | ⟨-, hget⟩
        · obtain ⟨hss, rfl, hasks⟩ := h.of_waiting hphase
          obtain ⟨hrx, hlast⟩ := hs.inFlight rx hss
          exact ⟨hrx, fun hj ↦ hlast j ⟨task, htask, hj⟩, hasks⟩
        · exact hs.waiting j task'' rx hget hphase
      · rcases getElem?_update hget with ⟨rfl, rfl⟩ | ⟨-, hget⟩
        · exact h.of_failed hphase
        · exact hs.failed j task'' hget hphase

theorem invariant_step (h : s.Invariant) (e : Event) : (step s e).Invariant := by
  rcases s.step_cases e with ⟨-, heq⟩ | hnext
  · rwa [heq]
  · exact hnext.invariant h

theorem invariant_exec (h : s.Invariant) (es : List Event) : (exec step s es).Invariant :=
  Run.exec_induct (C := fun _ _ ↦ True) Invariant h (fun _ e hs _ ↦ invariant_step hs e)
    (Run.along_of_forall fun _ _ _ ↦ trivial)

end Searches

/-! ## How far there is to go -/

namespace Spawned

variable {task task' : Spawned} {savedSearch savedSearch' : SavedSearch}
  {received : ℕ → Option (List ImapId)}

/-- More than the steps that a task has left. -/
def rank (task : Spawned) : ℕ :=
  match task.phase with
  | .resolving => 2 * task.keys.length + 2
  | .waiting _ => 2 * (task.keys.length - 1) + 3
  | .stored _ | .failed => 1
  | .sent _ | .done | .panicked => 0

theorem rank_resolving (h : task.phase = .resolving) : task.rank = 2 * task.keys.length + 2 := by
  rw [rank, h]

theorem rank_waiting {rx : ℕ} (h : task.phase = .waiting rx) :
    task.rank = 2 * (task.keys.length - 1) + 3 := by
  rw [rank, h]

theorem rank_next : task.next.rank = 2 * (task.keys.length - 1) + 2 := by
  rw [rank_resolving task.next_phase, next, List.length_tail]

theorem rank_fail_le : task.fail.rank ≤ 1 := by
  rw [rank]
  rcases task.fail_phase_cases with ⟨hphase, -⟩ | hphase
  · rw [hphase]
  · rw [hphase]
    exact Nat.zero_le _

theorem Moves.rank_lt {taskStep : TaskStep}
    (h : task.Moves savedSearch received taskStep task' savedSearch') :
    task'.rank < task.rank := by
  cases h with
  | next ok hphase hkeys =>
      rw [rank_next, rank_resolving hphase, hkeys, List.length_cons]
      omega
  | fail taskStep hphase =>
      have hle := task.rank_fail_le
      rw [rank_resolving hphase]
      omega
  | panic hphase =>
      rw [rank_resolving hphase]
      exact Nat.succ_pos _
  | wait ok hphase hkeys =>
      rw [rank_resolving hphase, rank_waiting rfl, hkeys, List.length_cons]
      omega
  | resume ok hphase =>
      rw [rank_waiting hphase]
      cases ok with
      | false => exact Nat.succ_pos _
      | true =>
          rw [if_pos rfl, rank_next]
          exact Nat.lt_succ_self _
  | store items hphase =>
      rw [rank_resolving hphase]
      exact Nat.succ_lt_succ (Nat.succ_pos _)
  | finish items hphase =>
      rw [rank_resolving hphase]
      exact Nat.succ_pos _
  | send hphase => simp [rank, hphase]
  | restore hphase => simp [rank, hphase]

end Spawned

/-- More than the steps that the main loop has left, counting in the search that it spawns. -/
def Main.rank : Main → ℕ
  | .idle => 0
  | .waiting _ none => 2
  | .waiting _ (some filter) => 2 * filter.leaves.length + 4
  | .saving _ filter => 2 * filter.leaves.length + 3
  | .expunging => 1
  | .panicked => 0

theorem sum_rank_update {tasks : List Spawned} {i : ℕ} {task : Spawned}
    (htask : tasks[i]? = some task) (task' : Spawned) :
    ((tasks.set i task').map Spawned.rank).sum + task.rank =
      (tasks.map Spawned.rank).sum + task'.rank := by
  induction tasks generalizing i with
  | nil => simp at htask
  | cons task'' tasks ih =>
      cases i with
      | zero =>
          obtain rfl : task'' = task := by simpa using htask
          simp only [List.set_cons_zero, List.map_cons, List.sum_cons]
          omega
      | succ i =>
          have hrest := ih (i := i) (by simpa using htask)
          simp only [List.set_cons_succ, List.map_cons, List.sum_cons]
          omega

namespace Searches

variable {s s' : Searches} {e : Event} {i rx : ℕ} {task task' : Spawned}

def rank (s : Searches) : ℕ := (s.tasks.map Spawned.rank).sum + s.main.rank

/-- The event can happen, and is not that a request comes in. -/
def Proceeds (s : Searches) (e : Event) : Prop :=
  (s.next e).isSome = true ∧ ∀ request, e ≠ .request request

/-- **What has been begun gets nearer to its end** with every step. -/
theorem lowers_rank : Lowers step Proceeds rank := by
  rintro s e ⟨hnext, hno⟩
  rcases s.step_cases e with ⟨hnone, -⟩ | h
  · rw [hnone] at hnext
    cases hnext
  revert h
  generalize step s e = s'
  intro h
  cases h with
  | resolve keys => exact absurd rfl (hno _)
  | wait => exact absurd rfl (hno _)
  | save filter => exact absurd rfl (hno _)
  | expunge sequence => exact absurd rfl (hno _)
  | panic sequence => exact absurd rfl (hno _)
  | refuse sequence => exact absurd rfl (hno _)
  | @resume rx search items ok hmain hitems =>
      cases search with
      | none => cases ok <;> simp [rank, resume, lookUp, hmain, Main.rank]
      | some filter => simp [rank, resume, hmain, Main.rank]
  | spawn hmain =>
      simp only [rank, hmain, Main.rank, List.map_append, List.sum_append, List.map_singleton,
        List.sum_singleton, Spawned.rank_resolving]
      omega
  | expunged ok hmain => simp [rank, hmain, Main.rank]
  | @task i task task' savedSearch taskStep htask h =>
      have hsum := sum_rank_update htask task'
      have hlt := h.rank_lt
      simp only [rank]
      omega

end Searches

/-! ## Searches that wait for themselves -/

/-- Task `i` waits for itself, or for one that hangs. -/
inductive Hangs (tasks : List Spawned) : ℕ → Prop
  | self {i : ℕ} {task : Spawned} (htask : tasks[i]? = some task)
      (hphase : task.phase = .waiting i) : Hangs tasks i
  | waits {i rx : ℕ} {task : Spawned} (htask : tasks[i]? = some task)
      (hphase : task.phase = .waiting rx) (h : Hangs tasks rx) : Hangs tasks i

theorem Hangs.waiting {tasks : List Spawned} {i : ℕ} (h : Hangs tasks i) :
    ∃ task rx, tasks[i]? = some task ∧ task.phase = .waiting rx ∧ Hangs tasks rx := by
  cases h with
  | self htask hphase => exact ⟨_, _, htask, hphase, .self htask hphase⟩
  | waits htask hphase h => exact ⟨_, _, htask, hphase, h⟩

theorem Hangs.mono {tasks tasks' : List Spawned} {i : ℕ} (h : Hangs tasks i)
    (hmono : ∀ (j : ℕ) (task : Spawned) rx, tasks[j]? = some task → task.phase = .waiting rx →
      Hangs tasks rx → tasks'[j]? = some task) : Hangs tasks' i := by
  induction h with
  | self htask hphase =>
      exact .self (hmono _ _ _ htask hphase (.self htask hphase)) hphase
  | waits htask hphase h ih => exact .waits (hmono _ _ _ htask hphase h) hphase ih

namespace Searches

variable {s s' : Searches} {e : Event} {i rx : ℕ} {task task' : Spawned}

theorem received_of_hangs (h : Hangs s.tasks rx) : s.received rx = none := by
  obtain ⟨task, rx', htask, hphase, -⟩ := h.waiting
  simp [received, htask, Spawned.received, hphase]

/-- **For ever**: nothing that happens makes an end of it. -/
theorem Happens.hangs (h : s.Happens e s') (hi : Hangs s.tasks i) : Hangs s'.tasks i := by
  have hspawn (task : Spawned) : Hangs (s.tasks ++ [task]) i :=
    hi.mono fun j task' rx hget _ _ ↦
      (List.getElem?_append_left (List.getElem?_eq_some_iff.mp hget).1).trans hget
  cases h with
  | resolve keys => exact hspawn _
  | spawn => exact hspawn _
  | @resume rx search items ok => cases search <;> exact hi
  | @task j task task' savedSearch taskStep htask h =>
      refine hi.mono fun k task'' rx hget hphase hrx ↦ ?_
      have hne : j ≠ k := by
        rintro rfl
        obtain rfl := Option.some.inj (htask.symm.trans hget)
        -- the one that it waits for sends nothing
        have hnone := received_of_hangs hrx
        cases h with
        | resume ok hphase' hitems =>
            obtain rfl := Phase.waiting.inj (hphase'.symm.trans hphase)
            cases hnone.symm.trans hitems
        | next ok hphase' | fail taskStep hphase' | panic hphase' | wait ok hphase'
        | store items hphase' | finish items hphase' | send hphase' | restore hphase' =>
            cases hphase'.symm.trans hphase
      exact (List.getElem?_set_ne hne).trans hget
  | _ => exact hi

theorem hangs_exec (hi : Hangs s.tasks i) (es : List Event) : Hangs (exec step s es).tasks i := by
  refine Run.exec_induct (C := fun _ _ ↦ True) (fun s : Searches ↦ Hangs s.tasks i) hi
    (fun s e hs _ ↦ ?_) (Run.along_of_forall fun _ _ _ ↦ trivial)
  rcases s.step_cases e with ⟨-, heq⟩ | h
  · rwa [heq]
  · exact h.hangs hs

/-! ## The end -/

/-- Only new requests can happen. -/
def Blocked (s : Searches) : Prop := ∀ e, ¬s.Proceeds e

theorem Blocked.next_eq_none (h : s.Blocked) (hno : ∀ request, e ≠ .request request) :
    s.next e = none :=
  Option.not_isSome_iff_eq_none.mp fun hsome ↦ h e ⟨hsome, hno⟩

/-- No step of a task is left. -/
theorem Blocked.step_ne_some (h : s.Blocked) (htask : s.tasks[i]? = some task)
    (taskStep : TaskStep) (r : Spawned × SavedSearch) :
    task.step s.savedSearch s.received taskStep ≠ some r := by
  have hnone := h.next_eq_none (e := .task i taskStep) (by simp)
  simp only [next, htask, Option.map_eq_none_iff] at hnone
  simp [hnone]

/-- A task that is not over waits for what does not come. -/
theorem Blocked.over_or_waiting (h : s.Blocked) (hs : s.Invariant)
    (htask : s.tasks[i]? = some task) :
    task.Over ∨ ∃ rx, task.phase = .waiting rx ∧ s.received rx = none := by
  have hno := h.step_ne_some htask
  cases hphase : task.phase with
  | resolving =>
      cases hkeys : task.keys with
      | nil =>
          exact absurd (Spawned.step_answered_iff.mpr ⟨hphase, hkeys, rfl⟩)
            (hno (.answered none) _)
      | cons key keys =>
          exact absurd (Spawned.step_key_iff.mpr ⟨hphase, key, keys, hkeys, rfl⟩)
            (hno (.key true) _)
  | waiting rx =>
      cases hitems : s.received rx with
      | none => exact .inr ⟨rx, rfl, hitems⟩
      | some items =>
          exact absurd (Spawned.step_changed_iff.mpr ⟨rx, items, hphase, hitems, rfl⟩)
            (hno (.changed true) _)
  | stored items =>
      exact absurd (Spawned.step_send_iff.mpr ⟨items, hphase, rfl⟩) (hno .send _)
  | failed =>
      obtain ⟨prevSavedSearch, hprev⟩ := Option.isSome_iff_exists.mp (hs.failed i task htask hphase)
      exact absurd (Spawned.step_restore_iff.mpr ⟨hphase, prevSavedSearch, hprev, rfl⟩)
        (hno .restore _)
  | sent items => exact .inl (.inl (.inr ⟨items, hphase⟩))
  | done => exact .inl (.inl (.inl hphase))
  | panicked => exact .inl (.inr hphase)

/-- A search that nothing has come from yet waits itself, for itself or for a later one. -/
theorem Blocked.hangs_of_received (h : s.Blocked) (hs : s.Invariant) (hsaves : SavesAt s.tasks i)
    (hnone : s.received i = none) : Hangs s.tasks i := by
  induction hn : s.tasks.length - i using Nat.strongRecOn generalizing i with
  | ind n ih =>
      obtain ⟨task, htask, htaskSaves⟩ := hsaves
      rcases h.over_or_waiting hs htask with hover | ⟨rx, hphase, hrx⟩
      · rw [received, htask] at hnone
        rcases hover with (hphase | ⟨items, hphase⟩) | hphase <;>
          simp [Spawned.received, hphase] at hnone
      · obtain ⟨hrxSaves, hle, -⟩ := hs.waiting i task rx htask hphase
        rcases (hle htaskSaves).eq_or_lt with heq | hlt
        · subst heq
          exact .self htask hphase
        · have hi := (List.getElem?_eq_some_iff.mp htask).1
          exact .waits htask hphase (ih _ (by omega) hrxSaves hrx rfl)

/-- **What is left once no step is.**  A command that is not over hangs, and so does what the main
loop waits for. -/
theorem Blocked.over_iff (h : s.Blocked) (hs : s.Invariant) (htask : s.tasks[i]? = some task) :
    task.Over ↔ ¬Hangs s.tasks i := by
  constructor
  · intro hover hhangs
    obtain ⟨task', rx, htask', hphase, -⟩ := hhangs.waiting
    obtain rfl := Option.some.inj (htask.symm.trans htask')
    rcases hover with (hphase' | ⟨items, hphase'⟩) | hphase' <;> cases hphase.symm.trans hphase'
  · intro hno
    rcases h.over_or_waiting hs htask with hover | ⟨rx, hphase, hrx⟩
    · exact hover
    · have hsaves := (hs.waiting i task rx htask hphase).1
      exact absurd (.waits htask hphase (h.hangs_of_received hs hsaves hrx)) hno

theorem Blocked.main_iff (h : s.Blocked) (hs : s.Invariant) : s.main = .idle ∨ s.main = .panicked ↔
    ∀ rx search, s.main = .waiting rx search → ¬Hangs s.tasks rx := by
  constructor
  · rintro (hmain | hmain) rx search hrx <;> cases hmain.symm.trans hrx
  · intro hno
    cases hmain : s.main with
    | idle => exact .inl rfl
    | panicked => exact .inr rfl
    | waiting rx search =>
        have hnone := h.next_eq_none (e := .changed true) (by simp)
        simp only [next, hmain, Option.map_eq_none_iff] at hnone
        exact absurd (h.hangs_of_received hs (hs.main rx search hmain) hnone) (hno rx search hmain)
    | saving prevSavedSearch filter =>
        have hnone := h.next_eq_none (e := .spawn) (by simp)
        simp [next, hmain] at hnone
    | expunging =>
        have hnone := h.next_eq_none (e := .expunged true) (by simp)
        simp [next, hmain] at hnone

end Searches

open Searches in
/-- **Commands come to an end, but for those that hang.**  Whatever has come in so far and in
whatever order it is worked on, only so many steps are left; once they have been taken, a command
is over if and only if it does not hang on a search that waits for itself, and the main loop
takes requests again, or has panicked, if and only if it does not wait for such a one.  What hangs
does so for ever. -/
theorem settles (es : List Event) :
    let s := exec step start es
    (∀ es', Along step Proceeds s es' → es'.length ≤ s.rank) ∧
      (∃ es', Along step Proceeds s es' ∧ (exec step s es').Blocked) ∧
      (s.Blocked → (∀ i task, s.tasks[i]? = some task → (task.Over ↔ ¬Hangs s.tasks i)) ∧
        (s.main = .idle ∨ s.main = .panicked ↔
          ∀ rx search, s.main = .waiting rx search → ¬Hangs s.tasks rx)) ∧
      ∀ i, Hangs s.tasks i → ∀ es', Hangs (exec step s es').tasks i := by
  intro s
  have hs : s.Invariant := invariant_exec invariant_start es
  refine ⟨fun es' h ↦ lowers_rank.length_le h, lowers_rank.exists_end s,
    fun hblocked ↦ ⟨fun i task htask ↦ ?_, ?_⟩, fun i hi es' ↦ hangs_exec hi es'⟩
  · exact hblocked.over_iff hs htask
  · exact hblocked.main_iff hs

/-! ## The keys that hang -/

/-- `$` in a list. -/
def Tangled : Filter → Prop
  | .sequence .savedSearch _ => False
  | .sequence sequence _ => sequence.isSavedSearch = true
  | _ => False

/-- `1,$` is such a list. -/
example : parseSequenceSet (asBytes "1,$") = .ok (.list [.number 1, .savedSearch]) := rfl

/-- What a search that saves its results asks the mailbox for. -/
theorem asks_iff_tangled {task : Spawned} (h : task.Saves) {key : Filter} :
    task.Asks key ↔ Tangled key := by
  cases key with
  | sequence sequence uidFilter =>
      cases sequence with
      | savedSearch => simp [Spawned.Asks, Tangled, h]
      | _ => exact Iff.rfl
  | _ => exact Iff.rfl

/-- A task that is over does nothing any more. -/
theorem Spawned.Moves.not_over {task task' : Spawned} {savedSearch savedSearch' : SavedSearch}
    {received : ℕ → Option (List ImapId)} {taskStep : TaskStep}
    (h : task.Moves savedSearch received taskStep task' savedSearch') : ¬task.Over := by
  rintro ((hdone | ⟨items, hsent⟩) | hpanicked)
  all_goals cases h <;> simp_all

namespace Searches

variable {s s' : Searches} {e : Event} {i : ℕ} {task : Spawned} {taskStep : TaskStep}

/-- All is done. -/
structure Quiet (s : Searches) : Prop where
  main : s.main = .idle
  tasks : ∀ task ∈ s.tasks, task.Over

/-- A search that saves its results, and is alone: either it has not been spawned, or it has dealt
with some keys without a `$` in a list and now is at the next one, or waits for itself there, or has
dealt with them all. -/
inductive Alone (tasks : List Spawned) (items : List ImapId) (filter : Filter) : Searches → Prop
  | saving {savedSearch : SavedSearch} :
      Alone tasks items filter ⟨savedSearch, tasks, .saving (some items) filter⟩
  | resolving {passed keys : List Filter} (hleaves : filter.leaves = passed ++ keys)
      (hpassed : ∀ key ∈ passed, ¬Tangled key) :
      Alone tasks items filter
        ⟨.inFlight tasks.length, tasks ++ [⟨some (some items), keys, .resolving⟩], .idle⟩
  | waiting {keys : List Filter} {key : Filter} {savedSearch : SavedSearch}
      (hmem : key ∈ filter.leaves) (hkey : Tangled key) :
      Alone tasks items filter
        ⟨savedSearch, tasks ++ [⟨some (some items), keys, .waiting tasks.length⟩], .idle⟩
  | finished {task : Spawned} {savedSearch : SavedSearch}
      (hphase : task.phase ≠ .resolving ∧ ∀ rx, task.phase ≠ .waiting rx)
      (hleaves : ∀ key ∈ filter.leaves, ¬Tangled key) :
      Alone tasks items filter ⟨savedSearch, tasks ++ [task], .idle⟩

/-- A task that goes on. -/
theorem Proceeds.exists_step (h : s.Proceeds (.task i taskStep)) :
    ∃ task r, s.tasks[i]? = some task ∧ task.step s.savedSearch s.received taskStep = some r ∧
      step s (.task i taskStep) = { s with tasks := s.tasks.set i r.1, savedSearch := r.2 } := by
  obtain ⟨hsome, -⟩ := h
  rw [step]
  simp only [next] at hsome ⊢
  cases htask : s.tasks[i]? with
  | none => simp [htask] at hsome
  | some task =>
      simp only [htask, Option.isSome_map] at hsome ⊢
      obtain ⟨r, hr⟩ := Option.isSome_iff_exists.mp hsome
      exact ⟨task, r, rfl, hr, by rw [hr]; rfl⟩

/-- Of the tasks only the last one goes on. -/
theorem Proceeds.last {tasks : List Spawned} (h : s.Proceeds (.task i taskStep))
    (htasks : s.tasks = tasks ++ [task]) (hover : ∀ task ∈ tasks, task.Over) :
    i = tasks.length ∧ ∃ r, task.step s.savedSearch s.received taskStep = some r ∧
      step s (.task i taskStep) = { s with tasks := tasks ++ [r.1], savedSearch := r.2 } := by
  obtain ⟨task', r, hget, hr, heq⟩ := h.exists_step
  rw [htasks] at hget
  rcases getElem?_spawn hget with hget | ⟨rfl, rfl⟩
  · exact absurd (hover task' (List.mem_of_getElem? hget)) (Spawned.moves_of_step hr).not_over
  · refine ⟨rfl, r, hr, heq.trans ?_⟩
    rw [htasks, List.set_append_right _ _ le_rfl, Nat.sub_self, List.set_cons_zero]

/-- With the search from before at hand, a key that is not tangled is done with. -/
theorem handleKey_of_prev {items : List ImapId} {key : Filter} (savedSearch : SavedSearch)
    (hprev : task.prevSavedSearch = some (some items)) (hkey : ¬Tangled key) :
    task.handleKey savedSearch true key = task.next := by
  cases key with
  | sequence sequence uidFilter =>
      cases sequence with
      | savedSearch => simp [Spawned.handleKey, hprev]
      | number value => simp [Spawned.handleKey, Sequence.isSavedSearch]
      | range first last => simp [Spawned.handleKey, Sequence.isSavedSearch]
      | list items =>
          have hlist : (Sequence.list items).isSavedSearch = false := by simpa [Tangled] using hkey
          simp [Spawned.handleKey, hlist]
  | modSeq modseq entry => rfl
  | _ => rfl

theorem Alone.step {tasks : List Spawned} {items : List ImapId} {filter : Filter}
    (h : Alone tasks items filter s) (hover : ∀ task ∈ tasks, task.Over) (he : s.Proceeds e)
    (hok : e ≠ .task tasks.length (.key false)) : Alone tasks items filter (Saving.step s e) := by
  cases h with
  | saving =>
      cases e with
      | request request => exact absurd rfl (he.2 request)
      | spawn => exact .resolving (List.nil_append filter.leaves).symm (by simp)
      | task i taskStep =>
          obtain ⟨task, r, hget, hr, -⟩ := he.exists_step
          exact absurd (hover task (List.mem_of_getElem? hget))
            (Spawned.moves_of_step hr).not_over
      | _ => cases he.1
  | @resolving passed keys hleaves hpassed =>
      cases e with
      | request request => exact absurd rfl (he.2 request)
      | task i taskStep =>
          obtain ⟨rfl, r, hr, heq⟩ := he.last rfl hover
          rw [heq]
          cases taskStep with
          | key ok =>
              obtain rfl : ok = true := by
                cases ok with
                | false => exact absurd rfl hok
                | true => rfl
              obtain ⟨-, key, keys, rfl, rfl⟩ := Spawned.step_key_iff.mp hr
              by_cases hkey : Tangled key
              · have hsaves : Spawned.Saves ⟨some (some items), key :: keys, .resolving⟩ := rfl
                rw [Spawned.handleKey_of_asks ((asks_iff_tangled hsaves).mpr hkey)]
                exact .waiting (hleaves ▸ by simp) hkey
              · rw [handleKey_of_prev _ rfl hkey]
                refine .resolving (hleaves.trans (List.append_cons passed key keys)) ?_
                intro key' hmem
                rcases List.mem_append.mp hmem with hmem | hmem
                · exact hpassed key' hmem
                · rwa [List.mem_singleton.mp hmem]
          | answered found =>
              obtain ⟨-, rfl, rfl⟩ := Spawned.step_answered_iff.mp hr
              rw [List.append_nil] at hleaves
              cases found with
              | none =>
                  exact .finished (by simp [Spawned.answered, Spawned.fail]) (hleaves ▸ hpassed)
              | some found => exact .finished (by simp [Spawned.answered]) (hleaves ▸ hpassed)
          | _ => cases hr
      | _ => cases he.1
  | waiting hmem hkey =>
      cases e with
      | request request => exact absurd rfl (he.2 request)
      | task i taskStep =>
          obtain ⟨rfl, r, hr, -⟩ := he.last rfl hover
          cases taskStep with
          | changed ok =>
              obtain ⟨rx, items, hphase, hitems, -⟩ := Spawned.step_changed_iff.mp hr
              obtain rfl := Phase.waiting.inj hphase
              simp [received, Spawned.received] at hitems
          | _ => cases hr
      | _ => cases he.1
  | finished hphase hleaves =>
      cases e with
      | request request => exact absurd rfl (he.2 request)
      | task i taskStep =>
          obtain ⟨rfl, r, hr, heq⟩ := he.last rfl hover
          rw [heq]
          refine .finished ?_ hleaves
          cases taskStep with
          | key ok => exact absurd (Spawned.step_key_iff.mp hr).1 hphase.1
          | changed ok =>
              obtain ⟨rx, items, hrx, -⟩ := Spawned.step_changed_iff.mp hr
              exact absurd hrx (hphase.2 rx)
          | answered found => exact absurd (Spawned.step_answered_iff.mp hr).1 hphase.1
          | send =>
              obtain ⟨items, -, rfl⟩ := Spawned.step_send_iff.mp hr
              simp
          | restore =>
              obtain ⟨-, prevSavedSearch, -, rfl⟩ := Spawned.step_restore_iff.mp hr
              simp
      | _ => cases he.1

/-- The run lemma. -/
theorem alone_exec {tasks : List Spawned} {items : List ImapId} {filter : Filter} {es : List Event}
    (h : Alone tasks items filter s) (hover : ∀ task ∈ tasks, task.Over)
    (hes : Along Saving.step Proceeds s es) (hok : .task tasks.length (.key false) ∉ es) :
    Alone tasks items filter (exec Saving.step s es) := by
  have hne : Along Saving.step (fun _ e ↦ e ≠ .task tasks.length (.key false)) s es :=
    Run.along_iff_forall.mpr fun e he heq ↦ hok (heq ▸ he)
  refine Run.exec_induct (Alone tasks items filter) h (fun s e hs he ↦ ?_)
    (Run.along_and.mpr ⟨hes, hne⟩)
  exact hs.step hover he.1 he.2

/-- How it ends. -/
theorem Alone.hangs_iff {tasks : List Spawned} {items : List ImapId} {filter : Filter}
    (h : Alone tasks items filter s) (hs : s.Invariant) (hend : s.Blocked) :
    Hangs s.tasks tasks.length ↔ ∃ key ∈ filter.leaves, Tangled key := by
  cases h with
  | saving =>
      have hnone := hend.next_eq_none (e := .spawn) (by simp)
      cases hnone
  | resolving =>
      obtain ((hdone | ⟨items, hsent⟩) | hpanicked) | ⟨rx, hrx, -⟩ :=
        hend.over_or_waiting hs List.getElem?_concat_length
      · cases hdone
      · cases hsent
      · cases hpanicked
      · cases hrx
  | waiting hmem hkey =>
      exact ⟨fun _ ↦ ⟨_, hmem, hkey⟩, fun _ ↦ .self List.getElem?_concat_length rfl⟩
  | finished hphase hleaves =>
      constructor
      · intro hhangs
        obtain ⟨task, rx, htask, hrx, -⟩ := hhangs.waiting
        rw [List.getElem?_concat_length] at htask
        exact absurd hrx (Option.some.inj htask ▸ hphase.2 rx)
      · rintro ⟨key, hmem, hkey⟩
        exact absurd hkey (hleaves key hmem)

end Searches

open Searches in
/-- **A search that saves its results hangs if and only if `$` stands in a list of its keys**:
after a search has been saved and all commands are over, in whatever order the steps of the next one
are taken and whatever the server answers, unless one of its keys ends it before. -/
theorem search_hangs_iff {es₀ : List Event} {s : Searches} (hs : exec step start es₀ = s)
    (hquiet : s.Quiet) {items : List ImapId} (hsaved : s.savedSearch = .results items)
    (filter : Filter) {es : List Event}
    (hes : Along step Proceeds (step s (.request (.save filter))) es)
    (hok : .task s.tasks.length (.key false) ∉ es)
    (hend : (exec step (step s (.request (.save filter))) es).Blocked) :
    Hangs (exec step (step s (.request (.save filter))) es).tasks s.tasks.length ↔
      ∃ key ∈ filter.leaves, Tangled key := by
  have hinv : s.Invariant := hs ▸ invariant_exec invariant_start es₀
  have hstart : step s (.request (.save filter)) =
      ⟨s.savedSearch, s.tasks, .saving (some items) filter⟩ := by
    simp [step, next, handle, hquiet.main, hsaved, SavedSearch.getSavedSearch]
  rw [hstart] at hes hend ⊢
  have halone := alone_exec .saving hquiet.tasks hes hok
  exact halone.hangs_iff (invariant_exec (hinv.withMain (by simp)) es) hend

/-- `SEARCH RETURN (SAVE) ALL`, to its end. -/
def savedAll : List Event :=
  [.request (.save .all), .spawn, .task 0 (.key true), .task 0 (.answered (some [])), .task 0 .send]

/-- `SEARCH RETURN (SAVE) 1,$` after it. -/
theorem search_hangs_list :
    Hangs (exec step start (savedAll ++
      [.request (.save (.sequence (.list [.number 1, .savedSearch]) false)), .spawn,
        .task 1 (.key true)])).tasks 1 := by
  have hquiet : (exec step start savedAll).Quiet := by
    refine ⟨rfl, fun task htask ↦ ?_⟩
    obtain rfl := List.mem_singleton.mp htask
    exact .inl (.inr ⟨[], rfl⟩)
  have hes : Along step Searches.Proceeds
      (step (exec step start savedAll)
        (.request (.save (.sequence (.list [.number 1, .savedSearch]) false))))
      [.spawn, .task 1 (.key true)] :=
    ⟨⟨rfl, by simp⟩, ⟨rfl, by simp⟩, trivial⟩
  refine (search_hangs_iff rfl hquiet rfl _ hes (by simp) ?_).mpr
    ⟨_, List.mem_singleton_self _, rfl⟩
  rintro e ⟨hsome, hno⟩
  cases e with
  | request request => exact hno request rfl
  | task i taskStep =>
      -- one task is over, the other one waits for itself
      rcases i with _ | _ | i <;> cases taskStep <;> cases hsome
  | _ => cases hsome

/-! ## Sessions without -/

namespace Searches

variable {s s' : Searches} {e : Event} {i : ℕ} {task : Spawned}

/-- No search that saves its results has a `$` in a list. -/
structure Untangled (s : Searches) : Prop where
  tasks : ∀ task ∈ s.tasks, task.Saves → ∀ key ∈ task.keys, ¬Tangled key
  waiting : ∀ rx filter, s.main = .waiting rx (some filter) → ∀ key ∈ filter.leaves, ¬Tangled key
  saving : ∀ items filter, s.main = .saving items filter → ∀ key ∈ filter.leaves, ¬Tangled key

/-- An event that brings in no such search. -/
def Plain (e : Event) : Prop :=
  ∀ filter, e = .request (.save filter) → ∀ key ∈ filter.leaves, ¬Tangled key

theorem untangled_start : start.Untangled where
  tasks task h := by simp [start] at h
  waiting rx filter h := by cases h
  saving items filter h := by cases h

theorem Happens.untangled (h : s.Happens e s') (hs : s.Untangled) (he : Plain e) :
    s'.Untangled := by
  have hspawn {task : Spawned} (htask : task.Saves → ∀ key ∈ task.keys, ¬Tangled key) :
      ∀ task' ∈ s.tasks ++ [task], task'.Saves → ∀ key ∈ task'.keys, ¬Tangled key := by
    intro task' hmem
    rcases List.mem_append.mp hmem with hmem | hmem
    · exact hs.tasks task' hmem
    · rwa [List.mem_singleton.mp hmem]
  cases h with
  | resolve keys hmain =>
      refine ⟨hspawn fun hsaves ↦ ?_, hs.waiting, hs.saving⟩
      cases hsaves
  | wait hmain hrx hsearch =>
      refine ⟨hs.tasks, fun rx' filter hrx' ↦ ?_, by simp⟩
      obtain ⟨-, rfl⟩ := Main.waiting.inj hrx'
      exact he filter (congrArg Event.request (hsearch filter rfl))
  | save filter hmain hitems =>
      refine ⟨hs.tasks, by simp, fun items' filter' hitems' ↦ ?_⟩
      obtain ⟨-, rfl⟩ := Main.saving.inj hitems'
      exact he filter rfl
  | expunge sequence => exact ⟨hs.tasks, by simp, by simp⟩
  | panic sequence => exact ⟨hs.tasks, by simp, by simp⟩
  | refuse sequence => exact hs
  | @resume rx search items ok hmain hitems =>
      cases search with
      | none =>
          cases ok <;>
            exact ⟨hs.tasks, by simp [Searches.resume, lookUp], by simp [Searches.resume, lookUp]⟩
      | some filter =>
          refine ⟨hs.tasks, by simp [Searches.resume], fun items' filter' hitems' ↦ ?_⟩
          obtain ⟨-, rfl⟩ := Main.saving.inj hitems'
          exact hs.waiting rx filter hmain
  | spawn hmain =>
      exact ⟨hspawn fun _ ↦ hs.saving _ _ hmain, by simp, by simp⟩
  | expunged ok => exact ⟨hs.tasks, by simp, by simp⟩
  | task taskStep htask h =>
      refine ⟨fun task'' hmem hsaves key hkey ↦ ?_, hs.waiting, hs.saving⟩
      rcases List.mem_or_eq_of_mem_set hmem with hmem | rfl
      · exact hs.tasks task'' hmem hsaves key hkey
      · rw [Spawned.Saves, h.prevSavedSearch_eq] at hsaves
        exact hs.tasks _ (List.mem_of_getElem? htask) hsaves key (h.keys_subset hkey)

theorem untangled_exec {es : List Event} (hes : ∀ e ∈ es, Plain e) :
    (exec step start es).Untangled := by
  refine Run.exec_induct Untangled untangled_start (fun s e hs he ↦ ?_)
    (Run.along_iff_forall.mpr hes)
  rcases s.step_cases e with ⟨-, heq⟩ | h
  · rwa [heq]
  · exact h.untangled hs he

/-- Nothing hangs. -/
theorem Untangled.not_hangs (h : s.Untangled) (hs : s.Invariant) : ¬Hangs s.tasks i := by
  intro hhangs
  induction hhangs with
  | self htask hphase =>
      obtain ⟨⟨task', htask', hsaves⟩, -, key, keys, hkeys, hasks⟩ :=
        hs.waiting _ _ _ htask hphase
      obtain rfl := Option.some.inj (htask.symm.trans htask')
      exact h.tasks _ (List.mem_of_getElem? htask) hsaves key (hkeys ▸ List.mem_cons_self)
        ((asks_iff_tangled hsaves).mp hasks)
  | waits htask hphase hrest ih => exact ih

/-! ## Panics -/

/-- Whoever looks up saved positions finds them in the view. -/
def Stands (s : Searches) : Event → Prop
  | .request (.expunge _ ok) | .changed ok | .task _ (.changed ok) => ok = true
  | .task i (.key ok) => ∀ (task : Spawned) key keys, s.tasks[i]? = some task →
      task.keys = key :: keys → task.Asks key → ok = true
  | _ => True

/-- Nobody has panicked. -/
structure Intact (s : Searches) : Prop where
  main : s.main ≠ .panicked
  tasks : ∀ task ∈ s.tasks, task.phase ≠ .panicked

theorem intact_start : start.Intact := ⟨by simp [start], by simp [start]⟩

theorem Happens.intact (h : s.Happens e s') (hs : s.Intact) (he : s.Stands e) : s'.Intact := by
  have hspawn {task : Spawned} (htask : task.phase ≠ .panicked) :
      ∀ task' ∈ s.tasks ++ [task], task'.phase ≠ .panicked := by
    intro task' hmem
    rcases List.mem_append.mp hmem with hmem | hmem
    · exact hs.tasks task' hmem
    · rwa [List.mem_singleton.mp hmem]
  cases h with
  | resolve keys => exact ⟨hs.main, hspawn (by simp)⟩
  | spawn => exact ⟨by simp, hspawn (by simp)⟩
  | panic sequence => cases he
  | @resume rx search items ok =>
      obtain rfl : ok = true := he
      cases search <;> exact ⟨by simp [Searches.resume, lookUp], hs.tasks⟩
  | @task i task task' savedSearch taskStep htask h =>
      refine ⟨hs.main, fun task'' hmem ↦ ?_⟩
      rcases List.mem_or_eq_of_mem_set hmem with hmem | rfl
      · exact hs.tasks task'' hmem
      · cases h with
        | panic hphase hkeys hasks => cases he _ _ _ htask hkeys hasks
        | resume ok =>
            obtain rfl : ok = true := he
            simp
        | fail => rcases task.fail_phase_cases with ⟨hphase, -⟩ | hphase <;> simp [hphase]
        | _ => simp
  | refuse => exact hs
  | _ => exact ⟨by simp, hs.tasks⟩

theorem intact_exec {es : List Event} (hes : Along Saving.step Stands start es) :
    (exec Saving.step start es).Intact := by
  refine Run.exec_induct Intact intact_start (fun s e hs he ↦ ?_) hes
  rcases s.step_cases e with ⟨-, heq⟩ | h
  · rwa [heq]
  · exact h.intact hs he

end Searches

open Searches in
/-- **Without `$` in a list everything comes to its end.**  If no search that saves its results has
one, then whatever the requests are and in whatever order they are worked on, once no step is left
all commands are over and the main loop takes requests again, or has panicked.  Nobody has if the
saved positions that are looked up are in the view: all commands have been answered then. -/
theorem quiet_of_plain {es : List Event} (hes : ∀ e ∈ es, Plain e)
    (hend : (exec step start es).Blocked) :
    let s := exec step start es
    (s.main = .idle ∨ s.main = .panicked) ∧ (∀ task ∈ s.tasks, task.Over) ∧
      (Along step Stands start es → s.main = .idle ∧ ∀ task ∈ s.tasks, task.Answered) := by
  intro s
  have hs : s.Invariant := invariant_exec invariant_start es
  have hplain := untangled_exec hes
  have hmain := (hend.main_iff hs).mpr fun _ _ _ ↦ hplain.not_hangs hs
  have htasks : ∀ task ∈ s.tasks, task.Over := by
    intro task hmem
    obtain ⟨i, htask⟩ := List.getElem?_of_mem hmem
    exact (hend.over_iff hs htask).mpr (hplain.not_hangs hs)
  refine ⟨hmain, htasks, fun hstands ↦ ?_⟩
  have hintact := intact_exec hstands
  exact ⟨hmain.resolve_right hintact.main,
    fun task hmem ↦ (htasks task hmem).resolve_right (hintact.tasks task hmem)⟩

/-- `FETCH $` comes in while `SEARCH RETURN (SAVE) ALL` is under way. -/
def fetchWaits : List Event :=
  [.request (.save .all), .spawn, .request (.resolve [.sequence .savedSearch false]),
    .task 1 (.key true), .task 0 (.key true), .task 0 (.answered (some [⟨7, 1⟩])), .task 0 .send]

/-- It is answered. -/
theorem quiet_of_plain_fetch :
    let s := exec step start
      (fetchWaits ++ [.task 1 (.changed true), .task 1 (.answered (some []))])
    s.main = .idle ∧ ∀ task ∈ s.tasks, task.Answered := by
  refine (quiet_of_plain (fun e he filter heq ↦ ?_) ?_).2.2 ?_
  · obtain rfl : filter = .all := by simpa [fetchWaits, heq] using he
    intro key hkey
    obtain rfl := List.mem_singleton.mp hkey
    exact id
  · rintro e ⟨hsome, hno⟩
    cases e with
    | request request => exact hno request rfl
    | task i taskStep => rcases i with _ | _ | i <;> cases taskStep <;> cases hsome
    | _ => cases hsome
  · exact ⟨trivial, trivial, trivial, fun _ _ _ _ _ _ ↦ rfl, fun _ _ _ _ _ _ ↦ rfl, trivial,
      trivial, rfl, trivial, trivial⟩

end ImapToJmap.Saving
