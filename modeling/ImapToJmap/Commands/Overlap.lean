import ImapToJmap.Commands.Store
import ImapToJmap.Jmap.Store
import ImapToJmap.Run.Basic

/-!
# Conditional stores that overlap

STORE UNCHANGEDSINCE makes two requests to the JMAP server: it asks for the changes since the state
of the modseq, and then updates the messages that are not among them.  Nothing ties the update to
what the first request has seen.

Any number of clients send such a command with one modseq, and their requests arrive in any order
(`Rivals.step`).  `rivals_exclusive` is that a message is changed by one of them at most, and the
others list it as modified, as long as the messages of an update have not changed since the command
has asked.  Without this both change it, and neither is told (`rivals_overwrite`).
-/

namespace ImapToJmap

open Jmap (Patch)
open Run

/-! ## The server -/

/-- How an email has changed. -/
inductive ChangeKind where
  | created
  | updated
  | destroyed
deriving DecidableEq

/-- The emails of an account, and the changes to them, the earliest first. -/
structure EmailServer where
  emails : Jmap.Store
  log : List (String × ChangeKind)

/-- The ids that have changed in one way. -/
def changedIds (kind : ChangeKind) (log : List (String × ChangeKind)) : List String :=
  (log.filter fun change ↦ change.2 = kind).map Prod.fst

/-- `Email/changes`, from the changes after the first `n`. -/
def changesSince (log : List (String × ChangeKind)) (n : ℕ) : EmailChanges where
  created := changedIds .created (log.drop n)
  updated := changedIds .updated (log.drop n)
  destroyed := changedIds .destroyed (log.drop n)

theorem mem_changedIds {kind : ChangeKind} {log : List (String × ChangeKind)} {id : String} :
    id ∈ changedIds kind log ↔ (id, kind) ∈ log := by
  rw [changedIds, List.mem_map]
  constructor
  · rintro ⟨change, hmem, rfl⟩
    obtain ⟨hmem, hkind⟩ := List.mem_filter.mp hmem
    rwa [← of_decide_eq_true hkind]
  · intro h
    exact ⟨(id, kind), List.mem_filter.mpr ⟨h, decide_eq_true rfl⟩, rfl⟩

theorem reports_changesSince {log : List (String × ChangeKind)} {n : ℕ} {id : String} :
    (changesSince log n).Reports id ↔ ∃ kind, (id, kind) ∈ log.drop n := by
  simp only [EmailChanges.Reports, changesSince, mem_changedIds]
  constructor
  · rintro (h | h | h)
    · exact ⟨_, h⟩
    · exact ⟨_, h⟩
    · exact ⟨_, h⟩
  · rintro ⟨kind, h⟩
    cases kind with
    | created => exact .inl h
    | updated => exact .inr (.inl h)
    | destroyed => exact .inr (.inr h)

namespace EmailServer

/-- The patches make an email different. -/
def changesEmail (s : EmailServer) (patches : List Patch) (id : String) : Bool :=
  (s.emails id).any fun email ↦ patches.foldl Patch.apply email ≠ email

/-- `Email/set` with the same patches for some ids.  A patch that changes nothing is no change. -/
def update (s : EmailServer) (ids : List String) (patches : List Patch) : EmailServer where
  emails := s.emails.update (fun id ↦ id ∈ ids) patches
  log := s.log ++ (ids.filter (s.changesEmail patches)).map fun id ↦ (id, .updated)

@[simp] theorem update_log (s : EmailServer) (ids : List String) (patches : List Patch) :
    (s.update ids patches).log =
      s.log ++ (ids.filter (s.changesEmail patches)).map fun id ↦ (id, .updated) := rfl

end EmailServer

/-! ## The commands -/

/-- The arguments of a STORE, and the view that it resolves its sequence set in. -/
structure ConditionalStore where
  mailbox : SelectedMailbox
  sequence : Sequence
  isUid : Bool
  operation : Operation
  keywords : List Flag

/-- What the update asks for, of each message. -/
def ConditionalStore.patches (c : ConditionalStore) : List Patch :=
  match c.operation with
  | .set => [.keywords (c.keywords.map Flag.toJmap)]
  | .add => c.keywords.map fun keyword ↦ .keyword keyword.toJmap true
  | .clear => c.keywords.map fun keyword ↦ .keyword keyword.toJmap false

/-- How far a command is. -/
inductive StorePhase where
  | waiting
  | /-- It has asked for the changes, after so many of them. -/
    checked (changes : ℕ) (request : StoreRequest)
  | /-- It has stopped before the update. -/
    stopped (error : StoreError)
  | /-- The ids that were sent for update, those that were changed, and the rest of the response. -/
    finished (sent changed : List String) (request : StoreRequest)

/-- The messages that the command has changed. -/
def StorePhase.changed : StorePhase → List String
  | finished _ changed _ => changed
  | _ => []

/-- STOREs of several clients with one modseq.  `order` is the order in which a map is gone over,
`modseqToState` the database, and `position` how many changes came before a state. -/
structure Rivals (ι : Type) where
  commands : ι → ConditionalStore
  modseq : ℕ
  order : IdMap → IdMap
  modseqToState : ℕ → Option (Option String)
  position : String → Option ℕ

/-- The server, and how far each of the commands is. -/
structure Stores (ι : Type) where
  server : EmailServer
  phase : ι → StorePhase

/-- Before the first request. -/
def Stores.start {ι : Type} (server : EmailServer) : Stores ι := ⟨server, fun _ ↦ .waiting⟩

/-- The messages of the update have not changed since the command has asked. -/
def Stores.Undisturbed {ι : Type} (s : Stores ι) (i : ι) : Prop :=
  match s.phase i with
  | .checked n request => ∀ e ∈ request.ids, ∀ change ∈ s.server.log.drop n, change.1 ≠ e.1
  | _ => True

instance {ι : Type} (s : Stores ι) (i : ι) : Decidable (s.Undisturbed i) :=
  match h : s.phase i with
  | .checked n request => decidable_of_iff
      (∀ e ∈ request.ids, ∀ change ∈ s.server.log.drop n, change.1 ≠ e.1)
      (by rw [Stores.Undisturbed, h])
  | .waiting | .stopped _ | .finished .. => .isTrue (by rw [Stores.Undisturbed, h]; trivial)

namespace Rivals

variable {ι : Type} (r : Rivals ι)

/-- `Email/changes` since a state that the server knows. -/
def changesEmail (log : List (String × ChangeKind)) (state : String) : Option EmailChanges :=
  (r.position state).bind fun n ↦ if n ≤ log.length then some (changesSince log n) else none

/-- The first request, and what comes before and after it: with nothing to update the command is at
its end. -/
def check (log : List (String × ChangeKind)) (i : ι) : StorePhase :=
  let c := r.commands i
  match store r.order r.modseqToState (r.changesEmail log) c.mailbox c.sequence c.isUid
    (some r.modseq) with
  | .error e => .stopped e
  | .ok request =>
      if request.ids = [] then .finished [] [] request else .checked log.length request

/-- The next request of a command. -/
def step [DecidableEq ι] (s : Stores ι) (i : ι) : Stores ι :=
  match s.phase i with
  | .waiting => { s with phase := Function.update s.phase i (r.check s.server.log i) }
  | .checked _ request =>
      let ids := request.ids.keys
      let patches := (r.commands i).patches
      { server := s.server.update ids patches
        phase := Function.update s.phase i
          (.finished ids (ids.filter (s.server.changesEmail patches)) request) }
  | .stopped _ | .finished .. => s

/-- No message is changed by two commands.  When a command is finished, the messages that another
has changed are listed as modified and were left alone, or else the update was none. -/
structure Exclusive (s : Stores ι) : Prop where
  once : ∀ i j, i ≠ j → ∀ id ∈ (s.phase i).changed, id ∉ (s.phase j).changed
  listed : ∀ i j, i ≠ j → ∀ sent changed request, s.phase j = .finished sent changed request →
    ∀ ids, (r.commands j).mailbox.sequenceToJmap (r.commands j).sequence (r.commands j).isUid =
      .ok ids → ∀ e ∈ ids, e.1 ∈ (s.phase i).changed →
        (e.2.number (r.commands j).isUid ∈ request.modified ∧ e.1 ∉ sent) ∨
          (e.1 ∈ sent ∧ e.1 ∉ changed)

/-! ## What a check has seen -/

/-- The position of the state that the modseq stands for. -/
def since : Option ℕ := ((r.modseqToState (r.modseq % 2 ^ 32)).join).bind r.position

/-- What a command is about to update after it has asked for the changes. -/
def ChecksTo (log : List (String × ChangeKind)) (i : ι) (request : StoreRequest) : Prop :=
  ∃ ids n, (r.commands i).mailbox.sequenceToJmap (r.commands i).sequence (r.commands i).isUid =
      .ok ids ∧ r.since = some n ∧ n ≤ log.length ∧
    request = unchangedSince (r.commands i).mailbox (r.commands i).sequence (r.commands i).isUid
      (changesSince log n) (r.order ids)

variable {r}

theorem checksTo_of_store {log : List (String × ChangeKind)} {i : ι} {request : StoreRequest}
    (h : store r.order r.modseqToState (r.changesEmail log) (r.commands i).mailbox
      (r.commands i).sequence (r.commands i).isUid (some r.modseq) = .ok request) :
    r.ChecksTo log i request := by
  obtain ⟨ids, state, changes, hids, hstate, hchanges, rfl⟩ := store_eq_ok h
  obtain ⟨n, hn, hif⟩ := Option.bind_eq_some_iff.mp hchanges
  split at hif
  · rename_i hle
    obtain rfl := Option.some.inj hif
    refine ⟨ids, n, hids, ?_, hle, rfl⟩
    rw [since, hstate]
    exact hn
  · cases hif

variable {log : List (String × ChangeKind)} {i : ι} {request : StoreRequest}

/-- What is updated has not changed since the modseq. -/
theorem ChecksTo.notMem (h : r.ChecksTo log i request) (horder : ∀ ids, (r.order ids).Perm ids)
    {n : ℕ} (hn : r.since = some n) {id : String} (hid : id ∈ request.ids.keys)
    (kind : ChangeKind) : (id, kind) ∉ log.drop n := by
  obtain ⟨ids, n', hids, hn', -, rfl⟩ := h
  obtain rfl := Option.some.inj (hn.symm.trans hn')
  have hnd : (r.order ids).keys.Nodup :=
    ((horder ids).map Prod.fst).nodup_iff.mpr (SelectedMailbox.sequenceToJmap_nodup hids)
  obtain ⟨e, he, rfl⟩ := List.mem_map.mp hid
  have hnot := ((mem_unchangedSince_ids _ _ _ _ hnd e).mp he).2
  exact fun hmem ↦ hnot (reports_changesSince.mpr ⟨kind, hmem⟩)

/-- Each message that the command names is updated or listed as modified, and not both. -/
theorem ChecksTo.divides (h : r.ChecksTo log i request) (horder : ∀ ids, (r.order ids).Perm ids)
    {ids : IdMap} (hids : (r.commands i).mailbox.sequenceToJmap (r.commands i).sequence
      (r.commands i).isUid = .ok ids) {e : String × ImapId} (he : e ∈ ids) :
    (e.2.number (r.commands i).isUid ∈ request.modified ∧ e.1 ∉ request.ids.keys) ∨
      e.1 ∈ request.ids.keys := by
  obtain ⟨ids', n, hids', -, -, rfl⟩ := h
  obtain rfl := Except.ok.inj (hids'.symm.trans hids)
  have hnd : (r.order ids').keys.Nodup :=
    ((horder ids').map Prod.fst).nodup_iff.mpr (SelectedMailbox.sequenceToJmap_nodup hids)
  have hvisited : e ∈ r.order ids' := (horder ids').mem_iff.mpr he
  by_cases hrep : (changesSince log n).Reports e.1
  · refine .inl ⟨(mem_unchangedSince_modified _ _ _ _ _ _).mpr (.inl ⟨e, hvisited, hrep, rfl⟩), ?_⟩
    intro hmem
    obtain ⟨e', he', heq⟩ := List.mem_map.mp hmem
    exact ((mem_unchangedSince_ids _ _ _ _ hnd e').mp he').2 (heq.symm ▸ hrep)
  · exact .inr (List.mem_map_of_mem ((mem_unchangedSince_ids _ _ _ _ hnd e).mpr ⟨hvisited, hrep⟩))

/-! ## Runs -/

/-- What a command has reached, after these changes. -/
def Reached (r : Rivals ι) (log : List (String × ChangeKind)) (i : ι) : StorePhase → Prop
  | .waiting | .stopped _ => True
  | .checked n request => n ≤ log.length ∧ r.ChecksTo (log.take n) i request
  | .finished sent changed request => ∃ n ≤ log.length, r.ChecksTo (log.take n) i request ∧
      sent = request.ids.keys ∧ ∀ id ∈ changed, id ∈ sent ∧ (id, .updated) ∈ log.drop n

/-- More changes make no difference. -/
theorem Reached.append {phase : StorePhase} (h : r.Reached log i phase)
    (more : List (String × ChangeKind)) : r.Reached (log ++ more) i phase := by
  cases phase with
  | waiting => trivial
  | stopped e => trivial
  | checked n request =>
      obtain ⟨hn, hchecks⟩ := h
      refine ⟨?_, ?_⟩
      · rw [List.length_append]
        exact hn.trans (Nat.le_add_right _ _)
      · rwa [List.take_append_of_le_length hn]
  | finished sent changed request =>
      obtain ⟨n, hn, hchecks, hsent, hchanged⟩ := h
      refine ⟨n, ?_, ?_, hsent, fun id hid ↦ ⟨(hchanged id hid).1, ?_⟩⟩
      · rw [List.length_append]
        exact hn.trans (Nat.le_add_right _ _)
      · rwa [List.take_append_of_le_length hn]
      · rw [List.drop_append_of_le_length hn]
        exact List.mem_append_left _ (hchanged id hid).2

/-- A check is left with what it has seen. -/
theorem reached_check (r : Rivals ι) (log : List (String × ChangeKind)) (i : ι) :
    r.Reached log i (r.check log i) ∧ (r.check log i).changed = [] := by
  unfold check
  dsimp only
  split
  · exact ⟨trivial, rfl⟩
  · rename_i request hstore
    have hchecks : r.ChecksTo (log.take log.length) i request := by
      rw [List.take_length]
      exact checksTo_of_store hstore
    split
    · rename_i hnil
      exact ⟨⟨log.length, le_rfl, hchecks, by rw [hnil]; rfl, by simp⟩, rfl⟩
    · exact ⟨⟨le_rfl, hchecks⟩, rfl⟩

/-- What every request preserves. -/
structure Inv (r : Rivals ι) (s : Stores ι) : Prop where
  reached : ∀ i, r.Reached s.server.log i (s.phase i)
  once : ∀ i j, i ≠ j → ∀ id ∈ (s.phase i).changed, id ∉ (s.phase j).changed

theorem inv_start (r : Rivals ι) (server : EmailServer) : Inv r (.start server) where
  reached _ := trivial
  once _ _ _ id hid := by cases hid

/-- A message that is about to be updated has not been changed by another. -/
theorem Inv.not_changed {s : Stores ι} (hinv : Inv r s)
    (horder : ∀ ids, (r.order ids).Perm ids) {n : ℕ} (hphase : s.phase i = .checked n request)
    (hundisturbed : s.Undisturbed i) {id : String} (hid : id ∈ request.ids.keys) (j : ι) :
    id ∉ (s.phase j).changed := by
  intro hmem
  have hj := hinv.reached j
  have hi := hinv.reached i
  rw [hphase] at hi
  cases hphase' : s.phase j with
  | waiting | checked _ _ | stopped _ =>
      rw [hphase'] at hmem
      cases hmem
  | finished sent changed request' =>
      rw [hphase'] at hj hmem
      obtain ⟨n', hn', ⟨-, p, -, hp, hle', -⟩, -, hchanged⟩ := hj
      obtain ⟨hn, hchecks⟩ := hi
      have hids := hchecks
      obtain ⟨-, q, -, hq, hle, -⟩ := hids
      obtain rfl := Option.some.inj (hp.symm.trans hq)
      rw [List.length_take] at hle hle'
      -- the change came after the state of the modseq
      have hafter : (id, ChangeKind.updated) ∈ s.server.log.drop p := by
        have hdrop := (hchanged id hmem).2
        rw [← Nat.add_sub_cancel' (show p ≤ n' by omega), ← List.drop_drop] at hdrop
        exact List.mem_of_mem_drop hdrop
      rw [← List.take_append_drop n s.server.log, List.drop_append_of_le_length (by simp; omega),
        List.mem_append] at hafter
      rcases hafter with hbefore | hsince
      · exact hchecks.notMem horder hp hid _ hbefore
      · rw [Stores.Undisturbed, hphase] at hundisturbed
        obtain ⟨e, he, rfl⟩ := List.mem_map.mp hid
        exact hundisturbed e he _ hsince rfl

theorem Inv.exclusive {s : Stores ι} (hinv : Inv r s) (horder : ∀ ids, (r.order ids).Perm ids) :
    r.Exclusive s where
  once := hinv.once
  listed i j hne sent changed request hj ids hids e he hi := by
    have hreached := hinv.reached j
    rw [hj] at hreached
    obtain ⟨n, -, hchecks, rfl, -⟩ := hreached
    rcases hchecks.divides horder hids he with hlisted | hsent
    · exact .inl hlisted
    · refine .inr ⟨hsent, fun hmem ↦ hinv.once i j hne e.1 hi ?_⟩
      rw [hj]
      exact hmem

variable [DecidableEq ι]

/-- A command gets on, and has changed nothing that another has. -/
theorem Inv.update {s : Stores ι} (hinv : Inv r s) (server : EmailServer)
    {more : List (String × ChangeKind)} (hlog : server.log = s.server.log ++ more)
    {phase : StorePhase} (hreached : r.Reached server.log i phase)
    (hchanged : ∀ id ∈ phase.changed, ∀ j, id ∉ (s.phase j).changed) :
    Inv r ⟨server, Function.update s.phase i phase⟩ where
  reached := by
    intro j
    dsimp only
    by_cases hji : j = i
    · subst hji
      rwa [Function.update_self]
    · rw [Function.update_of_ne hji, hlog]
      exact (hinv.reached j).append more
  once j k hne id hj hk := by
    dsimp only at hj hk
    by_cases hji : j = i
    · subst hji
      rw [Function.update_self] at hj
      rw [Function.update_of_ne hne.symm] at hk
      exact hchanged id hj k hk
    · rw [Function.update_of_ne hji] at hj
      by_cases hki : k = i
      · subst hki
        rw [Function.update_self] at hk
        exact hchanged id hk j hj
      · rw [Function.update_of_ne hki] at hk
        exact hinv.once j k hne id hj hk

/-- **One request.** -/
theorem Inv.step {s : Stores ι} (hinv : Inv r s) (horder : ∀ ids, (r.order ids).Perm ids)
    (hundisturbed : s.Undisturbed i) : Inv r (r.step s i) := by
  have hi := hinv.reached i
  rw [Rivals.step]
  cases hphase : s.phase i with
  | stopped e => exact hinv
  | finished sent changed request => exact hinv
  | waiting =>
      obtain ⟨hreached, hnil⟩ := reached_check r s.server.log i
      refine hinv.update s.server (List.append_nil _).symm hreached fun id hid ↦ ?_
      rw [hnil] at hid
      cases hid
  | checked n request =>
      rw [hphase] at hi
      obtain ⟨hn, hchecks⟩ := hi
      refine hinv.update _ (s.server.update_log _ _) ?_ fun id hid j ↦
        hinv.not_changed horder hphase hundisturbed (List.mem_of_mem_filter hid) j
      rw [EmailServer.update_log]
      refine ⟨n, ?_, ?_, rfl, fun id hid ↦ ⟨List.mem_of_mem_filter hid, ?_⟩⟩
      · rw [List.length_append]
        exact hn.trans (Nat.le_add_right _ _)
      · rwa [List.take_append_of_le_length hn]
      · rw [List.drop_append_of_le_length hn]
        exact List.mem_append_right _ (List.mem_map_of_mem hid)

end Rivals

/-- **Conditional stores with one modseq exclude each other**, in every run in which the messages of
an update have not changed since its command has asked for the changes. -/
theorem rivals_exclusive {ι : Type} [DecidableEq ι] {r : Rivals ι}
    (horder : ∀ ids, (r.order ids).Perm ids) (server : EmailServer) (schedule : List ι)
    (hrun : Along r.step Stores.Undisturbed (.start server) schedule) :
    r.Exclusive (exec r.step (.start server) schedule) :=
  (exec_induct (Rivals.Inv r) (Rivals.inv_start r server)
    (fun _ _ hinv hundisturbed ↦ hinv.step horder hundisturbed) hrun).exclusive horder

/-- `STORE 1 (UNCHANGEDSINCE 1) +FLAGS (\Seen)` and the same with `\Flagged`. -/
def twoStores : Rivals Bool where
  commands first := {
    mailbox := fourMessages
    sequence := .number 1
    isUid := false
    operation := .add
    keywords := if first then [.seen] else [.flagged] }
  modseq := 1
  order := id
  modseqToState _ := some (some "s")
  position _ := some 0

/-- An email without keywords, and no changes yet. -/
def unflagged : EmailServer where
  emails id := if id = "M1" then some ⟨{"A"}, ∅⟩ else none
  log := []

/-- One after the other. -/
theorem rivals_exclusive_two :
    twoStores.Exclusive (exec twoStores.step (.start unflagged) [true, true, false, false]) :=
  rivals_exclusive (fun ids ↦ List.Perm.refl ids) unflagged [true, true, false, false] (by decide)

/-- Both ask for the changes before either updates: both change the message. -/
theorem rivals_overwrite :
    ¬ ∀ (r : Rivals Bool), (∀ ids, (r.order ids).Perm ids) → ∀ server schedule,
      r.Exclusive (exec r.step (.start server) schedule) := by
  intro h
  have hexclusive := h twoStores (fun ids ↦ List.Perm.refl ids) unflagged [true, false, true, false]
  exact hexclusive.once true false (by decide) "M1" (by decide) (by decide)

end ImapToJmap
