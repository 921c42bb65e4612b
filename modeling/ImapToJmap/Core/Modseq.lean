import ImapToJmap.Core.Message
import ImapToJmap.Data.Roll
import ImapToJmap.Run.Answer

/-!
# Modification sequences

A JMAP server names the states of an account by strings, IMAP by numbers.  `state_to_modseq` gives
a state the next number of its account when it first sees it and writes the pair down in both
directions; `modseq_to_state` reads a number back.

Seen from outside an account is a `Roll`: the states in the order they were first asked for.
`Numbers` says what the three kinds of record hold of it, `call_run` that the two calls do on the
database what `spec` does on rolls, and the contract of a run is then a matter of lists.
-/

namespace ImapToJmap

open Kv Roll Run

/-- A call of one of the two functions. -/
inductive ModseqCall where
  | stateToModseq (accountId state : String)
  | modseqToState (accountId : String) (modseq : ℕ)
deriving DecidableEq

/-- What a call returns. -/
inductive ModseqAnswer where
  | modseq (modseq : ℕ)
  | state (state : Option String)
deriving DecidableEq

namespace ModseqCall

def accountId : ModseqCall → String
  | .stateToModseq accountId _ | .modseqToState accountId _ => accountId

/-- Account ids hold no zero byte, and a modseq is a `u32`. -/
def WellFormed : ModseqCall → Prop
  | .stateToModseq accountId _ => 0 ∉ asBytes accountId
  | .modseqToState accountId modseq => 0 ∉ asBytes accountId ∧ modseq < 2 ^ 32

instance : DecidablePred WellFormed := fun c ↦ by
  cases c <;> unfold WellFormed <;> infer_instance

/-- The state asked about, if the call asks for a number of the account. -/
def stateOf (accountId : String) : ModseqCall → Option String
  | .stateToModseq a state => if a = accountId then some state else none
  | .modseqToState .. => none

/-- The call, as a program. -/
def prog : ModseqCall → DbM ModseqAnswer
  | .stateToModseq accountId state => do
      pure (.modseq (← Db.stateToModseq accountId state))
  | .modseqToState accountId modseq => do
      pure (.state (← Db.modseqToState accountId modseq))

/-- One atomic call; the answer is `none` if it fails. -/
def call (db : Db) (c : ModseqCall) : Db × Option ModseqAnswer :=
  let (answer, db') := c.prog.run db
  (db', answer)

/-- The states of every account, in the order they were first asked for. -/
abbrev Rolls := String → List String

/-- What a call does on rolls. -/
def spec (rolls : Rolls) : ModseqCall → Rolls × Option ModseqAnswer
  | .stateToModseq a state =>
      let roll := enroll (rolls a) state
      (Function.update rolls a roll, some (.modseq (number roll state)))
  | .modseqToState a modseq => (rolls, some (.state (valueOf (rolls a) modseq)))

end ModseqCall

/-! ## The records -/

theorem serializeHighestmodseq_eq (a : Bytes) :
    serializeHighestmodseq a = serializeModseq a [] Sep.highestModseq := by
  simp [serializeHighestmodseq, serializeModseq]

/-- The zero byte ends the account, the last byte is the separator. -/
theorem serializeModseq_inj {a a' v v' : Bytes} {t t' : UInt8} (ha : 0 ∉ a) (ha' : 0 ∉ a') :
    serializeModseq a v t = serializeModseq a' v' t' ↔ a = a' ∧ v = v' ∧ t = t' := by
  constructor
  · intro h
    simp only [serializeModseq, List.append_assoc, List.singleton_append] at h
    obtain ⟨rfl, -, hrest⟩ := append_cons_inj (P := (· ≠ 0)) (fun x hx hx0 ↦ ha (hx0 ▸ hx))
      (fun x hx hx0 ↦ ha' (hx0 ▸ hx)) (by simp) (by simp) h
    obtain ⟨rfl, ht⟩ := List.append_inj' hrest rfl
    exact ⟨rfl, rfl, List.head_eq_of_cons_eq ht⟩
  · rintro ⟨rfl, rfl, rfl⟩
    rfl

open ModseqCall

/-- The records of the database hold the rolls. -/
structure Numbers (db : Db) (rolls : Rolls) : Prop where
  forward : ∀ a s, 0 ∉ asBytes a → db[serializeModseq (asBytes a) (asBytes s) Sep.stateToModseq]? =
    if s ∈ rolls a then some (toBeBytes 4 (number (rolls a) s)) else none
  backward : ∀ a n, 0 ∉ asBytes a → n < 2 ^ 32 →
    db[serializeModseq (asBytes a) (toBeBytes 4 n) Sep.modseqToState]? =
      (valueOf (rolls a) n).map asBytes
  counter : ∀ a, 0 ∉ asBytes a → db[serializeModseq (asBytes a) [] Sep.highestModseq]? =
    if rolls a = [] then none else some (toBeBytes 4 (rolls a).length)

theorem Numbers.empty : Numbers ∅ fun _ ↦ [] where
  forward := by simp
  backward a n _ _ := by cases n <;> simp [valueOf]
  counter := by simp

/-- The counter is the length of the roll, incremented for a newcomer. -/
theorem Numbers.incrementUid {db : Db} {rolls : Rolls} (h : Numbers db rolls) {a : String}
    (ha : 0 ∉ asBytes a) (hlt : (rolls a).length + 1 < 2 ^ 32) :
    Db.incrementUid db[serializeModseq (asBytes a) [] Sep.highestModseq]? =
      some (toBeBytes 4 ((rolls a).length + 1)) := by
  rw [h.counter a ha]
  split
  · rename_i hnil
    rw [hnil]
    rfl
  · rw [Db.incrementUid, u32FromBe_toBeBytes, Nat.mod_eq_of_lt (by omega)]
    rfl

/-- The records written for a newcomer. -/
theorem Numbers.enroll {db : Db} {rolls : Rolls} (h : Numbers db rolls) {a s : String}
    (ha : 0 ∉ asBytes a) (hs : s ∉ rolls a) (hlt : (rolls a).length + 1 < 2 ^ 32) :
    Numbers (((db.insert (serializeModseq (asBytes a) [] Sep.highestModseq)
        (toBeBytes 4 ((rolls a).length + 1))).insert
          (serializeModseq (asBytes a) (asBytes s) Sep.stateToModseq)
            (toBeBytes 4 ((rolls a).length + 1))).insert
              (serializeModseq (asBytes a) (toBeBytes 4 ((rolls a).length + 1)) Sep.modseqToState)
                (asBytes s))
      (Function.update rolls a (rolls a ++ [s])) where
  forward b t hb := by
    have h45 : Sep.modseqToState ≠ Sep.stateToModseq := by decide
    have h65 : Sep.highestModseq ≠ Sep.stateToModseq := by decide
    simp only [Std.ExtTreeMap.getElem?_insert, Std.LawfulEqCmp.compare_eq_iff_eq,
      serializeModseq_inj ha hb, asBytes_inj, h45, h65, and_false, and_true, if_false]
    rw [h.forward b t hb]
    by_cases hab : a = b
    · subst hab
      rw [Function.update_self, ← enroll_of_notMem hs]
      by_cases hst : s = t
      · subst hst
        simp [number_enroll_of_notMem hs]
      · by_cases ht : t ∈ rolls a
        · simp [hst, ht, number_of_isPrefix (prefix_enroll _ _) ht]
        · simp [hst, ht, eq_comm]
    · rw [Function.update_of_ne (Ne.symm hab)]
      simp [hab]
  backward b n hb hn := by
    have h54 : Sep.stateToModseq ≠ Sep.modseqToState := by decide
    have h64 : Sep.highestModseq ≠ Sep.modseqToState := by decide
    have hinj : toBeBytes 4 ((rolls a).length + 1) = toBeBytes 4 n ↔ (rolls a).length + 1 = n :=
      toBeBytes_inj hlt hn
    simp only [Std.ExtTreeMap.getElem?_insert, Std.LawfulEqCmp.compare_eq_iff_eq,
      serializeModseq_inj ha hb, hinj, h54, h64, and_false, and_true, if_false]
    rw [h.backward b n hb hn]
    by_cases hab : a = b
    · subst hab
      rw [Function.update_self, valueOf_concat]
      by_cases hlen : (rolls a).length + 1 = n
      · simp [hlen]
      · simp [hlen, Ne.symm hlen]
    · rw [Function.update_of_ne (Ne.symm hab)]
      simp [hab]
  counter b hb := by
    have h56 : Sep.stateToModseq ≠ Sep.highestModseq := by decide
    have h46 : Sep.modseqToState ≠ Sep.highestModseq := by decide
    simp only [Std.ExtTreeMap.getElem?_insert, Std.LawfulEqCmp.compare_eq_iff_eq,
      serializeModseq_inj ha hb, asBytes_inj, h56, h46, and_false, and_true, if_false]
    rw [h.counter b hb]
    by_cases hab : a = b
    · subst hab
      simp [Function.update_self]
    · rw [Function.update_of_ne (Ne.symm hab)]
      simp [hab]

/-! ## The two calls -/

section Calls

variable {db : Db} {rolls : Rolls} {a s : String}

theorem stateToModseq_run_of_mem (h : Numbers db rolls) (ha : 0 ∉ asBytes a) (hs : s ∈ rolls a)
    (hlt : (rolls a).length < 2 ^ 32) :
    (Db.stateToModseq a s).run db = (some (number (rolls a) s), db) := by
  have hread := h.forward a s ha
  rw [if_pos hs] at hread
  have hn := number_le hs
  rw [Db.stateToModseq, Prog.run_bind_of_eq (Prog.run_read _ _), hread]
  rw [Prog.run_bind_of_eq (Prog.run_pure _ _)]
  show (Prog.ofOption (u32FromBe (toBeBytes 4 (number (rolls a) s)))).run db = _
  rw [u32FromBe_toBeBytes, Nat.mod_eq_of_lt (by omega), Prog.run_ofOption]

theorem stateToModseq_run_of_notMem (h : Numbers db rolls) (ha : 0 ∉ asBytes a)
    (hs : s ∉ rolls a) (hlt : (rolls a).length + 1 < 2 ^ 32) :
    ∃ db', (Db.stateToModseq a s).run db = (some ((rolls a).length + 1), db') ∧
      Numbers db' (Function.update rolls a (rolls a ++ [s])) := by
  refine ⟨_, ?_, h.enroll ha hs hlt⟩
  have hread := h.forward a s ha
  rw [if_neg hs] at hread
  have hcount := h.incrementUid ha hlt
  rw [Db.stateToModseq, Prog.run_bind_of_eq (Prog.run_read _ _), hread]
  simp only [Prog.run_bind, Prog.run_update, serializeHighestmodseq_eq, hcount, Prog.store,
    Prog.run_ofOption, Prog.run_write, Prog.run_pure, u32FromBe_toBeBytes]
  rw [Nat.mod_eq_of_lt hlt]

theorem modseqToState_run (h : Numbers db rolls) (ha : 0 ∉ asBytes a) {n : ℕ} (hn : n < 2 ^ 32) :
    (Db.modseqToState a n).run db = (some (valueOf (rolls a) n), db) := by
  rw [Db.modseqToState, Prog.run_bind_of_eq (Prog.run_read _ _), h.backward a n ha hn]
  cases valueOf (rolls a) n with
  | none => rfl
  | some s =>
      show (Prog.ofOption (fromUtf8 (asBytes s)) >>= fun s ↦ pure (some s)).run db = _
      rw [Prog.run_bind_of_eq (by rw [Prog.run_ofOption, fromUtf8_asBytes]), Prog.run_pure]

/-- **The calls do on the records what they say on the rolls.** -/
theorem call_run (h : Numbers db rolls) {c : ModseqCall} (hc : c.WellFormed)
    (hlt : ∀ a, ((spec rolls c).1 a).length < 2 ^ 32) :
    (call db c).2 = (spec rolls c).2 ∧ Numbers (call db c).1 (spec rolls c).1 := by
  cases c with
  | stateToModseq a s =>
      have hlta := hlt a
      simp only [spec, Function.update_self] at hlta ⊢
      by_cases hs : s ∈ rolls a
      · rw [enroll_of_mem hs] at hlta ⊢
        rw [call, prog, Prog.run_bind_of_eq (stateToModseq_run_of_mem h hc hs hlta),
          Function.update_eq_self]
        exact ⟨rfl, h⟩
      · have hnum := number_enroll_of_notMem hs
        rw [enroll_of_notMem hs] at hlta hnum ⊢
        rw [List.length_append, List.length_singleton] at hlta
        obtain ⟨db', hrun, hnew⟩ := stateToModseq_run_of_notMem h hc hs hlta
        rw [call, prog, Prog.run_bind_of_eq hrun, hnum]
        exact ⟨rfl, hnew⟩
  | modseqToState a n =>
      rw [call, prog, Prog.run_bind_of_eq (modseqToState_run h hc.1 hc.2)]
      exact ⟨rfl, h⟩

end Calls

/-! ## Runs -/

/-- What becomes of the roll of an account. -/
theorem spec_stateToModseq (rolls : Rolls) (b s a : String) :
    (spec rolls (.stateToModseq b s)).1 a =
      if b = a then enroll (rolls a) s else rolls a := by
  by_cases h : b = a
  · subst h
    simp [spec]
  · simp [spec, h, Function.update_of_ne (Ne.symm h)]

/-- A call only adds to the rolls. -/
theorem prefix_spec (rolls : Rolls) (c : ModseqCall) (a : String) :
    rolls a <+: (spec rolls c).1 a := by
  cases c with
  | stateToModseq b s =>
      rw [spec_stateToModseq]
      split
      · exact prefix_enroll _ _
      · exact List.prefix_rfl
  | modseqToState b n => exact List.prefix_rfl

theorem prefix_final (rolls : Rolls) (calls : List ModseqCall) (a : String) :
    rolls a <+: final spec rolls calls a := by
  induction calls generalizing rolls with
  | nil => exact List.prefix_rfl
  | cons c calls ih => exact (prefix_spec rolls c a).trans (ih _)

/-- **A run on the database gives the answers of the rolls.** -/
theorem answers_run {db : Db} {rolls : Rolls} (h : Numbers db rolls) {calls : List ModseqCall}
    (hc : ∀ c ∈ calls, c.WellFormed) (hlt : ∀ a, (final spec rolls calls a).length < 2 ^ 32) :
    answers call db calls = answers spec rolls calls := by
  induction calls generalizing db rolls with
  | nil => rfl
  | cons c calls ih =>
      have hlt₁ : ∀ a, ((spec rolls c).1 a).length < 2 ^ 32 := fun a ↦
        Nat.lt_of_le_of_lt (prefix_final _ calls a).length_le (hlt a)
      obtain ⟨hans, hnext⟩ := call_run h (hc c List.mem_cons_self) hlt₁
      rw [answers, answers, hans, ih hnext (fun c hmem ↦ hc c (List.mem_cons_of_mem _ hmem)) hlt]

/-- **A run on the database leaves the records of the rolls.** -/
theorem numbers_final {db : Db} {rolls : Rolls} (h : Numbers db rolls) {calls : List ModseqCall}
    (hc : ∀ c ∈ calls, c.WellFormed) (hlt : ∀ a, (final spec rolls calls a).length < 2 ^ 32) :
    Numbers (final call db calls) (final spec rolls calls) := by
  induction calls generalizing db rolls with
  | nil => exact h
  | cons c calls ih =>
      have hlt₁ : ∀ a, ((spec rolls c).1 a).length < 2 ^ 32 := fun a ↦
        Nat.lt_of_le_of_lt (prefix_final _ calls a).length_le (hlt a)
      exact ih (call_run h (hc c List.mem_cons_self) hlt₁).2
        (fun c hmem ↦ hc c (List.mem_cons_of_mem _ hmem)) hlt

/-- The rolls hold the states asked for, each once. -/
theorem final_spec (calls : List ModseqCall) (rolls : Rolls) (hnodup : ∀ a, (rolls a).Nodup)
    (a : String) : (final spec rolls calls a).Nodup ∧
      ∀ s, s ∈ final spec rolls calls a ↔ s ∈ rolls a ∨ s ∈ calls.filterMap (stateOf a) := by
  induction calls generalizing rolls with
  | nil => simpa using hnodup a
  | cons c calls ih =>
      have hstep : ∀ b, ((spec rolls c).1 b).Nodup := by
        intro b
        cases c with
        | stateToModseq d s =>
            rw [spec_stateToModseq]
            split
            · exact nodup_enroll (hnodup b) s
            · exact hnodup b
        | modseqToState d n => exact hnodup b
      refine ⟨(ih _ hstep).1, fun t ↦ ?_⟩
      rw [final_cons, (ih _ hstep).2]
      cases c with
      | stateToModseq d s =>
          rw [spec_stateToModseq]
          by_cases h : d = a
          · simp [stateOf, h, or_assoc]
          · simp [stateOf, h]
      | modseqToState d n => simp [spec, stateOf]

/-! ## The contract -/

/-- What the two calls promise about a run, given with the answer to each of its calls. -/
structure ModseqContract (run : List (ModseqCall × Option ModseqAnswer)) : Prop where
  /-- No call fails. -/
  answered : ∀ e ∈ run, e.2 ≠ none
  /-- The number of a state is read back as that state from then on. -/
  back : ∀ t₁ t₂ a s n r, run = t₁ ++ (.stateToModseq a s, some (.modseq n)) :: t₂ →
    (.modseqToState a n, r) ∈ t₂ → r = some (.state (some s))
  /-- Asked again, a state has the same number. -/
  again : ∀ t₁ t₂ a s n r, run = t₁ ++ (.stateToModseq a s, some (.modseq n)) :: t₂ →
    (.stateToModseq a s, r) ∈ t₂ → r = some (.modseq n)
  /-- Different states of one account have different numbers. -/
  distinct : ∀ a s s' n, (.stateToModseq a s, some (.modseq n)) ∈ run →
    (.stateToModseq a s', some (.modseq n)) ∈ run → s = s'
  /-- A state seen for the first time gets a number above all the account has issued. -/
  fresh : ∀ t₁ t₂ a s n, run = t₁ ++ (.stateToModseq a s, some (.modseq n)) :: t₂ →
    (∀ r, (.stateToModseq a s, r) ∉ t₁) →
      ∀ s' n', (.stateToModseq a s', some (.modseq n')) ∈ t₁ → n' < n
  /-- A number the account has not issued is no state's. -/
  unissued : ∀ t₁ t₂ a n r, run = t₁ ++ (.modseqToState a n, r) :: t₂ →
    (∀ s, (.stateToModseq a s, some (.modseq n)) ∉ t₁) → r = some (.state none)

section Contract

variable {calls : List ModseqCall}

/-- The rolls at the end of a run from nothing. -/
abbrev rollsAfter (calls : List ModseqCall) : Rolls := final spec (fun _ ↦ []) calls

theorem nodup_rollsAfter (calls : List ModseqCall) (a : String) : (rollsAfter calls a).Nodup :=
  (final_spec calls _ (by simp) a).1

theorem mem_rollsAfter {a s : String} :
    s ∈ rollsAfter calls a ↔ ModseqCall.stateToModseq a s ∈ calls := by
  rw [rollsAfter, (final_spec calls _ (by simp) a).2]
  simp only [List.not_mem_nil, false_or, List.mem_filterMap]
  constructor
  · rintro ⟨c, hc, hs⟩
    cases c with
    | stateToModseq b t =>
        simp only [stateOf, Option.ite_none_right_eq_some, Option.some.injEq] at hs
        obtain ⟨rfl, rfl⟩ := hs
        exact hc
    | modseqToState b n => cases hs
  · intro h
    exact ⟨_, h, by simp [stateOf]⟩

/-- The answer to a call for a number is the number on the roll, from then on. -/
theorem answer_eq_number {is js : List ModseqCall} {a s : String} {r : Option ModseqAnswer}
    (h : r = (spec (rollsAfter is) (.stateToModseq a s)).2) :
    s ∈ rollsAfter (is ++ .stateToModseq a s :: js) a ∧
      r = some (.modseq (number (rollsAfter (is ++ .stateToModseq a s :: js) a) s)) := by
  have hmem : s ∈ enroll (rollsAfter is a) s := by simp
  have hpre : enroll (rollsAfter is a) s <+: rollsAfter (is ++ .stateToModseq a s :: js) a := by
    rw [rollsAfter, rollsAfter, final_append, final_cons]
    refine List.IsPrefix.trans ?_ (prefix_final _ js a)
    rw [spec_stateToModseq, if_pos rfl]
  exact ⟨hpre.subset hmem, by rw [h, spec, number_of_isPrefix hpre hmem]⟩

/-- Numbers issued in a run are numbers on its roll. -/
theorem number_of_mem_answers {a s : String} {r : Option ModseqAnswer}
    (h : (.stateToModseq a s, r) ∈ answers spec (fun _ ↦ []) calls) :
    s ∈ rollsAfter calls a ∧ r = some (.modseq (number (rollsAfter calls a) s)) := by
  obtain ⟨is, js, rfl, hr⟩ := mem_answers h
  exact answer_eq_number hr

theorem mem_answers_of_mem {a s : String} (h : s ∈ rollsAfter calls a) :
    (.stateToModseq a s, some (.modseq (number (rollsAfter calls a) s))) ∈
      answers spec (fun _ ↦ []) calls := by
  obtain ⟨is, js, rfl⟩ := List.append_of_mem (mem_rollsAfter.mp h)
  rw [← (@answer_eq_number is js a s _ rfl).2, answers_append]
  exact List.mem_append_right _ List.mem_cons_self

/-- An answer after a call for a number: the rolls it is given from contain that call. -/
theorem answer_after {t₁ t₂ : List (ModseqCall × Option ModseqAnswer)} {c : ModseqCall}
    {r : Option ModseqAnswer} {e : ModseqCall × Option ModseqAnswer}
    (h : answers spec (fun _ ↦ []) calls = t₁ ++ (c, r) :: t₂) (he : e ∈ t₂) :
    ∃ is js, r = (spec (rollsAfter is) c).2 ∧
      e.2 = (spec (rollsAfter (is ++ c :: js)) e.1).2 := by
  obtain ⟨is, js, -, -, hr, rfl⟩ := answers_eq_append_cons h
  obtain ⟨js₁, js₂, -, he⟩ := mem_answers he
  refine ⟨is, js₁, hr, ?_⟩
  rw [he, rollsAfter, ← final_append, List.append_assoc, List.singleton_append]

/-- **Rolls meet the contract.** -/
theorem contract_spec (calls : List ModseqCall) :
    ModseqContract (answers spec (fun _ ↦ []) calls) where
  answered e he := by
    obtain ⟨is, js, -, hr⟩ := mem_answers he
    rw [hr]
    cases e.1 <;> simp [spec]
  back t₁ t₂ a s n r h hmem := by
    obtain ⟨is, js, hn, hr⟩ := answer_after h hmem
    obtain ⟨hs, hnum⟩ := @answer_eq_number is js a s _ hn
    obtain rfl : n = number (rollsAfter (is ++ .stateToModseq a s :: js) a) s := by
      simpa using hnum
    have hr' : r = some (.state (valueOf (rollsAfter (is ++ .stateToModseq a s :: js) a)
      (number (rollsAfter (is ++ .stateToModseq a s :: js) a) s))) := hr
    rw [hr', valueOf_number hs]
  again t₁ t₂ a s n r h hmem := by
    obtain ⟨is, js, hn, hr⟩ := answer_after h hmem
    obtain ⟨hs, hnum⟩ := @answer_eq_number is js a s _ hn
    have hr' : r = some (.modseq
      (number (enroll (rollsAfter (is ++ .stateToModseq a s :: js) a) s) s)) := hr
    rw [hr', enroll_of_mem hs, hnum]
  distinct a s s' n h h' := by
    obtain ⟨hs, hn⟩ := number_of_mem_answers h
    obtain ⟨-, hn'⟩ := number_of_mem_answers h'
    rw [hn] at hn'
    simpa [number_inj hs] using hn'
  fresh t₁ t₂ a s n h hnew s' n' h' := by
    obtain ⟨is, js, -, rfl, hn, -⟩ := answers_eq_append_cons h
    have hs : s ∉ rollsAfter is a := fun hs ↦ hnew _ (mem_answers_of_mem hs)
    have hn : n = number (enroll (rollsAfter is a) s) s := by simpa [spec] using hn
    obtain ⟨hs', hn'⟩ := number_of_mem_answers h'
    obtain rfl : n' = number (rollsAfter is a) s' := by simpa using hn'
    have hle := number_le hs'
    rw [hn, number_enroll_of_notMem hs]
    omega
  unissued t₁ t₂ a n r h hno := by
    obtain ⟨is, js, -, rfl, hr, -⟩ := answers_eq_append_cons h
    have hr : r = some (.state (valueOf (rollsAfter is a) n)) := hr
    cases hv : valueOf (rollsAfter is a) n with
    | none => rw [hr, hv]
    | some s =>
        obtain ⟨hs, rfl⟩ := number_of_valueOf (nodup_rollsAfter is a) hv
        exact absurd (mem_answers_of_mem hs) (hno s)

/-- The answers to the calls on one account are those of a run with these calls only. -/
theorem filter_answers_spec (a : String) (calls : List ModseqCall) :
    (answers spec (fun _ ↦ []) calls).filter (fun e ↦ e.1.accountId = a) =
      answers spec (fun _ ↦ []) (calls.filter fun c ↦ c.accountId = a) := by
  refine answers_filter (p := fun c ↦ decide (c.accountId = a)) (fun rolls : Rolls ↦ rolls a)
    ?_ ?_ rfl calls
  · intro rolls c hc
    cases c with
    | stateToModseq b s =>
        exact (spec_stateToModseq rolls b s a).trans (if_neg (of_decide_eq_false hc))
    | modseqToState b n => rfl
  · intro rolls rolls' c hc h
    cases c with
    | stateToModseq b s =>
        obtain rfl : b = a := of_decide_eq_true hc
        rw [spec_stateToModseq, spec_stateToModseq, h]
        exact ⟨rfl, by rw [spec, spec, h]⟩
    | modseqToState b n =>
        obtain rfl : b = a := of_decide_eq_true hc
        exact ⟨h, by rw [spec, spec, h]⟩

/-- A roll is no longer than there are states to number. -/
theorem length_rollsAfter_lt {calls' : List ModseqCall} (hsub : calls' ⊆ calls)
    (hfew : ∀ a, (calls.filterMap (stateOf a)).dedup.length < 2 ^ 32 - 1) (a : String) :
    (rollsAfter calls' a).length < 2 ^ 32 := by
  have hsubset : rollsAfter calls' a ⊆ (calls.filterMap (stateOf a)).dedup := by
    intro s hs
    rw [List.mem_dedup, List.mem_filterMap]
    exact ⟨_, hsub (mem_rollsAfter.mp hs), by simp [stateOf]⟩
  have hle := (List.subperm_of_subset (nodup_rollsAfter calls' a) hsubset).length_le
  have := hfew a
  omega

/-- **Modseqs number the states of an account.**  In every run of the two calls from an empty
database the answers meet the contract, and those for one account are the same without the calls
on the others. -/
theorem modseq_contract (calls : List ModseqCall) (hc : ∀ c ∈ calls, c.WellFormed)
    (hfew : ∀ a, (calls.filterMap (stateOf a)).dedup.length < 2 ^ 32 - 1) :
    ModseqContract (answers call ∅ calls) ∧
      ∀ a, (answers call ∅ calls).filter (fun e ↦ e.1.accountId = a) =
        answers call ∅ (calls.filter fun c ↦ c.accountId = a) := by
  have hlen : ∀ calls' : List ModseqCall, calls' ⊆ calls → ∀ a,
      (rollsAfter calls' a).length < 2 ^ 32 := fun _ hsub ↦ length_rollsAfter_lt hsub hfew
  have hsub : ∀ a, (calls.filter fun c ↦ c.accountId = a) ⊆ calls := fun a ↦
    List.filter_sublist.subset
  rw [answers_run .empty hc (hlen calls (List.Subset.refl calls))]
  refine ⟨contract_spec calls, fun a ↦ ?_⟩
  rw [filter_answers_spec,
    answers_run .empty (fun c hmem ↦ hc c (hsub a hmem)) (hlen _ (hsub a))]

/-- Two accounts, one the prefix of the other, and a state asked for twice. -/
theorem modseq_contract_prefix :
    let calls : List ModseqCall := [.stateToModseq "u" "s1", .stateToModseq "u1" "s2",
      .stateToModseq "u" "s2", .stateToModseq "u" "s1", .modseqToState "u" 2, .modseqToState "u1" 2]
    ModseqContract (answers call ∅ calls) ∧
      ∀ a, (answers call ∅ calls).filter (fun e ↦ e.1.accountId = a) =
        answers call ∅ (calls.filter fun c ↦ c.accountId = a) :=
  modseq_contract _ (by decide +kernel) fun a ↦ by
    refine Nat.lt_of_le_of_lt ((List.dedup_sublist _).length_le.trans
      (List.length_filterMap_le _ _)) (by decide)

example : answers call ∅ [.stateToModseq "u" "s1", .stateToModseq "u1" "s2",
      .stateToModseq "u" "s2", .modseqToState "u" 2, .modseqToState "u1" 2] =
    [(.stateToModseq "u" "s1", some (.modseq 1)), (.stateToModseq "u1" "s2", some (.modseq 1)),
      (.stateToModseq "u" "s2", some (.modseq 2)), (.modseqToState "u" 2, some (.state "s2")),
      (.modseqToState "u1" 2, some (.state none))] := by decide +kernel

end Contract

end ImapToJmap
