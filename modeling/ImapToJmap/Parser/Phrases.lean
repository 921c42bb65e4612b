import ImapToJmap.Parser.Filters

/-!
# What the filter parser accepts

What `parse_filters` has read has a shape (`Shape`): every list on the stack holds complete phrases.
A `)` ends whatever list is innermost, so among the phrases are ORs and NOTs that a parenthesis has
cut short (`Phrase`).

`Phrase.adds`: a phrase becomes one filter, or its parts if they are joined by AND, with all its
keys. `run_error_iff`: the loop fails at a `)` that nothing is open for, or at the twelfth open
list.
-/

namespace ImapToJmap

open Search
open Jmap (Operator)

/-! ## Phrases -/

/-- What the parser takes for a complete filter: an OR or a NOT may also end at a `)`. -/
inductive Phrase : List Symbol → Prop
  | filter (filter : Filter) : Phrase [.filter filter]
  | list {phrases : List (List Symbol)} : (∀ q ∈ phrases, Phrase q) →
      Phrase (.parenthesisOpen :: (phrases.flatten ++ [.parenthesisClose]))
  | or {q q' : List Symbol} : Phrase q → Phrase q' → Phrase (.or :: (q ++ q'))
  | not {q : List Symbol} : Phrase q → Phrase (.not :: q)
  | cutOr : Phrase [.or, .parenthesisClose]
  | cutOrOne {q : List Symbol} : Phrase q → Phrase (.or :: (q ++ [.parenthesisClose]))
  | cutNot : Phrase [.not, .parenthesisClose]

/-- Some phrases. -/
def Phrases (symbols : List Symbol) : Prop :=
  ∃ phrases : List (List Symbol), (∀ q ∈ phrases, Phrase q) ∧ symbols = phrases.flatten

theorem phrases_nil : Phrases [] := ⟨[], by simp, rfl⟩

theorem Phrases.concat {symbols q : List Symbol} (h : Phrases symbols) (hq : Phrase q) :
    Phrases (symbols ++ q) := by
  obtain ⟨phrases, hphrases, rfl⟩ := h
  refine ⟨phrases ++ [q], fun q' hq' ↦ ?_, by simp⟩
  rcases List.mem_append.mp hq' with hq' | hq'
  · exact hphrases q' hq'
  · rwa [List.mem_singleton.mp hq']

theorem Phrases.list {symbols : List Symbol} (h : Phrases symbols) :
    Phrase (.parenthesisOpen :: (symbols ++ [.parenthesisClose])) := by
  obtain ⟨phrases, hphrases, rfl⟩ := h
  exact .list hphrases

namespace FilterParser

/-- What has been read, with the lists that are still open. -/
inductive Shape : FilterParser → List Symbol → Prop
  | root {filters : List Filter} {symbols : List Symbol} : Phrases symbols →
      Shape ⟨filters, .and, []⟩ symbols
  | list {p : FilterParser} {filters : List Filter} {symbols phrases : List Symbol} :
      Shape p symbols → Phrases phrases →
        Shape ⟨filters, .and, (p.filters, p.operator) :: p.stack⟩
          (symbols ++ .parenthesisOpen :: phrases)
  | or {p : FilterParser} {symbols : List Symbol} : Shape p symbols →
      Shape ⟨[], .or, (p.filters, p.operator) :: p.stack⟩ (symbols ++ [.or])
  | orOne {p : FilterParser} {filter : Filter} {symbols phrase : List Symbol} : Shape p symbols →
      Phrase phrase →
        Shape ⟨[filter], .or, (p.filters, p.operator) :: p.stack⟩ (symbols ++ .or :: phrase)
  | not {p : FilterParser} {symbols : List Symbol} : Shape p symbols →
      Shape ⟨[], .not, (p.filters, p.operator) :: p.stack⟩ (symbols ++ [.not])

variable {p p' : FilterParser} {filters : List Filter} {symbols phrase : List Symbol}

/-- A list that is closed, in the list around it. -/
theorem length_collapse (p : FilterParser) (operator : Operator) (filters : List Filter) :
    p.operator = .or → (collapse operator filters p.operator).length = 1 := by
  intro h
  rw [h]
  exact length_collapse_or operator filters

/-- A phrase goes to the innermost list. -/
theorem Shape.settle (h : Shape p symbols) (hphrase : Phrase phrase)
    (hor : p.operator = .or → filters.length = 1) :
    Shape (p.push filters).settle (symbols ++ phrase) := by
  induction h generalizing filters phrase with
  | root hphrases =>
      rw [push, settle_and]
      exact .root (hphrases.concat hphrase)
  | list h hphrases ih =>
      rw [push, settle_and, List.append_assoc]
      exact .list h (hphrases.concat hphrase)
  | or h ih =>
      obtain ⟨filter, rfl⟩ := List.length_eq_one_iff.mp (hor rfl)
      rw [push, List.nil_append, settle_or (by simp), List.append_assoc]
      exact .orOne h hphrase
  | @orOne p filter symbols phrase' h hphrase' ih =>
      obtain ⟨filter', rfl⟩ := List.length_eq_one_iff.mp (hor rfl)
      rw [push, FilterParser.settle, if_neg (by simp), reduce_cons, List.append_assoc]
      exact ih (.or hphrase' hphrase) (length_collapse p _ _)
  | @not p symbols h ih =>
      rw [push, FilterParser.settle, if_neg (by simp), reduce_cons, List.append_assoc]
      exact ih (.not hphrase) (length_collapse p _ _)

/-- The end of a round after a key. -/
theorem Shape.finish_push (h : Shape p symbols) (filter : Filter) :
    (p.push [filter]).finish false = (p.push [filter]).settle := by
  cases h <;> rfl

/-- The end of a round after a `)`. -/
theorem finish_true (p : FilterParser) (operator : Operator) (filters : List Filter) :
    finish ⟨filters, operator, (p.filters, p.operator) :: p.stack⟩ true =
      (p.push (collapse operator filters p.operator)).settle := by
  rw [finish, if_pos (by simp), reduce_cons]

theorem Shape.nest (h : Shape p symbols) : Shape ⟨[], .and, (p.filters, p.operator) :: p.stack⟩
    (symbols ++ [.parenthesisOpen]) := .list h phrases_nil

theorem Shape.act {symbol : Symbol} (h : Shape p symbols) (hact : p.act symbol = .ok p') :
    Shape p' (symbols ++ [symbol]) := by
  cases symbol with
  | filter filter =>
      obtain rfl := Except.ok.inj hact
      rw [h.finish_push filter]
      exact h.settle (.filter filter) fun _ ↦ rfl
  | or =>
      obtain rfl := nest_eq_ok hact
      exact .or h
  | not =>
      obtain rfl := nest_eq_ok hact
      exact .not h
  | parenthesisOpen =>
      obtain rfl := nest_eq_ok hact
      exact h.nest
  | parenthesisClose =>
      rw [FilterParser.act] at hact
      cases h with
      | root hphrases => cases hact
      | @list p filters symbols phrases h hphrases =>
          obtain rfl := Except.ok.inj hact
          rw [finish_true, List.append_assoc]
          exact h.settle hphrases.list (length_collapse p _ _)
      | @or p symbols h =>
          obtain rfl := Except.ok.inj hact
          rw [finish_true, List.append_assoc]
          exact h.settle .cutOr (length_collapse p _ _)
      | @orOne p filter symbols phrase h hphrase =>
          obtain rfl := Except.ok.inj hact
          rw [finish_true, List.append_assoc]
          exact h.settle (.cutOrOne hphrase) (length_collapse p _ _)
      | @not p symbols h =>
          obtain rfl := Except.ok.inj hact
          rw [finish_true, List.append_assoc]
          exact h.settle .cutNot (length_collapse p _ _)

/-! ## Runs -/

section Run

variable {symbol : Symbol} {symbols' : List Symbol} {phrases : List (List Symbol)} {e : FilterError}

theorem run_append_eq_ok (h : p.run (symbols ++ symbols') = .ok p') :
    ∃ p₁, p.run symbols = .ok p₁ ∧ p₁.run symbols' = .ok p' := by
  rw [run_append] at h
  cases hrun : p.run symbols with
  | error e => simp [hrun, bind, Except.bind] at h
  | ok p₁ =>
      rw [hrun] at h
      exact ⟨p₁, rfl, h⟩

theorem run_singleton_eq_ok (h : p.run [symbol] = .ok p') : p.act symbol = .ok p' := by
  obtain ⟨p₁, hact, hrun⟩ := run_cons_eq_ok h
  rw [hact]
  exact hrun

theorem Shape.run (h : Shape p symbols) (hrun : p.run symbols' = .ok p') :
    Shape p' (symbols ++ symbols') := by
  induction symbols' generalizing p symbols with
  | nil =>
      obtain rfl := Except.ok.inj hrun
      rwa [List.append_nil]
  | cons symbol symbols' ih =>
      obtain ⟨p₁, hact, hrest⟩ := run_cons_eq_ok hrun
      rw [← List.singleton_append, ← List.append_assoc]
      exact ih (h.act hact) hrest

/-- The symbol at which the loop stops. -/
theorem exists_of_run_eq_error (h : p.run symbols = .error e) : ∃ before symbol after p₁,
    symbols = before ++ symbol :: after ∧ p.run before = .ok p₁ ∧ p₁.act symbol = .error e := by
  induction symbols generalizing p with
  | nil => cases h
  | cons symbol symbols ih =>
      cases hact : p.act symbol with
      | error e' =>
          rw [run, List.foldlM_cons, hact] at h
          exact ⟨[], symbol, symbols, p, rfl, rfl, hact.trans h⟩
      | ok p₁ =>
          rw [run, List.foldlM_cons, hact] at h
          obtain ⟨before, symbol', after, p₂, rfl, hrun, herror⟩ := ih h
          refine ⟨symbol :: before, symbol', after, p₂, rfl, ?_, herror⟩
          rw [run, List.foldlM_cons, hact]
          exact hrun

/-- The parser takes the symbols for one filter. -/
def Adds (phrase : List Symbol) : Prop :=
  ∀ {p p' : FilterParser} {symbols : List Symbol}, Shape p symbols → p.run phrase = .ok p' →
    ∃ filters, (p.operator = .or → filters.length = 1) ∧ p' = (p.push filters).settle

/-- One phrase after another, in a list. -/
theorem adds_flatten (hphrases : ∀ q ∈ phrases, Phrase q ∧ Adds q) (h : Shape p symbols)
    (hand : p.operator = .and) (hrun : p.run phrases.flatten = .ok p') :
    ∃ filters, p' = p.push filters := by
  induction phrases generalizing p symbols with
  | nil =>
      refine ⟨[], ?_⟩
      rw [push, List.append_nil]
      exact (Except.ok.inj hrun).symm
  | cons q phrases ih =>
      obtain ⟨hq, hadds⟩ := hphrases q (by simp)
      rw [List.flatten_cons] at hrun
      obtain ⟨p₁, hfirst, hrest⟩ := run_append_eq_ok hrun
      obtain ⟨filters, hor, rfl⟩ := hadds h hfirst
      have hsettle : (p.push filters).settle = p.push filters := if_pos (.inl hand)
      have hshape := h.settle hq hor
      rw [hsettle] at hrest hshape
      obtain ⟨filters', rfl⟩ :=
        ih (fun q' hq' ↦ hphrases q' (List.mem_cons_of_mem _ hq')) hshape hand hrest
      refine ⟨filters ++ filters', ?_⟩
      simp [push]

/-- A list that is opened, filled and closed by a `)`. -/
theorem exists_of_close {operator : Operator}
    (h : FilterParser.act ⟨filters, operator,
      (p.filters, p.operator) :: p.stack⟩ .parenthesisClose =
      .ok p') :
    ∃ filters', (p.operator = .or → filters'.length = 1) ∧ p' = (p.push filters').settle := by
  rw [FilterParser.act, if_neg (by simp), finish_true] at h
  exact ⟨_, length_collapse p _ _, (Except.ok.inj h).symm⟩

end Run

end FilterParser

open FilterParser

/-- **What the parser makes of a phrase.** -/
theorem Phrase.adds {phrase : List Symbol} (h : Phrase phrase) : Adds phrase := by
  intro p p' symbols hshape hrun
  induction h generalizing p p' symbols with
  | filter filter =>
      obtain rfl := Except.ok.inj (run_singleton_eq_ok hrun)
      exact ⟨[filter], fun _ ↦ rfl, hshape.finish_push filter⟩
  | @list phrases hphrases ih =>
      obtain ⟨p₁, hopen, hrun⟩ := run_cons_eq_ok hrun
      obtain rfl := nest_eq_ok hopen
      obtain ⟨p₂, hlist, hclose⟩ := run_append_eq_ok hrun
      have hadds : ∀ q ∈ phrases, Phrase q ∧ Adds q :=
        fun q hq ↦ ⟨hphrases q hq, fun hshape hrun ↦ ih q hq hshape hrun⟩
      obtain ⟨filters, rfl⟩ := adds_flatten hadds hshape.nest rfl hlist
      exact exists_of_close (run_singleton_eq_ok hclose)
  | @or q q' hq hq' ih ih' =>
      obtain ⟨p₁, hopen, hrun⟩ := run_cons_eq_ok hrun
      obtain rfl := nest_eq_ok hopen
      obtain ⟨p₂, hfirst, hsecond⟩ := run_append_eq_ok hrun
      obtain ⟨filters, hlen, rfl⟩ := ih hshape.or hfirst
      obtain ⟨filter, rfl⟩ := List.length_eq_one_iff.mp (hlen rfl)
      rw [push, List.nil_append, settle_or (by simp)] at hsecond
      obtain ⟨filters', hlen', rfl⟩ := ih' (hshape.orOne hq) hsecond
      obtain ⟨filter', rfl⟩ := List.length_eq_one_iff.mp (hlen' rfl)
      refine ⟨_, length_collapse p .or [filter, filter'], ?_⟩
      rw [push, settle, if_neg (by simp), reduce_cons]
      rfl
  | @not q hq ih =>
      obtain ⟨p₁, hopen, hrun⟩ := run_cons_eq_ok hrun
      obtain rfl := nest_eq_ok hopen
      obtain ⟨filters, -, rfl⟩ := ih hshape.not hrun
      refine ⟨_, length_collapse p .not filters, ?_⟩
      rw [push, settle, if_neg (by simp), reduce_cons]
      rfl
  | cutOr =>
      obtain ⟨p₁, hopen, hrun⟩ := run_cons_eq_ok hrun
      obtain rfl := nest_eq_ok hopen
      exact exists_of_close (run_singleton_eq_ok hrun)
  | @cutOrOne q hq ih =>
      obtain ⟨p₁, hopen, hrun⟩ := run_cons_eq_ok hrun
      obtain rfl := nest_eq_ok hopen
      obtain ⟨p₂, hfirst, hclose⟩ := run_append_eq_ok hrun
      obtain ⟨filters, hlen, rfl⟩ := ih hshape.or hfirst
      obtain ⟨filter, rfl⟩ := List.length_eq_one_iff.mp (hlen rfl)
      rw [push, List.nil_append, settle_or (by simp)] at hclose
      exact exists_of_close (run_singleton_eq_ok hclose)
  | cutNot =>
      obtain ⟨p₁, hopen, hrun⟩ := run_cons_eq_ok hrun
      obtain rfl := nest_eq_ok hopen
      exact exists_of_close (run_singleton_eq_ok hrun)

/-! ## Errors -/

/-- Some symbols leave `n` lists open. -/
inductive Opened : ℕ → List Symbol → Prop
  | root {symbols : List Symbol} : Phrases symbols → Opened 0 symbols
  | list {n : ℕ} {symbols phrases : List Symbol} : Opened n symbols → Phrases phrases →
      Opened (n + 1) (symbols ++ .parenthesisOpen :: phrases)
  | or {n : ℕ} {symbols : List Symbol} : Opened n symbols → Opened (n + 1) (symbols ++ [.or])
  | orOne {n : ℕ} {symbols phrase : List Symbol} : Opened n symbols → Phrase phrase →
      Opened (n + 1) (symbols ++ .or :: phrase)
  | not {n : ℕ} {symbols : List Symbol} : Opened n symbols → Opened (n + 1) (symbols ++ [.not])

/-- The symbol opens a list. -/
def Symbol.Opens : Symbol → Prop
  | or | not | parenthesisOpen => True
  | filter _ | parenthesisClose => False

/-- A `)` stands where nothing is open. -/
def Stray (symbols : List Symbol) : Prop :=
  ∃ before after, symbols = before ++ .parenthesisClose :: after ∧ Opened 0 before

/-- More than eleven lists are open at once. -/
def TooDeep (symbols : List Symbol) : Prop :=
  ∃ before symbol after n, symbols = before ++ symbol :: after ∧ symbol.Opens ∧
    Opened n before ∧ 10 < n

section Errors

variable {p p' : FilterParser} {symbols phrases : List Symbol} {n : ℕ} {e : FilterError}

theorem shape_initial : Shape {} [] := .root phrases_nil

theorem FilterParser.Shape.opened (h : Shape p symbols) : Opened p.stack.length symbols := by
  induction h with
  | root hphrases => exact .root hphrases
  | list _ hphrases ih => exact .list ih hphrases
  | or _ ih => exact .or ih
  | orOne _ hphrase ih => exact .orOne ih hphrase
  | not _ ih => exact .not ih

/-- Phrases, in a list. -/
theorem Phrases.run (hphrases : Phrases phrases) (h : Shape p symbols) (hand : p.operator = .and)
    (hrun : p.run phrases = .ok p') :
    ∃ filters, p' = p.push filters := by
  obtain ⟨qs, hqs, rfl⟩ := hphrases
  exact adds_flatten (fun q hq ↦ ⟨hqs q hq, (hqs q hq).adds⟩) h hand hrun

theorem Opened.length_stack (h : Opened n symbols) (hrun : FilterParser.run {} symbols = .ok p) :
    p.stack.length = n := by
  induction h generalizing p with
  | root hphrases =>
      obtain ⟨filters, rfl⟩ := hphrases.run shape_initial rfl hrun
      rfl
  | list _ hphrases ih =>
      obtain ⟨p₁, hbefore, hrest⟩ := run_append_eq_ok hrun
      obtain ⟨p₂, hopen, hrest⟩ := run_cons_eq_ok hrest
      obtain rfl := nest_eq_ok hopen
      obtain ⟨filters, rfl⟩ := hphrases.run (shape_initial.run hbefore).nest rfl hrest
      rw [← ih hbefore]
      rfl
  | or _ ih =>
      obtain ⟨p₁, hbefore, hrest⟩ := run_append_eq_ok hrun
      obtain rfl := nest_eq_ok (run_singleton_eq_ok hrest)
      rw [← ih hbefore]
      rfl
  | orOne _ hphrase ih =>
      obtain ⟨p₁, hbefore, hrest⟩ := run_append_eq_ok hrun
      obtain ⟨p₂, hopen, hrest⟩ := run_cons_eq_ok hrest
      obtain rfl := nest_eq_ok hopen
      obtain ⟨filters, hlen, rfl⟩ := hphrase.adds (shape_initial.run hbefore).or hrest
      obtain ⟨filter, rfl⟩ := List.length_eq_one_iff.mp (hlen rfl)
      rw [← ih hbefore, push, List.nil_append, settle_or (by simp)]
      rfl
  | not _ ih =>
      obtain ⟨p₁, hbefore, hrest⟩ := run_append_eq_ok hrun
      obtain rfl := nest_eq_ok (run_singleton_eq_ok hrest)
      rw [← ih hbefore]
      rfl

theorem nest_eq_error {operator : Operator} (h : p.nest operator = .error e) :
    10 < p.stack.length := by
  rw [nest] at h
  split at h
  · assumption
  · cases h

/-- **When the loop fails.** -/
theorem run_error_iff (symbols : List Symbol) :
    (∃ e, FilterParser.run {} symbols = .error e) ↔ Stray symbols ∨ TooDeep symbols := by
  constructor
  · rintro ⟨e, h⟩
    obtain ⟨before, symbol, after, p, rfl, hrun, hact⟩ := exists_of_run_eq_error h
    have hopened := (shape_initial.run hrun).opened
    rw [List.nil_append] at hopened
    cases symbol with
    | filter filter => cases hact
    | or => exact .inr ⟨before, .or, after, _, rfl, trivial, hopened, nest_eq_error hact⟩
    | not => exact .inr ⟨before, .not, after, _, rfl, trivial, hopened, nest_eq_error hact⟩
    | parenthesisOpen =>
        exact .inr ⟨before, .parenthesisOpen, after, _, rfl, trivial, hopened, nest_eq_error hact⟩
    | parenthesisClose =>
        rw [act] at hact
        split at hact
        · rename_i hnil
          rw [hnil] at hopened
          exact .inl ⟨before, after, rfl, hopened⟩
        · cases hact
  · intro h
    cases hrun : FilterParser.run {} symbols with
    | error e => exact ⟨e, rfl⟩
    | ok p =>
        obtain ⟨before, after, rfl, hopened⟩ | ⟨before, symbol, after, n, rfl, hopens,
          hopened, hlt⟩ := h
        · obtain ⟨p₁, hbefore, hrest⟩ := run_append_eq_ok hrun
          obtain ⟨p₂, hact, -⟩ := run_cons_eq_ok hrest
          have hnil := List.length_eq_zero_iff.mp (hopened.length_stack hbefore)
          rw [act, if_pos hnil] at hact
          cases hact
        · obtain ⟨p₁, hbefore, hrest⟩ := run_append_eq_ok hrun
          obtain ⟨p₂, hact, -⟩ := run_cons_eq_ok hrest
          rw [← hopened.length_stack hbefore] at hlt
          have hfull : ∀ operator, p₁.nest operator = .error .tooManyNested := fun _ ↦ if_pos hlt
          cases symbol with
          | or | not | parenthesisOpen =>
              rw [act, hfull] at hact
              cases hact
          | filter filter => exact hopens.elim
          | parenthesisClose => exact hopens.elim

end Errors

end ImapToJmap
