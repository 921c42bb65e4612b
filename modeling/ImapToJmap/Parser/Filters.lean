import ImapToJmap.Parser.SearchKey

/-!
# Nested filters

`parse_filters`: a loop over the tokens that keeps the filters of the innermost list, the operator
that joins them, and a stack of the lists around it.  A parenthesis opens a list under AND; OR and
NOT open one too, and close it when it has two filters, or one.

`act` is what the loop does with one symbol: a key with its arguments, an OR, a NOT or a
parenthesis.
-/

namespace ImapToJmap

open Ascii Search
open Jmap (Operator)

/-! ## The parser -/

/-- What the loop finds next. -/
inductive Symbol where
  | filter (filter : Filter)
  | or
  | not
  | parenthesisOpen
  | parenthesisClose

/-- The variables of the loop. -/
structure FilterParser where
  filters : List Filter := []
  operator : Operator := .and
  stack : List (List Filter × Operator) := []

namespace FilterParser

/-- What becomes of a list, in the list around it. -/
def collapse (operator : Operator) (filters : List Filter) (prevOperator : Operator) :
    List Filter :=
  if operator = .and ∧ (prevOperator ≠ .or ∨ filters.length = 1) then filters
  else [.operator operator filters]

/-- The inner loop: close the list, and those around it that are complete then. -/
def reduce (filters : List Filter) (operator : Operator) :
    List (List Filter × Operator) → FilterParser
  | [] => ⟨filters, operator, []⟩
  | (prevFilters, prevOperator) :: stack =>
      let filters := prevFilters ++ collapse operator filters prevOperator
      if prevOperator = .and ∨ (prevOperator = .or ∧ filters.length < 2) then
        ⟨filters, prevOperator, stack⟩
      else reduce filters prevOperator stack

/-- The end of a round. -/
def finish (p : FilterParser) (foundParenthesis : Bool) : FilterParser :=
  if p.stack ≠ [] ∧ (foundParenthesis = true ∨ (p.operator = .or ∧ p.filters.length = 2) ∨
      (p.operator = .not ∧ p.filters.length = 1)) then
    reduce p.filters p.operator p.stack
  else p

/-- Open a list. -/
def nest (p : FilterParser) (operator : Operator) : Except FilterError FilterParser :=
  if 10 < p.stack.length then .error .tooManyNested
  else .ok ⟨[], operator, (p.filters, p.operator) :: p.stack⟩

/-- More filters in the innermost list. -/
def push (p : FilterParser) (filters : List Filter) : FilterParser :=
  { p with filters := p.filters ++ filters }

/-- One round of the loop. -/
def act (p : FilterParser) : Symbol → Except FilterError FilterParser
  | .filter filter => .ok ((p.push [filter]).finish false)
  | .or => p.nest .or
  | .not => p.nest .not
  | .parenthesisOpen => p.nest .and
  | .parenthesisClose => if p.stack = [] then .error .unexpectedParenthesis else .ok (p.finish true)

end FilterParser

/-- The token that the loop takes next, with what it takes for arguments. -/
def readSymbol (r : ArgumentReader) (token : Token) (tokens : List Token) :
    Except FilterError (Symbol × List Token) :=
  match token with
  | .argument value =>
      if eqIgnoreAsciiCase value (asBytes "OR") then .ok (.or, tokens)
      else if eqIgnoreAsciiCase value (asBytes "NOT") then .ok (.not, tokens)
      else
        match readKey r value tokens with
        | .error e => .error e
        | .ok (filter, rest) => .ok (.filter filter, rest)
  | .parenthesisOpen => .ok (.parenthesisOpen, tokens)
  | .parenthesisClose => .ok (.parenthesisClose, tokens)
  | _ => .error .unexpectedToken

theorem readSymbol_spec {r : ArgumentReader} {token : Token} {tokens rest : List Token}
    {symbol : Symbol}
    (h : readSymbol r token tokens = .ok (symbol, rest)) : rest.length ≤ tokens.length ∧
      ∀ more, readSymbol r token (tokens ++ more) = .ok (symbol, rest ++ more) := by
  cases token with
  | argument value =>
      rw [readSymbol] at h
      split at h
      · rename_i hor
        cases h
        exact ⟨le_rfl, fun more ↦ by rw [readSymbol, if_pos hor]⟩
      · split at h
        · rename_i hor hnot
          cases h
          exact ⟨le_rfl, fun more ↦ by rw [readSymbol, if_neg hor, if_pos hnot]⟩
        · rename_i hor hnot
          cases hkey : readKey r value tokens with
          | error e =>
              rw [hkey] at h
              cases h
          | ok found =>
              rw [hkey] at h
              cases h
              obtain ⟨hlen, hmore⟩ := takes_readKey r value tokens found.1 found.2 hkey
              refine ⟨hlen, fun more ↦ ?_⟩
              rw [readSymbol, if_neg hor, if_neg hnot, hmore]
  | parenthesisOpen =>
      cases h
      exact ⟨le_rfl, fun more ↦ rfl⟩
  | parenthesisClose =>
      cases h
      exact ⟨le_rfl, fun more ↦ rfl⟩
  | bracketOpen | bracketClose | lt | gt | dot | nil => cases h

/-- The loop of `parse_filters`. -/
def FilterParser.loop (r : ArgumentReader) (p : FilterParser) :
    List Token → Except FilterError FilterParser
  | [] => .ok p
  | token :: tokens =>
      match h : readSymbol r token tokens with
      | .error e => .error e
      | .ok (symbol, rest) =>
          have : rest.length ≤ tokens.length := (readSymbol_spec h).1
          match p.act symbol with
          | .error e => .error e
          | .ok p => p.loop r rest
termination_by tokens => tokens.length

/-- `parse_filters` -/
def parseFilters (r : ArgumentReader) (tokens : List Token) : Except FilterError (List Filter) :=
  (FilterParser.loop r {} tokens).map FilterParser.filters

/-! ## Symbols -/

/-- The symbols of a list of tokens. -/
inductive Lexes (r : ArgumentReader) : List Token → List Symbol → Prop
  | nil : Lexes r [] []
  | cons {token : Token} {tokens rest : List Token} {symbol : Symbol} {symbols : List Symbol} :
      readSymbol r token tokens = .ok (symbol, rest) → Lexes r rest symbols →
        Lexes r (token :: tokens) (symbol :: symbols)

/-- The loop over symbols. -/
def FilterParser.run (p : FilterParser) (symbols : List Symbol) : Except FilterError FilterParser :=
  symbols.foldlM FilterParser.act p

section Lexes

variable {r : ArgumentReader} {tokens tokens' : List Token} {symbols symbols' : List Symbol}
variable {p : FilterParser}

theorem Lexes.append (h : Lexes r tokens symbols) (h' : Lexes r tokens' symbols') :
    Lexes r (tokens ++ tokens') (symbols ++ symbols') := by
  induction h with
  | nil => exact h'
  | cons hread _ ih => exact .cons ((readSymbol_spec hread).2 tokens') ih

theorem FilterParser.run_append (p : FilterParser) (symbols symbols' : List Symbol) :
    p.run (symbols ++ symbols') = p.run symbols >>= fun p ↦ p.run symbols' := List.foldlM_append ..

/-- The loop over tokens is the loop over their symbols. -/
theorem FilterParser.loop_of_lexes (h : Lexes r tokens symbols) (p : FilterParser) :
    p.loop r tokens = p.run symbols := by
  induction h generalizing p with
  | nil => rw [loop]; rfl
  | @cons token tokens rest symbol symbols hread _ ih =>
      rw [loop, run, List.foldlM_cons]
      split
      · rename_i e he
        rw [hread] at he
        cases he
      · rename_i symbol' rest' he
        rw [hread] at he
        cases he
        cases hact : p.act symbol with
        | error e => rfl
        | ok p' => exact ih p'

/-- Tokens that are parsed have symbols. -/
theorem FilterParser.lexes_of_loop {p' : FilterParser} (h : p.loop r tokens = .ok p') :
    ∃ symbols, Lexes r tokens symbols := by
  induction hn : tokens.length using Nat.strong_induction_on generalizing tokens p with
  | _ n ih =>
      cases tokens with
      | nil => exact ⟨[], .nil⟩
      | cons token tokens =>
          rw [loop] at h
          split at h
          · cases h
          · rename_i symbol rest hread
            cases hact : p.act symbol with
            | error e => simp [hact] at h
            | ok p₁ =>
                rw [hact] at h
                have hlt : rest.length < n := by
                  have hle := (readSymbol_spec hread).1
                  rw [← hn, List.length_cons]
                  omega
                obtain ⟨symbols, hsymbols⟩ := ih rest.length hlt h rfl
                exact ⟨symbol :: symbols, .cons hread hsymbols⟩

end Lexes

namespace FilterParser

/-- Close the lists that are complete. -/
def settle (p : FilterParser) : FilterParser :=
  if p.operator = .and ∨ (p.operator = .or ∧ p.filters.length < 2) then p
  else reduce p.filters p.operator p.stack

theorem settle_and {filters : List Filter} {stack : List (List Filter × Operator)} :
    settle ⟨filters, .and, stack⟩ = ⟨filters, .and, stack⟩ := if_pos (.inl rfl)

theorem settle_or {filters : List Filter} {stack : List (List Filter × Operator)}
    (h : filters.length < 2) : settle ⟨filters, .or, stack⟩ = ⟨filters, .or, stack⟩ :=
  if_pos (.inr ⟨rfl, h⟩)

/-- A list that is closed becomes part of the list around it. -/
theorem reduce_cons (filters prevFilters : List Filter) (operator prevOperator : Operator)
    (stack : List (List Filter × Operator)) :
    reduce filters operator ((prevFilters, prevOperator) :: stack) =
      (push ⟨prevFilters, prevOperator, stack⟩ (collapse operator filters prevOperator)).settle :=
        rfl

theorem leavesOf_collapse (operator prevOperator : Operator) (filters : List Filter) :
    Filter.leavesOf (collapse operator filters prevOperator) = Filter.leavesOf filters := by
  rw [collapse]
  split <;> simp

theorem length_collapse_or (operator : Operator) (filters : List Filter) :
    (collapse operator filters .or).length = 1 := by
  rw [collapse]
  split
  · rename_i h
    exact h.2.resolve_left (by simp)
  · rfl

end FilterParser

/-! ## Keys -/

/-- The keys among the symbols. -/
def keysOf (symbols : List Symbol) : List Filter :=
  symbols.flatMap fun
    | .filter filter => filter.leaves
    | _ => []

@[simp] theorem keysOf_nil : keysOf [] = [] := rfl

@[simp] theorem keysOf_filter (filter : Filter) (symbols : List Symbol) :
    keysOf (.filter filter :: symbols) = filter.leaves ++ keysOf symbols := rfl

@[simp] theorem keysOf_or (symbols : List Symbol) : keysOf (.or :: symbols) = keysOf symbols := rfl

@[simp] theorem keysOf_not (symbols : List Symbol) : keysOf (.not :: symbols) = keysOf symbols :=
    rfl

@[simp] theorem keysOf_open (symbols : List Symbol) :
    keysOf (.parenthesisOpen :: symbols) = keysOf symbols := rfl

@[simp] theorem keysOf_close (symbols : List Symbol) :
    keysOf (.parenthesisClose :: symbols) = keysOf symbols := rfl

@[simp] theorem keysOf_append (symbols symbols' : List Symbol) :
    keysOf (symbols ++ symbols') = keysOf symbols ++ keysOf symbols' := List.flatMap_append

/-- The keys that are kept, in the order of the command. -/
def FilterParser.keys (p : FilterParser) : List Filter :=
  (p.stack.reverse.flatMap fun list ↦ Filter.leavesOf list.1) ++ Filter.leavesOf p.filters

namespace FilterParser

variable {p p' : FilterParser} {symbol : Symbol} {symbols : List Symbol}

theorem keys_reduce (filters : List Filter) (operator : Operator)
    (stack : List (List Filter × Operator)) :
    (reduce filters operator stack).keys = keys ⟨filters, operator, stack⟩ := by
  induction stack generalizing filters operator with
  | nil => rfl
  | cons list stack ih =>
      have hkeys : ∀ operator', keys ⟨list.1 ++ collapse operator filters list.2,
        operator', stack⟩ =
          keys ⟨filters, operator, list :: stack⟩ := by
        intro operator'
        simp [keys, leavesOf_collapse]
      rw [reduce]
      split
      · exact hkeys _
      · rw [ih]
        exact hkeys _

theorem keys_finish (p : FilterParser) (foundParenthesis : Bool) :
    (p.finish foundParenthesis).keys = p.keys := by
  rw [finish]
  split
  · exact keys_reduce ..
  · rfl

/-- A list that is opened. -/
theorem nest_eq_ok {operator : Operator} (h : p.nest operator = .ok p') :
    p' = ⟨[], operator, (p.filters, p.operator) :: p.stack⟩ := by
  rw [nest] at h
  split at h
  · cases h
  · exact (Except.ok.inj h).symm

theorem keys_nest {operator : Operator} (h : p.nest operator = .ok p') : p'.keys = p.keys := by
  obtain rfl := nest_eq_ok h
  simp [keys]

theorem keys_act (h : p.act symbol = .ok p') : p'.keys = p.keys ++ keysOf [symbol] := by
  cases symbol with
  | filter filter =>
      obtain rfl := Except.ok.inj h
      rw [keys_finish]
      simp [keys, push]
  | or | not | parenthesisOpen =>
      rw [keys_nest h]
      simp
  | parenthesisClose =>
      rw [act] at h
      split at h
      · cases h
      · obtain rfl := Except.ok.inj h
        rw [keys_finish]
        simp

theorem run_cons_eq_ok (h : p.run (symbol :: symbols) = .ok p') :
    ∃ p₁, p.act symbol = .ok p₁ ∧ p₁.run symbols = .ok p' := by
  rw [run, List.foldlM_cons] at h
  cases hact : p.act symbol with
  | error e => simp [hact, bind, Except.bind] at h
  | ok p₁ =>
      rw [hact] at h
      exact ⟨p₁, rfl, h⟩

/-- **The loop keeps every key**, on the stack or in the innermost list. -/
theorem keys_run (h : p.run symbols = .ok p') : p'.keys = p.keys ++ keysOf symbols := by
  induction symbols generalizing p with
  | nil =>
      obtain rfl := Except.ok.inj h
      rw [keysOf_nil, List.append_nil]
  | cons symbol symbols ih =>
      obtain ⟨p₁, hact, hrest⟩ := run_cons_eq_ok h
      rw [ih hrest, keys_act hact, List.append_assoc, ← keysOf_append, List.singleton_append]

end FilterParser

end ImapToJmap
