import ImapToJmap.Parser.Arguments
import ImapToJmap.Parser.SearchGrammar

/-!
# What search keys mean

The trees of search keys, what the parser makes of them, and what both mean for a message.  A list
inside a list or a NOT is merged into it, so that NOT of a list has the keys of the list for its
own, and JMAP reads it as "none of them".

`parse_means`: the filters match a message if and only if the keys do, where NOT of a list means
that none of its keys matches.  `not_list_differs`: in IMAP it means that not all of them do.  The
two agree where no NOT stands before a list of several keys.
-/

namespace ImapToJmap

open Ascii Search
open Jmap (Operator)

/-! ## Filters -/

namespace Search.Filter

mutual

/-- The filter matches a message of which these keys hold; operators are those of JMAP. -/
def Matches (holds : Filter → Prop) : Filter → Prop
  | operator .and filters => AllMatch holds filters
  | operator .or filters => AnyMatch holds filters
  | operator .not filters => ¬AnyMatch holds filters
  | filter => holds filter

def AllMatch (holds : Filter → Prop) : List Filter → Prop
  | [] => True
  | filter :: filters => filter.Matches holds ∧ AllMatch holds filters

def AnyMatch (holds : Filter → Prop) : List Filter → Prop
  | [] => False
  | filter :: filters => filter.Matches holds ∨ AnyMatch holds filters

end

variable {holds : Filter → Prop} {filter : Filter} {filters filters' : List Filter}

theorem allMatch_iff : AllMatch holds filters ↔ ∀ filter ∈ filters, filter.Matches holds := by
  induction filters with
  | nil => exact iff_of_true (by rw [AllMatch]; trivial) nofun
  | cons filter filters ih => rw [AllMatch, ih, List.forall_mem_cons]

theorem anyMatch_iff : AnyMatch holds filters ↔ ∃ filter ∈ filters, filter.Matches holds := by
  induction filters with
  | nil => exact iff_of_false (by rw [AnyMatch]; exact id) nofun
  | cons filter filters ih => simp only [AnyMatch, ih, List.mem_cons, exists_eq_or_imp]

/-- All match. -/
@[simp] theorem matches_and :
    (operator .and filters).Matches holds ↔ ∀ filter ∈ filters, filter.Matches holds := by
  rw [Matches, allMatch_iff]

/-- At least one matches. -/
@[simp] theorem matches_or :
    (operator .or filters).Matches holds ↔ ∃ filter ∈ filters, filter.Matches holds := by
  rw [Matches, anyMatch_iff]

/-- None matches. -/
@[simp] theorem matches_not :
    (operator .not filters).Matches holds ↔ ¬∃ filter ∈ filters, filter.Matches holds := by
  rw [Matches, anyMatch_iff]

theorem IsKey.matches_iff (h : filter.IsKey) : filter.Matches holds ↔ holds filter := by
  rw [Matches.eq_4 holds filter (h .and) (h .or) (h .not)]

end Search.Filter

/-! ## Trees of search keys -/

mutual

/-- A search key. -/
inductive SearchTree where
  | key (filter : Filter) (isKey : filter.IsKey)
  | list (trees : SearchTrees)
  | or (first second : SearchTree)
  | not (tree : SearchTree)

/-- One search key or more. -/
inductive SearchTrees where
  | one (tree : SearchTree)
  | cons (tree : SearchTree) (trees : SearchTrees)

end

mutual

/-- The tree is written in these tokens. -/
inductive SearchTree.Text (r : ArgumentReader) : SearchTree → List Token → Prop
  | key {value : Bytes} {args : List Token} {filter : Filter} (h : LeafKey r value args filter) :
      SearchTree.Text r (.key filter (isKey_readKey value args filter [] h.read))
        (.argument value :: args)
  | list {trees : SearchTrees} {tokens : List Token} (h : SearchTrees.Text r trees tokens) :
      SearchTree.Text r (.list trees) (.parenthesisOpen :: (tokens ++ [.parenthesisClose]))
  | or {value : Bytes} {first second : SearchTree} {tokens tokens' : List Token}
      (hor : eqIgnoreAsciiCase value (asBytes "OR") = true) (h : SearchTree.Text r first tokens)
      (h' : SearchTree.Text r second tokens') :
      SearchTree.Text r (.or first second) (.argument value :: (tokens ++ tokens'))
  | not {value : Bytes} {tree : SearchTree} {tokens : List Token}
      (hnot : eqIgnoreAsciiCase value (asBytes "NOT") = true) (h : SearchTree.Text r tree tokens) :
      SearchTree.Text r (.not tree) (.argument value :: tokens)

/-- One after the other. -/
inductive SearchTrees.Text (r : ArgumentReader) : SearchTrees → List Token → Prop
  | one {tree : SearchTree} {tokens : List Token} (h : SearchTree.Text r tree tokens) :
      SearchTrees.Text r (.one tree) tokens
  | cons {tree : SearchTree} {trees : SearchTrees} {tokens tokens' : List Token}
      (h : SearchTree.Text r tree tokens) (h' : SearchTrees.Text r trees tokens') :
      SearchTrees.Text r (.cons tree trees) (tokens ++ tokens')

end

mutual

/-- How many lists are open at once. -/
def SearchTree.depth : SearchTree → ℕ
  | .key _ _ => 0
  | .list trees => trees.depth + 1
  | .or first second => max first.depth second.depth + 1
  | .not tree => tree.depth + 1

def SearchTrees.depth : SearchTrees → ℕ
  | .one tree => tree.depth
  | .cons tree trees => max tree.depth trees.depth

end

mutual

/-- The symbols of a tree. -/
def SearchTree.symbols : SearchTree → List Symbol
  | .key filter _ => [.filter filter]
  | .list trees => .parenthesisOpen :: (trees.symbols ++ [.parenthesisClose])
  | .or first second => .or :: (first.symbols ++ second.symbols)
  | .not tree => .not :: tree.symbols

def SearchTrees.symbols : SearchTrees → List Symbol
  | .one tree => tree.symbols
  | .cons tree trees => tree.symbols ++ trees.symbols

end

/-! ## Meaning -/

mutual

/-- The meaning of a search key in IMAP: NOT negates the key behind it. -/
def SearchTree.ImapMeans (holds : Filter → Prop) : SearchTree → Prop
  | .key filter _ => holds filter
  | .list trees => trees.ImapMeans holds
  | .or first second => first.ImapMeans holds ∨ second.ImapMeans holds
  | .not tree => ¬tree.ImapMeans holds

def SearchTrees.ImapMeans (holds : Filter → Prop) : SearchTrees → Prop
  | .one tree => tree.ImapMeans holds
  | .cons tree trees => tree.ImapMeans holds ∧ trees.ImapMeans holds

end

mutual

/-- The meaning of a search key here: NOT of a list means that none of its keys matches. -/
def SearchTree.Means (holds : Filter → Prop) : SearchTree → Prop
  | .key filter _ => holds filter
  | .list trees => trees.Means holds
  | .or first second => first.Means holds ∨ second.Means holds
  | .not tree => tree.NoneMeans holds

/-- Neither the key matches, nor any key of a list. -/
def SearchTree.NoneMeans (holds : Filter → Prop) : SearchTree → Prop
  | .key filter _ => ¬holds filter
  | .list trees => trees.NoneMeans holds
  | .or first second => ¬(first.Means holds ∨ second.Means holds)
  | .not tree => ¬tree.NoneMeans holds

def SearchTrees.Means (holds : Filter → Prop) : SearchTrees → Prop
  | .one tree => tree.Means holds
  | .cons tree trees => tree.Means holds ∧ trees.Means holds

def SearchTrees.NoneMeans (holds : Filter → Prop) : SearchTrees → Prop
  | .one tree => tree.NoneMeans holds
  | .cons tree trees => tree.NoneMeans holds ∧ trees.NoneMeans holds

end

/-! ## What the parser makes of the keys -/

open FilterParser (collapse length_collapse_or settle_and settle_or reduce_cons finish_true Shape)

mutual

/-- What the parser adds to a list under this operator. -/
def SearchTree.filters (operator : Operator) : SearchTree → List Filter
  | .key filter _ => [filter]
  | .list trees => collapse .and trees.filters operator
  | .or first second => collapse .or (first.filters .or ++ second.filters .or) operator
  | .not tree => collapse .not (tree.filters .not) operator

def SearchTrees.filters : SearchTrees → List Filter
  | .one tree => tree.filters .and
  | .cons tree trees => tree.filters .and ++ trees.filters

end

namespace FilterParser

variable {p : FilterParser} {symbols : List Symbol}

theorem nest_eq {operator : Operator} (h : p.stack.length ≤ 10) :
    p.nest operator = .ok ⟨[], operator, (p.filters, p.operator) :: p.stack⟩ :=
  if_neg (Nat.not_lt.mpr h)

theorem run_cons_of_act {p' : FilterParser} {symbol : Symbol} (h : p.act symbol = .ok p') :
    p.run (symbol :: symbols) = p'.run symbols := by
  rw [run, List.foldlM_cons, h]
  rfl

theorem run_append_of_run {p' : FilterParser} {symbols' : List Symbol}
    (h : p.run symbols = .ok p') : p.run (symbols ++ symbols') = p'.run symbols' := by
  rw [run_append, h]
  rfl

end FilterParser

theorem SearchTree.length_filters_or (tree : SearchTree) : (tree.filters .or).length = 1 := by
  cases tree with
  | key filter isKey => rw [filters, List.length_singleton]
  | list trees => rw [filters, length_collapse_or]
  | or first second => rw [filters, length_collapse_or]
  | not tree => rw [filters, length_collapse_or]

theorem FilterParser.act_close {filters : List Filter} {operator : Operator}
    {list : List Filter × Operator} {stack : List (List Filter × Operator)} :
    FilterParser.act ⟨filters, operator, list :: stack⟩ .parenthesisClose =
      .ok (FilterParser.finish ⟨filters, operator, list :: stack⟩ true) := rfl

/-- A list that is complete becomes part of the list around it. -/
theorem FilterParser.settle_cons {p : FilterParser} {filters : List Filter} {operator : Operator}
    (h : ¬(operator = .and ∨ (operator = .or ∧ filters.length < 2))) :
    FilterParser.settle ⟨filters, operator, (p.filters, p.operator) :: p.stack⟩ =
      (p.push (collapse operator filters p.operator)).settle := by
  rw [FilterParser.settle, if_neg h, reduce_cons]

mutual

/-- **The loop reads a key** into the innermost list. -/
theorem SearchTree.run (tree : SearchTree) {p : FilterParser} {symbols : List Symbol}
    (h : Shape p symbols) (hdepth : p.stack.length + tree.depth ≤ 11) :
    p.run tree.symbols = .ok (p.push (tree.filters p.operator)).settle := by
  cases tree with
  | key filter isKey =>
      rw [SearchTree.symbols, FilterParser.run_cons_of_act rfl, h.finish_push, SearchTree.filters]
      rfl
  | list trees =>
      rw [SearchTree.depth] at hdepth
      have hnest : p.act .parenthesisOpen = _ := FilterParser.nest_eq (by omega)
      have hrun := trees.run h.nest rfl (by simp only [List.length_cons]; omega)
      rw [FilterParser.push, List.nil_append] at hrun
      rw [SearchTree.symbols, FilterParser.run_cons_of_act hnest,
        FilterParser.run_append_of_run hrun, FilterParser.run_cons_of_act FilterParser.act_close,
        finish_true, SearchTree.filters]
      rfl
  | or first second =>
      rw [SearchTree.depth] at hdepth
      have hnest : p.act .or = _ := FilterParser.nest_eq (by omega)
      obtain ⟨filter, hfilter⟩ := List.length_eq_one_iff.mp first.length_filters_or
      have hfirst := first.run (.or h) (by simp only [List.length_cons]; omega)
      have hone : [filter].length < 2 := Nat.lt_succ_self 1
      rw [FilterParser.push, List.nil_append, hfilter, settle_or hone] at hfirst
      have hsecond := second.run ((Shape.or h).run hfirst) (by simp only [List.length_cons]; omega)
      have hcomplete : ¬(Operator.or = .and ∨
          Operator.or = .or ∧ ([filter] ++ second.filters .or).length < 2) := by
        rw [List.length_append, second.length_filters_or, List.length_singleton]
        decide
      rw [SearchTree.symbols, FilterParser.run_cons_of_act hnest,
        FilterParser.run_append_of_run hfirst, hsecond, FilterParser.push,
        FilterParser.settle_cons hcomplete, SearchTree.filters, hfilter]
  | not tree =>
      rw [SearchTree.depth] at hdepth
      have hnest : p.act .not = _ := FilterParser.nest_eq (by omega)
      have hrun := tree.run (.not h) (by simp only [List.length_cons]; omega)
      rw [SearchTree.symbols, FilterParser.run_cons_of_act hnest, hrun, FilterParser.push,
        List.nil_append, FilterParser.settle_cons (by simp), SearchTree.filters]

/-- Keys one after the other. -/
theorem SearchTrees.run (trees : SearchTrees) {p : FilterParser} {symbols : List Symbol}
    (h : Shape p symbols) (hand : p.operator = .and)
    (hdepth : p.stack.length + trees.depth ≤ 11) :
    p.run trees.symbols = .ok (p.push trees.filters) := by
  obtain ⟨filters, operator, stack⟩ := p
  obtain rfl : operator = .and := hand
  cases trees with
  | one tree =>
      rw [SearchTrees.depth] at hdepth
      rw [SearchTrees.symbols, tree.run h hdepth, SearchTrees.filters]
      rfl
  | cons tree trees =>
      rw [SearchTrees.depth] at hdepth
      have htree := tree.run h (by omega)
      rw [FilterParser.push, settle_and] at htree
      have htrees := trees.run (h.run htree) rfl (by dsimp only at hdepth ⊢; omega)
      rw [SearchTrees.symbols, FilterParser.run_append_of_run htree, htrees, SearchTrees.filters,
        FilterParser.push, FilterParser.push, List.append_assoc]

end

/-! ## What the filters mean -/

namespace SearchTree

variable {holds : Filter → Prop}

theorem collapse_and_of_ne (operator : Operator) (filters : List Filter) (h : operator ≠ .or) :
    collapse .and filters operator = filters := if_pos ⟨rfl, .inl h⟩

theorem collapse_or (filters : List Filter) (prevOperator : Operator) :
    collapse .or filters prevOperator = [.operator .or filters] := if_neg fun h ↦ by cases h.1

theorem collapse_not (filters : List Filter) (prevOperator : Operator) :
    collapse .not filters prevOperator = [.operator .not filters] := if_neg fun h ↦ by cases h.1

theorem exists_mem_singleton {filter : Filter} :
    (∃ filter' ∈ [filter], filter'.Matches holds) ↔ filter.Matches holds := by
  simp only [List.mem_singleton, exists_eq_left]

/-- A list under OR stays together. -/
theorem exists_collapse_or (filters : List Filter) :
    (∃ filter ∈ collapse .and filters .or, filter.Matches holds) ↔
      ∀ filter ∈ filters, filter.Matches holds := by
  by_cases h : filters.length = 1
  · obtain ⟨filter, rfl⟩ := List.length_eq_one_iff.mp h
    rw [collapse, if_pos ⟨rfl, .inr h⟩, exists_mem_singleton, List.forall_mem_singleton]
  · rw [collapse, if_neg fun h' ↦ h'.2.elim (fun hne ↦ hne rfl) h]
    simp

/-- A list is merged into a NOT as into another list. -/
theorem filters_not (tree : SearchTree) : tree.filters .not = tree.filters .and := by
  cases tree with
  | key filter isKey => rw [filters, filters]
  | list trees =>
      rw [filters, filters, collapse_and_of_ne .not _ (by decide),
        collapse_and_of_ne .and _ (by decide)]
  | or first second => rw [filters, filters, collapse_or, collapse_or]
  | not tree => rw [filters, filters, collapse_not, collapse_not]

end SearchTree

mutual

theorem SearchTree.forall_filters_iff {holds : Filter → Prop} (tree : SearchTree) :
    (∀ filter ∈ tree.filters .and, filter.Matches holds) ↔ tree.Means holds := by
  cases tree with
  | key filter isKey => simp [SearchTree.filters, SearchTree.Means, isKey.matches_iff]
  | list trees =>
      rw [SearchTree.filters, SearchTree.collapse_and_of_ne .and _ (by decide), SearchTree.Means]
      exact trees.forall_filters_iff
  | or first second =>
      rw [SearchTree.filters, SearchTree.collapse_or, List.forall_mem_singleton,
        Filter.matches_or, SearchTree.Means, ← first.exists_filters_or_iff,
        ← second.exists_filters_or_iff]
      simp only [List.mem_append, or_and_right, exists_or]
  | not tree =>
      rw [SearchTree.filters, SearchTree.collapse_not, List.forall_mem_singleton,
        Filter.matches_not, SearchTree.Means, SearchTree.filters_not, tree.exists_filters_iff,
        not_not]

theorem SearchTree.exists_filters_or_iff {holds : Filter → Prop} (tree : SearchTree) :
    (∃ filter ∈ tree.filters .or, filter.Matches holds) ↔ tree.Means holds := by
  cases tree with
  | key filter isKey => simp [SearchTree.filters, SearchTree.Means, isKey.matches_iff]
  | list trees =>
      rw [SearchTree.filters, SearchTree.exists_collapse_or, SearchTree.Means]
      exact trees.forall_filters_iff
  | or first second =>
      rw [SearchTree.filters, SearchTree.collapse_or, SearchTree.exists_mem_singleton,
        Filter.matches_or, SearchTree.Means, ← first.exists_filters_or_iff,
        ← second.exists_filters_or_iff]
      simp only [List.mem_append, or_and_right, exists_or]
  | not tree =>
      rw [SearchTree.filters, SearchTree.collapse_not, SearchTree.exists_mem_singleton,
        Filter.matches_not, SearchTree.Means, SearchTree.filters_not, tree.exists_filters_iff,
        not_not]

/-- The keys of a list, or the key. -/
theorem SearchTree.exists_filters_iff {holds : Filter → Prop} (tree : SearchTree) :
    (∃ filter ∈ tree.filters .and, filter.Matches holds) ↔ ¬tree.NoneMeans holds := by
  cases tree with
  | key filter isKey => simp [SearchTree.filters, SearchTree.NoneMeans, isKey.matches_iff]
  | list trees =>
      rw [SearchTree.filters, SearchTree.collapse_and_of_ne .and _ (by decide),
        SearchTree.NoneMeans]
      exact trees.exists_filters_iff
  | or first second =>
      rw [SearchTree.filters, SearchTree.collapse_or, SearchTree.exists_mem_singleton,
        Filter.matches_or, SearchTree.NoneMeans, not_not, ← first.exists_filters_or_iff,
        ← second.exists_filters_or_iff]
      simp only [List.mem_append, or_and_right, exists_or]
  | not tree =>
      rw [SearchTree.filters, SearchTree.collapse_not, SearchTree.exists_mem_singleton,
        Filter.matches_not, SearchTree.NoneMeans, SearchTree.filters_not, tree.exists_filters_iff]

theorem SearchTrees.forall_filters_iff {holds : Filter → Prop} (trees : SearchTrees) :
    (∀ filter ∈ trees.filters, filter.Matches holds) ↔ trees.Means holds := by
  cases trees with
  | one tree =>
      rw [SearchTrees.filters, SearchTrees.Means]
      exact tree.forall_filters_iff
  | cons tree trees =>
      rw [SearchTrees.filters, SearchTrees.Means, List.forall_mem_append, tree.forall_filters_iff,
        trees.forall_filters_iff]

theorem SearchTrees.exists_filters_iff {holds : Filter → Prop} (trees : SearchTrees) :
    (∃ filter ∈ trees.filters, filter.Matches holds) ↔ ¬trees.NoneMeans holds := by
  cases trees with
  | one tree =>
      rw [SearchTrees.filters, SearchTrees.NoneMeans]
      exact tree.exists_filters_iff
  | cons tree trees =>
      rw [SearchTrees.filters, SearchTrees.NoneMeans, not_and_or, ← tree.exists_filters_iff,
        ← trees.exists_filters_iff]
      simp only [List.mem_append, or_and_right, exists_or]

end

mutual

theorem SearchTree.filters_ne_nil (tree : SearchTree) : tree.filters .and ≠ [] := by
  cases tree with
  | key filter isKey =>
      rw [SearchTree.filters]
      exact List.cons_ne_nil _ _
  | list trees =>
      rw [SearchTree.filters, SearchTree.collapse_and_of_ne .and _ (by decide)]
      exact trees.filters_ne_nil
  | or first second =>
      rw [SearchTree.filters, SearchTree.collapse_or]
      exact List.cons_ne_nil _ _
  | not tree =>
      rw [SearchTree.filters, SearchTree.collapse_not]
      exact List.cons_ne_nil _ _

theorem SearchTrees.filters_ne_nil (trees : SearchTrees) : trees.filters ≠ [] := by
  cases trees with
  | one tree =>
      rw [SearchTrees.filters]
      exact tree.filters_ne_nil
  | cons tree trees =>
      rw [SearchTrees.filters]
      exact List.append_ne_nil_of_left_ne_nil tree.filters_ne_nil _

end

/-! ## NOT of a list -/

mutual

/-- Not a list of several keys. -/
def SearchTree.Single : SearchTree → Prop
  | .key _ _ | .or _ _ | .not _ => True
  | .list trees => trees.Single

def SearchTrees.Single : SearchTrees → Prop
  | .one tree => tree.Single
  | .cons _ _ => False

end

mutual

/-- No NOT stands before a list of several keys. -/
def SearchTree.Plain : SearchTree → Prop
  | .key _ _ => True
  | .list trees => trees.Plain
  | .or first second => first.Plain ∧ second.Plain
  | .not tree => tree.Plain ∧ tree.Single

def SearchTrees.Plain : SearchTrees → Prop
  | .one tree => tree.Plain
  | .cons tree trees => tree.Plain ∧ trees.Plain

end

mutual

theorem SearchTree.means_iff {holds : Filter → Prop} (tree : SearchTree) (h : tree.Plain) :
    tree.Means holds ↔ tree.ImapMeans holds := by
  cases tree with
  | key filter isKey => rw [SearchTree.Means, SearchTree.ImapMeans]
  | list trees =>
      rw [SearchTree.Plain] at h
      rw [SearchTree.Means, SearchTree.ImapMeans, trees.means_iff h]
  | or first second =>
      rw [SearchTree.Plain] at h
      rw [SearchTree.Means, SearchTree.ImapMeans, first.means_iff h.1, second.means_iff h.2]
  | not tree =>
      rw [SearchTree.Plain] at h
      rw [SearchTree.Means, SearchTree.ImapMeans, tree.noneMeans_iff h.1 h.2]

theorem SearchTree.noneMeans_iff {holds : Filter → Prop} (tree : SearchTree) (h : tree.Plain)
    (hsingle : tree.Single) : tree.NoneMeans holds ↔ ¬tree.ImapMeans holds := by
  cases tree with
  | key filter isKey => rw [SearchTree.NoneMeans, SearchTree.ImapMeans]
  | list trees =>
      rw [SearchTree.Plain] at h
      rw [SearchTree.Single] at hsingle
      rw [SearchTree.NoneMeans, SearchTree.ImapMeans, trees.noneMeans_iff h hsingle]
  | or first second =>
      rw [SearchTree.Plain] at h
      rw [SearchTree.NoneMeans, SearchTree.ImapMeans, first.means_iff h.1, second.means_iff h.2]
  | not tree =>
      rw [SearchTree.Plain] at h
      rw [SearchTree.NoneMeans, SearchTree.ImapMeans, tree.noneMeans_iff h.1 h.2]

theorem SearchTrees.means_iff {holds : Filter → Prop} (trees : SearchTrees) (h : trees.Plain) :
    trees.Means holds ↔ trees.ImapMeans holds := by
  cases trees with
  | one tree =>
      rw [SearchTrees.Plain] at h
      rw [SearchTrees.Means, SearchTrees.ImapMeans, tree.means_iff h]
  | cons tree trees =>
      rw [SearchTrees.Plain] at h
      rw [SearchTrees.Means, SearchTrees.ImapMeans, tree.means_iff h.1, trees.means_iff h.2]

theorem SearchTrees.noneMeans_iff {holds : Filter → Prop} (trees : SearchTrees) (h : trees.Plain)
    (hsingle : trees.Single) : trees.NoneMeans holds ↔ ¬trees.ImapMeans holds := by
  cases trees with
  | one tree =>
      rw [SearchTrees.Plain] at h
      rw [SearchTrees.Single] at hsingle
      rw [SearchTrees.NoneMeans, SearchTrees.ImapMeans, tree.noneMeans_iff h hsingle]
  | cons tree trees =>
      rw [SearchTrees.Single] at hsingle
      exact hsingle.elim

end

/-! ## The parser -/

section Parse

variable {r : ArgumentReader}

mutual

/-- The symbols that a key is read as. -/
theorem SearchTree.Text.lexes {tree : SearchTree} {tokens : List Token} (h : tree.Text r tokens) :
    Lexes r tokens tree.symbols := by
  cases h with
  | @key value args filter h =>
      have hread : readSymbol r (.argument value) args = .ok (.filter filter, []) := by
        rw [readSymbol, h.name.1.1, h.name.1.2, h.read]
        rfl
      rw [SearchTree.symbols]
      exact .cons hread .nil
  | list h =>
      rw [SearchTree.symbols]
      exact .cons rfl (h.lexes.append (.cons rfl .nil))
  | or hor h h' =>
      rw [SearchTree.symbols]
      refine .cons ?_ (h.lexes.append h'.lexes)
      rw [readSymbol, if_pos hor]
  | @not value tree tokens hnot h =>
      rw [SearchTree.symbols]
      refine .cons ?_ h.lexes
      have hne : eqIgnoreAsciiCase value (asBytes "OR") = false :=
        (eqIgnoreAsciiCase_congr hnot _).trans (by decide)
      rw [readSymbol, hne, hnot]
      rfl

/-- The symbols that keys are read as. -/
theorem SearchTrees.Text.lexes {trees : SearchTrees} {tokens : List Token}
    (h : trees.Text r tokens) : Lexes r tokens trees.symbols := by
  cases h with
  | one h =>
      rw [SearchTrees.symbols]
      exact h.lexes
  | cons h h' =>
      rw [SearchTrees.symbols]
      exact h.lexes.append h'.lexes

end

/-- The filters of a sequence of search keys. -/
theorem parse_eq {trees : SearchTrees} {tokens : List Token} (h : trees.Text r tokens)
    (hdepth : trees.depth ≤ 11) : parseFilters r tokens = .ok trees.filters := by
  have hrun := trees.run shape_initial rfl (by simpa using hdepth)
  rw [parseFilters, FilterParser.loop_of_lexes h.lexes, hrun]
  rfl

/-- **What the filters mean**: a message matches all of them if and only if the keys mean so, where
NOT of a list means none of its keys.  It is what IMAP means but for NOT of a list of several. -/
theorem parse_means {trees : SearchTrees} {tokens : List Token} (h : trees.Text r tokens)
    (hdepth : trees.depth ≤ 11) : ∃ filters, parseFilters r tokens = .ok filters ∧
      ∀ holds, ((Filter.operator .and filters).Matches holds ↔ trees.Means holds) ∧
        (trees.Plain → ((Filter.operator .and filters).Matches holds ↔ trees.ImapMeans holds)) := by
  refine ⟨_, parse_eq h hdepth, fun holds ↦ ?_⟩
  rw [Filter.matches_and, trees.forall_filters_iff]
  exact ⟨Iff.rfl, trees.means_iff⟩

/-- `NOT (SEEN FLAGGED)` -/
def notSeenFlagged : SearchTrees :=
  .one (.not (.list (.cons (.key .seen nofun) (.one (.key .flagged nofun)))))

theorem text_notSeenFlagged : notSeenFlagged.Text ⟨none, fun _ ↦ none⟩
    [.argument (asBytes "NOT"), .parenthesisOpen, .argument (asBytes "SEEN"),
      .argument (asBytes "FLAGGED"), .parenthesisClose] := by
  have hseen : LeafKey ⟨none, fun _ ↦ none⟩ (asBytes "SEEN") [] .seen :=
    .bare (beq_self_eq_true _) (by simp [bareKeys])
  have hflagged : LeafKey ⟨none, fun _ ↦ none⟩ (asBytes "FLAGGED") [] .flagged :=
    .bare (beq_self_eq_true _) (by simp [bareKeys])
  exact .one (.not (by decide) (.list (.cons (.key hseen) (.one (.key hflagged)))))

theorem parse_means_notSeenFlagged : ∃ filters, parseFilters ⟨none, fun _ ↦ none⟩
    [.argument (asBytes "NOT"), .parenthesisOpen, .argument (asBytes "SEEN"),
      .argument (asBytes "FLAGGED"), .parenthesisClose] = .ok filters ∧
        ∀ holds, ((Filter.operator .and filters).Matches holds ↔ notSeenFlagged.Means holds) ∧
          (notSeenFlagged.Plain →
            ((Filter.operator .and filters).Matches holds ↔ notSeenFlagged.ImapMeans holds)) :=
  parse_means text_notSeenFlagged (by decide)

/-- A message that is seen and not flagged is not both; the filters say that it is one of them. -/
theorem not_list_differs : ∃ filters, parseFilters ⟨none, fun _ ↦ none⟩
    [.argument (asBytes "NOT"), .parenthesisOpen, .argument (asBytes "SEEN"),
      .argument (asBytes "FLAGGED"), .parenthesisClose] = .ok filters ∧
        ¬(Filter.operator .and filters).Matches (· = .seen) ∧
          notSeenFlagged.ImapMeans (· = .seen) := by
  refine ⟨_, parse_eq text_notSeenFlagged (by decide), ?_, ?_⟩
  · rw [Filter.matches_and, notSeenFlagged.forall_filters_iff]
    simp [notSeenFlagged, SearchTrees.Means, SearchTree.Means, SearchTree.NoneMeans,
      SearchTrees.NoneMeans]
  · simp [notSeenFlagged, SearchTrees.ImapMeans, SearchTree.ImapMeans]

end Parse

/-- What SEARCH hands on. -/
theorem parseSearch_means {r : ArgumentReaders} {isRev2 : Bool} {request : Request Command}
    {p : Preamble} {tokens : List Token} {trees : SearchTrees}
    (hpreamble : readPreamble r { isEsearch := isRev2 } request.tokens = .ok (p, tokens))
    (h : trees.Text ⟨p.decoder, r.parseDate⟩ tokens) (hdepth : trees.depth ≤ 11) :
    ∃ arguments, parseSearch r isRev2 request = .ok arguments ∧
      ∀ holds, arguments.filter.Matches holds ↔ trees.Means holds := by
  have hparse := parse_eq h hdepth
  have hne := trees.filters_ne_nil
  have htokens : request.tokens ≠ [] := by
    intro hnil
    simp only [hnil, readPreamble, Except.ok.injEq, Prod.mk.injEq] at hpreamble
    obtain ⟨rfl, rfl⟩ := hpreamble
    rw [parseFilters, FilterParser.loop_of_lexes .nil] at hparse
    exact hne (Except.ok.inj hparse).symm
  simp only [← trees.forall_filters_iff]
  rw [parseSearch, if_neg htokens, hpreamble]
  change ∃ arguments, (Fallible.lift ArgumentError.filter (parseFilters _ _) >>= _) = _ ∧ _
  rw [hparse]
  change ∃ arguments, ite _ _ _ = _ ∧ _
  rw [if_neg fun hlength ↦ hne (List.length_eq_zero_iff.mp hlength)]
  split
  · next hone =>
      obtain ⟨filter, hfilter⟩ := List.length_eq_one_iff.mp hone
      rw [hfilter]
      exact ⟨_, rfl, fun holds ↦ (List.forall_mem_singleton).symm⟩
  · exact ⟨_, rfl, fun holds ↦ Filter.matches_and⟩

end ImapToJmap
