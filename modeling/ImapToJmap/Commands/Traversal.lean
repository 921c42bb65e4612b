import ImapToJmap.Commands.Search
import ImapToJmap.Run.Loop

/-!
# The traversal of a filter

The loop of `imap_filter_to_jmap` as the source has it: an operator, the filters under it that are
still to come, the queries that have been made of the others, and a stack of these three for the
operators above.  `leads_translate` is that a filter costs some rounds, after which the stack is as
it was and the queries of the filter stand behind those of its siblings.

Read from the outside (`translation`): what is left of a filter is its tree with every key replaced
by its query, and an error is that of the first key that has one.  The mailbox is put under the root
if that is an AND, beside it otherwise; an AND that has come out empty is dropped.
-/

namespace ImapToJmap

open Search Loop

/-- The variables of the loop. -/
structure Traversal where
  operator : Jmap.Operator
  imapFilters : List Filter
  jmapFilters : List Jmap.Query
  stack : List (Jmap.Operator × List Filter × List Jmap.Query)
  modseq : SeenModseq

namespace Traversal

/-- Before the first round. -/
def start (filter : Filter) : Traversal where
  operator := (SearchContext.rootFilters filter).2
  imapFilters := (SearchContext.rootFilters filter).1
  jmapFilters := []
  stack := []
  modseq := {}

/-- One round: the next filter, or the way back to the operator above. -/
def step (c : SearchContext) (changesEmail : String → Option Jmap.Changes) (t : Traversal) :
    Except SearchError (Traversal ⊕ Traversal) :=
  match t.imapFilters with
  | .operator newOperator newFilters :: imapFilters =>
      .ok (.inl { t with
        operator := newOperator
        imapFilters := newFilters
        jmapFilters := []
        stack := (t.operator, imapFilters, t.jmapFilters) :: t.stack })
  | key :: imapFilters =>
      match c.translateKey changesEmail t.modseq key with
      | .error e => .error e
      | .ok (queries, modseq) =>
          .ok (.inl { t with imapFilters, jmapFilters := t.jmapFilters ++ queries, modseq })
  | [] =>
      match t.stack with
      | (operator, imapFilters, jmapFilters) :: stack =>
          .ok (.inl { t with
            operator
            imapFilters
            jmapFilters := jmapFilters ++ [.operator t.operator t.jmapFilters]
            stack })
      | [] => .ok (.inr t)

end Traversal

namespace SearchContext

/-- `SessionData::imap_filter_to_jmap`, with the loop of the source. -/
def traverse (c : SearchContext) (filter : Filter)
    (changesEmail : String → Option Jmap.Changes) (fuel : ℕ) :
    Except SearchError (Option (Jmap.Query × Option ℕ)) :=
  (run (Traversal.step c changesEmail) fuel (.start filter)).map fun last ↦
    last.map fun t ↦ (c.confine t.operator t.jmapFilters, t.modseq.highest)

variable (c : SearchContext) (changesEmail : String → Option Jmap.Changes)

theorem translate_operator (modseq : SeenModseq) (operator : Jmap.Operator)
    (filters : List Filter) :
    c.translate changesEmail modseq (.operator operator filters) =
      c.translateAll changesEmail modseq filters >>= fun r ↦
        .ok ([.operator operator r.1], r.2) := by
  rw [translate]
  cases c.translateAll changesEmail modseq filters <;> rfl

theorem translateAll_cons (modseq : SeenModseq) (filter : Filter) (filters : List Filter) :
    c.translateAll changesEmail modseq (filter :: filters) =
      c.translate changesEmail modseq filter >>= fun r ↦
        c.translateAll changesEmail r.2 filters >>= fun r' ↦ .ok (r.1 ++ r'.1, r'.2) := by
  rw [translateAll]
  cases c.translate changesEmail modseq filter with
  | error e => rfl
  | ok r =>
      obtain ⟨queries, modseq⟩ := r
      dsimp only
      show _ = c.translateAll changesEmail modseq filters >>= _
      cases c.translateAll changesEmail modseq filters <;> rfl

end SearchContext

namespace Traversal

variable (c : SearchContext) (changesEmail : String → Option Jmap.Changes)

/-- Where the loop is after a filter: its queries are added. -/
def added (operator : Jmap.Operator) (imapFilters : List Filter) (jmapFilters : List Jmap.Query)
    (stack : List (Jmap.Operator × List Filter × List Jmap.Query))
    (r : List Jmap.Query × SeenModseq) : Traversal :=
  ⟨operator, imapFilters, jmapFilters ++ r.1, stack, r.2⟩

theorem leads_key {key : Filter} (hkey : key.IsKey) (operator : Jmap.Operator)
    (imapFilters : List Filter) (jmapFilters : List Jmap.Query)
    (stack : List (Jmap.Operator × List Filter × List Jmap.Query)) (modseq : SeenModseq) :
    Leads (step c changesEmail) ⟨operator, key :: imapFilters, jmapFilters, stack, modseq⟩
      (added operator imapFilters jmapFilters stack) (c.translate changesEmail modseq key) := by
  rw [SearchContext.translate_of_isKey hkey]
  have hround : step c changesEmail ⟨operator, key :: imapFilters, jmapFilters, stack, modseq⟩ =
      match c.translateKey changesEmail modseq key with
      | .error e => .error e
      | .ok r => .ok (.inl (added operator imapFilters jmapFilters stack r)) := by
    cases key
    case operator o filters => exact absurd rfl (hkey o filters)
    all_goals
      simp only [step]
      cases c.translateKey changesEmail modseq _ <;> rfl
  cases htranslate : c.translateKey changesEmail modseq key with
  | error e =>
      rw [htranslate] at hround
      exact leads_error hround
  | ok r =>
      rw [htranslate] at hround
      exact Leads.after (leads_ok _ r) hround

mutual

/-- One filter: an operator is entered, its filters are gone over, and the loop comes back. -/
theorem leads_translate (filter : Filter) (operator : Jmap.Operator) (imapFilters : List Filter)
    (jmapFilters : List Jmap.Query)
    (stack : List (Jmap.Operator × List Filter × List Jmap.Query)) (modseq : SeenModseq) :
    Leads (step c changesEmail) ⟨operator, filter :: imapFilters, jmapFilters, stack, modseq⟩
      (added operator imapFilters jmapFilters stack) (c.translate changesEmail modseq filter) := by
  cases filter
  case operator newOperator newFilters =>
    have hinner := leads_translateAll newFilters newOperator []
      ((operator, imapFilters, jmapFilters) :: stack) modseq
    have hback : ∀ r : List Jmap.Query × SeenModseq, Leads (step c changesEmail)
        (added newOperator [] [] ((operator, imapFilters, jmapFilters) :: stack) r)
        (added operator imapFilters jmapFilters stack)
        (.ok ([.operator newOperator r.1], r.2)) :=
      fun r ↦ Leads.after (leads_ok _ _) rfl
    have hround := (hinner.bind hback).after
      (s := ⟨operator, .operator newOperator newFilters :: imapFilters, jmapFilters, stack, modseq⟩)
      rfl
    rw [SearchContext.translate_operator]
    exact hround
  all_goals
    exact leads_key c changesEmail (by intro o filters hc; cases hc) operator imapFilters
      jmapFilters stack modseq

/-- The filters of an operator, one after the other. -/
theorem leads_translateAll (filters : List Filter) (operator : Jmap.Operator)
    (jmapFilters : List Jmap.Query)
    (stack : List (Jmap.Operator × List Filter × List Jmap.Query)) (modseq : SeenModseq) :
    Leads (step c changesEmail) ⟨operator, filters, jmapFilters, stack, modseq⟩
      (added operator [] jmapFilters stack) (c.translateAll changesEmail modseq filters) := by
  match filters with
  | [] =>
      rw [SearchContext.translateAll]
      have hend : Leads (step c changesEmail) (added operator [] jmapFilters stack ([], modseq))
          (added operator [] jmapFilters stack) (.ok ([], modseq)) := leads_ok _ _
      rwa [added, List.append_nil] at hend
  | filter :: filters =>
      have hfirst := leads_translate filter operator filters jmapFilters stack modseq
      have hrest : ∀ r : List Jmap.Query × SeenModseq, Leads (step c changesEmail)
          (added operator filters jmapFilters stack r) (added operator [] jmapFilters stack)
          (c.translateAll changesEmail r.2 filters >>= fun r' ↦ .ok (r.1 ++ r'.1, r'.2)) := by
        intro r
        refine (leads_translateAll filters operator (jmapFilters ++ r.1) stack r.2).bind fun r' ↦ ?_
        rw [added, List.append_assoc]
        exact leads_ok _ _
      rw [SearchContext.translateAll_cons]
      exact hfirst.bind hrest

end

end Traversal

namespace SearchContext

/-- The loop and the recursion. -/
theorem traverse_eq (c : SearchContext) (filter : Filter)
    (changesEmail : String → Option Jmap.Changes) :
    ∃ rounds, ∀ fuel, rounds < fuel →
      c.traverse filter changesEmail fuel = (c.imapFilterToJmap filter changesEmail).map some := by
  have hleads := Traversal.leads_translateAll c changesEmail (rootFilters filter).1
    (rootFilters filter).2 [] [] {}
  obtain ⟨rounds, hrun⟩ := hleads.returns fun r ↦ rfl
  refine ⟨rounds, fun fuel hfuel ↦ ?_⟩
  rw [traverse, Traversal.start, hrun fuel hfuel, imapFilterToJmap]
  cases c.translateAll changesEmail {} (rootFilters filter).1 <;> rfl

end SearchContext

/-! ## From the outside -/

namespace Search.Filter

mutual

/-- The operators of a filter, each before those under it. -/
def operators : Filter → List Jmap.Operator
  | .operator o filters => o :: operatorsOf filters
  | _ => []

def operatorsOf : List Filter → List Jmap.Operator
  | [] => []
  | filter :: filters => operators filter ++ operatorsOf filters

end

mutual

/-- The tree of a filter, with queries for its keys. -/
def render (f : Filter → List Jmap.Query) : Filter → List Jmap.Query
  | .operator o filters => [.operator o (renderAll f filters)]
  | key => f key

def renderAll (f : Filter → List Jmap.Query) : List Filter → List Jmap.Query
  | [] => []
  | filter :: filters => render f filter ++ renderAll f filters

end

theorem IsKey.render {key : Filter} (h : key.IsKey) (f : Filter → List Jmap.Query) :
    key.render f = f key := by
  cases key
  case operator o filters => exact absurd rfl (h o filters)
  all_goals rw [Filter.render]; simp

mutual

theorem isKey_of_mem_leaves {key : Filter} (filter : Filter) (h : key ∈ filter.leaves) :
    key.IsKey := by
  cases filter
  case operator o filters =>
    rw [leaves_operator] at h
    exact isKey_of_mem_leavesOf filters h
  all_goals
    rw [IsKey.leaves (by intro o filters hc; cases hc), List.mem_singleton] at h
    subst h
    intro o filters hc
    cases hc

theorem isKey_of_mem_leavesOf {key : Filter} (filters : List Filter)
    (h : key ∈ leavesOf filters) : key.IsKey := by
  match filters with
  | [] => simp at h
  | filter :: filters =>
      rw [leavesOf_cons] at h
      rcases List.mem_append.mp h with h | h
      · exact isKey_of_mem_leaves filter h
      · exact isKey_of_mem_leavesOf filters h

end

end Search.Filter

namespace SearchContext

variable {c : SearchContext} {changesEmail : String → Option Jmap.Changes}

/-- The queries of a key on its own. -/
def keyQueries (c : SearchContext) (changesEmail : String → Option Jmap.Changes) (key : Filter) :
    List Jmap.Query :=
  match c.translateKey changesEmail {} key with
  | .ok (queries, _) => queries
  | .error _ => []

/-- A key is translated to the same, whatever has come before it. -/
theorem queries_of_translateKey {modseq modseq' : SeenModseq} {key : Filter}
    {queries : List Jmap.Query}
    (h : c.translateKey changesEmail modseq key = .ok (queries, modseq')) :
    queries = c.keyQueries changesEmail key := by
  cases key
  case modSeq n entry =>
    have hseen : modseq.seen = false := by
      by_contra hseen
      rw [translateKey, translateModseq, if_pos (by simpa using hseen)] at h
      cases h
    have hsame : c.translateModseq changesEmail n modseq = c.translateModseq changesEmail n {} := by
      rw [translateModseq, translateModseq, hseen]
    rw [translateKey, hsame] at h
    rw [keyQueries, translateKey, h]
  case sequence sequence uidFilter =>
    rw [translateKey] at h
    rw [keyQueries, translateKey]
    cases hids : c.sequenceIds sequence uidFilter with
    | error e =>
        rw [hids] at h
        cases h
    | ok ids =>
        rw [hids] at h
        exact (congrArg Prod.fst (Except.ok.inj h)).symm
  all_goals exact (congrArg Prod.fst (Except.ok.inj h)).symm

/-- ALL adds nothing, and every other key one query. -/
theorem keyQueries_of_translateKey {modseq modseq' : SeenModseq} {key : Filter}
    {queries : List Jmap.Query} (hkey : key.IsKey)
    (h : c.translateKey changesEmail modseq key = .ok (queries, modseq')) :
    (key = .all ∧ queries = []) ∨ (key ≠ .all ∧ ∃ query, queries = [query]) := by
  cases key
  case all => exact .inl ⟨rfl, (congrArg Prod.fst (Except.ok.inj h)).symm⟩
  case operator o filters => exact absurd rfl (hkey o filters)
  case modSeq n entry =>
    refine .inr ⟨by simp, ?_⟩
    rw [translateKey, translateModseq] at h
    split at h
    · cases h
    · split at h
      · cases h
      · cases h
      · split at h
        · cases h
        · split at h
          · cases h
          · exact ⟨_, (congrArg Prod.fst (Except.ok.inj h)).symm⟩
  case sequence sequence uidFilter =>
    refine .inr ⟨by simp, ?_⟩
    rw [translateKey] at h
    split at h
    · cases h
    · exact ⟨_, (congrArg Prod.fst (Except.ok.inj h)).symm⟩
  all_goals exact .inr ⟨by simp, _, (congrArg Prod.fst (Except.ok.inj h)).symm⟩

mutual

/-- What is left of a filter is its tree. -/
theorem translate_render (filter : Filter) {modseq modseq' : SeenModseq}
    {queries : List Jmap.Query}
    (h : c.translate changesEmail modseq filter = .ok (queries, modseq')) :
    queries = filter.render (c.keyQueries changesEmail) := by
  cases filter
  case operator o filters =>
    rw [translate] at h
    cases hall : c.translateAll changesEmail modseq filters with
    | error e =>
        rw [hall] at h
        cases h
    | ok r =>
        rw [hall] at h
        have hqueries := translateAll_render filters hall
        rw [Filter.render, ← hqueries]
        exact (congrArg Prod.fst (Except.ok.inj h)).symm
  all_goals
    rw [translate_of_isKey (by intro o filters hc; cases hc)] at h
    rw [Filter.IsKey.render (by intro o filters hc; cases hc)]
    exact queries_of_translateKey h

theorem translateAll_render (filters : List Filter) {modseq modseq' : SeenModseq}
    {queries : List Jmap.Query}
    (h : c.translateAll changesEmail modseq filters = .ok (queries, modseq')) :
    queries = Filter.renderAll (c.keyQueries changesEmail) filters := by
  match filters with
  | [] =>
      rw [translateAll] at h
      rw [Filter.renderAll]
      exact (congrArg Prod.fst (Except.ok.inj h)).symm
  | filter :: filters =>
      rw [translateAll] at h
      cases hhead : c.translate changesEmail modseq filter with
      | error e =>
          rw [hhead] at h
          cases h
      | ok r =>
          obtain ⟨first, modseq₁⟩ := r
          rw [hhead] at h
          dsimp only at h
          cases htail : c.translateAll changesEmail modseq₁ filters with
          | error e =>
              rw [htail] at h
              cases h
          | ok r' =>
              obtain ⟨rest, modseq₂⟩ := r'
              rw [htail] at h
              rw [Filter.renderAll, ← translate_render filter hhead,
                ← translateAll_render filters htail]
              exact (congrArg Prod.fst (Except.ok.inj h)).symm

end

/-- An error is that of the first key that has one. -/
theorem scan_error_iff {keys : List Filter} {modseq : SeenModseq} {error : SearchError} :
    c.scan changesEmail modseq keys = .error error ↔
      ∃ before key after modseq', keys = before ++ key :: after ∧
        c.scan changesEmail modseq before = .ok modseq' ∧
        c.translateKey changesEmail modseq' key = .error error := by
  rw [scan, foldlM_eq_error_iff]
  refine exists_congr fun before ↦ exists_congr fun key ↦ exists_congr fun after ↦
    exists_congr fun modseq' ↦ and_congr_right fun _ ↦ and_congr_right fun _ ↦ ?_
  rw [scanKey]
  cases c.translateKey changesEmail modseq' key <;> simp [Except.map]

end SearchContext

/-! ## What a query is about -/

namespace Jmap.Query

mutual

/-- A query holds of an email: all of the conditions, some, or none. -/
def holds (test : Condition → Bool) : Query → Bool
  | condition c => test c
  | operator .and conditions => allHold test conditions
  | operator .or conditions => anyHolds test conditions
  | operator .not conditions => !anyHolds test conditions

def allHold (test : Condition → Bool) : List Query → Bool
  | [] => true
  | query :: conditions => query.holds test && allHold test conditions

def anyHolds (test : Condition → Bool) : List Query → Bool
  | [] => false
  | query :: conditions => query.holds test || anyHolds test conditions

end

mutual

/-- The operators of a query, each before those under it. -/
def operators : Query → List Operator
  | condition _ => []
  | operator o conditions => o :: operatorsOf conditions

def operatorsOf : List Query → List Operator
  | [] => []
  | query :: conditions => query.operators ++ operatorsOf conditions

end

variable {test : Condition → Bool}

theorem allHold_append (queries queries' : List Query) :
    allHold test (queries ++ queries') = (allHold test queries && allHold test queries') := by
  induction queries with
  | nil => rw [List.nil_append, allHold, Bool.true_and]
  | cons query queries ih => rw [List.cons_append, allHold, allHold, ih, Bool.and_assoc]

end Jmap.Query

namespace SearchContext

variable {c : SearchContext} {changesEmail : String → Option Jmap.Changes} {mailboxId : String}

/-- The mailbox is one more condition. -/
theorem holds_confine (hmailbox : c.mailbox.id.mailboxId = some mailboxId)
    (operator : Jmap.Operator) (queries : List Jmap.Query) (test : Jmap.Condition → Bool) :
    (c.confine operator queries).holds test =
      (test (.inMailbox mailboxId) && (Jmap.Query.operator operator queries).holds test) := by
  cases operator with
  | and =>
      cases queries with
      | nil =>
          simp only [confine, hmailbox, List.isEmpty_nil, if_true]
          rw [Jmap.Query.holds, Jmap.Query.holds, Jmap.Query.allHold, Bool.and_true]
      | cons query queries =>
          simp only [confine, hmailbox, List.isEmpty_cons, Bool.false_eq_true, if_false]
          rw [Jmap.Query.holds, Jmap.Query.holds, Jmap.Query.allHold_append, Bool.and_comm]
          simp only [Jmap.Query.allHold, Jmap.Query.holds, Bool.and_true]
  | or | not =>
      simp only [confine, hmailbox]
      rw [Jmap.Query.holds]
      simp only [Jmap.Query.allHold, Jmap.Query.holds, Bool.and_true]

/-- Where there is no error every key has been translated. -/
theorem translateKey_of_scan {keys : List Filter} {modseq modseq' : SeenModseq}
    (h : c.scan changesEmail modseq keys = .ok modseq') {key : Filter} (hkey : key ∈ keys) :
    ∃ modseq r, c.translateKey changesEmail modseq key = .ok r := by
  induction keys generalizing modseq with
  | nil => simp at hkey
  | cons first keys ih =>
      rw [scan, List.foldlM_cons, scanKey] at h
      cases hfirst : c.translateKey changesEmail modseq first with
      | error e =>
          rw [hfirst] at h
          cases h
      | ok r =>
          rw [hfirst] at h
          rcases List.mem_cons.mp hkey with rfl | hkey
          · exact ⟨modseq, r, hfirst⟩
          · exact ih h hkey

/-- The queries for the filters under the root. -/
def rootQueries (c : SearchContext) (filter : Filter)
    (changesEmail : String → Option Jmap.Changes) : List Jmap.Query :=
  Filter.renderAll (c.keyQueries changesEmail) (rootFilters filter).1

/-- The recursion gives the tree of the filter, or the error of a key. -/
theorem imapFilterToJmap_eq (c : SearchContext) (filter : Filter)
    (changesEmail : String → Option Jmap.Changes) :
    c.imapFilterToJmap filter changesEmail =
      (c.scan changesEmail {} filter.leaves).map fun modseq ↦
        (c.confine (rootFilters filter).2 (c.rootQueries filter changesEmail), modseq.highest) := by
  have hscan : (c.translateAll changesEmail {} (rootFilters filter).1).map Prod.snd =
      c.scan changesEmail {} filter.leaves := by
    rw [translateAll_scan, leavesOf_rootFilters]
  rw [← hscan, imapFilterToJmap]
  cases hall : c.translateAll changesEmail {} (rootFilters filter).1 with
  | error e => rfl
  | ok r =>
      obtain ⟨queries, modseq⟩ := r
      obtain rfl := translateAll_render _ hall
      rfl

/-- **The traversal of a filter.**  It returns the tree of the filter with every key but ALL
replaced by one query, and the mailbox as one more condition, or else the first error from left to
right. -/
theorem traverse_spec {c : SearchContext} (hmailbox : c.mailbox.id.mailboxId = some mailboxId)
    (filter : Filter) (changesEmail : String → Option Jmap.Changes) :
    (∃ rounds, ∀ fuel, rounds < fuel →
      c.traverse filter changesEmail fuel =
        (c.scan changesEmail {} filter.leaves).map fun modseq ↦
          some (c.confine (rootFilters filter).2 (c.rootQueries filter changesEmail),
            modseq.highest)) ∧
    (∀ modseq, c.scan changesEmail {} filter.leaves = .ok modseq → ∀ key ∈ filter.leaves,
      (key = .all ∧ c.keyQueries changesEmail key = []) ∨
        (key ≠ .all ∧ ∃ query, c.keyQueries changesEmail key = [query])) ∧
    (∀ error, c.scan changesEmail {} filter.leaves = .error error ↔
      ∃ before key after modseq, filter.leaves = before ++ key :: after ∧
        c.scan changesEmail {} before = .ok modseq ∧
        c.translateKey changesEmail modseq key = .error error) ∧
    ∀ test, (c.confine (rootFilters filter).2 (c.rootQueries filter changesEmail)).holds test =
      (test (.inMailbox mailboxId) &&
        (Jmap.Query.operator (rootFilters filter).2
          (c.rootQueries filter changesEmail)).holds test) := by
  refine ⟨?_, ?_, fun error ↦ scan_error_iff, holds_confine hmailbox _ _⟩
  · obtain ⟨rounds, hrun⟩ := c.traverse_eq filter changesEmail
    refine ⟨rounds, fun fuel hfuel ↦ ?_⟩
    rw [hrun fuel hfuel, imapFilterToJmap_eq]
    cases c.scan changesEmail {} filter.leaves <;> rfl
  · intro modseq hscan key hkey
    obtain ⟨modseq', r, htranslate⟩ := translateKey_of_scan hscan hkey
    rw [← queries_of_translateKey htranslate]
    exact keyQueries_of_translateKey (Filter.isKey_of_mem_leaves filter hkey) htranslate

/-- An inbox without messages. -/
def emptyInboxSearch : SearchContext where
  db := ⟨fun _ ↦ some none, fun _ ↦ some 0, fun _ ↦ some []⟩
  mailbox := ⟨⟨"u1", some "inbox"⟩, ⟨1, 0, [], [], 0, ""⟩, .none, true⟩
  order := id
  now := 0
  prevSavedSearch := none
  isUid := false

/-- `OR SEEN NOT ALL` -/
theorem traverse_spec_or :
    ∃ rounds, ∀ fuel, rounds < fuel →
      emptyInboxSearch.traverse (.operator .or [.seen, .operator .not [.all]]) (fun _ ↦ none) fuel =
        .ok (some (.operator .and [.condition (.inMailbox "inbox"),
          .operator .or [.condition (.hasKeyword "$seen"), .operator .not []]], none)) :=
  (traverse_spec rfl (.operator .or [.seen, .operator .not [.all]]) fun _ ↦ none).1

/-- An AND at the root with nothing under it is not in the query. -/
theorem traverse_drops_and :
    ¬ ∀ (c : SearchContext) (filter : Filter) (changesEmail : String → Option Jmap.Changes)
      (fuel : ℕ) (query : Jmap.Query) (highest : Option ℕ), c.mailbox.id.mailboxId.isSome →
        c.traverse filter changesEmail fuel = .ok (some (query, highest)) →
          filter.operators.Sublist query.operators := by
  intro h
  have hsub := h emptyInboxSearch (.operator .and [.all]) (fun _ ↦ none) 3
    (.condition (.inMailbox "inbox")) none rfl rfl
  simp [Filter.operators, Jmap.Query.operators] at hsub

end SearchContext

end ImapToJmap
