import ImapToJmap.Commands.SearchResults
import ImapToJmap.Parser.Filters

/-!
# EMAILID and THREADID

FETCH returns the ids of an object with that of the account before them, and a hyphen between the
two. A SEARCH takes what follows the first hyphen.  Account ids may have hyphens of their own, and
then that is another id (`objectId_iff`).
-/

namespace ImapToJmap

open Ascii Search

/-- The value of EMAILID and THREADID in FETCH. -/
def objectId (accountId id : String) : String := accountId ++ "-" ++ id

/-- What a SEARCH for a key with a value asks the server for. -/
def SearchContext.queries (c : SearchContext) (r : ArgumentReader)
    (changesEmail : String → Option Jmap.Changes) (name value : String) :
    Option (List Jmap.Query) :=
  match parseFilters r [.argument (asBytes name), .argument (asBytes value)] with
  | .error _ => none
  | .ok filters =>
      match c.translateAll changesEmail {} filters with
      | .error _ => none
      | .ok (queries, _) => some queries

section

variable {accountId id : String}

theorem toList_objectId (accountId id : String) :
    (objectId accountId id).toList = accountId.toList ++ '-' :: id.toList := by
  simp [objectId]

theorem afterDash_objectId (haccount : '-' ∉ accountId.toList) (id : String) :
    afterDash (objectId accountId id) = some id :=
  afterDash_eq_some_iff.mpr ⟨accountId.toList, haccount, toList_objectId accountId id⟩

/-- Of an account id with a hyphen the end is taken for a part of the id. -/
theorem afterDash_objectId_ne (haccount : '-' ∈ accountId.toList) (id : String) :
    ∃ taken, afterDash (objectId accountId id) = some taken ∧ taken ≠ id := by
  have hsome : ∃ taken, afterDash (objectId accountId id) = some taken := by
    unfold afterDash
    split
    · rename_i hdrop
      rw [List.dropWhile_eq_nil_iff, toList_objectId] at hdrop
      simpa using hdrop '-' (List.mem_append_right _ List.mem_cons_self)
    · exact ⟨_, rfl⟩
  obtain ⟨taken, htaken⟩ := hsome
  refine ⟨taken, htaken, ?_⟩
  rintro rfl
  obtain ⟨before, hbefore, hsplit⟩ := afterDash_eq_some_iff.mp htaken
  rw [toList_objectId] at hsplit
  rw [List.append_cancel_right hsplit] at haccount
  exact hbefore haccount

/-- Values of accounts without hyphens are different for different objects. -/
theorem objectId_inj {accountId' id' : String} (haccount : '-' ∉ accountId.toList)
    (haccount' : '-' ∉ accountId'.toList) (h : objectId accountId id = objectId accountId' id') :
    accountId = accountId' ∧ id = id' := by
  have hid : id = id' := by
    have hafter := afterDash_objectId haccount id
    rw [h, afterDash_objectId haccount'] at hafter
    exact (Option.some.inj hafter).symm
  subst hid
  have hlist := congrArg String.toList h
  rw [toList_objectId, toList_objectId] at hlist
  exact ⟨String.toList_inj.mp (List.append_cancel_right hlist), rfl⟩

end

/-! ## The keys -/

section

variable {r : ArgumentReader} {c : SearchContext} {changesEmail : String → Option Jmap.Changes}
  {name value taken : String} {filter : String → Filter}

theorem parseFilters_id (hor : eqIgnoreAsciiCase (asBytes name) (asBytes "OR") = false)
    (hnot : eqIgnoreAsciiCase (asBytes name) (asBytes "NOT") = false)
    (hform : keyForms.find? (fun e ↦ eqIgnoreAsciiCase (asBytes name) (asBytes e.1)) =
      some (name, .id filter))
    (h : afterDash value = some taken) :
    parseFilters r [.argument (asBytes name), .argument (asBytes value)] = .ok [filter taken] := by
  have hid : readId (.argument (asBytes value)) = .ok taken := by
    have hstring : (Token.argument (asBytes value)).unwrapString = some value :=
      fromUtf8_asBytes value
    rw [readId, hstring]
    dsimp only
    rw [h, Option.elim_some]
  have hkey : readKey r (asBytes name) [.argument (asBytes value)] = .ok (filter taken, []) := by
    rw [readKey, hform]
    dsimp only
    rw [KeyForm.read, readThen, hid]
    rfl
  have hread : readSymbol r (.argument (asBytes name)) [.argument (asBytes value)] =
      .ok (.filter (filter taken), []) := by
    simp only [readSymbol, hor, hnot, hkey, Bool.false_eq_true, if_false]
  have hlexes : Lexes r [.argument (asBytes name), .argument (asBytes value)]
      [.filter (filter taken)] := .cons hread .nil
  rw [parseFilters, FilterParser.loop_of_lexes hlexes]
  rfl

theorem queries_emailId (h : afterDash value = some taken) :
    c.queries r changesEmail "EMAILID" value = some [.condition (.id [taken])] := by
  have hparse : parseFilters r [.argument (asBytes "EMAILID"), .argument (asBytes value)] =
      .ok [.emailId taken] :=
    parseFilters_id (by decide +kernel) (by decide +kernel) rfl h
  rw [SearchContext.queries, hparse]
  rfl

theorem queries_threadId (h : afterDash value = some taken) :
    c.queries r changesEmail "THREADID" value = some [.condition (.inThread taken)] := by
  have hparse : parseFilters r [.argument (asBytes "THREADID"), .argument (asBytes value)] =
      .ok [.threadId taken] :=
    parseFilters_id (by decide +kernel) (by decide +kernel) rfl h
  rw [SearchContext.queries, hparse]
  rfl

end

/-- Ids over the alphabet of JMAP. -/
abbrev JmapId := {id : String // IsJmapId id}

/-- **The ids of a set of accounts are searched for as they are returned, and differ, exactly when
no account id has a hyphen.** -/
theorem objectId_iff (c : SearchContext) (r : ArgumentReader)
    (changesEmail : String → Option Jmap.Changes) (accounts : Set JmapId) :
    ((∀ accountId ∈ accounts, ∀ id : JmapId,
        c.queries r changesEmail "EMAILID" (objectId accountId id) =
            some [.condition (.id [id.val])] ∧
          c.queries r changesEmail "THREADID" (objectId accountId id) =
            some [.condition (.inThread id)]) ∧
      ∀ accountId ∈ accounts, ∀ accountId' ∈ accounts, ∀ id id' : JmapId,
        objectId accountId id = objectId accountId' id' → accountId = accountId' ∧ id = id') ↔
      ∀ accountId ∈ accounts, '-' ∉ accountId.val.toList := by
  constructor
  · rintro ⟨hsearch, -⟩ accountId haccount hdash
    obtain ⟨taken, htaken, hne⟩ := afterDash_objectId_ne hdash accountId
    have hqueries := (hsearch accountId haccount accountId).1
    rw [queries_emailId htaken] at hqueries
    have hids := Jmap.Condition.id.inj (Jmap.Query.condition.inj (List.cons.inj
      (Option.some.inj hqueries)).1)
    exact hne (List.cons.inj hids).1
  · intro h
    refine ⟨fun accountId haccount id ↦ ?_, fun accountId haccount accountId' haccount' id id' heq ↦
      ?_⟩
    · have hafter := afterDash_objectId (h accountId haccount) id
      exact ⟨queries_emailId hafter, queries_threadId hafter⟩
    · obtain ⟨haccounts, hids⟩ := objectId_inj (h accountId haccount) (h accountId' haccount') heq
      exact ⟨Subtype.ext haccounts, Subtype.ext hids⟩

/-- Email `c` of account `a-b` and email `b-c` of account `a` have one value, for which `b-c` is
searched. -/
theorem objectId_clash : objectId "a-b" "c" = objectId "a" "b-c" ∧
    threeMessages.queries ⟨none, fun _ ↦ none⟩ (fun _ ↦ none) "EMAILID" (objectId "a-b" "c") =
      some [.condition (.id ["b-c"])] :=
  ⟨by decide, queries_emailId (by decide)⟩

end ImapToJmap
