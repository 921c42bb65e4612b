import ImapToJmap.Commands.Search
import ImapToJmap.Commands.Selected
import Mathlib.Data.Set.Card
import Mathlib.Order.Bounds.Basic

/-!
# The results of SEARCH

`SessionData::search`: the ids that the server finds, page by page, become messages of the view, and
these the results that are asked for.  MIN and MAX are taken from all of them, COUNT is the total
that the server gives, and ALL is what is left after the results have been narrowed to MIN and MAX,
if both were asked for (`Reports`).
-/

namespace ImapToJmap

open Search SelectedMailbox

/-- `ResultOption` -/
inductive ResultOption where
  | min
  | max
  | all
  | count
  | save
  | context
deriving DecidableEq

/-- `search::Arguments`; of the sort criteria only whether there are any. -/
structure SearchArguments where
  isEsearch : Bool
  isSort : Bool
  resultOptions : List ResultOption
  filter : Filter

namespace SearchArguments

def has (arguments : SearchArguments) (option : ResultOption) : Bool :=
  option ∈ arguments.resultOptions

/-- ALL is asked for, or nothing is. -/
def wantsAll (arguments : SearchArguments) : Bool :=
  arguments.resultOptions.isEmpty || arguments.has .all

/-- MIN and MAX are both asked for. -/
def wantsBoth (arguments : SearchArguments) : Bool := arguments.has .min && arguments.has .max

end SearchArguments

/-- `search::Response` -/
structure SearchResponse where
  isUid : Bool
  isEsearch : Bool
  isSort : Bool
  ids : List ℕ
  min : Option ℕ
  max : Option ℕ
  count : Option ℕ
  highestModseq : Option ℕ
deriving DecidableEq

/-- A response to the query. -/
structure QueryPage where
  ids : List String
  total : Option ℕ

/-- The loop over the pages, on the responses that the server gives, a failed request being `none`.
The result is `none` while one is waited for. -/
def queryLoop (jmapIds : List String) :
    List (Option QueryPage) → Option (Except SearchError (List String × ℕ))
  | [] => none
  | none :: _ => some (.error .server)
  | some page :: pages =>
      let total := page.total.getD 0
      if page.ids = [] then some (.ok (jmapIds, total))
      else
        let jmapIds := jmapIds ++ page.ids
        if jmapIds.length < total then queryLoop jmapIds pages else some (.ok (jmapIds, total))

/-- The ids and the total; a search for nothing but a MODSEQ needs no query. -/
def queryIds (isSort : Bool) (query : Jmap.Query) (highestModseq : Option ℕ)
    (pages : List (Option QueryPage)) : Option (Except SearchError (List String × ℕ)) :=
  match query, highestModseq, isSort with
  | .condition (.id value), some _, false => some (.ok (value, value.length))
  | _, _, _ => queryLoop [] pages

/-- The view that the results are taken from: when an id is not in it, it is synchronized. -/
def searchView (state : MailboxData) (jmapIds : List String)
    (snapshot : Except SearchError MailboxData) : Except SearchError MailboxData :=
  if (jmapToImap state jmapIds).length ≠ jmapIds.length then
    snapshot.map fun snapshot ↦
      (state.synchronizeUids snapshot.jmapIds snapshot.imapUids false).1
  else .ok state

/-- What is done with the messages that are found. -/
def searchResponse (arguments : SearchArguments) (isUid : Bool) (state : MailboxData)
    (jmapIds : List String) (total : ℕ) (highestModseq : Option ℕ) : SearchResponse :=
  let numbers := (jmapToImap state jmapIds).map (number isUid)
  let narrowed :=
    (searchResults state jmapIds isUid (arguments.has .min) (arguments.has .max)).map (number isUid)
  { isUid := isUid
    isEsearch := arguments.isEsearch
    isSort := arguments.isSort
    min := if arguments.has .min then numbers.min? else none
    max := if arguments.has .max then numbers.max? else none
    count := if arguments.has .count then some (total % 2 ^ 32) else none
    ids :=
      if arguments.wantsAll then
        if arguments.isSort then narrowed else sortNumbers narrowed
      else []
    highestModseq := highestModseq }

/-- The first half of `search`: what the server finds, and the highest modseq. -/
def SearchContext.found (c : SearchContext) (arguments : SearchArguments)
    (changesEmail : String → Option Jmap.Changes) (pages : List (Option QueryPage)) :
    Option (Except SearchError (List String × ℕ × Option ℕ)) :=
  match c.imapFilterToJmap arguments.filter changesEmail with
  | .error e => some (.error e)
  | .ok (query, highestModseq) =>
      (queryIds arguments.isSort query highestModseq pages).map fun result ↦
        result.map fun (jmapIds, total) ↦ (jmapIds, total, highestModseq)

/-- `SessionData::search`: the response, and the mailbox as the command leaves it.  `snapshot` is
what `synchronize_messages` returns, if it is called. -/
def SearchContext.search (c : SearchContext) (arguments : SearchArguments)
    (changesEmail : String → Option Jmap.Changes) (pages : List (Option QueryPage))
    (snapshot : Except SearchError MailboxData) :
    Option (Except SearchError (SearchResponse × SelectedMailbox)) :=
  (c.found arguments changesEmail pages).map fun result ↦ do
    let (jmapIds, total, highestModseq) ← result
    let state ← searchView c.mailbox.state jmapIds snapshot
    let results :=
      searchResults state jmapIds c.isUid (arguments.has .min) (arguments.has .max)
    .ok (searchResponse arguments c.isUid state jmapIds total highestModseq,
      { c.mailbox with
        state := state
        savedSearch := if arguments.has .save then .results results else c.mailbox.savedSearch })

/-! ## The messages that are found -/

section

variable {state : MailboxData} {jmapIds : List String} {jmapId : String} {isUid : Bool} {a : ImapId}

/-- The message of a view that an email id stands for: the first one with it. -/
structure Denotes (state : MailboxData) (jmapId : String) (a : ImapId) : Prop where
  pos : 0 < a.seqnum
  id : state.jmapIds[a.seqnum - 1]? = some jmapId
  uid : state.imapUids[a.seqnum - 1]? = some a.uid
  first : ∀ pos < a.seqnum - 1, state.jmapIds[pos]? ≠ some jmapId

/-- A message that matches. -/
def Matches (state : MailboxData) (jmapIds : List String) (a : ImapId) : Prop :=
  ∃ jmapId ∈ jmapIds, Denotes state jmapId a

/-- The numbers of the messages that match. -/
def matchedNumbers (isUid : Bool) (state : MailboxData) (jmapIds : List String) : Set ℕ :=
  {n | ∃ a, Matches state jmapIds a ∧ number isUid a = n}

/-- `jmap_to_imap`, of one id. -/
def toImap (state : MailboxData) (jmapId : String) : Option ImapId :=
  (state.jmapIds.idxOf? jmapId).bind fun pos ↦ (state.imapUids[pos]?).map fun uid ↦ ⟨uid, pos + 1⟩

theorem toImap_eq_some_iff : toImap state jmapId = some a ↔ Denotes state jmapId a := by
  rw [toImap, Option.bind_eq_some_iff]
  constructor
  · rintro ⟨pos, hpos, huid⟩
    obtain ⟨uid, hget, rfl⟩ := Option.map_eq_some_iff.mp huid
    obtain ⟨hlt, heq, hfirst⟩ := List.findIdx?_eq_some_iff_getElem.mp hpos
    refine ⟨Nat.succ_pos pos, ?_, hget, ?_⟩
    · show state.jmapIds[pos]? = _
      rw [List.getElem?_eq_getElem hlt, beq_iff_eq.mp heq]
    · intro q hq hsome
      obtain ⟨hlt', heq'⟩ := List.getElem?_eq_some_iff.mp hsome
      exact hfirst q hq (beq_iff_eq.mpr heq')
  · rintro ⟨hpos, hid, huid, hfirst⟩
    refine ⟨a.seqnum - 1, ?_, ?_⟩
    · obtain ⟨hlt, heq⟩ := List.getElem?_eq_some_iff.mp hid
      refine List.findIdx?_eq_some_iff_getElem.mpr ⟨hlt, beq_iff_eq.mpr heq, fun q hq hbeq ↦ ?_⟩
      refine hfirst q hq ?_
      rw [List.getElem?_eq_getElem (hq.trans hlt), beq_iff_eq.mp hbeq]
    · rw [huid]
      show some (⟨a.uid, a.seqnum - 1 + 1⟩ : ImapId) = some a
      rw [Nat.sub_add_cancel hpos]

theorem mem_jmapToImap_iff : a ∈ jmapToImap state jmapIds ↔ Matches state jmapIds a := by
  rw [jmapToImap, List.mem_filterMap]
  exact exists_congr fun jmapId ↦ and_congr_right fun _ ↦ toImap_eq_some_iff

theorem mem_numbers_iff {n : ℕ} : n ∈ (jmapToImap state jmapIds).map (number isUid) ↔
    n ∈ matchedNumbers isUid state jmapIds := by
  rw [List.mem_map]
  exact exists_congr fun a ↦ and_congr_left fun _ ↦ mem_jmapToImap_iff

/-- The numbers of a list without repetitions have none. -/
theorem nodup_numbers (hids : jmapIds.Nodup) (hstate : state.Aligned) :
    ((jmapToImap state jmapIds).map (number isUid)).Nodup := by
  have hnodup : (jmapToImap state jmapIds).Nodup := by
    refine hids.filterMap fun id id' a ha ha' ↦ ?_
    have h := toImap_eq_some_iff.mp ha
    have h' := toImap_eq_some_iff.mp ha'
    exact Option.some.inj (h.id.symm.trans h'.id)
  refine hnodup.map_on fun a ha b hb hab ↦ ?_
  obtain ⟨_, -, ha⟩ := mem_jmapToImap_iff.mp ha
  obtain ⟨_, -, hb⟩ := mem_jmapToImap_iff.mp hb
  have hpos := ha.pos
  have hpos' := hb.pos
  obtain ⟨hlt, huid⟩ := List.getElem?_eq_some_iff.mp ha.uid
  obtain ⟨hlt', huid'⟩ := List.getElem?_eq_some_iff.mp hb.uid
  obtain ⟨uid, seqnum⟩ := a
  obtain ⟨uid', seqnum'⟩ := b
  cases isUid with
  | true =>
      -- a UID stands at one position of the view
      obtain rfl : uid = uid' := hab
      have hidx := (List.Nodup.getElem_inj_iff hstate.nodup).mp (huid.trans huid'.symm)
      have hseqnum : seqnum = seqnum' := by
        dsimp only at hidx hpos hpos'
        omega
      rw [hseqnum]
  | false =>
      obtain rfl : seqnum = seqnum' := hab
      rw [show uid = uid' from huid.symm.trans huid']

theorem length_numbers (h : ∀ jmapId ∈ jmapIds, ∃ a, Denotes state jmapId a) :
    ((jmapToImap state jmapIds).map (number isUid)).length = jmapIds.length := by
  rw [List.length_map]
  refine List.filterMap_length_eq_length.mpr fun jmapId hmem ↦ ?_
  obtain ⟨a, ha⟩ := h jmapId hmem
  exact Option.isSome_iff_exists.mpr ⟨a, toImap_eq_some_iff.mpr ha⟩

theorem ncard_matchedNumbers (h : ((jmapToImap state jmapIds).map (number isUid)).Nodup) :
    (matchedNumbers isUid state jmapIds).ncard =
      ((jmapToImap state jmapIds).map (number isUid)).length := by
  have hset : matchedNumbers isUid state jmapIds =
      (((jmapToImap state jmapIds).map (number isUid)).toFinset : Set ℕ) := by
    ext n
    rw [← mem_numbers_iff]
    simp
  rw [hset, Set.ncard_coe_finset, List.toFinset_card_of_nodup h]

/-- Unless both are asked for, nothing is narrowed. -/
theorem searchResults_all {hasMin hasMax : Bool} (h : (hasMin && hasMax) = false) :
    searchResults state jmapIds isUid hasMin hasMax = jmapToImap state jmapIds := by
  unfold searchResults
  cases hasMin with
  | false => rfl
  | true =>
      obtain rfl : hasMax = false := h
      dsimp only
      split
      · rename_i hmax
        cases hmax
      · rfl

/-- The first message with a number that is there. -/
theorem number_find {n : ℕ} (h : n ∈ (jmapToImap state jmapIds).map (number isUid)) :
    ∃ a, (jmapToImap state jmapIds).find? (fun i ↦ number isUid i = n) = some a ∧
      number isUid a = n := by
  obtain ⟨b, hb, hbn⟩ := List.mem_map.mp h
  cases hfind : (jmapToImap state jmapIds).find? fun i ↦ number isUid i = n with
  | none => exact absurd (decide_eq_true hbn) (List.find?_eq_none.mp hfind b hb)
  | some a => exact ⟨a, rfl, by simpa using List.find?_some hfind⟩

theorem searchResults_both {least greatest : ℕ}
    (hmin : ((jmapToImap state jmapIds).map (number isUid)).min? = some least)
    (hmax : ((jmapToImap state jmapIds).map (number isUid)).max? = some greatest) :
    (searchResults state jmapIds isUid true true).map (number isUid) = [least, greatest] := by
  obtain ⟨a, ha, hla⟩ := number_find (List.min?_mem hmin)
  obtain ⟨b, hb, hgb⟩ := number_find (List.max?_mem hmax)
  have hresults : searchResults state jmapIds isUid true true = [a, b] := by
    simp only [searchResults, hmin, hmax, if_true, List.filterMap_cons, ha, hb,
      List.filterMap_nil]
  rw [hresults, List.map_cons, List.map_cons, List.map_nil, hla, hgb]

end

/-! ## What is reported -/

/-- What a response says of the ids that were found and of the view. -/
structure Reports (arguments : SearchArguments) (isUid : Bool) (state : MailboxData)
    (jmapIds : List String) (total : ℕ) (r : SearchResponse) : Prop where
  min : arguments.has .min = true →
    ∀ n, r.min = some n ↔ IsLeast (matchedNumbers isUid state jmapIds) n
  max : arguments.has .max = true →
    ∀ n, r.max = some n ↔ IsGreatest (matchedNumbers isUid state jmapIds) n
  /-- COUNT is the total of the server. -/
  count : arguments.has .count = true → r.count = some (total % 2 ^ 32)
  /-- It is the number of the messages, if the ids and the total are right for the view. -/
  count_eq : arguments.has .count = true → jmapIds.Nodup → state.Aligned →
    (∀ jmapId ∈ jmapIds, ∃ a, Denotes state jmapId a) → total = jmapIds.length → total < 2 ^ 32 →
      r.count = some (matchedNumbers isUid state jmapIds).ncard
  all : arguments.wantsAll = true → arguments.wantsBoth = false →
    ∀ n, n ∈ r.ids ↔ n ∈ matchedNumbers isUid state jmapIds
  nodup : arguments.wantsBoth = false → jmapIds.Nodup → state.Aligned → r.ids.Nodup
  increasing : arguments.isSort = false → r.ids.Pairwise (· ≤ ·)
  length : arguments.wantsAll = true → arguments.wantsBoth = false → arguments.has .count = true →
    (∀ jmapId ∈ jmapIds, ∃ a, Denotes state jmapId a) → total = jmapIds.length → total < 2 ^ 32 →
      r.count = some r.ids.length
  /-- With MIN and MAX, ALL are these two. -/
  both : arguments.wantsAll = true → arguments.wantsBoth = true →
    ∀ n, n ∈ r.ids ↔ r.min = some n ∨ r.max = some n
  both_nodup : arguments.wantsAll = true → arguments.wantsBoth = true → r.min ≠ r.max → r.ids.Nodup
  least : arguments.wantsAll = true → ∀ n, r.min = some n → IsLeast {m | m ∈ r.ids} n
  greatest : arguments.wantsAll = true → ∀ n, r.max = some n → IsGreatest {m | m ∈ r.ids} n

section

variable {arguments : SearchArguments} {isUid : Bool} {state : MailboxData} {jmapIds : List String}
  {total : ℕ} {highestModseq : Option ℕ}

theorem min?_iff {n : ℕ} : ((jmapToImap state jmapIds).map (number isUid)).min? = some n ↔
    IsLeast (matchedNumbers isUid state jmapIds) n := by
  rw [List.min?_eq_some_iff]
  exact and_congr mem_numbers_iff
    (forall_congr' fun m ↦ imp_congr_left mem_numbers_iff)

theorem max?_iff {n : ℕ} : ((jmapToImap state jmapIds).map (number isUid)).max? = some n ↔
    IsGreatest (matchedNumbers isUid state jmapIds) n := by
  rw [List.max?_eq_some_iff]
  exact and_congr mem_numbers_iff
    (forall_congr' fun m ↦ imp_congr_left mem_numbers_iff)

/-- The numbers of ALL, in some order. -/
theorem perm_ids (hall : arguments.wantsAll = true) :
    (searchResponse arguments isUid state jmapIds total highestModseq).ids.Perm
      ((searchResults state jmapIds isUid (arguments.has .min) (arguments.has .max)).map
        (number isUid)) := by
  show (if arguments.wantsAll then _ else _ : List ℕ).Perm _
  rw [if_pos hall]
  split
  · exact .refl _
  · exact perm_sortNumbers _

theorem perm_numbers (hall : arguments.wantsAll = true) (hboth : arguments.wantsBoth = false) :
    (searchResponse arguments isUid state jmapIds total highestModseq).ids.Perm
      ((jmapToImap state jmapIds).map (number isUid)) := by
  rw [← searchResults_all hboth]
  exact perm_ids hall

/-- With MIN and MAX the ids are these two, or there are none. -/
theorem perm_minMax (hall : arguments.wantsAll = true) (hboth : arguments.wantsBoth = true) :
    (searchResponse arguments isUid state jmapIds total highestModseq).ids.Perm
      ((searchResponse arguments isUid state jmapIds total highestModseq).min.toList ++
        (searchResponse arguments isUid state jmapIds total highestModseq).max.toList) := by
  obtain ⟨hmin, hmax⟩ := Bool.and_eq_true_iff.mp hboth
  refine (perm_ids hall).trans (.of_eq ?_)
  show _ = (if arguments.has .min then _ else _ : Option ℕ).toList ++
    (if arguments.has .max then _ else _ : Option ℕ).toList
  rw [if_pos hmin, if_pos hmax, hmin, hmax]
  cases hleast : ((jmapToImap state jmapIds).map (number isUid)).min? with
  | none =>
      have hnil : (jmapToImap state jmapIds).map (number isUid) = [] :=
        List.min?_eq_none_iff.mp hleast
      have hresults : searchResults state jmapIds isUid true true = jmapToImap state jmapIds := by
        simp only [searchResults, hleast, if_true]
      rw [hresults, hnil]
      rfl
  | some least =>
      cases hgreatest : ((jmapToImap state jmapIds).map (number isUid)).max? with
      | none =>
          rw [List.max?_eq_none_iff.mp hgreatest] at hleast
          cases hleast
      | some greatest => exact searchResults_both hleast hgreatest

theorem mem_both (hall : arguments.wantsAll = true) (hboth : arguments.wantsBoth = true) (n : ℕ) :
    n ∈ (searchResponse arguments isUid state jmapIds total highestModseq).ids ↔
      (searchResponse arguments isUid state jmapIds total highestModseq).min = some n ∨
        (searchResponse arguments isUid state jmapIds total highestModseq).max = some n := by
  rw [(perm_minMax hall hboth).mem_iff, List.mem_append, Option.mem_toList, Option.mem_toList]

/-- Two numbers that differ are listed once each. -/
theorem nodup_both (hall : arguments.wantsAll = true) (hboth : arguments.wantsBoth = true)
    (hne : (searchResponse arguments isUid state jmapIds total highestModseq).min ≠
      (searchResponse arguments isUid state jmapIds total highestModseq).max) :
    (searchResponse arguments isUid state jmapIds total highestModseq).ids.Nodup := by
  refine (perm_minMax hall hboth).nodup_iff.mpr ?_
  cases hmin : (searchResponse arguments isUid state jmapIds total highestModseq).min with
  | none => exact Option.toList_nodup _
  | some least =>
      refine List.nodup_append.mpr ⟨Option.toList_nodup _, Option.toList_nodup _, ?_⟩
      intro a ha b hb
      rintro rfl
      rw [Option.mem_toList] at ha hb
      exact hne (hmin.trans (ha.trans hb.symm))

/-- **What is reported**, of any ids and total, at any view. -/
theorem reports_searchResponse : Reports arguments isUid state jmapIds total
    (searchResponse arguments isUid state jmapIds total highestModseq) := by
  have hmin : arguments.has .min = true → ∀ n,
      (searchResponse arguments isUid state jmapIds total highestModseq).min = some n ↔
        IsLeast (matchedNumbers isUid state jmapIds) n := by
    intro h n
    show (if arguments.has .min then _ else _ : Option ℕ) = some n ↔ _
    rw [if_pos h]
    exact min?_iff
  have hmax : arguments.has .max = true → ∀ n,
      (searchResponse arguments isUid state jmapIds total highestModseq).max = some n ↔
        IsGreatest (matchedNumbers isUid state jmapIds) n := by
    intro h n
    show (if arguments.has .max then _ else _ : Option ℕ) = some n ↔ _
    rw [if_pos h]
    exact max?_iff
  have hcount : arguments.has .count = true →
      (searchResponse arguments isUid state jmapIds total highestModseq).count =
        some (total % 2 ^ 32) := fun h ↦ if_pos h
  have hall : arguments.wantsAll = true → arguments.wantsBoth = false → ∀ n,
      n ∈ (searchResponse arguments isUid state jmapIds total highestModseq).ids ↔
        n ∈ matchedNumbers isUid state jmapIds := by
    intro hall hboth n
    rw [(perm_numbers hall hboth).mem_iff]
    exact mem_numbers_iff
  have hsome : ∀ {option : ResultOption} {value : Option ℕ} {n : ℕ},
      (if arguments.has option then value else none) = some n → arguments.has option = true := by
    intro option value n h
    by_contra hno
    rw [if_neg hno] at h
    cases h
  refine {
    min := hmin
    max := hmax
    count := hcount
    count_eq := ?_
    all := hall
    nodup := ?_
    increasing := ?_
    length := ?_
    both := mem_both
    both_nodup := nodup_both
    least := ?_
    greatest := ?_ }
  · intro h hids hstate hfound htotal hlt
    rw [hcount h, ncard_matchedNumbers (nodup_numbers hids hstate), length_numbers hfound,
      ← htotal, Nat.mod_eq_of_lt hlt]
  · intro hboth hids hstate
    cases hwants : arguments.wantsAll with
    | true => exact (perm_numbers hwants hboth).nodup_iff.mpr (nodup_numbers hids hstate)
    | false =>
        show (if arguments.wantsAll then _ else [] : List ℕ).Nodup
        rw [hwants]
        exact List.nodup_nil
  · intro hsort
    show (if arguments.wantsAll then _ else [] : List ℕ).Pairwise _
    split
    · rw [hsort]
      exact pairwise_sortNumbers _
    · exact List.Pairwise.nil
  · intro hwants hboth h hfound htotal hlt
    rw [hcount h, (perm_numbers hwants hboth).length_eq, length_numbers hfound, ← htotal,
      Nat.mod_eq_of_lt hlt]
  · intro hwants n hn
    have hleast := (hmin (hsome hn) n).mp hn
    cases hboth : arguments.wantsBoth with
    | false =>
        exact ⟨(hall hwants hboth n).mpr hleast.1,
          fun m hm ↦ hleast.2 ((hall hwants hboth m).mp hm)⟩
    | true =>
        refine ⟨(mem_both hwants hboth n).mpr (.inl hn), fun m hm ↦ ?_⟩
        rcases (mem_both hwants hboth m).mp hm with h | h
        · exact hleast.2 ((hmin (hsome h) m).mp h).1
        · exact hleast.2 ((hmax (hsome h) m).mp h).1
  · intro hwants n hn
    have hgreatest := (hmax (hsome hn) n).mp hn
    cases hboth : arguments.wantsBoth with
    | false =>
        exact ⟨(hall hwants hboth n).mpr hgreatest.1,
          fun m hm ↦ hgreatest.2 ((hall hwants hboth m).mp hm)⟩
    | true =>
        refine ⟨(mem_both hwants hboth n).mpr (.inr hn), fun m hm ↦ ?_⟩
        rcases (mem_both hwants hboth m).mp hm with h | h
        · exact hgreatest.2 ((hmin (hsome h) m).mp h).1
        · exact hgreatest.2 ((hmax (hsome h) m).mp h).1

end

/-- **Whatever the server finds, in whatever pages**: the response that `search` builds reports it,
at the view that the command leaves behind. -/
theorem search_reports {c : SearchContext} {arguments : SearchArguments}
    {changesEmail : String → Option Jmap.Changes} {pages : List (Option QueryPage)}
    {snapshot : Except SearchError MailboxData} {jmapIds : List String} {total : ℕ}
    {highestModseq : Option ℕ} {r : SearchResponse} {m : SelectedMailbox}
    (hfound : c.found arguments changesEmail pages = some (.ok (jmapIds, total, highestModseq)))
    (h : c.search arguments changesEmail pages snapshot = some (.ok (r, m))) :
    Reports arguments c.isUid m.state jmapIds total r := by
  rw [SearchContext.search, hfound] at h
  have hresult : (searchView c.mailbox.state jmapIds snapshot >>= fun state ↦
      (.ok (searchResponse arguments c.isUid state jmapIds total highestModseq, _) :
        Except SearchError (SearchResponse × SelectedMailbox))) = .ok (r, m) := Option.some.inj h
  cases hview : searchView c.mailbox.state jmapIds snapshot with
  | error e =>
      rw [hview] at hresult
      cases hresult
  | ok state =>
      rw [hview] at hresult
      cases hresult
      exact reports_searchResponse

/-! ## Three messages -/

/-- A search in a mailbox with three messages, on a command that saves nothing. -/
def threeMessages : SearchContext where
  db := ⟨fun _ ↦ none, fun _ ↦ none, fun _ ↦ none⟩
  mailbox := {
    id := ⟨"u1", some "A"⟩
    state := ⟨8, 1, ["M1", "M2", "M3"], [3, 5, 7], 3, ""⟩
    savedSearch := .none
    isSelect := true }
  order := id
  now := 0
  prevSavedSearch := none
  isUid := true

/-- `UID SEARCH RETURN (COUNT ALL) ALL`, with the ids on two pages. -/
theorem search_reports_three : Reports ⟨true, false, [.count, .all], .all⟩ true
    ⟨8, 1, ["M1", "M2", "M3"], [3, 5, 7], 3, ""⟩ ["M3", "M1", "M2"] 3
    ⟨true, true, false, [3, 5, 7], none, none, some 3, none⟩ :=
  have hfound : threeMessages.found ⟨true, false, [.count, .all], .all⟩ (fun _ ↦ none)
      [some ⟨["M3", "M1"], some 3⟩, some ⟨["M2"], some 3⟩] =
      some (.ok (["M3", "M1", "M2"], 3, none)) := rfl
  have hsearch : threeMessages.search ⟨true, false, [.count, .all], .all⟩ (fun _ ↦ none)
      [some ⟨["M3", "M1"], some 3⟩, some ⟨["M2"], some 3⟩] (.error .server) =
      some (.ok (⟨true, true, false, [3, 5, 7], none, none, some 3, none⟩,
        threeMessages.mailbox)) := rfl
  search_reports hfound hsearch

/-- `UID SEARCH RETURN (MIN MAX COUNT ALL) ALL` leaves the second message out of ALL; and COUNT
counts a message that the server finds and the view does not have. -/
theorem search_differs :
    threeMessages.search ⟨true, false, [.min, .max, .count, .all], .all⟩ (fun _ ↦ none)
        [some ⟨["M1", "M2", "M3"], some 3⟩] (.error .server) =
      some (.ok (⟨true, true, false, [3, 7], some 3, some 7, some 3, none⟩,
        threeMessages.mailbox)) ∧
    threeMessages.search ⟨true, false, [.count, .all], .all⟩ (fun _ ↦ none)
        [some ⟨["M1", "M2", "M4"], some 3⟩] (.ok threeMessages.mailbox.state) =
      some (.ok (⟨true, true, false, [3, 5], none, none, some 3, none⟩,
        threeMessages.mailbox)) :=
  ⟨rfl, rfl⟩

end ImapToJmap
