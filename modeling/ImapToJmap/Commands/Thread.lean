import ImapToJmap.Commands.SearchResults
import ImapToJmap.Commands.Session
import ImapToJmap.Data.Ascii
import ImapToJmap.Data.Group

/-!
# THREAD

`SessionData::thread`: the emails that the server finds come in pages, with their thread ids, and go
into a hash map from thread ids to emails.  What it has in the end are the threads, in whatever
order the map gives them, their emails turned into numbers of the view.

`Threading` is what an answer should be: a list for each thread id that is found, with the messages
of that thread.  `thread_answers` is that every search gets one if the mailbox does not change while
the pages are asked for, however few emails are on a page.  `readThreads_serialize` is which answers
a client can read.
-/

namespace ImapToJmap.Thread

open Ascii Search SelectedMailbox

/-! ## The command -/

/-- An email of an `Email/get`, its id and the id of its thread. -/
structure ThreadEmail where
  id : Option String
  threadId : Option String

/-- `MethodResponse`, as the loop tells them apart. -/
inductive MethodResponse where
  | getEmail (list : List ThreadEmail)
  | queryEmail (ids : List String) (total : Option ℕ)
  | error
  | other

/-- What the loop keeps from page to page; `threads` is the hash map. -/
structure Gathered where
  position : ℤ := 0
  jmapIds : List String := []
  threads : List (String × List String) := []

/-- An email goes into the map, unless it has no thread. -/
def gatherEmail (threads : List (String × List String)) (email : ThreadEmail) :
    List (String × List String) :=
  match email.threadId with
  | some threadId => Grouping.push threads (threadId, email.id.getD "")
  | none => threads

/-- The responses to one request: what is gathered then, the total and the number of results. -/
def readResponses (g : Gathered) (total resultsLen : ℕ) :
    List MethodResponse → Except SearchError (Gathered × ℕ × ℕ)
  | [] => .ok (g, total, resultsLen)
  | .getEmail list :: responses =>
      readResponses { g with threads := list.foldl gatherEmail g.threads } total resultsLen
        responses
  | .queryEmail ids total :: responses =>
      readResponses { g with jmapIds := g.jmapIds ++ ids } (total.getD 0) ids.length responses
  | .error :: _ => .error .server
  -- `Unexpected response` ends the loop over the responses
  | .other :: _ => .ok (g, total, resultsLen)

/-- What the server answers to the requests, by the position asked for; a request that fails is
`none`. -/
abbrev Server := ℤ → Option (List MethodResponse)

/-- The loop over the pages, with the server as it is at each request.  The result is `none` while a
response is waited for. -/
def gather (g : Gathered) : List Server → Option (Except SearchError Gathered)
  | [] => none
  | server :: servers =>
      match server g.position with
      | none => some (.error .server)
      | some responses =>
          match readResponses g 0 0 responses with
          | .error e => some (.error e)
          | .ok (g, total, resultsLen) =>
              if 0 < resultsLen ∧ g.jmapIds.length < total then
                gather { g with position := Int.bmod (g.position + resultsLen) (2 ^ 32) } servers
              else some (.ok g)

/-- The view that the numbers are taken from, and the EXISTS that is written. -/
def synchronizedView (state : MailboxData) (jmapIds : List String)
    (snapshot : Except SearchError MailboxData) : Except SearchError (MailboxData × Option ℕ) :=
  if Session.isInSync state jmapIds then .ok (state, none)
  else
    snapshot.map fun snapshot ↦
      let (state, newMessageCount, _) :=
        state.synchronizeUids snapshot.jmapIds snapshot.imapUids false
      (state, newMessageCount)

/-- The order in which a hash map gives its entries. -/
structure Iteration where
  order : List (String × List String) → List (String × List String)
  perm : ∀ entries, (order entries).Perm entries

/-- What the command leaves: the threads of the response, the view, and an EXISTS that is written
before the response. -/
structure Outcome where
  threads : List (List ℕ)
  state : MailboxData
  newMessageCount : Option ℕ

/-- The numbers of the threads. -/
def threadNumbers (isUid : Bool) (state : MailboxData) (threads : List (String × List String)) :
    List (List ℕ) :=
  threads.map fun entry ↦ (jmapToImap state entry.2).map (number isUid)

/-- `SessionData::thread`.  `servers` are asked with the query that the filter is turned into,
`snapshot` is what `synchronize_messages` returns, if it is called. -/
def thread (c : SearchContext) (values : Iteration) (filter : Filter)
    (changesEmail : String → Option Jmap.Changes) (servers : Jmap.Query → List Server)
    (snapshot : Except SearchError MailboxData) : Option (Except SearchError Outcome) :=
  match c.imapFilterToJmap filter changesEmail with
  | .error e => some (.error e)
  | .ok (query, _) => (gather {} (servers query)).map fun result ↦ do
      let g ← result
      let (state, newMessageCount) ← synchronizedView c.mailbox.state g.jmapIds snapshot
      .ok ⟨threadNumbers c.isUid state (values.order g.threads), state, newMessageCount⟩

/-! ## The response -/

/-- A thread, without the bracket that opens it. -/
def serializeIds : List ℕ → Bytes
  | [] => [parenClose]
  | n :: numbers =>
      decimal n ++ (if numbers = [] then [] else [space]) ++ serializeIds numbers

/-- `thread::Response::serialize` -/
def serialize (threads : List (List ℕ)) : Bytes :=
  asBytes "* THREAD " ++ threads.flatMap (fun thread ↦ parenOpen :: serializeIds thread) ++ [cr, lf]

example : fromUtf8 (serialize [[2, 10, 11], [49], [1, 3]]) =
    some "* THREAD (2 10 11)(49)(1 3)\r\n" := by
  decide

/-- The lists of a response, byte by byte: `thread` are the numbers of the list that is open, and
the number that is being read.  A response has a list, and a list has a number. -/
def readLists (threads : List (List ℕ)) (thread : Option (List ℕ × Option ℕ)) :
    Bytes → Option (List (List ℕ) × Bytes)
  | [] => none
  | ch :: bytes =>
      match thread with
      | none =>
          if ch = parenOpen then readLists threads (some ([], none)) bytes
          else if ch = cr ∧ bytes.head? = some lf ∧ threads ≠ [] then some (threads, bytes.tail)
          else none
      | some (numbers, n) =>
          if isAsciiDigit ch then
            readLists threads (some (numbers, some (n.getD 0 * 10 + (ch.toNat - 48)))) bytes
          else
            match n with
            | none => none
            | some n =>
                if ch = space then readLists threads (some (numbers ++ [n], none)) bytes
                else if ch = parenClose then readLists (threads ++ [numbers ++ [n]]) none bytes
                else none

/-- A client that reads a THREAD response, and the bytes after it. -/
def readThreads (bytes : Bytes) : Option (List (List ℕ) × Bytes) :=
  if asBytes "* THREAD " <+: bytes then readLists [] none (bytes.drop 9) else none

section

variable {threads : List (List ℕ)} {numbers : List ℕ} {bytes : Bytes}

theorem readLists_digits (digits : Bytes) (hdigits : ∀ ch ∈ digits, isAsciiDigit ch = true)
    (acc : ℕ) : readLists threads (some (numbers, some acc)) (digits ++ bytes) =
      readLists threads
        (some (numbers, some (digits.foldl (fun acc d ↦ acc * 10 + (d.toNat - 48)) acc)))
        bytes := by
  induction digits generalizing acc with
  | nil => rfl
  | cons ch digits ih =>
      obtain ⟨hch, hdigits⟩ := List.forall_mem_cons.mp hdigits
      rw [List.cons_append, readLists]
      simp only [hch, if_true]
      exact ih hdigits _

theorem readLists_decimal (n : ℕ) : readLists threads (some (numbers, none)) (decimal n ++ bytes) =
    readLists threads (some (numbers, some n)) bytes := by
  have hdigits : ∀ ch ∈ decimal n, isAsciiDigit ch = true := fun ch ↦ isAsciiDigit_of_mem_decimal
  have hvalue := ofDecimal_decimal n
  cases hn : decimal n with
  | nil => exact absurd hn (decimal_ne_nil n)
  | cons ch digits =>
      rw [hn] at hdigits hvalue
      obtain ⟨hch, hdigits⟩ := List.forall_mem_cons.mp hdigits
      rw [List.cons_append, readLists]
      simp only [hch, if_true]
      rw [readLists_digits digits hdigits]
      exact congrArg (fun n ↦ readLists threads (some (numbers, some n)) bytes) hvalue

theorem readLists_ids {thread : List ℕ} (hne : thread ≠ []) :
    readLists threads (some (numbers, none)) (serializeIds thread ++ bytes) =
      readLists (threads ++ [numbers ++ thread]) none bytes := by
  induction thread generalizing numbers with
  | nil => exact absurd rfl hne
  | cons n thread ih =>
      rw [serializeIds, List.append_assoc, List.append_assoc, readLists_decimal]
      cases thread with
      | nil => rfl
      | cons n' thread =>
          have hnext : readLists threads (some (numbers, some n))
              (space :: (serializeIds (n' :: thread) ++ bytes)) =
                readLists threads (some (numbers ++ [n], none))
                  (serializeIds (n' :: thread) ++ bytes) := rfl
          rw [if_neg (List.cons_ne_nil _ _), List.singleton_append, hnext,
            ih (List.cons_ne_nil _ _), List.append_assoc]
          rfl

/-- Reading goes on to the first list without a number. -/
theorem readLists_serialize (acc : List (List ℕ)) : readLists acc none
    (threads.flatMap (fun thread ↦ parenOpen :: serializeIds thread) ++ cr :: lf :: bytes) =
      if acc ++ threads ≠ [] ∧ ∀ thread ∈ threads, thread ≠ [] then some (acc ++ threads, bytes)
      else none := by
  induction threads generalizing acc with
  | nil =>
      rw [List.append_nil]
      by_cases hacc : acc = []
      · rw [hacc]
        rfl
      · rw [if_pos ⟨hacc, by simp⟩]
        rw [List.flatMap_nil, List.nil_append, readLists]
        rw [if_neg (by decide), if_pos ⟨rfl, rfl, hacc⟩, List.tail_cons]
  | cons thread threads ih =>
      rw [List.flatMap_cons, List.append_assoc, List.cons_append]
      show readLists acc (some ([], none)) _ = _
      cases thread with
      | nil =>
          rw [if_neg fun h ↦ h.2 [] List.mem_cons_self rfl]
          rfl
      | cons n thread =>
          rw [readLists_ids (List.cons_ne_nil _ _), ih, List.append_assoc]
          refine if_congr ?_ rfl rfl
          simp

end

/-- **A client reads the response** just when there is a thread and every thread has a message. -/
theorem readThreads_serialize (threads : List (List ℕ)) (bytes : Bytes) :
    readThreads (serialize threads ++ bytes) =
      if threads ≠ [] ∧ ∀ thread ∈ threads, thread ≠ [] then some (threads, bytes) else none := by
  have hdrop : (serialize threads ++ bytes).drop 9 =
      threads.flatMap (fun thread ↦ parenOpen :: serializeIds thread) ++ cr :: lf :: bytes := by
    rw [serialize, List.append_assoc, List.append_assoc]
    exact List.drop_left' (by decide)
  have hprefix : asBytes "* THREAD " <+: serialize threads ++ bytes := by
    rw [serialize, List.append_assoc, List.append_assoc]
    exact List.prefix_append _ _
  rw [readThreads, if_pos hprefix, hdrop, readLists_serialize, List.nil_append]

/-! ## A mailbox that does not change

The results of the query are pairs of a thread id and an email id. -/

/-- The responses for a page of results, the emails in an order of their own. -/
def pageResponses (total : ℕ) (page emails : List (String × String)) : List MethodResponse :=
  [.queryEmail (page.map Prod.snd) (some total),
    .getEmail (emails.map fun x ↦ ⟨some x.2, some x.1⟩)]

/-- From any position the server gives the next results, one at least. -/
def Answers (results : List (String × String)) (server : Server) : Prop :=
  ∀ position : ℕ, position ≤ results.length → ∃ (count : ℕ) (emails : List (String × String)),
    0 < count ∧ emails.Perm ((results.drop position).take count) ∧
    server position =
      some (pageResponses results.length ((results.drop position).take count) emails)

/-- A server with so many results on a page, and the emails in their order. -/
def Server.ofResults (results : List (String × String)) (count : ℕ) : Server := fun position ↦
  let page := (results.drop position.toNat).take count
  some (pageResponses results.length page page)

theorem answers_ofResults (results : List (String × String)) {count : ℕ} (h : 0 < count) :
    Answers results (Server.ofResults results count) :=
  fun _ _ ↦ ⟨count, _, h, .refl _, rfl⟩

/-- The lists are the threads: one for each thread id that is found, with the messages of the view
that are in it, and no message is in two of them or twice in one. -/
structure Threading (isUid : Bool) (state : MailboxData) (results : List (String × String))
    (threads : List (List ℕ)) : Prop where
  exists_threadIds : ∃ threadIds : List String, threadIds.Nodup ∧
    (∀ threadId, threadId ∈ threadIds ↔ threadId ∈ results.map Prod.fst) ∧
    List.Forall₂ (fun threadId thread ↦ ∀ n, n ∈ thread ↔
      n ∈ matchedNumbers isUid state (Grouping.fiber results threadId)) threadIds threads
  nodup : threads.flatten.Nodup

section

variable {results : List (String × String)}

/-- What has been gathered when the loop comes to a position. -/
structure Gathered.UpTo (g : Gathered) (results : List (String × String)) (position : ℕ) :
    Prop where
  jmapIds : g.jmapIds = (results.take position).map Prod.snd
  threads : ∃ received : List (String × String), received.Perm (results.take position) ∧
    Grouping.IsGrouping g.threads received

/-- One page. -/
theorem Gathered.UpTo.page {g : Gathered} {position count : ℕ} {emails : List (String × String)}
    (hg : g.UpTo results position)
    (hemails : emails.Perm ((results.drop position).take count)) :
    ∃ g' : Gathered, readResponses g 0 0
        (pageResponses results.length ((results.drop position).take count) emails) =
      .ok (g', results.length, ((results.drop position).take count).length) ∧
      g'.position = g.position ∧
      g'.UpTo results (position + ((results.drop position).take count).length) := by
  set page := (results.drop position).take count with hpage
  have htake : results.take (position + page.length) = results.take position ++ page := by
    rw [List.take_add, hpage, List.length_take, ← List.take_take, List.take_length]
  have hfold : (emails.map fun x ↦ (⟨some x.2, some x.1⟩ : ThreadEmail)).foldl gatherEmail
      g.threads = emails.foldl Grouping.push g.threads := by
    rw [List.foldl_map]
    rfl
  obtain ⟨received, hreceived, hgrouping⟩ := hg.threads
  refine ⟨{ g with
    jmapIds := g.jmapIds ++ page.map Prod.snd
    threads := emails.foldl Grouping.push g.threads }, ?_, rfl, ?_, ?_⟩
  · have hlength : (page.map Prod.snd).length = page.length := List.length_map _
    rw [← hfold, ← hlength]
    rfl
  · rw [htake, List.map_append, ← hg.jmapIds]
  · rw [htake]
    exact ⟨received ++ emails, hreceived.append hemails, hgrouping.foldl_push emails⟩

/-- **The loop gathers all of the results.**  By induction on the requests, of which each but the
last brings a result. -/
theorem gather_answers {servers : List Server}
    (hservers : ∀ server ∈ servers, Answers results server)
    (hsmall : results.length < 2 ^ 31) {g : Gathered} {position : ℕ}
    (hle : position ≤ results.length) (hposition : g.position = position)
    (hg : g.UpTo results position) (henough : results.length - position < servers.length) :
    ∃ g', gather g servers = some (.ok g') ∧ g'.UpTo results results.length := by
  induction servers generalizing g position with
  | nil => exact absurd henough (Nat.not_lt_zero _)
  | cons server servers ih =>
      obtain ⟨hserver, hservers⟩ := List.forall_mem_cons.mp hservers
      obtain ⟨count, emails, hcount, hemails, hanswer⟩ := hserver position hle
      obtain ⟨g', hread, hposition', hg'⟩ := hg.page hemails
      rw [gather, hposition, hanswer]
      dsimp only
      rw [hread]
      dsimp only
      set page := (results.drop position).take count with hpage
      have hlength : page.length = min count (results.length - position) := by
        rw [hpage, List.length_take, List.length_drop]
      have hjmapIds : g'.jmapIds.length = position + page.length := by
        rw [hg'.jmapIds, List.length_map, List.length_take]
        omega
      split
      · next hmore =>
          rw [hjmapIds] at hmore
          rw [List.length_cons] at henough
          have hnext : Int.bmod (g'.position + page.length) (2 ^ 32) =
              ((position + page.length : ℕ) : ℤ) := by
            rw [hposition', hposition, ← Nat.cast_add]
            exact Int.bmod_eq_of_le (by omega) (by omega)
          exact ih hservers (g := { g' with position := _ }) (by omega) hnext
            ⟨hg'.jmapIds, hg'.threads⟩ (by omega)
      · next hdone =>
          rw [hjmapIds] at hdone
          have hall : position + page.length = results.length := by omega
          exact ⟨g', rfl, hall ▸ hg'⟩

variable {isUid : Bool} {state : MailboxData} {entries : List (String × List String)}

/-- The threads of a map that groups the results. -/
theorem threading_threadNumbers (hids : (results.map Prod.snd).Nodup) (hstate : state.Aligned)
    {received : List (String × String)} (hreceived : received.Perm results)
    (hentries : Grouping.IsGrouping entries received) :
    Threading isUid state results (threadNumbers isUid state entries) := by
  refine ⟨⟨entries.map Prod.fst, hentries.nodup, fun threadId ↦ ?_, ?_⟩, ?_⟩
  · rw [hentries.keys, (hreceived.map Prod.fst).mem_iff]
  · rw [threadNumbers, List.forall₂_map_left_iff, List.forall₂_map_right_iff, List.forall₂_same]
    intro entry hentry n
    have hfiber : entry.2.Perm (Grouping.fiber results entry.1) := by
      rw [hentries.group entry hentry]
      exact (hreceived.filter _).map _
    rw [mem_numbers_iff]
    show (∃ a, _) ↔ ∃ a, _
    refine exists_congr fun a ↦ and_congr_left fun _ ↦ exists_congr fun jmapId ↦ ?_
    rw [hfiber.mem_iff]
  · have hflatten : (threadNumbers isUid state entries).flatten =
        (jmapToImap state (entries.flatMap Prod.snd)).map (number isUid) := by
      rw [threadNumbers, ← List.flatMap_def, jmapToImap, List.filterMap_flatMap, List.map_flatMap]
      rfl
    rw [hflatten]
    refine nodup_numbers (hentries.perm.nodup_iff.mpr ?_) hstate
    exact (hreceived.map Prod.snd).nodup_iff.mpr hids

theorem mem_fiber {threadId jmapId : String} :
    jmapId ∈ Grouping.fiber results threadId ↔ (threadId, jmapId) ∈ results := by
  rw [Grouping.fiber, List.mem_map]
  constructor
  · rintro ⟨x, hx, rfl⟩
    obtain ⟨hmem, hkey⟩ := List.mem_filter.mp hx
    rw [← of_decide_eq_true hkey]
    exact hmem
  · intro h
    exact ⟨_, List.mem_filter.mpr ⟨h, decide_eq_true rfl⟩, rfl⟩

/-- Which answers a client can read: there is a result, and of every thread a message is in the
view. -/
theorem Threading.readable_iff {threads : List (List ℕ)}
    (h : Threading isUid state results threads) :
    (threads ≠ [] ∧ ∀ thread ∈ threads, thread ≠ []) ↔
      results ≠ [] ∧ ∀ x ∈ results, ∃ y ∈ results, y.1 = x.1 ∧ ∃ a, Denotes state y.2 a := by
  obtain ⟨threadIds, -, hkeys, hthreads⟩ := h.exists_threadIds
  have hnil : threads ≠ [] ↔ results ≠ [] := by
    refine not_congr ?_
    rw [← List.length_eq_zero_iff, ← hthreads.length_eq, List.length_eq_zero_iff,
      List.eq_nil_iff_forall_not_mem, ← List.map_eq_nil_iff (f := Prod.fst),
      List.eq_nil_iff_forall_not_mem]
    exact forall_congr' fun threadId ↦ not_congr (hkeys threadId)
  have hthread : ∀ {threadId : String} {thread : List ℕ},
      (∀ n, n ∈ thread ↔ n ∈ matchedNumbers isUid state (Grouping.fiber results threadId)) →
        (thread ≠ [] ↔ ∃ y ∈ results, y.1 = threadId ∧ ∃ a, Denotes state y.2 a) := by
    intro threadId thread hmem
    constructor
    · intro hne
      obtain ⟨n, hn⟩ := List.exists_mem_of_ne_nil thread hne
      obtain ⟨a, ⟨jmapId, hjmapId, ha⟩, -⟩ := (hmem n).mp hn
      exact ⟨_, mem_fiber.mp hjmapId, rfl, a, ha⟩
    · rintro ⟨y, hy, rfl, a, ha⟩
      exact List.ne_nil_of_mem ((hmem _).mpr ⟨a, ⟨_, mem_fiber.mpr hy, ha⟩, rfl⟩)
  have hall : (∀ thread ∈ threads, thread ≠ []) ↔
      ∀ threadId ∈ threadIds, ∃ y ∈ results, y.1 = threadId ∧ ∃ a, Denotes state y.2 a := by
    clear hkeys hnil h
    induction hthreads with
    | nil => simp
    | cons hmem _ ih => rw [List.forall_mem_cons, List.forall_mem_cons, hthread hmem, ih]
  rw [hnil, hall]
  refine and_congr_right fun _ ↦ ?_
  simp only [hkeys, List.forall_mem_map]

theorem exists_denotes (hstate : state.Aligned) {jmapId : String} (h : jmapId ∈ state.jmapIds) :
    ∃ a, Denotes state jmapId a := by
  obtain ⟨pos, hpos⟩ := Option.isSome_iff_exists.mp (List.isSome_idxOf?.mpr h)
  have hlt : pos < state.imapUids.length :=
    hstate.length_eq ▸ (List.findIdx?_eq_some_iff_getElem.mp hpos).1
  refine ⟨⟨state.imapUids[pos], pos + 1⟩, toImap_eq_some_iff.mp ?_⟩
  rw [toImap, hpos, Option.bind_some, List.getElem?_eq_getElem hlt]
  rfl

/-- An email that is in the view, or that the snapshot has under a new UID. -/
def Known (view snapshot : MailboxData) (jmapId : String) : Prop :=
  jmapId ∈ view.jmapIds ∨ ∃ uid, (jmapId, uid) ∈ snapshot.pairs ∧ uid ∉ view.imapUids

/-- The view that the numbers are taken from. -/
theorem exists_synchronizedView {view snapshot : MailboxData} (hview : view.Aligned)
    (hsnapshot : snapshot.Aligned) (jmapIds : List String) :
    ∃ state newMessageCount,
      synchronizedView view jmapIds (.ok snapshot) = .ok (state, newMessageCount) ∧
      state.Aligned ∧ ∀ jmapId ∈ jmapIds, Known view snapshot jmapId → jmapId ∈ state.jmapIds := by
  rw [synchronizedView]
  split
  · next hsync =>
      refine ⟨view, none, rfl, hview, fun jmapId hmem _ ↦ ?_⟩
      exact of_decide_eq_true (List.all_eq_true.mp hsync jmapId hmem)
  · refine ⟨_, _, rfl, hview.synchronizeUids hsnapshot.length_eq hsnapshot.nodup false,
      fun jmapId _ hknown ↦ ?_⟩
    have hjmapIds : (view.synchronizeUids snapshot.jmapIds snapshot.imapUids false).1.jmapIds =
        view.jmapIds ++ (view.missing snapshot.pairs).map Prod.fst := by
      have hnodup : (snapshot.pairs.map Prod.snd).Nodup := hsnapshot.map_snd_pairs ▸ hsnapshot.nodup
      exact congrArg (fun x ↦ x.1.jmapIds) (MailboxData.insertMissing_eq hnodup view false)
    refine hjmapIds ▸ List.mem_append.mpr ?_
    rcases hknown with hview | ⟨uid, hpair, hnew⟩
    · exact .inl hview
    · exact .inr (List.mem_map.mpr ⟨_, List.mem_filter.mpr ⟨hpair, decide_eq_true hnew⟩, rfl⟩)

end

/-- **Every search for threads is answered** while the mailbox does not change: the lists are the
threads of the results, however the pages are cut and in whatever order the emails and the threads
come.  A result that is in the view, or that the snapshot has under a new UID, is in the answer, and
a client can read the response just if there is a result and of every thread a message is in the
view. -/
theorem thread_answers {c : SearchContext} {filter : Filter}
    {changesEmail : String → Option Jmap.Changes} {servers : Jmap.Query → List Server}
    {snapshot : MailboxData} {query : Jmap.Query} {highestModseq : Option ℕ}
    {results : List (String × String)} (values : Iteration)
    (hfilter : c.imapFilterToJmap filter changesEmail = .ok (query, highestModseq))
    (hservers : ∀ server ∈ servers query, Answers results server)
    (henough : results.length < (servers query).length) (hsmall : results.length < 2 ^ 31)
    (hids : (results.map Prod.snd).Nodup) (hview : c.mailbox.state.Aligned)
    (hsnapshot : snapshot.Aligned) :
    ∃ outcome, thread c values filter changesEmail servers (.ok snapshot) = some (.ok outcome) ∧
      Threading c.isUid outcome.state results outcome.threads ∧
      (∀ x ∈ results, Known c.mailbox.state snapshot x.2 → ∃ a, Denotes outcome.state x.2 a) ∧
      ∀ bytes, readThreads (serialize outcome.threads ++ bytes) = some (outcome.threads, bytes) ↔
        results ≠ [] ∧ ∀ x ∈ results, ∃ y ∈ results, y.1 = x.1 ∧
          ∃ a, Denotes outcome.state y.2 a := by
  obtain ⟨g, hgather, hjmapIds, received, hreceived, hgrouping⟩ :=
    gather_answers hservers hsmall (g := {}) (Nat.zero_le _) rfl
      ⟨by simp, [], by simp, .nil⟩ (by omega)
  rw [List.take_length] at hjmapIds hreceived
  obtain ⟨state, newMessageCount, hsynchronized, hstate, hknown⟩ :=
    exists_synchronizedView hview hsnapshot g.jmapIds
  have hthreading : Threading c.isUid state results
      (threadNumbers c.isUid state (values.order g.threads)) :=
    threading_threadNumbers hids hstate hreceived (hgrouping.of_perm (values.perm _))
  refine ⟨⟨threadNumbers c.isUid state (values.order g.threads), state, newMessageCount⟩, ?_,
    hthreading, fun x hx h ↦ ?_, fun bytes ↦ ?_⟩
  · rw [thread, hfilter]
    dsimp only
    rw [hgather]
    show some (synchronizedView c.mailbox.state g.jmapIds (.ok snapshot) >>= _) = _
    rw [hsynchronized]
    rfl
  · refine exists_denotes hstate (hknown x.2 ?_ h)
    rw [hjmapIds]
    exact List.mem_map_of_mem hx
  · rw [readThreads_serialize, ← hthreading.readable_iff]
    dsimp only
    split
    · next h => simpa using h
    · next h => simpa using h

/-- Two threads, of which one comes on two pages and has a message that is new to the view. -/
theorem thread_answers_three : ∃ outcome,
    thread threeMessages ⟨id, fun _ ↦ .refl _⟩ .all (fun _ ↦ none)
        (fun _ ↦ List.replicate 4 (Server.ofResults [("T1", "M4"), ("T2", "M1"), ("T1", "M2")] 2))
        (.ok ⟨10, 1, ["M1", "M2", "M3", "M4"], [3, 5, 7, 9], 4, ""⟩) = some (.ok outcome) ∧
      Threading true outcome.state [("T1", "M4"), ("T2", "M1"), ("T1", "M2")] outcome.threads ∧
      readThreads (serialize outcome.threads) = some (outcome.threads, []) := by
  obtain ⟨outcome, hthread, hthreading, hknown, hread⟩ :=
    @thread_answers threeMessages .all (fun _ ↦ none)
      (fun _ ↦ List.replicate 4 (Server.ofResults [("T1", "M4"), ("T2", "M1"), ("T1", "M2")] 2))
      ⟨10, 1, ["M1", "M2", "M3", "M4"], [3, 5, 7, 9], 4, ""⟩ _ _
      [("T1", "M4"), ("T2", "M1"), ("T1", "M2")] ⟨id, fun _ ↦ .refl _⟩ rfl
      (fun server h ↦ List.eq_of_mem_replicate h ▸ answers_ofResults _ (by decide)) (by decide)
      (by decide) (by decide) ⟨rfl, by decide⟩ ⟨rfl, by decide⟩
  have hmem : ∀ x ∈ [("T1", "M4"), ("T2", "M1"), ("T1", "M2")],
      Known threeMessages.mailbox.state ⟨10, 1, ["M1", "M2", "M3", "M4"], [3, 5, 7, 9], 4, ""⟩
        x.2 := by
    simp [Known, threeMessages, MailboxData.pairs]
  have hall := (hread []).mpr
    ⟨List.cons_ne_nil _ _, fun x hx ↦ ⟨x, hx, rfl, hknown x hx (hmem x hx)⟩⟩
  rw [List.append_nil] at hall
  exact ⟨outcome, hthread, hthreading, hall⟩

end ImapToJmap.Thread
