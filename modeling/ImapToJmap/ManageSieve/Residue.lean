import ImapToJmap.Imap.Residue
import ImapToJmap.ManageSieve.Upgrade

/-!
# STARTTLS, on both protocols

What is left of the cleartext part of a ManageSieve connection is told by a NOOP.  With the analysis
for IMAP it follows when what is executed over TLS is determined by what comes in over TLS, on both
protocols.
-/

namespace ImapToJmap.ManageSieve

open Run

/-- No event of a handler is the call of another one. -/
theorem executed_of_effect {base64 : String → Option Bytes} {s : Session}
    {request : Request Command} {answer : Answer} {handled : Handled}
    (h : Effect base64 s request answer handled) : handled.events.flatMap Event.executed = [] := by
  cases h <;> rfl

/-- The calls are for the requests that have been collected. -/
theorem executed_calls {o : Outside} {c : Connection} {requests : List (Request Command)}
    {request : Request Command}
    (h : request ∈ (emit (Connection.call o) c requests).2.flatMap Event.executed) :
    request ∈ requests := by
  induction requests generalizing c with
  | nil => exact h
  | cons first requests ih =>
      rw [emit_cons, List.flatMap_append, List.mem_append] at h
      rcases h with h | h
      · unfold Connection.call at h
        split at h
        · have hevents :
              (c.session.dispatch o.base64 first (o.answer c.handled first)).events.flatMap
                Event.executed = [] := executed_of_effect Session.dispatch_effect
          simp only [List.flatMap_cons, Event.executed, hevents, List.append_nil,
            List.mem_singleton] at h
          exact h ▸ List.mem_cons_self
        · simp at h
      · exact List.mem_cons_of_mem _ (ih h)

/-- What is executed of a single read has been collected from it. -/
theorem mem_executed {o : Outside} {s : Session} {bytes : Bytes} {request : Request Command}
    (h : request ∈ executed o s [bytes]) :
    request ∈ (s.receiver.collect (isAllowed s.state s.isTls) bytes).requests := by
  simp only [executed, emit_cons, emit_nil, List.append_nil, Connection.receive, if_true,
    Connection.ingest, List.flatMap_append, List.mem_append] at h
  rcases h with (h | h) | h
  · obtain ⟨e, he, hrequest⟩ := List.mem_flatMap.mp h
    obtain ⟨refusal, -, rfl⟩ := List.mem_map.mp he
    cases refusal <;> simp [Event.ofRefusal, Event.executed] at hrequest
  · exact executed_calls h
  · unfold Connection.goAhead at h
    split at h
    · split at h <;> simp [Event.executed] at h
    · simp at h

/-- NOOP. -/
abbrev noopLine : Bytes := [78, 79, 79, 80] ++ [Ascii.cr, Ascii.lf]

/-- The request of a NOOP. -/
def noopRequest : Request Command := ⟨"", .noop, []⟩

theorem noop_mem_executed_new (o : Outside) (maxRequestSize : ℕ) (isTls : Bool) :
    noopRequest ∈ executed o (.new maxRequestSize isTls) [noopLine] := by
  have hexecuted : executed o (.new maxRequestSize isTls) [noopLine] = [noopRequest] := rfl
  rw [hexecuted]
  exact List.mem_singleton_self _

/-- No other command has a name that ends in NOOP. -/
theorem parse_append_noop {word : Bytes} (hword : word ≠ []) (isUid : Bool) :
    Command.parse (word ++ [78, 79, 79, 80]) isUid = none := by
  have hsuffix : ∀ e ∈ Command.names, [78, 79, 79, 80].isSuffixOf (asBytes e.1) = true →
      asBytes e.1 = [78, 79, 79, 80] := by decide
  refine Option.map_eq_none_iff.mpr (List.find?_eq_none.mpr fun e he heq ↦ hword ?_)
  have heq : asBytes e.1 = word ++ [78, 79, 79, 80] := of_decide_eq_true heq
  have hnoop := hsuffix e he (List.isSuffixOf_iff_suffix.mpr ⟨word, heq.symm⟩)
  rw [hnoop] at heq
  simpa using heq.symm

theorem not_uid_append_noop (word : Bytes) :
    eqIgnoreAsciiCase (word ++ [78, 79, 79, 80]) (asBytes "UID") = false := by
  rw [eqIgnoreAsciiCase, beq_eq_false_iff_ne]
  intro h
  have hlength := congrArg List.length h
  have huid : ((asBytes "UID").map toAsciiUppercase).length = 3 := by decide
  rw [huid, List.length_map, List.length_append] at hlength
  simp at hlength

section Noop

variable {r : Receiver Command} {state : State} {isTls : Bool}

/-- What a receiver has of an argument goes into the request. -/
theorem noop_not_mem_of_marked (h : r.Marked) {line : Bytes} (hline : Ascii.lf ∉ line) :
    noopRequest ∉ (r.collect (isAllowed state isTls) (line ++ [Ascii.lf])).requests := by
  intro hmem
  obtain ⟨request, hallowed, htokens⟩ := h.collect_line hline _ hmem
  obtain ⟨rfl, -⟩ := isAllowed_eq hallowed
  exact htokens rfl

/-- Behind what a receiver has of a command name, NOOP ends a name that no command has. -/
theorem noop_not_mem_of_command {isUid : Bool} (hr : r.state = .command isUid) (hbuf : r.buf ≠ []) :
    noopRequest ∉ (r.collect (isAllowed state isTls) noopLine).requests := by
  have hword : ∀ ch ∈ ([78, 79, 79, 80] : Bytes), isAsciiAlphanumeric ch = true := by
    decide +kernel
  have hupper : ([78, 79, 79, 80] : Bytes).map toAsciiUppercase = [78, 79, 79, 80] := by decide
  have hread : r.collect (isAllowed state isTls) noopLine = _ ∨ _ :=
    Receiver.collect_word hr hword _
  rw [hupper] at hread
  rcases hread with heq | hnil
  · have hname : ({ r with buf := r.buf ++ [78, 79, 79, 80] } : Receiver Command).state =
        .command isUid := hr
    rw [heq, Receiver.collect_unknown hname (by decide) (by decide) (by simp)
      (not_uid_append_noop r.buf) (parse_append_noop hbuf isUid)]
    exact List.not_mem_nil
  · rw [hnil]
    exact List.not_mem_nil

/-- **The request of a NOOP** comes from a receiver that has nothing but a word UID. -/
theorem untouched_of_noop (h : r.Sound) {maxRequestSize : ℕ}
    (hreset : r.reset = (Session.new maxRequestSize true).receiver)
    (hnoop : noopRequest ∈ (r.collect (isAllowed state isTls) noopLine).requests) :
    ∃ isUid, r = { (Session.new maxRequestSize true).receiver with state := .command isUid } := by
  have hstart : r.startState = .command false := congrArg Receiver.startState hreset
  cases hr : r.state with
  | start => simp [(h.start hr).1] at hstart
  | tag => simp [(h.tag hr).1] at hstart
  | command isUid =>
      by_cases hbuf : r.buf = []
      · refine ⟨isUid, ?_⟩
        rcases h.command isUid hr with hstart' | hrest
        · simp [hstart'] at hstart
        · rw [hrest, hr, hbuf, ← hreset]
          rfl
      · exact absurd hnoop (noop_not_mem_of_command hr hbuf)
  | argument lastCh =>
      have hn : r.step 78 = .ok { r with buf := r.buf ++ [78], state := .argument 78 } := by
        simp [Receiver.step, hr, Receiver.stepArgument, isAsciiWhitespace]
      rw [noopLine, List.cons_append, Receiver.collect_of_ok hn] at hnoop
      have hline : Ascii.lf ∉ ([79, 79, 80, 13] : Bytes) := by decide
      exact absurd hnoop (noop_not_mem_of_marked (by simp [Receiver.Marked]) hline)
  | argumentQuoted | literal | literalSeek | literalData =>
      have hline : Ascii.lf ∉ ([78, 79, 79, 80, 13] : Bytes) := by decide
      exact absurd hnoop (noop_not_mem_of_marked (by simp [Receiver.Marked, hr]) hline)

end Noop

/-- **STARTTLS.**  What is executed over TLS is what a new connection executes, whatever is sent and
whatever the outside answers, if and only if the receiver has no request under way. -/
theorem executed_upgrade_iff {o : Outside} {maxRequestSize : ℕ} {reads : List Bytes} {last : Bytes}
    {s : Session} (h : Connection.upgrade o maxRequestSize reads last = some s) :
    (∀ (o' : Outside) (reads' : List Bytes),
        executed o' s reads' = executed o' (.new maxRequestSize true) reads') ↔
      Untouched maxRequestSize s := by
  obtain ⟨htls, hstate, hsound, hreset⟩ := Connection.plain_upgrade h
  constructor
  · intro hsame
    have hnoop := noop_mem_executed_new o maxRequestSize true
    rw [← hsame] at hnoop
    exact untouched_of_noop hsound hreset (mem_executed hnoop)
  · rintro ⟨isUid, hreceiver⟩ o' reads'
    have hlike : (Session.new maxRequestSize true).Like s :=
      ⟨hreceiver ▸ .uid isUid rfl, hstate.symm, htls.symm⟩
    exact (hlike.executed o' reads').symm

end ImapToJmap.ManageSieve

namespace ImapToJmap

end ImapToJmap
