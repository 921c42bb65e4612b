import ImapToJmap.Imap.Stream

/-!
# Tidy reads

A read that is `Tidy` has the outcomes that its bytes have in the stream (`Tidy.taken`).  The calls
of a read may be grouped, but what is handled in groups leaves the session alone (`emit_calls`); and
they come after all of the read has gone through the receiver, but no handler looks at the receiver
(`call_withReceiver`).
-/

namespace ImapToJmap.Imap

open Run

/-! ## Groups -/

/-- No event of a handler is an outcome. -/
theorem outcomes_of_effect {base64 : String → Option Bytes} {s : Session} {call : Call}
    {answer : Answer} {handled : Handled} (h : Effect base64 s call answer handled) :
    outcomes handled.events = [] := by
  cases h with
  | closed => split <;> rfl
  | _ => rfl

namespace Connection

variable {o : Outside} {c : Connection}

/-- The outcomes of a call. -/
theorem outcomes_call (h : c.flow = .next) (call : Call) :
    outcomes (c.call o call).2 =
      call.requests.map (.executed · c.session.state c.session.isTls) := by
  have hevents : outcomes (c.session.dispatch o.base64 call (c.answer o call)).events = [] :=
    outcomes_of_effect Session.dispatch_effect
  rw [Connection.call, if_pos h]
  show Event.outcomes (.call call c.session.state c.session.isTls) ++ outcomes _ = _
  rw [hevents, List.append_nil]
  rfl

/-- CREATE and DELETE leave the session alone. -/
theorem call_group (h : c.flow = .next) {call : Call}
    (hc : call.command = .create ∨ call.command = .delete)
    (hdata : c.session.state.sessionData.isSome = true) :
    (c.call o call).1 = { c with handled := call.requests.reverse ++ c.handled } := by
  obtain ⟨data, hdata⟩ := Option.isSome_iff_exists.mp hdata
  have hstay (answer : Answer) : (c.session.onSessionData call answer).session = c.session ∧
      (c.session.onSessionData call answer).tasks = [] ∧
      (c.session.onSessionData call answer).flow = .next := by
    unfold Session.onSessionData
    split
    · rw [hdata]
      exact ⟨rfl, rfl, rfl⟩
    · exact ⟨rfl, rfl, rfl⟩
  have hdispatch : c.session.dispatch o.base64 call (c.answer o call) =
      c.session.onSessionData call (c.answer o call) := by
    unfold Session.dispatch
    rcases hc with hc | hc
    · rw [hc]
      rfl
    · rw [hc]
      rfl
  obtain ⟨hsession, htasks, hflow⟩ := hstay (c.answer o call)
  rw [Connection.call, if_pos h]
  simp only [Session.handle, hdispatch, hsession, htasks, hflow, List.append_nil, ← h]

/-- A call of its own for every request. -/
def single (request : Request Command) : Call := ⟨request, []⟩

/-- Every request is admitted in its turn. -/
def InTurn (c : Connection) (request : Request Command) : Prop :=
  c.flow = .next → isAllowed c.session.state c.session.isTls request = .ok request

/-- A request joins the group behind it. -/
theorem join_call {request : Request Command} (h : c.InTurn request) {call : Call}
    (hc : request.command = .create ∨ request.command = .delete)
    (hsame : call.command = request.command) :
    (c.call o ⟨request, call.request :: call.more⟩).1 =
        ((c.call o (single request)).1.call o call).1 ∧
      outcomes (c.call o ⟨request, call.request :: call.more⟩).2 =
        outcomes (c.call o (single request)).2 ++
          outcomes ((c.call o (single request)).1.call o call).2 := by
  by_cases hflow : c.flow = .next
  · have hneeds : needs request.command = .data := by
      rcases hc with hc | hc
      · rw [hc]
        rfl
      · rw [hc]
        rfl
    have hdata : c.session.state.sessionData.isSome = true := by
      have hoffers := (isAllowed_eq (h hflow)).2.offers
      rwa [hneeds] at hoffers
    let joined : Call := ⟨request, call.request :: call.more⟩
    let c' : Connection := { c with handled := request :: c.handled }
    have hsingle : (c.call o (single request)).1 = c' := call_group hflow hc hdata
    have hjoined : (c.call o joined).1 =
        { c with handled := joined.requests.reverse ++ c.handled } := call_group hflow hc hdata
    have hbehind : (c'.call o call).1 =
        { c with handled := call.requests.reverse ++ request :: c.handled } :=
      call_group (c := c') hflow (hsame ▸ hc) hdata
    have hevents : outcomes (c'.call o call).2 =
        call.requests.map (.executed · c.session.state c.session.isTls) :=
      outcomes_call (c := c') hflow call
    rw [hsingle, hjoined, hbehind, hevents, outcomes_call hflow, outcomes_call hflow]
    constructor
    · simp [joined, Call.requests]
    · simp [Call.requests, single]
  · have hstay (call : Call) : c.call o call = (c, []) := if_neg hflow
    rw [hstay, hstay, hstay]
    exact ⟨rfl, rfl⟩

/-- **Groups.**  What is handled in groups might as well be handled one by one. -/
theorem emit_calls {requests : List (Request Command)}
    (h : Along (fun c request ↦ (c.call o (single request)).1) InTurn c requests) :
    (emit (Connection.call o) c (calls requests)).1 =
        (emit (Connection.call o) c (requests.map single)).1 ∧
      outcomes (emit (Connection.call o) c (calls requests)).2 =
        outcomes (emit (Connection.call o) c (requests.map single)).2 := by
  induction requests generalizing c with
  | nil => exact ⟨rfl, rfl⟩
  | cons request requests ih =>
      obtain ⟨hhere, hlater⟩ := h
      obtain ⟨hstate, houtcomes⟩ := ih hlater
      have hsingle :
          (emit (Connection.call o) c (single request :: calls requests)).1 =
              (emit (Connection.call o) c ((request :: requests).map single)).1 ∧
            outcomes (emit (Connection.call o) c (single request :: calls requests)).2 =
              outcomes (emit (Connection.call o) c ((request :: requests).map single)).2 := by
        rw [List.map_cons, emit_cons, emit_cons, outcomes_append, outcomes_append, houtcomes]
        exact ⟨hstate, rfl⟩
      rw [calls]
      cases hcalls : calls requests with
      | nil =>
          rw [hcalls] at hsingle
          exact hsingle
      | cons call later =>
          rw [hcalls] at hsingle
          simp only
          split
          · next hgroup =>
              obtain ⟨hc, hsame⟩ := hgroup
              obtain ⟨hjoined, houtcomes'⟩ := join_call hhere hc hsame
              rw [← hsingle.1, ← hsingle.2, emit_cons, emit_cons, emit_cons, hjoined]
              simp only [outcomes_append, houtcomes', List.append_assoc, and_self]
          · exact hsingle

/-- No handler looks at the receiver. -/
theorem call_withReceiver (h : c.flow = .next) {request : Request Command}
    (hnone : continuation request = none) (r r' : Receiver Command) :
    ((c.withReceiver r').call o (single request)).1.Like
        (((c.withReceiver r).call o (single request)).1.withReceiver r') ∧
      ((c.withReceiver r').call o (single request)).2 =
        ((c.withReceiver r).call o (single request)).2 := by
  have hlike : (c.withReceiver r').session.Like (c.withReceiver r).session := ⟨rfl, rfl, rfl, rfl⟩
  obtain ⟨hsession, hevents, htasks, hflow⟩ :
      ((c.withReceiver r').session.dispatch o.base64 (single request)
          (c.answer o (single request))).Like
        ((c.withReceiver r).session.dispatch o.base64 (single request)
          (c.answer o (single request))) := hlike.dispatch
  have hreceiver : ((c.withReceiver r').session.dispatch o.base64 (single request)
      (c.answer o (single request))).session.receiver = r' := by
    rw [Session.dispatch_receiver]
    simp only [continued, single, hnone]
    rfl
  have hnext (r : Receiver Command) : (c.withReceiver r).flow = .next := h
  unfold Connection.call
  rw [if_pos (hnext r), if_pos (hnext r')]
  constructor
  · exact ⟨⟨hsession.version, hsession.state, hsession.isTls, hsession.idle⟩, hreceiver, rfl,
      congrArg (c.tasks ++ ·) htasks, hflow⟩
  · exact congrArg (_ :: ·) hevents

/-! ## A read of a connection that is not idling -/

section Byte

variable {ch : UInt8} {r : Receiver Command}

theorem receive_eq (hflow : c.flow = .next) (hidle : c.session.idle = none) (bytes : Bytes) :
    c.receive o bytes = ((c.ingest o bytes).1.upgraded, (c.ingest o bytes).2) := by
  rw [receive, if_pos hflow, hidle]

theorem upgraded_of_next (h : c.flow = .next) : c.upgraded = c := by
  rw [upgraded, h]

/-- A byte that completes nothing. -/
theorem receive_ok (hflow : c.flow = .next) (hidle : c.session.idle = none)
    (h : c.session.receiver.step ch = .ok r) : c.receive o [ch] = (c.withReceiver r, []) := by
  have hcollect : c.collect [ch] = ⟨[], [], r, none⟩ := by simp only [collect, Receiver.collect, h]
  have hupgraded : (c.withReceiver r).upgraded = c.withReceiver r := upgraded_of_next hflow
  rw [receive_eq hflow hidle, ingest, hcollect]
  simp only [calls, emit_nil, hupgraded, goAhead, List.map_nil, List.append_nil]

/-- A byte that completes a request which is allowed. -/
theorem receive_allowed (hflow : c.flow = .next) (hidle : c.session.idle = none)
    {request request' : Request Command} (h : c.session.receiver.step ch = .error (r, .ok request))
    (hallowed : isAllowed c.session.state c.session.isTls request = .ok request') :
    c.receive o [ch] = (((c.withReceiver r).call o (single request')).1.upgraded,
      ((c.withReceiver r).call o (single request')).2) := by
  have hcollect : c.collect [ch] = ⟨[request'], [], r, none⟩ := by
    simp only [collect, Receiver.collect, h, hallowed]
  rw [receive_eq hflow hidle, ingest, hcollect]
  simp only [calls, emit_cons, emit_nil, goAhead, List.map_nil, List.append_nil, List.nil_append]
  rfl

/-- A byte that completes a request which is refused. -/
theorem receive_refused (hflow : c.flow = .next) (hidle : c.session.idle = none)
    {request : Request Command} {response : StatusResponse}
    (h : c.session.receiver.step ch = .error (r, .ok request))
    (hrefused : isAllowed c.session.state c.session.isTls request = .error response) :
    c.receive o [ch] = (c.withReceiver r, [.refuse request response]) := by
  have hcollect : c.collect [ch] = ⟨[], [.refused request response], r, none⟩ := by
    simp only [collect, Receiver.collect, h, hrefused]
  have hupgraded : (c.withReceiver r).upgraded = c.withReceiver r := upgraded_of_next hflow
  rw [receive_eq hflow hidle, ingest, hcollect]
  simp only [calls, emit_nil, hupgraded, goAhead, List.map_cons, List.map_nil, List.append_nil,
    Event.ofRefusal]

/-- A byte with which the receiver gives up. -/
theorem receive_unparsed (hflow : c.flow = .next) (hidle : c.session.idle = none)
    {response : StatusResponse}
    (h : c.session.receiver.step ch = .error (r, .error (.error response))) :
    c.receive o [ch] = (c.withReceiver r, [.respond response]) := by
  have hcollect : c.collect [ch] = ⟨[], [.unparsed response], r, none⟩ := by
    simp only [collect, Receiver.collect, h]
  have hupgraded : (c.withReceiver r).upgraded = c.withReceiver r := upgraded_of_next hflow
  rw [receive_eq hflow hidle, ingest, hcollect]
  simp only [calls, emit_nil, hupgraded, goAhead, List.map_cons, List.map_nil, List.append_nil,
    Event.ofRefusal]

/-- A byte behind which the receiver waits. -/
theorem receive_waits (hflow : c.flow = .next) (hidle : c.session.idle = none)
    {error : Receiver.Error} (h : c.session.receiver.step ch = .error (r, .error error))
    (herror : ∀ response, error ≠ .error response) :
    (c.receive o [ch]).1 = c.withReceiver r ∧ outcomes (c.receive o [ch]).2 = [] := by
  have hupgraded : (c.withReceiver r).upgraded = c.withReceiver r := upgraded_of_next hflow
  rw [receive_eq hflow hidle, ingest]
  cases error with
  | error response => exact absurd rfl (herror response)
  | needsMoreData =>
      have hcollect : c.collect [ch] = ⟨[], [], r, none⟩ := by
        simp only [collect, Receiver.collect, h]
      rw [hcollect]
      exact ⟨hupgraded, rfl⟩
  | needsLiteral size =>
      have hcollect : c.collect [ch] = ⟨[], [], r, some size⟩ := by
        simp only [collect, Receiver.collect, h]
      rw [hcollect]
      have hgoAhead : (c.withReceiver r).goAhead (some size) = [.goAhead size] := if_pos hflow
      refine ⟨hupgraded, ?_⟩
      simp only [calls, emit_nil, hgoAhead, List.map_nil, List.nil_append]
      rfl

end Byte

/-- A connection goes on like the stream, or neither of them goes on. -/
def Follows (c : Connection) (line : Bytes) (st : Stream) : Prop :=
  (c.Like st.connection ∧ st.line = line) ∨ (c.flow ≠ .next ∧ st.connection.flow ≠ .next)

/-- The rest of a read is taken like the stream takes it: `c` is the connection of the stream, and
the admission is that before the read. -/
structure Taken (o : Outside)
    (allowed : Request Command → Except StatusResponse (Request Command)) (served : Bool)
    (c : Connection) (bytes : Bytes) : Prop where
  refusals : served = true → (c.session.receiver.collect allowed bytes).refusals = []
  inTurn : Along (fun c request ↦ (c.call o (single request)).1) InTurn
    (c.withReceiver (c.session.receiver.collect allowed bytes).receiver)
    (c.session.receiver.collect allowed bytes).requests
  outcomes : outcomes (emit (Stream.step o) ⟨c, []⟩ bytes).2 =
    outcomes ((c.session.receiver.collect allowed bytes).refusals.map .ofRefusal) ++
      outcomes (emit (Connection.call o)
        (c.withReceiver (c.session.receiver.collect allowed bytes).receiver)
        ((c.session.receiver.collect allowed bytes).requests.map single)).2
  follows : Follows (emit (Connection.call o)
      (c.withReceiver (c.session.receiver.collect allowed bytes).receiver)
      ((c.session.receiver.collect allowed bytes).requests.map single)).1.upgraded []
    (emit (Stream.step o) ⟨c, []⟩ bytes).1

section Taken

variable {allowed : Request Command → Except StatusResponse (Request Command)} {served : Bool}
  {ch : UInt8} {bytes : Bytes} {r : Receiver Command}

theorem Like.refl (c : Connection) : c.Like c := ⟨.refl _, rfl, rfl, rfl, rfl⟩

theorem like_upgraded (h : c.flow = .next) : c.upgraded.Like c := by
  rw [upgraded_of_next h]
  exact .refl c

theorem upgraded_of_ne (h : c.flow ≠ .upgrade) : c.upgraded = c := by
  unfold upgraded
  split
  · next hupgrade => exact absurd hupgrade h
  · rfl

theorem Like.trans {c c' c'' : Connection} (h : c.Like c') (h' : c'.Like c'') : c.Like c'' :=
  ⟨h.session.trans h'.session, h.receiver.trans h'.receiver, h.handled.trans h'.handled,
    h.tasks.trans h'.tasks, h.flow.trans h'.flow⟩

theorem Follows.of_like {c c' : Connection} {line : Bytes} {st : Stream} (h : c'.Follows line st)
    (hlike : c.Like c') : c.Follows line st := by
  rcases h with ⟨h, hline⟩ | ⟨h, hst⟩
  · exact .inl ⟨hlike.trans h, hline⟩
  · exact .inr ⟨hlike.flow ▸ h, hst⟩

/-- A connection that has been left does nothing. -/
theorem calls_left (h : c.flow ≠ .next) (calls : List Call) :
    emit (Connection.call o) c calls = (c, []) := by
  induction calls with
  | nil => rfl
  | cons call calls ih =>
      have hcall : c.call o call = (c, []) := if_neg h
      rw [emit_cons, hcall, ih]
      rfl

theorem along_left (h : c.flow ≠ .next) (requests : List (Request Command)) :
    Along (fun c request ↦ (c.call o (single request)).1) InTurn c requests := by
  induction requests with
  | nil => trivial
  | cons request requests ih =>
      have hcall : c.call o (single request) = (c, []) := if_neg h
      refine ⟨fun hflow ↦ absurd hflow h, ?_⟩
      show Along _ _ (c.call o (single request)).1 requests
      rw [hcall]
      exact ih

theorem stream_left (line : Bytes) (h : c.flow ≠ .next) (bytes : Bytes) :
    (emit (Stream.step o) ⟨c, line⟩ bytes).1.connection.flow ≠ .next ∧
      (emit (Stream.step o) ⟨c, line⟩ bytes).2 = [] := by
  have hreceive (bytes : Bytes) : c.receive o bytes = (c, []) := if_neg h
  induction bytes generalizing line with
  | nil => exact ⟨h, rfl⟩
  | cons ch bytes ih =>
      have hstep : ∃ line', Stream.step o ⟨c, line⟩ ch = (⟨c, line'⟩, []) := by
        unfold Stream.step
        split
        · exact ⟨line, by rw [hreceive]⟩
        · split
          · exact ⟨[], by rw [hreceive]⟩
          · exact ⟨line ++ [ch], rfl⟩
      obtain ⟨line', hstep⟩ := hstep
      rw [emit_cons, hstep]
      exact ih line'

/-- Nothing is left of the read. -/
theorem taken_nil (hflow : c.flow = .next) : Taken o allowed served c [] := by
  have hlike : (c.withReceiver c.session.receiver).upgraded.Like c := like_upgraded hflow
  constructor
  · intro _
    rfl
  · trivial
  · rfl
  · exact .inl ⟨hlike, rfl⟩

theorem stream_step (hidle : c.session.idle = none) (ch : UInt8) :
    Stream.step o ⟨c, []⟩ ch = (⟨(c.receive o [ch]).1, []⟩, (c.receive o [ch]).2) := by
  simp only [Stream.step, hidle]

/-- A byte that completes nothing. -/
theorem Taken.of_ok (hflow : c.flow = .next) (hidle : c.session.idle = none)
    (hstep : c.session.receiver.step ch = .ok r)
    (h : Taken o allowed served (c.withReceiver r) bytes) :
    Taken o allowed served c (ch :: bytes) := by
  have hcollect : c.session.receiver.collect allowed (ch :: bytes) = r.collect allowed bytes :=
    Receiver.collect_of_ok hstep bytes
  have hemit : emit (Stream.step o) ⟨c, []⟩ (ch :: bytes) =
      emit (Stream.step o) ⟨c.withReceiver r, []⟩ bytes := by
    rw [emit_cons, stream_step hidle, receive_ok hflow hidle hstep]
    rfl
  obtain ⟨hrefusals, hinTurn, houtcomes, hfollows⟩ := h
  constructor
  · rw [hcollect]
    exact hrefusals
  · rw [hcollect]
    exact hinTurn
  · rw [hcollect, hemit]
    exact houtcomes
  · rw [hcollect, hemit]
    exact hfollows

/-- A byte behind which the receiver waits. -/
theorem taken_waits (hflow : c.flow = .next) (hidle : c.session.idle = none)
    {error : Receiver.Error} (hstep : c.session.receiver.step ch = .error (r, .error error))
    (herror : ∀ response, error ≠ .error response) : Taken o allowed served c [ch] := by
  obtain ⟨hstate, houtcomes⟩ := receive_waits (o := o) hflow hidle hstep herror
  have hcollect : (c.session.receiver.collect allowed [ch]).requests = [] ∧
      (c.session.receiver.collect allowed [ch]).refusals = [] ∧
      (c.session.receiver.collect allowed [ch]).receiver = r := by
    cases error with
    | error response => exact absurd rfl (herror response)
    | needsMoreData => simp only [Receiver.collect, hstep, and_self]
    | needsLiteral size => simp only [Receiver.collect, hstep, and_self]
  obtain ⟨hrequests, hrefusals, hreceiver⟩ := hcollect
  have hlike : (c.withReceiver r).upgraded.Like (c.withReceiver r) := like_upgraded hflow
  constructor
  · intro _
    exact hrefusals
  · rw [hrequests]
    trivial
  · rw [hrequests, hrefusals, emit_cons, stream_step hidle]
    simpa using houtcomes
  · rw [hrequests, hreceiver, emit_cons, stream_step hidle, hstate]
    exact .inl ⟨hlike, rfl⟩

/-- A byte with which the receiver gives up. -/
theorem taken_unparsed (hflow : c.flow = .next) (hidle : c.session.idle = none)
    {response : StatusResponse}
    (hstep : c.session.receiver.step ch = .error (r, .error (.error response)))
    (hserved : served = false) : Taken o allowed served c [ch] := by
  have hcollect : c.session.receiver.collect allowed [ch] =
    ⟨[], [.unparsed response], r, none⟩ := by
    simp only [Receiver.collect, hstep]
  have hlike : (c.withReceiver r).upgraded.Like (c.withReceiver r) := like_upgraded hflow
  constructor
  · intro h
    exact absurd (hserved.symm.trans h) Bool.false_ne_true
  · rw [hcollect]
    trivial
  · rw [hcollect, emit_cons, stream_step hidle, receive_unparsed hflow hidle hstep]
    rfl
  · rw [hcollect, emit_cons, stream_step hidle, receive_unparsed hflow hidle hstep]
    exact .inl ⟨hlike, rfl⟩

/-- A request that is refused. -/
theorem Taken.of_refused (hflow : c.flow = .next) (hidle : c.session.idle = none)
    {request : Request Command} {response : StatusResponse}
    (hstep : c.session.receiver.step ch = .error (r, .ok request))
    (hallowed : allowed request = .error response)
    (hrefused : isAllowed c.session.state c.session.isTls request = .error response)
    (hserved : served = false) (h : Taken o allowed served (c.withReceiver r) bytes) :
    Taken o allowed served c (ch :: bytes) := by
  have hcollect : c.session.receiver.collect allowed (ch :: bytes) =
      { r.collect allowed bytes with
        refusals := .refused request response :: (r.collect allowed bytes).refusals } := by
    simp only [Receiver.collect, hstep, hallowed]
  have hemit : emit (Stream.step o) ⟨c, []⟩ (ch :: bytes) =
      ((emit (Stream.step o) ⟨c.withReceiver r, []⟩ bytes).1,
        [.refuse request response] ++ (emit (Stream.step o) ⟨c.withReceiver r, []⟩ bytes).2) := by
    rw [emit_cons, stream_step hidle, receive_refused hflow hidle hstep hrefused]
  obtain ⟨hrefusals, hinTurn, houtcomes, hfollows⟩ := h
  constructor
  · intro h
    exact absurd (hserved.symm.trans h) Bool.false_ne_true
  · rw [hcollect]
    exact hinTurn
  · rw [hcollect, hemit, outcomes_append, houtcomes, ← List.append_assoc]
    rfl
  · rw [hcollect, hemit]
    exact hfollows

/-- What a request that is allowed adds to a read. -/
theorem collect_allowed (bytes : Bytes) {request request' : Request Command}
    (hstep : c.session.receiver.step ch = .error (r, .ok request))
    (hallowed : allowed request = .ok request') :
    c.session.receiver.collect allowed (ch :: bytes) =
      { r.collect allowed bytes with
        requests := request' :: (r.collect allowed bytes).requests } := by
  simp only [Receiver.collect, hstep, hallowed]

/-- A request at the end of its read. -/
theorem taken_last (hflow : c.flow = .next) (hidle : c.session.idle = none)
    {request request' : Request Command}
    (hstep : c.session.receiver.step ch = .error (r, .ok request))
    (hallowed : allowed request = .ok request')
    (hhere : isAllowed c.session.state c.session.isTls request = .ok request') :
    Taken o allowed served c [ch] := by
  have hcollect : c.session.receiver.collect allowed [ch] = ⟨[request'], [], r, none⟩ := by
    rw [collect_allowed [] hstep hallowed]
    rfl
  obtain ⟨rfl, -⟩ := isAllowed_eq hhere
  constructor
  · intro _
    rw [hcollect]
  · rw [hcollect]
    exact ⟨fun _ ↦ hhere, trivial⟩
  · rw [hcollect, emit_cons, stream_step hidle, receive_allowed hflow hidle hstep hhere]
    rfl
  · rw [hcollect, emit_cons, stream_step hidle, receive_allowed hflow hidle hstep hhere]
    exact .inl ⟨.refl _, rfl⟩

/-- A request behind which the connection is left. -/
theorem taken_left (hflow : c.flow = .next) (hidle : c.session.idle = none)
    {request request' : Request Command}
    (hstep : c.session.receiver.step ch = .error (r, .ok request))
    (hallowed : allowed request = .ok request')
    (hhere : isAllowed c.session.state c.session.isTls request = .ok request')
    (hnone : continuation request' = none)
    (hleft : ((c.withReceiver r).call o (single request')).1.flow ≠ .next)
    (hupgrade : ((c.withReceiver r).call o (single request')).1.flow ≠ .upgrade)
    (hrefusals : (r.collect allowed bytes).refusals = []) :
    Taken o allowed served c (ch :: bytes) := by
  obtain ⟨rfl, -⟩ := isAllowed_eq hhere
  obtain ⟨hlike, hevents⟩ := call_withReceiver (o := o) hflow hnone r
    (r.collect allowed bytes).receiver
  have hleft' : ((c.withReceiver (r.collect allowed bytes).receiver).call o
      (single request')).1.flow ≠ .next := hlike.flow ▸ hleft
  have hupgraded : ((c.withReceiver r).call o (single request')).1.upgraded =
      ((c.withReceiver r).call o (single request')).1 := upgraded_of_ne hupgrade
  have hupgraded' : ((c.withReceiver (r.collect allowed bytes).receiver).call o
      (single request')).1.upgraded = ((c.withReceiver (r.collect allowed bytes).receiver).call o
        (single request')).1 := upgraded_of_ne (hlike.flow ▸ hupgrade)
  have hcollect := collect_allowed bytes hstep hallowed
  obtain ⟨hdead, hquiet⟩ := stream_left (o := o) [] hleft bytes
  constructor
  · intro _
    rw [hcollect]
    exact hrefusals
  · rw [hcollect]
    exact ⟨fun _ ↦ hhere, along_left hleft' _⟩
  · rw [hcollect, emit_cons, stream_step hidle, receive_allowed hflow hidle hstep hhere, hupgraded,
      hquiet, hrefusals, List.map_cons, emit_cons, calls_left hleft', hevents]
    rfl
  · rw [hcollect, emit_cons, stream_step hidle, receive_allowed hflow hidle hstep hhere, hupgraded,
      List.map_cons, emit_cons, calls_left hleft', hupgraded']
    exact .inr ⟨hleft', hdead⟩

/-- A request behind which the connection goes on. -/
theorem Taken.of_allowed (hflow : c.flow = .next) (hidle : c.session.idle = none)
    {request request' : Request Command}
    (hstep : c.session.receiver.step ch = .error (r, .ok request))
    (hallowed : allowed request = .ok request')
    (hhere : isAllowed c.session.state c.session.isTls request = .ok request')
    (hnone : continuation request' = none)
    (hnext : ((c.withReceiver r).call o (single request')).1.flow = .next)
    (h : Taken o allowed true ((c.withReceiver r).call o (single request')).1 bytes) :
    Taken o allowed served c (ch :: bytes) := by
  obtain ⟨rfl, -⟩ := isAllowed_eq hhere
  have hreceiver : ((c.withReceiver r).call o (single request')).1.session.receiver = r :=
    (call_withReceiver hflow hnone r r).1.receiver
  obtain ⟨hrefusals, hinTurn, houtcomes, hfollows⟩ := h
  rw [hreceiver] at hrefusals hinTurn houtcomes hfollows
  obtain ⟨hlike, hevents⟩ := call_withReceiver (o := o) hflow hnone r
    (r.collect allowed bytes).receiver
  have hcollect := collect_allowed bytes hstep hallowed
  obtain ⟨hlater, hlaterEvents⟩ := emit_related Like (fun _ _ call h ↦ h.call (o := o) call) hlike
    ((r.collect allowed bytes).requests.map single)
  have hemit : emit (Stream.step o) ⟨c, []⟩ (ch :: bytes) =
      ((emit (Stream.step o) ⟨((c.withReceiver r).call o (single request')).1, []⟩ bytes).1,
        ((c.withReceiver r).call o (single request')).2 ++
          (emit (Stream.step o)
            ⟨((c.withReceiver r).call o (single request')).1, []⟩ bytes).2) := by
    rw [emit_cons, stream_step hidle, receive_allowed hflow hidle hstep hhere,
      upgraded_of_next hnext]
  constructor
  · intro _
    rw [hcollect]
    exact hrefusals rfl
  · rw [hcollect]
    refine ⟨fun _ ↦ hhere, along_related (fun c c' : Connection ↦ c'.Like c)
      (fun _ _ request h ↦ (h.call (single request)).1) ?_ hlike hinTurn⟩
    intro c c' request hlike hinTurn hflow
    rw [hlike.session.state, hlike.session.isTls]
    exact hinTurn (hlike.flow ▸ hflow)
  · rw [hcollect, hemit, outcomes_append, houtcomes, hrefusals rfl, List.map_cons, emit_cons,
      outcomes_append, hevents, hlaterEvents]
    rfl
  · rw [hcollect, hemit, List.map_cons, emit_cons]
    exact hfollows.of_like hlater.upgraded

/-- **The rest of a tidy read.** -/
theorem Tidy.taken (hflow : c.flow = .next) (hidle : c.session.idle = none)
    (h : c.Tidy o allowed served bytes) : Taken o allowed served c bytes := by
  induction bytes generalizing c served with
  | nil => exact taken_nil hflow
  | cons ch bytes ih =>
      rw [Tidy] at h
      cases hstep : c.session.receiver.step ch with
      | ok r =>
          rw [hstep] at h
          exact .of_ok hflow hidle hstep (ih hflow hidle h)
      | error turn =>
          obtain ⟨r, result⟩ := turn
          rw [hstep] at h
          cases result with
          | ok request =>
              obtain ⟨hsame, h⟩ := h
              cases hallowed : allowed request with
              | error response =>
                  rw [hallowed] at h
                  exact .of_refused hflow hidle hstep hallowed (hsame ▸ hallowed) h.1
                    (ih hflow hidle h.2)
              | ok request' =>
                  rw [hallowed] at h
                  simp only at h
                  split at h
                  · subst h
                    exact taken_last hflow hidle hstep hallowed (hsame ▸ hallowed)
                  · next hdiverts =>
                      obtain ⟨hidle', hupgrade, hnone⟩ :
                          ((c.withReceiver r).call o (single request')).1.session.idle = none ∧
                            ((c.withReceiver r).call o (single request')).1.flow ≠ .upgrade ∧
                            continuation request' = none := by
                        simpa [Diverts, single] using hdiverts
                      split at h
                      · next hnext =>
                          exact .of_allowed hflow hidle hstep hallowed (hsame ▸ hallowed) hnone
                            hnext (ih hnext hidle' h)
                      · next hleft =>
                          exact taken_left hflow hidle hstep hallowed (hsame ▸ hallowed) hnone
                            hleft hupgrade h
          | error error =>
              cases error with
              | error response =>
                  obtain ⟨hserved, rfl⟩ := h
                  exact taken_unparsed hflow hidle hstep hserved
              | needsMoreData =>
                  obtain rfl := h
                  exact taken_waits hflow hidle hstep (by simp)
              | needsLiteral size =>
                  obtain rfl := h
                  exact taken_waits hflow hidle hstep (by simp)

end Taken

end Connection

end ImapToJmap.Imap
