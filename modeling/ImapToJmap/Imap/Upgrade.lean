import ImapToJmap.Core.Leftover
import ImapToJmap.Imap.Frame

/-!
# STARTTLS

The session of `handle_conn` goes on in `handle_conn_tls` as it is, with its receiver and its state.
What is executed over TLS is what a new connection would execute if and only if nothing of account
is left of the cleartext part: the receiver has no request under way, no credentials were presented
(or only undone), IMAP4rev2 is not enabled and no IDLE is running.  CONDSTORE and QRESYNC may be
left enabled; they do not decide what is executed.
-/

namespace ImapToJmap.Imap

open Run

/-- The requests whose handlers are called. -/
def Event.executed : Event → List (Request Command)
  | .call handling _ _ => handling.requests
  | _ => []

/-- What is executed from a connection on. -/
def Connection.executed (o : Outside) (c : Connection) (reads : List Bytes) :
    List (Request Command) :=
  (emit (Connection.receive o) c reads).2.flatMap Event.executed

/-- What is executed on a connection that goes on with this session. -/
def executed (o : Outside) (s : Session) (reads : List Bytes) : List (Request Command) :=
  Connection.executed o ⟨s, [], [], .next⟩ reads

/-- The session that goes on over TLS, if the last of the reads in cleartext ends in a STARTTLS that
is executed. -/
def Connection.upgrade (o : Outside) (maxRequestSize : ℕ) (reads : List Bytes) (last : Bytes) :
    Option Session :=
  let c := (emit (Connection.receive o) (Connection.new maxRequestSize false) reads).1
  if c.flow = .next ∧ c.session.isTls = false ∧ c.session.idle = none ∧
      (c.ingest o last).1.flow = .upgrade then
    some (c.receive o last).1.session
  else none

/-- Nothing of account is left of the cleartext part. -/
structure Untouched (maxRequestSize : ℕ) (s : Session) : Prop where
  receiver : s.receiver = .withMaxRequestSize maxRequestSize
  version : s.version = .rev1
  state : s.state = .notAuthenticated 0
  idle : s.idle = none

/-! ## Connections that are alike -/

/-- Connections whose sessions are alike and have the same receiver. -/
structure Connection.Like (c c' : Connection) : Prop where
  session : c.session.Like c'.session
  receiver : c.session.receiver = c'.session.receiver
  handled : c.handled = c'.handled
  tasks : c.tasks = c'.tasks
  flow : c.flow = c'.flow

namespace Connection

variable {o : Outside} {c c' : Connection}

theorem Like.call (h : c.Like c') (call : Call) :
    (c.call o call).1.Like (c'.call o call).1 ∧ (c.call o call).2 = (c'.call o call).2 := by
  have hanswer : c.answer o call = c'.answer o call := by
    unfold answer
    rw [h.session.version, h.handled]
  unfold Connection.call
  rw [← h.flow, ← hanswer]
  split
  · obtain ⟨hsession, hevents, htasks, hflow⟩ :
        (c.session.dispatch o.base64 call (c.answer o call)).Like
          (c'.session.dispatch o.base64 call (c.answer o call)) := h.session.dispatch
    refine ⟨⟨hsession, ?_, ?_, ?_, hflow⟩, ?_⟩
    · exact Session.dispatch_receiver.trans
        ((congrArg (continued · call.request) h.receiver).trans Session.dispatch_receiver.symm)
    · exact congrArg (call.requests.reverse ++ ·) h.handled
    · exact congrArg₂ (· ++ ·) h.tasks htasks
    · simp only [Session.handle, hevents, h.session.state, h.session.isTls]
  · exact ⟨h, rfl⟩

theorem Like.ingest (h : c.Like c') (bytes : Bytes) :
    (c.ingest o bytes).1.Like (c'.ingest o bytes).1 ∧
      (c.ingest o bytes).2 = (c'.ingest o bytes).2 := by
  have hcollect : c.collect bytes = c'.collect bytes := by
    unfold collect
    rw [h.receiver, h.session.state, h.session.isTls]
  have hreceived : (c.withReceiver (c.collect bytes).receiver).Like
      (c'.withReceiver (c.collect bytes).receiver) :=
    ⟨⟨h.session.version, h.session.state, h.session.isTls, h.session.idle⟩, rfl, h.handled, h.tasks,
      h.flow⟩
  obtain ⟨hlike, hevents⟩ := emit_related Like (fun _ _ call h ↦ h.call (o := o) call) hreceived
    (calls (c.collect bytes).requests)
  unfold Connection.ingest goAhead
  rw [← hcollect]
  simp only [hevents, hlike.flow, and_true]
  exact hlike

theorem Like.upgraded (h : c.Like c') : c.upgraded.Like c'.upgraded := by
  unfold Connection.upgraded
  rw [← h.flow]
  split
  · exact ⟨⟨h.session.version, h.session.state, rfl, h.session.idle⟩, h.receiver, h.handled,
      h.tasks, rfl⟩
  · exact h

theorem Like.receive (h : c.Like c') (bytes : Bytes) :
    (c.receive o bytes).1.Like (c'.receive o bytes).1 ∧
      (c.receive o bytes).2 = (c'.receive o bytes).2 := by
  unfold Connection.receive
  rw [← h.flow, ← h.session.idle]
  split
  · split
    · obtain ⟨hlike, hevents⟩ := h.ingest (o := o) bytes
      exact ⟨hlike.upgraded, hevents⟩
    · split
      · exact ⟨⟨⟨h.session.version, h.session.state, h.session.isTls, rfl⟩, h.receiver, h.handled,
          h.tasks, rfl⟩, rfl⟩
      · exact ⟨h, rfl⟩
  · exact ⟨h, rfl⟩

end Connection

/-- Sessions that are alike, with the same receiver, execute the same. -/
theorem Session.Like.executed {s s' : Session} (h : s.Like s')
    (hreceiver : s.receiver = s'.receiver) (o : Outside) (reads : List Bytes) :
    executed o s reads = executed o s' reads := by
  have hlike : Connection.Like ⟨s, [], [], .next⟩ ⟨s', [], [], .next⟩ :=
    ⟨h, hreceiver, rfl, rfl, rfl⟩
  unfold Imap.executed Connection.executed
  rw [(emit_related Connection.Like (fun _ _ bytes h ↦ h.receive bytes) hlike reads).2]

/-! ## The receiver of a connection -/

/-- The receiver of a connection is sound, and has the limit it was made with. -/
structure Connection.Sound (maxRequestSize : ℕ) (c : Connection) : Prop where
  sound : c.session.receiver.Sound
  reset : c.session.receiver.reset = .withMaxRequestSize maxRequestSize

/-- A receiver that is set up for a parameter is sound. -/
theorem sound_continued {r : Receiver Command} (h : r.Sound) (request : Request Command) :
    (continued r request).Sound ∧ (continued r request).reset = r.reset := by
  unfold continued
  split
  · exact ⟨h.of_inArguments rfl rfl, rfl⟩
  · exact ⟨h, rfl⟩

namespace Connection

variable {o : Outside} {maxRequestSize : ℕ} {c : Connection}

theorem Sound.call (h : c.Sound maxRequestSize) (call : Call) :
    (c.call o call).1.Sound maxRequestSize := by
  unfold Connection.call
  split
  · have hreceiver : (c.session.handle o.base64 call (c.answer o call)).session.receiver =
        continued c.session.receiver call.request := Session.dispatch_receiver
    obtain ⟨hsound, hreset⟩ := sound_continued h.sound call.request
    refine ⟨?_, ?_⟩
    · exact hreceiver ▸ hsound
    · exact (congrArg Receiver.reset hreceiver).trans (hreset.trans h.reset)
  · exact h

theorem Sound.upgraded (h : c.Sound maxRequestSize) : c.upgraded.Sound maxRequestSize := by
  unfold Connection.upgraded
  split
  · exact ⟨h.sound, h.reset⟩
  · exact h

theorem Sound.receive (h : c.Sound maxRequestSize) (bytes : Bytes) :
    (c.receive o bytes).1.Sound maxRequestSize := by
  have hread : (c.withReceiver (c.collect bytes).receiver).Sound maxRequestSize := by
    obtain ⟨hsound, hreset⟩ :=
      h.sound.collect (isAllowed c.session.state c.session.isTls) bytes
    exact ⟨hsound, hreset.trans h.reset⟩
  have hingest : (c.ingest o bytes).1.Sound maxRequestSize := by
    unfold ingest
    simp only [emit_fst]
    refine exec_induct (C := fun _ _ ↦ True) (Sound maxRequestSize) hread
      (fun c call h _ ↦ h.call call) (along_of_forall fun _ _ _ ↦ trivial)
  unfold Connection.receive
  split
  · split
    · exact hingest.upgraded
    · split
      · exact ⟨h.sound, h.reset⟩
      · exact h
  · exact h

/-- **The receiver of every connection is sound.** -/
theorem sound_receives (o : Outside) (maxRequestSize : ℕ) (isTls : Bool) (reads : List Bytes) :
    (emit (Connection.receive o) (new maxRequestSize isTls) reads).1.Sound maxRequestSize := by
  rw [emit_fst]
  refine exec_induct (C := fun _ _ ↦ True) (Sound maxRequestSize) ?_
    (fun c bytes h _ ↦ h.receive bytes) (along_of_forall fun _ _ _ ↦ trivial)
  refine ⟨⟨.inl rfl, fun _ ↦ ⟨rfl, rfl⟩, fun hstate ↦ ?_, fun _ hstate ↦ ?_⟩, rfl⟩
  · cases hstate
  · cases hstate

end Connection

/-! ## What is executed of a read -/

/-- No event of a handler is the call of another one. -/
theorem executed_of_effect {base64 : String → Option Bytes} {s : Session} {call : Call}
    {answer : Answer} {handled : Handled} (h : Effect base64 s call answer handled) :
    handled.events.flatMap Event.executed = [] := by
  cases h with
  | closed => split <;> rfl
  | _ => rfl

theorem requests_of_calls (requests : List (Request Command)) :
    (calls requests).flatMap Call.requests = requests := by
  induction requests with
  | nil => rfl
  | cons request requests ih =>
      rw [calls]
      split
      · next hcalls =>
          rw [hcalls] at ih
          simp [Call.requests, ← ih]
      · next call later hcalls =>
          rw [hcalls] at ih
          split
          · simp [Call.requests, ← ih]
          · simp [Call.requests, ← ih]

/-- What is executed by a call. -/
theorem Connection.executed_call {o : Outside} {c : Connection} (h : c.flow = .next) (call : Call) :
    (c.call o call).2.flatMap Event.executed = call.requests := by
  have hevents : (c.session.dispatch o.base64 call (c.answer o call)).events.flatMap
      Event.executed = [] := executed_of_effect Session.dispatch_effect
  rw [Connection.call, if_pos h]
  simp [Session.handle, Event.executed, hevents]

/-- What is executed of a read has been collected from it. -/
theorem Connection.executed_calls {o : Outside} {c : Connection} {calls : List Call}
    {request : Request Command}
    (h : request ∈ (emit (Connection.call o) c calls).2.flatMap Event.executed) :
    request ∈ calls.flatMap Call.requests := by
  induction calls generalizing c with
  | nil => exact h
  | cons call calls ih =>
      rw [emit_cons, List.flatMap_append, List.mem_append] at h
      rw [List.flatMap_cons, List.mem_append]
      rcases h with h | h
      · refine .inl ?_
        by_cases hflow : c.flow = .next
        · rwa [executed_call hflow] at h
        · simp [Connection.call, hflow] at h
      · exact .inr (ih h)

/-- What a single read gets executed on a session. -/
theorem mem_executed {o : Outside} {s : Session} {bytes : Bytes} {request : Request Command}
    (h : request ∈ executed o s [bytes]) : s.idle = none ∧
      request ∈ (s.receiver.collect (isAllowed s.state s.isTls) bytes).requests := by
  simp only [executed, Connection.executed, emit_cons, emit_nil, List.append_nil,
    Connection.receive, if_true] at h
  split at h
  · next hidle =>
      refine ⟨hidle, ?_⟩
      simp only [Connection.ingest, List.flatMap_append, List.mem_append] at h
      rcases h with (h | h) | h
      · obtain ⟨e, he, hrequest⟩ := List.mem_flatMap.mp h
        obtain ⟨refusal, -, rfl⟩ := List.mem_map.mp he
        cases refusal <;> simp [Event.ofRefusal, Event.executed] at hrequest
      · have hcalls := Connection.executed_calls h
        rwa [requests_of_calls] at hcalls
      · unfold Connection.goAhead at h
        split at h
        · split at h <;> simp [Event.executed] at h
        · simp at h
  · split at h <;> simp [Event.executed] at h

end ImapToJmap.Imap
