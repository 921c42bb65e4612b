import ImapToJmap.Core.Leftover
import ImapToJmap.ManageSieve.Connection

/-!
# STARTTLS on ManageSieve

ManageSieve accepts no credentials in cleartext, so that only the receiver can be left behind.  A
word UID may be left in it: there are no UID commands, and a receiver that has read the word goes on
like one that has not (`Alike`).
-/

namespace ImapToJmap.ManageSieve

open Run

/-! ## Receivers that are alike -/

/-- Receivers that differ, if at all, in whether the word UID has been read. -/
inductive Alike : Receiver Command → Receiver Command → Prop
  | refl (r : Receiver Command) : Alike r r
  | uid {r : Receiver Command} {isUid : Bool} (isUid' : Bool) (h : r.state = .command isUid) :
      Alike r { r with state := .command isUid' }

/-- The same turn, up to the word UID. -/
def AlikeTurn : Receiver.Loop Command (Receiver Command) →
    Receiver.Loop Command (Receiver Command) → Prop
  | .ok r, .ok r' => Alike r r'
  | .error (r, result), .error (r', result') => Alike r r' ∧ result = result'
  | _, _ => False

theorem AlikeTurn.refl (turn : Receiver.Loop Command (Receiver Command)) : AlikeTurn turn turn := by
  rcases turn with ⟨r, result⟩ | r
  · exact ⟨.refl r, rfl⟩
  · exact Alike.refl r

/-- **A byte.** -/
theorem Alike.step {r r' : Receiver Command} (h : Alike r r') (ch : UInt8) :
    AlikeTurn (r.step ch) (r'.step ch) := by
  cases h with
  | refl => exact .refl _
  | @uid isUid isUid' hr =>
      have hstep : r.step ch = r.stepCommand isUid ch := by rw [Receiver.step, hr]
      have hstep' : ({ r with state := .command isUid' } : Receiver Command).step ch =
          ({ r with state := .command isUid' } : Receiver Command).stepCommand isUid' ch := rfl
      rw [hstep, hstep']
      unfold Receiver.stepCommand
      split
      · split
        · exact .uid isUid' hr
        · exact .refl _
      · split
        · split
          · split
            · -- there are no UID commands
              exact .refl _
            · exact .refl _
          · exact .uid isUid' hr
        · exact .refl _

/-- A receiver that is set up for a parameter has forgotten the word. -/
theorem Alike.setUp {r r' : Receiver Command} (h : Alike r r') (request : Request Command)
    (state : Receiver.State) :
    Alike { r with request := request, state := state }
      { r' with request := request, state := state } := by
  cases h with
  | refl => exact .refl _
  | uid => exact .refl _

/-- **A read.** -/
theorem Alike.collect {r r' : Receiver Command} (h : Alike r r')
    (isAllowed : Request Command → Except StatusResponse (Request Command)) (bytes : Bytes) :
    (r.collect isAllowed bytes).requests = (r'.collect isAllowed bytes).requests ∧
      (r.collect isAllowed bytes).refusals = (r'.collect isAllowed bytes).refusals ∧
      (r.collect isAllowed bytes).needsLiteral = (r'.collect isAllowed bytes).needsLiteral ∧
      Alike (r.collect isAllowed bytes).receiver (r'.collect isAllowed bytes).receiver := by
  induction bytes generalizing r r' with
  | nil => exact ⟨rfl, rfl, rfl, h⟩
  | cons ch bytes ih =>
      have hturn := h.step ch
      rw [Receiver.collect, Receiver.collect]
      generalize r.step ch = turn at hturn
      generalize r'.step ch = turn' at hturn
      rcases turn with ⟨r, result⟩ | r <;> rcases turn' with ⟨r', result'⟩ | r'
      · obtain ⟨halike, rfl⟩ := hturn
        rcases result with (_ | _ | _) | request
        · exact ⟨rfl, rfl, rfl, halike⟩
        · exact ⟨rfl, rfl, rfl, halike⟩
        · exact ⟨rfl, rfl, rfl, halike⟩
        · obtain ⟨hrequests, hrefusals, hliteral, hreceiver⟩ := ih halike
          simp only
          cases isAllowed request with
          | ok request => exact ⟨congrArg (request :: ·) hrequests, hrefusals, hliteral, hreceiver⟩
          | error response =>
              exact ⟨hrequests, congrArg (.refused request response :: ·) hrefusals, hliteral,
                hreceiver⟩
      · exact hturn.elim
      · exact hturn.elim
      · exact ih hturn

/-! ## Connections that are alike -/

/-- Sessions whose receivers are alike. -/
structure Session.Like (s s' : Session) : Prop where
  receiver : Alike s.receiver s'.receiver
  state : s.state = s'.state
  isTls : s.isTls = s'.isTls

/-- Handler calls with the same outcome, that leave sessions which are alike. -/
structure Handled.Like (h h' : Handled) : Prop where
  session : h.session.Like h'.session
  events : h.events = h'.events
  flow : h.flow = h'.flow

namespace Session

variable {base64 : String → Option Bytes} {s s' : Session} {request : Request Command}
  {answer : Answer}

theorem Like.next (h : s.Like s') : s.next.Like s'.next := ⟨h, rfl, rfl⟩

theorem Like.withClient (h : s.Like s') : (s.withClient request).Like (s'.withClient request) := by
  unfold Session.withClient
  rw [← h.state]
  split
  · exact h.next
  · exact ⟨h, rfl, rfl⟩

theorem Like.authenticate (h : s.Like s') {credentials : Credentials} :
    (s.authenticate request answer credentials).Like
      (s'.authenticate request answer credentials) := by
  unfold Session.authenticate
  rw [← h.state]
  split
  · split
    · exact ⟨⟨h.receiver, rfl, h.isTls⟩, rfl, rfl⟩
    · exact ⟨h, rfl, rfl⟩
  · split
    · split
      · exact ⟨⟨h.receiver, rfl, h.isTls⟩, rfl, rfl⟩
      · exact ⟨h, rfl, rfl⟩
    · exact ⟨h, rfl, rfl⟩

theorem Like.handleAuthenticate (h : s.Like s') :
    (s.handleAuthenticate base64 request answer).Like
      (s'.handleAuthenticate base64 request answer) := by
  unfold Session.handleAuthenticate
  split
  · split
    · split
      · split
        · exact h.authenticate
        · exact h.next
      · exact ⟨⟨h.receiver.setUp _ _, h.state, h.isTls⟩, rfl, rfl⟩
    · exact h.next
  · exact h.next

/-- **Sessions that are alike go on alike.** -/
theorem Like.dispatch (h : s.Like s') : (s.dispatch base64 request answer).Like
    (s'.dispatch base64 request answer) := by
  have hclient : (s.withClient request).Like (s'.withClient request) := h.withClient
  have hscript : (s.onScript request).Like (s'.onScript request) := by
    unfold Session.onScript
    split
    · exact hclient
    · exact h.next
  unfold Session.dispatch
  split
  case h_2 =>
    unfold handlePutscript
    split
    · exact hclient
    · exact h.next
  case h_6 =>
    unfold handleRenamescript
    split
    · split
      · exact hclient
      · exact h.next
    · exact h.next
  case h_7 =>
    unfold handleCheckscript
    split
    · exact hclient
    · exact h.next
  all_goals first
    | exact hclient
    | exact hscript
    | exact h.next
    | exact h.handleAuthenticate
    | exact ⟨⟨h.receiver, rfl, h.isTls⟩, rfl, rfl⟩
    | exact ⟨h, rfl, rfl⟩

end Session

/-- Connections whose sessions are alike. -/
structure Connection.Like (c c' : Connection) : Prop where
  session : c.session.Like c'.session
  handled : c.handled = c'.handled
  flow : c.flow = c'.flow

namespace Connection

variable {o : Outside} {c c' : Connection}

theorem Like.call (h : c.Like c') (request : Request Command) :
    (c.call o request).1.Like (c'.call o request).1 ∧
      (c.call o request).2 = (c'.call o request).2 := by
  unfold Connection.call
  rw [← h.flow, ← h.handled]
  split
  · obtain ⟨hsession, hevents, hflow⟩ :
        (c.session.dispatch o.base64 request (o.answer c.handled request)).Like
          (c'.session.dispatch o.base64 request (o.answer c.handled request)) :=
      h.session.dispatch
    exact ⟨⟨hsession, rfl, hflow⟩, congrArg (.call request :: ·) hevents⟩
  · exact ⟨h, rfl⟩

theorem Like.ingest (h : c.Like c') (bytes : Bytes) :
    (c.ingest o bytes).1.Like (c'.ingest o bytes).1 ∧
      (c.ingest o bytes).2 = (c'.ingest o bytes).2 := by
  obtain ⟨hrequests, hrefusals, hliteral, hreceiver⟩ :
      (c.collect bytes).requests = (c'.collect bytes).requests ∧
        (c.collect bytes).refusals = (c'.collect bytes).refusals ∧
        (c.collect bytes).needsLiteral = (c'.collect bytes).needsLiteral ∧
        Alike (c.collect bytes).receiver (c'.collect bytes).receiver := by
    rw [collect, collect, ← h.session.state, ← h.session.isTls]
    exact h.session.receiver.collect _ bytes
  have hreceived : (c.withReceiver (c.collect bytes).receiver).Like
      (c'.withReceiver (c'.collect bytes).receiver) :=
    ⟨⟨hreceiver, h.session.state, h.session.isTls⟩, h.handled, h.flow⟩
  obtain ⟨hlike, hevents⟩ := emit_related Like (fun _ _ request h ↦ h.call (o := o) request)
    hreceived (c.collect bytes).requests
  simp only [Connection.ingest, goAhead, ← hrequests, ← hrefusals, ← hliteral, hevents, hlike.flow,
    and_true]
  exact hlike

theorem Like.upgraded (h : c.Like c') : c.upgraded.Like c'.upgraded := by
  unfold Connection.upgraded
  rw [← h.flow]
  split
  · exact ⟨⟨h.session.receiver, h.session.state, rfl⟩, h.handled, rfl⟩
  · exact h

theorem Like.receive (h : c.Like c') (bytes : Bytes) :
    (c.receive o bytes).1.Like (c'.receive o bytes).1 ∧
      (c.receive o bytes).2 = (c'.receive o bytes).2 := by
  unfold Connection.receive
  rw [← h.flow]
  split
  · obtain ⟨hlike, hevents⟩ := h.ingest (o := o) bytes
    exact ⟨hlike.upgraded, hevents⟩
  · exact ⟨h, rfl⟩

end Connection

/-! ## The cleartext part -/

/-- The requests whose handlers are called. -/
def Event.executed : Event → List (Request Command)
  | .call request => [request]
  | _ => []

/-- What is executed on a connection that goes on with this session. -/
def executed (o : Outside) (s : Session) (reads : List Bytes) : List (Request Command) :=
  (emit (Connection.receive o) ⟨s, [], .next⟩ reads).2.flatMap Event.executed

/-- The session that goes on over TLS, if the last of the reads in cleartext ends in a STARTTLS that
is executed. -/
def Connection.upgrade (o : Outside) (maxRequestSize : ℕ) (reads : List Bytes) (last : Bytes) :
    Option Session :=
  let c := (emit (Connection.receive o) (Connection.new maxRequestSize false) reads).1
  if c.flow = .next ∧ c.session.isTls = false ∧ (c.ingest o last).1.flow = .upgrade then
    some (c.receive o last).1.session
  else none

/-- Nothing is left of the cleartext part but a word UID. -/
def Untouched (maxRequestSize : ℕ) (s : Session) : Prop :=
  ∃ isUid, s.receiver =
    { (Session.new maxRequestSize true).receiver with state := .command isUid }

/-- Sessions that are alike execute the same. -/
theorem Session.Like.executed {s s' : Session} (h : s.Like s') (o : Outside)
    (reads : List Bytes) : executed o s reads = executed o s' reads := by
  have hlike : Connection.Like ⟨s, [], .next⟩ ⟨s', [], .next⟩ := ⟨h, rfl, rfl⟩
  unfold ManageSieve.executed
  rw [(emit_related Connection.Like (fun _ _ bytes h ↦ h.receive bytes) hlike reads).2]

/-- The receiver of a connection is sound, and in cleartext no credentials have been presented. -/
structure Connection.Plain (maxRequestSize : ℕ) (c : Connection) : Prop where
  sound : c.session.receiver.Sound
  reset : c.session.receiver.reset = (Session.new maxRequestSize true).receiver
  state : c.session.isTls = false → c.session.state = .notAuthenticated 0

/-- A handler leaves the receiver, or sets it up for a parameter. -/
theorem Session.dispatch_receiver {base64 : String → Option Bytes} {s : Session}
    {request : Request Command} {answer : Answer} :
    (s.dispatch base64 request answer).session.receiver = s.receiver ∨
      ∃ request', (s.dispatch base64 request answer).session.receiver =
        { s.receiver with request := request', state := .argument Ascii.space } := by
  have hclient : (s.withClient request).session.receiver = s.receiver := by
    unfold withClient
    split <;> rfl
  have hscript : (s.onScript request).session.receiver = s.receiver := by
    unfold onScript
    split
    · exact hclient
    · rfl
  have hauthenticate (credentials : Credentials) :
      (s.authenticate request answer credentials).session.receiver = s.receiver := by
    unfold authenticate
    repeat' split
    all_goals rfl
  unfold dispatch
  split
  case h_2 =>
    unfold handlePutscript
    split
    · exact .inl hclient
    · exact .inl rfl
  case h_6 =>
    unfold handleRenamescript
    repeat' split
    · exact .inl hclient
    · exact .inl rfl
    · exact .inl rfl
  case h_7 =>
    unfold handleCheckscript
    split
    · exact .inl hclient
    · exact .inl rfl
  case h_10 =>
    unfold handleAuthenticate
    repeat' split
    · exact .inl (hauthenticate _)
    · exact .inl rfl
    · exact .inr ⟨_, rfl⟩
    · exact .inl rfl
    · exact .inl rfl
  all_goals first
    | exact .inl hclient
    | exact .inl hscript
    | exact .inl rfl

/-- A handler leaves a sound receiver. -/
theorem Session.sound_dispatch {base64 : String → Option Bytes} {s : Session}
    {request : Request Command} {answer : Answer} (h : s.receiver.Sound) :
    (s.dispatch base64 request answer).session.receiver.Sound ∧
      (s.dispatch base64 request answer).session.receiver.reset = s.receiver.reset := by
  have hreceiver : (s.dispatch base64 request answer).session.receiver = s.receiver ∨ _ :=
    dispatch_receiver
  rcases hreceiver with hreceiver | ⟨request', hreceiver⟩
  · rw [hreceiver]
    exact ⟨h, rfl⟩
  · rw [hreceiver]
    exact ⟨h.of_inArguments rfl rfl, rfl⟩

/-- What a handler does to the rest of the session. -/
theorem state_of_effect {base64 : String → Option Bytes} {s : Session} {request : Request Command}
    {answer : Answer} {handled : Handled} (h : Effect base64 s request answer handled) :
    handled.session.isTls = s.isTls ∧ (request.command = .authenticate ∨
      handled.session.state = s.state ∨ handled.session.state = .notAuthenticated 0) := by
  cases h with
  | stay hstate htls => exact ⟨htls, .inr (.inl hstate)⟩
  | accepted hc => exact ⟨rfl, .inl (presented_authenticate hc)⟩
  | failed hc => exact ⟨rfl, .inl (presented_authenticate hc)⟩
  | unauthenticated => exact ⟨rfl, .inr (.inr rfl)⟩
  | counterless => exact ⟨rfl, .inr (.inl rfl)⟩
  | clientless => exact ⟨rfl, .inr (.inl rfl)⟩

namespace Connection

variable {o : Outside} {maxRequestSize : ℕ} {c : Connection}

/-- A call of a read that came in over TLS, or is no AUTHENTICATE. -/
theorem Plain.call (h : c.Plain maxRequestSize) {request : Request Command}
    (hrequest : request.command = .authenticate → c.session.isTls = true) :
    (c.call o request).1.Plain maxRequestSize ∧
      (c.call o request).1.session.isTls = c.session.isTls := by
  unfold Connection.call
  split
  · obtain ⟨htls, hstate⟩ := state_of_effect
      (Session.dispatch_effect : Effect o.base64 c.session request (o.answer c.handled request) _)
    obtain ⟨hsound, hreset⟩ :
        (c.session.dispatch o.base64 request (o.answer c.handled request)).session.receiver.Sound ∧
          _ := Session.sound_dispatch h.sound
    refine ⟨⟨hsound, hreset.trans h.reset, fun hplain ↦ ?_⟩, htls⟩
    have hplain : c.session.isTls = false := htls.symm.trans hplain
    rcases hstate with hc | hstate | hstate
    · simp [hrequest hc] at hplain
    · exact hstate.trans (h.state hplain)
    · exact hstate
  · exact ⟨h, rfl⟩

theorem Plain.ingest (h : c.Plain maxRequestSize) (bytes : Bytes) :
    (c.ingest o bytes).1.Plain maxRequestSize ∧
      (c.ingest o bytes).1.session.isTls = c.session.isTls := by
  have hread : (c.withReceiver (c.collect bytes).receiver).Plain maxRequestSize := by
    obtain ⟨hsound, hreset⟩ :=
      h.sound.collect (isAllowed c.session.state c.session.isTls) bytes
    exact ⟨hsound, hreset.trans h.reset, h.state⟩
  have hadmissible : ∀ request ∈ (c.collect bytes).requests,
      request.command = .authenticate → c.session.isTls = true :=
    fun request hmem hc ↦ ((admissible_of_mem_collect hmem).fresh hc).2
  simp only [Connection.ingest, emit_fst]
  refine exec_induct (C := fun _ request ↦ request.command = .authenticate →
    c.session.isTls = true) (fun c' : Connection ↦
      c'.Plain maxRequestSize ∧ c'.session.isTls = c.session.isTls)
    ⟨hread, rfl⟩ (fun c' request ⟨hplain, htls⟩ hrequest ↦ ?_)
    (along_of_forall fun request hmem _ ↦ hadmissible request hmem)
  obtain ⟨hplain', htls'⟩ := hplain.call (o := o) (htls ▸ hrequest)
  exact ⟨hplain', htls'.trans htls⟩

theorem Plain.upgraded (h : c.Plain maxRequestSize) : c.upgraded.Plain maxRequestSize := by
  unfold Connection.upgraded
  split
  · exact ⟨h.sound, h.reset, by simp⟩
  · exact h

theorem Plain.receive (h : c.Plain maxRequestSize) (bytes : Bytes) :
    (c.receive o bytes).1.Plain maxRequestSize := by
  unfold Connection.receive
  split
  · exact (h.ingest bytes).1.upgraded
  · exact h

/-- **Every connection** has a sound receiver, and no credentials from cleartext. -/
theorem plain_receives (o : Outside) (maxRequestSize : ℕ) (isTls : Bool) (reads : List Bytes) :
    (emit (Connection.receive o) (new maxRequestSize isTls) reads).1.Plain maxRequestSize := by
  rw [emit_fst]
  refine exec_induct (C := fun _ _ ↦ True) (Plain maxRequestSize) ?_
    (fun c bytes h _ ↦ h.receive bytes) (along_of_forall fun _ _ _ ↦ trivial)
  exact ⟨⟨.inr rfl, by simp [new, Session.new, Receiver.withStartState],
    by simp [new, Session.new, Receiver.withStartState], fun _ _ ↦ .inr rfl⟩, rfl, fun _ ↦ rfl⟩

/-- A session at the beginning of TLS. -/
theorem plain_upgrade {o : Outside} {maxRequestSize : ℕ} {reads : List Bytes} {last : Bytes}
    {s : Session} (h : Connection.upgrade o maxRequestSize reads last = some s) :
    s.isTls = true ∧ s.state = .notAuthenticated 0 ∧ s.receiver.Sound ∧
      s.receiver.reset = (Session.new maxRequestSize true).receiver := by
  have hplain := plain_receives o maxRequestSize false reads
  simp only [Connection.upgrade] at h
  split at h
  · next hflow =>
      obtain rfl := Option.some.inj h
      obtain ⟨hnext, hclear, hupgrade⟩ := hflow
      obtain ⟨hingest, htls⟩ := hplain.ingest (o := o) last
      simp only [Connection.receive, hnext, if_true, upgraded, hupgrade]
      exact ⟨trivial, hingest.state (htls.trans hclear), hingest.sound, hingest.reset⟩
  · cases h

end Connection

end ImapToJmap.ManageSieve
