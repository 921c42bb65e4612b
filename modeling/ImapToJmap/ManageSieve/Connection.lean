import ImapToJmap.ManageSieve.Client
import ImapToJmap.Run.Output

/-!
# The loop of a ManageSieve connection

`Session::ingest` of `managesieve/client.rs` and the loops of `managesieve/connection.rs`, and the
same analysis of admission as for IMAP (`Imap/Gate.lean`): what a call is admitted for is there when
it is handled, unless it stands in the wake of a call of its read that has taken it away.
-/

namespace ImapToJmap.ManageSieve

open Run

/-- What a connection meets outside: `base64::decode`, and the answers to AUTHENTICATE.  The list
holds the requests handled before, the latest first. -/
structure Outside where
  base64 : String → Option Bytes
  answer : List (Request Command) → Request Command → Answer

/-- A connection.  `flow` is `next` as long as it is read from. -/
structure Connection where
  session : Session
  handled : List (Request Command)
  flow : Flow

/-- A connection that has just been accepted. -/
def Connection.new (maxRequestSize : ℕ) (isTls : Bool) : Connection :=
  ⟨.new maxRequestSize isTls, [], .next⟩

/-- What `ingest` writes in its first loop. -/
def Event.ofRefusal : Refusal Command StatusResponse → Event
  | .refused request response => .refuse request response
  | .unparsed response => .respond (.no response.message)

namespace Connection

variable (o : Outside)

/-- A turn of the second loop of `ingest`, unless the loop has been left. -/
def call (c : Connection) (request : Request Command) : Connection × List Event :=
  if c.flow = .next then
    let handled := c.session.dispatch o.base64 request (o.answer c.handled request)
    (⟨handled.session, request :: c.handled, handled.flow⟩, .call request :: handled.events)
  else (c, [])

/-- The first loop of `ingest`. -/
def collect (c : Connection) (bytes : Bytes) : Admitted Command StatusResponse :=
  c.session.receiver.collect (isAllowed c.session.state c.session.isTls) bytes

/-- The connection with another receiver. -/
def withReceiver (c : Connection) (r : Receiver Command) : Connection :=
  { c with session := { c.session with receiver := r } }

/-- The go-ahead for a literal is written if the second loop has run to its end. -/
def goAhead (c : Connection) (needsLiteral : Option ℕ) : List Event :=
  match needsLiteral with
  | some size => if c.flow = .next then [.goAhead size] else []
  | none => []

/-- `Session::ingest` -/
def ingest (c : Connection) (bytes : Bytes) : Connection × List Event :=
  let admitted := c.collect bytes
  let served := emit (call o) (c.withReceiver admitted.receiver) admitted.requests
  (served.1,
    admitted.refusals.map .ofRefusal ++ served.2 ++ served.1.goAhead admitted.needsLiteral)

/-- `handle_conn_tls` goes on where `handle_conn` has seen the upgrade. -/
def upgraded (c : Connection) : Connection :=
  match c.flow with
  | .upgrade => { c with session := { c.session with isTls := true }, flow := .next }
  | _ => c

/-- A read, in the loop of `handle_conn` or `handle_conn_tls`. -/
def receive (c : Connection) (bytes : Bytes) : Connection × List Event :=
  if c.flow = .next then
    let ingested := c.ingest o bytes
    (ingested.1.upgraded, ingested.2)
  else (c, [])

/-- The trace of a run. -/
def trace (c : Connection) (reads : List Bytes) : List Event := (emit (receive o) c reads).2

end Connection

/-! ## Admission -/

/-- The commands whose handlers call `client`. -/
def usesClient : Command → Bool
  | .putScript | .listScripts | .setActive | .getScript | .deleteScript | .renameScript
  | .checkScript => true
  | _ => false

/-- The credentials that an AUTHENTICATE presents. -/
def presented (base64 : String → Option Bytes) (request : Request Command) : Option Credentials :=
  match request.command with
  | .authenticate => do
      let (mechanism, params) ← parseAuthenticate request.tokens
      if mechanism = .plain ∨ mechanism = .oAuthBearer then
        challengeCredentials base64 mechanism params
      else none
  | _ => none

theorem presented_authenticate {base64 : String → Option Bytes} {request : Request Command}
    {credentials : Credentials} (h : presented base64 request = some credentials) :
    request.command = .authenticate := by
  rw [presented] at h
  split at h
  · next hc => exact hc
  · cases h

/-- What is known of the state in which a command is admitted. -/
structure Admissible (state : State) (isTls : Bool) (command : Command) : Prop where
  client : usesClient command = true → state.client.isSome = true
  fresh : command = .authenticate → state.client = none ∧ isTls = true
  plain : command = .startTls → isTls = false

theorem isAllowed_eq {state : State} {isTls : Bool} {request request' : Request Command}
    (h : isAllowed state isTls request = .ok request') :
    request' = request ∧ Admissible state isTls request.command := by
  cases hc : request.command <;> cases state <;>
    simp only [isAllowed, hc, reduceCtorEq] at h <;>
    first
    | (obtain rfl := Except.ok.inj h
       refine ⟨rfl, ?_, ?_, ?_⟩ <;> simp [usesClient, State.client])
    | (split at h
       · next hmore =>
           obtain rfl := Except.ok.inj h
           refine ⟨rfl, ?_, ?_, ?_⟩ <;> simp_all [usesClient, State.client]
       · cases h)

/-- The requests of a read that are admitted are admissible before the read. -/
theorem Connection.admissible_of_mem_collect {c : Connection} {bytes : Bytes}
    {request : Request Command} (h : request ∈ (c.collect bytes).requests) :
    Admissible c.session.state c.session.isTls request.command := by
  obtain ⟨request', hallowed⟩ := Receiver.allowed_of_mem_collect _ h
  obtain ⟨hrequest, hadmissible⟩ := isAllowed_eq hallowed
  rwa [← hrequest] at hadmissible

/-- The ways in which a handler call can end. -/
inductive Effect (base64 : String → Option Bytes) (s : Session) (request : Request Command)
    (answer : Answer) : Handled → Prop
  | stay {s' : Session} {flow : Flow} : s'.state = s.state → s'.isTls = s.isTls → flow ≠ .panic →
      request.command ≠ .unauthenticate → Effect base64 s request answer ⟨s', [], flow⟩
  | accepted {credentials : Credentials} :
      presented base64 request = some credentials → answer.connected = true →
      answer.sieve = true → Effect base64 s request answer
        ⟨{ s with state := .authenticated credentials }, [], .next⟩
  | failed {credentials : Credentials} {authFailures : ℕ} :
      presented base64 request = some credentials → s.state = .notAuthenticated authFailures →
      Effect base64 s request answer
        ⟨{ s with state := .notAuthenticated (authFailures + 1) }, [], .next⟩
  | unauthenticated : request.command = .unauthenticate →
      Effect base64 s request answer ⟨{ s with state := .notAuthenticated 0 }, [], .next⟩
  | /-- `auth_failures` is `unreachable!()`. -/
    counterless {credentials : Credentials} :
      presented base64 request = some credentials → answer.connected = false →
      s.state.client.isSome = true →
      Effect base64 s request answer ⟨s, [.panic request.command], .panic⟩
  | /-- `client` is `unreachable!()`. -/
    clientless : usesClient request.command = true → s.state.client = none →
      Effect base64 s request answer ⟨s, [.panic request.command], .panic⟩

namespace Session

variable {base64 : String → Option Bytes} {s : Session} {request : Request Command}
  {answer : Answer}

theorem effect_next (hc : request.command ≠ .unauthenticate) :
    Effect base64 s request answer s.next := .stay rfl rfl (by simp) hc

theorem effect_withClient (hc : usesClient request.command = true) :
    Effect base64 s request answer (s.withClient request) := by
  unfold withClient
  split
  · exact effect_next fun h ↦ by simp [h, usesClient] at hc
  · next hnone => exact .clientless hc hnone

theorem effect_handleAuthenticate (hc : request.command = .authenticate) :
    Effect base64 s request answer (s.handleAuthenticate base64 request answer) := by
  have stay : Effect base64 s request answer s.next := effect_next (by simp [hc])
  rw [handleAuthenticate]
  split
  · next mechanism params hparse =>
      split
      · next hmechanism =>
          split
          · split
            · next credentials hcredentials =>
                have hpresented : presented base64 request = some credentials := by
                  simp [presented, hc, hparse, hmechanism, hcredentials]
                rw [authenticate]
                split
                · next hconnected =>
                    split
                    · next hsieve => exact .accepted hpresented hconnected hsieve
                    · exact .stay rfl rfl (by simp) (by simp [hc])
                · next hconnected =>
                    split
                    · next hs =>
                        split
                        · exact .failed hpresented hs
                        · exact .stay rfl rfl (by simp) (by simp [hc])
                    · next hs =>
                        refine .counterless hpresented (by simpa using hconnected) ?_
                        cases hs' : s.state with
                        | notAuthenticated n => exact absurd hs' (hs n)
                        | authenticated => rfl
            · exact stay
          · exact .stay rfl rfl (by simp) (by simp [hc])
      · exact stay
  · exact stay

/-- **Every handler call ends in one of these ways.** -/
theorem dispatch_effect :
    Effect base64 s request answer (s.dispatch base64 request answer) := by
  cases hc : request.command
  case authenticate => simpa only [dispatch, hc] using effect_handleAuthenticate hc
  case unauthenticate => simpa only [dispatch, hc] using .unauthenticated hc
  case logout | startTls | haveSpace | capability | noop =>
    simp only [dispatch, hc]
    exact .stay rfl rfl (by decide) (by simp [hc])
  all_goals
    have client : Effect base64 s request answer (s.withClient request) :=
      effect_withClient (by simp [usesClient, hc])
    have stay : Effect base64 s request answer s.next := effect_next (by simp [hc])
    simp only [dispatch, hc]
  case listScripts => exact client
  case putScript =>
    unfold handlePutscript
    split
    · exact client
    · exact stay
  case setActive | getScript | deleteScript =>
    simp only [handleSetactive, handleGetscript, handleDeletescript, onScript]
    split
    · exact client
    · exact stay
  case renameScript =>
    unfold handleRenamescript
    split
    · split
      · exact client
      · exact stay
    · exact stay
  case checkScript =>
    unfold handleCheckscript
    split
    · exact client
    · exact stay

end Session

end ImapToJmap.ManageSieve
