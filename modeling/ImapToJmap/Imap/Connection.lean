import ImapToJmap.Imap.Client
import ImapToJmap.Run.Output

/-!
# The loop of an IMAP connection

`Session::ingest` and `core/connection.rs`.  A connection is a machine whose inputs are the reads,
and the steps of the tasks that its handlers have spawned; its output is the trace of events.

The answers of the outside world may depend on all the requests that were handled before and on the
version in use (which decides how mailbox names are decoded).
-/

namespace ImapToJmap.Imap

/-- What a connection meets outside: `base64::decode`, and the answers to a call.  The list holds
the requests handled before, the latest first. -/
structure Outside where
  base64 : String → Option Bytes
  answer : ProtocolVersion → List (Request Command) → Call → Answer

/-- A connection.  `flow` is `next` as long as it is read from. -/
structure Connection where
  session : Session
  handled : List (Request Command)
  tasks : List Task
  flow : Flow

/-- A connection that has just been accepted. -/
def Connection.new (maxRequestSize : ℕ) (isTls : Bool) : Connection :=
  ⟨.new maxRequestSize isTls, [], [], .next⟩

/-- `group_requests`, over all the requests of a read: a CREATE and the ones right behind it are
handled by one call, and so it is with DELETE. -/
def calls : List (Request Command) → List Call
  | [] => []
  | request :: requests =>
      match calls requests with
      | [] => [⟨request, []⟩]
      | call :: later =>
          if (request.command = .create ∨ request.command = .delete) ∧
              call.command = request.command then
            ⟨request, call.request :: call.more⟩ :: later
          else ⟨request, []⟩ :: call :: later

/-- The requests of a call. -/
def Call.requests (call : Call) : List (Request Command) := call.request :: call.more

/-- What `ingest` writes in its first loop. -/
def Event.ofRefusal : Refusal Command StatusResponse → Event
  | .refused request response => .refuse request response
  | .unparsed response => .respond response

namespace Connection

variable (o : Outside)

/-- The answers to a call. -/
def answer (c : Connection) (call : Call) : Answer := o.answer c.session.version c.handled call

/-- A turn of the second loop of `ingest`, unless the loop has been left. -/
def call (c : Connection) (call : Call) : Connection × List Event :=
  if c.flow = .next then
    let handled := c.session.handle o.base64 call (c.answer o call)
    (⟨handled.session, call.requests.reverse ++ c.handled, c.tasks ++ handled.tasks,
      handled.flow⟩, handled.events)
  else (c, [])

/-- The first loop of `ingest`. -/
def collect (c : Connection) (bytes : Bytes) : Admitted Command StatusResponse :=
  c.session.receiver.collect (isAllowed c.session.state c.session.isTls) bytes

/-- The connection with another receiver. -/
def withReceiver (c : Connection) (r : Receiver Command) : Connection :=
  { c with session := { c.session with receiver := r } }

/-- The go-ahead for a literal is written if the second loop has run to its end. -/
def goAhead (c : Connection) (needsLiteral : Option ℕ) : List Event :=
  match needsLiteral with
  | some size => if c.flow = .next then [.goAhead size] else []
  | none => []

/-- `Session::ingest` -/
def ingest (c : Connection) (bytes : Bytes) : Connection × List Event :=
  let admitted := c.collect bytes
  let served := Run.emit (call o) (c.withReceiver admitted.receiver) (calls admitted.requests)
  (served.1,
    admitted.refusals.map .ofRefusal ++ served.2 ++ served.1.goAhead admitted.needsLiteral)

/-- `handle_conn_tls` goes on where `handle_conn` has seen the upgrade. -/
def upgraded (c : Connection) : Connection :=
  match c.flow with
  | .upgrade => { c with session := { c.session with isTls := true }, flow := .next }
  | _ => c

theorem upgraded_state (c : Connection) : c.upgraded.session.state = c.session.state := by
  unfold upgraded
  split <;> rfl

theorem upgraded_tasks (c : Connection) : c.upgraded.tasks = c.tasks := by
  unfold upgraded
  split <;> rfl

/-- A read, in the loop of `handle_conn` or `handle_conn_tls`. -/
def receive (c : Connection) (bytes : Bytes) : Connection × List Event :=
  if c.flow = .next then
    match c.session.idle with
    | none =>
        let ingested := c.ingest o bytes
        (ingested.1.upgraded, ingested.2)
    | some tag =>
        if (asBytes "DONE").isPrefixOf bytes then
          ({ c with session := { c.session with idle := none } }, [.idleDone tag])
        else (c, [])
  else (c, [])

/-- What happens to a connection: a read, or a task changes some messages, or has done so. -/
inductive Input where
  | read (bytes : Bytes)
  | work (task : ℕ)
  | finish (task : ℕ)

/-- One step of a connection and its tasks. -/
def step (c : Connection) : Input → Connection × List Event
  | .read bytes => c.receive o bytes
  | .work task =>
      match c.tasks[task]? with
      | some task => (c, [.change task.change task.mailbox c.session.state])
      | none => (c, [])
  | .finish task => ({ c with tasks := c.tasks.eraseIdx task }, [])

/-- The trace of a run. -/
def trace (c : Connection) (inputs : List Input) : List Event := (Run.emit (step o) c inputs).2

end Connection

end ImapToJmap.Imap
