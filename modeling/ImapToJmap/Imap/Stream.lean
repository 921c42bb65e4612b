import ImapToJmap.Imap.Gate
import ImapToJmap.Imap.Upgrade

/-!
# The byte stream of a connection

A client sends a stream of bytes, and the network splits it into reads.  The receiver goes on
where the last read has left it, and what is around it does not: a read is admitted against one
state, the rest of a read is abandoned behind a parse error, and while idling only the first bytes
of a read are looked at.

`Stream` is the connection that takes the stream itself: byte by byte, and line by line while it is
idling.  `Tidy` and `Quiet` say of a read that the connection takes it like the stream; then it does
not matter how the stream is split (`outcomes_split`).
-/

namespace ImapToJmap.Imap

open Run

/-! ## Outcomes -/

/-- What a client sees of its requests: that one is executed (and in which state), refused or not
understood, and the end of an IDLE. -/
inductive Outcome where
  | executed (request : Request Command) (state : State) (isTls : Bool)
  | refused (request : Request Command) (response : StatusResponse)
  | unparsed (response : StatusResponse)
  | idleDone (tag : String)

def Event.outcomes : Event → List Outcome
  | .call handling state isTls => handling.requests.map (.executed · state isTls)
  | .refuse request response => [.refused request response]
  | .respond response => [.unparsed response]
  | .idleDone tag => [.idleDone tag]
  | _ => []

def outcomes (events : List Event) : List Outcome := events.flatMap Event.outcomes

@[simp] theorem outcomes_nil : outcomes [] = [] := rfl

@[simp] theorem outcomes_append (events events' : List Event) :
    outcomes (events ++ events') = outcomes events ++ outcomes events' := List.flatMap_append

/-- The request that has been answered. -/
def Outcome.answered : Outcome → Option (Request Command)
  | .executed request _ _ => some request
  | .refused request _ => some request
  | _ => none

/-! ## The stream -/

/-- A connection that takes a stream of bytes; `line` is what it has of a line while idling. -/
structure Stream where
  connection : Connection
  line : Bytes

namespace Stream

variable (o : Outside)

/-- The next byte of a stream. -/
def step (st : Stream) (ch : UInt8) : Stream × List Event :=
  match st.connection.session.idle with
  | none =>
      let received := st.connection.receive o [ch]
      (⟨received.1, st.line⟩, received.2)
  | some _ =>
      if ch = Ascii.lf then
        let received := st.connection.receive o (st.line ++ [ch])
        (⟨received.1, []⟩, received.2)
      else (⟨st.connection, st.line ++ [ch]⟩, [])

/-- The request that a byte completes. -/
def completed (st : Stream) (ch : UInt8) : List (Request Command) :=
  if st.connection.flow = .next ∧ st.connection.session.idle = none then
    match st.connection.session.receiver.step ch with
    | .error (_, .ok request) => [request]
    | _ => []
  else []

/-- The requests that are complete in a stream. -/
def requests (st : Stream) (bytes : Bytes) : List (Request Command) :=
  (emit (fun st ch ↦ ((step o st ch).1, st.completed ch)) st bytes).2

end Stream

/-! ## Reads that are taken like the stream -/

namespace Connection

variable (o : Outside)

/-- What is behind a request is not read like what is before it: the connection is idling, handed
over to TLS, or reads the parameter of an AUTHENTICATE. -/
def Diverts (c : Connection) (request : Request Command) : Prop :=
  c.session.idle.isSome = true ∨ c.flow = .upgrade ∨ (continuation request).isSome = true

instance (c : Connection) (request : Request Command) : Decidable (c.Diverts request) := by
  unfold Diverts; infer_instance

/-- A read of a connection that is not idling.  Every request is admitted or refused as it would be
in its turn; no refusal and no parse error stands behind an executed request; nothing stands behind
a parse error, a literal that waits for the go-ahead, or a request that diverts what is behind it.
`allowed` is the admission before the read, and `served` that a request has been executed. -/
def Tidy (allowed : Request Command → Except StatusResponse (Request Command)) (served : Bool)
    (c : Connection) : Bytes → Prop
  | [] => True
  | ch :: bytes =>
      match c.session.receiver.step ch with
      | .ok r => Tidy allowed served (c.withReceiver r) bytes
      | .error (r, .ok request) =>
          allowed request = isAllowed c.session.state c.session.isTls request ∧
            match allowed request with
            | .error _ => served = false ∧ Tidy allowed served (c.withReceiver r) bytes
            | .ok request =>
                let after := ((c.withReceiver r).call o ⟨request, []⟩).1
                if after.Diverts request then bytes = []
                else if after.flow = .next then Tidy allowed true after bytes
                else (r.collect allowed bytes).refusals = []
      | .error (_, .error (.error _)) => served = false ∧ bytes = []
      | .error (_, .error _) => bytes = []

instance decidableTidy
    (allowed : Request Command → Except StatusResponse (Request Command)) :
    (served : Bool) → (c : Connection) → (bytes : Bytes) →
      Decidable (c.Tidy o allowed served bytes)
  | _, _, [] => .isTrue trivial
  | served, c, ch :: bytes => by
      have behind (served : Bool) (c : Connection) : Decidable (c.Tidy o allowed served bytes) :=
        decidableTidy allowed served c bytes
      unfold Tidy
      exact
        match c.session.receiver.step ch with
        | .ok r => behind served (c.withReceiver r)
        | .error (r, .ok request) =>
            haveI : Decidable (match allowed request with
                | .error _ => served = false ∧ Tidy o allowed served (c.withReceiver r) bytes
                | .ok request =>
                    let after := ((c.withReceiver r).call o ⟨request, []⟩).1
                    if after.Diverts request then bytes = []
                    else if after.flow = .next then Tidy o allowed true after bytes
                    else (r.collect allowed bytes).refusals = []) :=
              match allowed request with
              | .error _ => inferInstance
              | .ok request => inferInstance
            inferInstance
        | .error (_, .error (.error _)) => inferInstance
        | .error (_, .error .needsMoreData) => inferInstance
        | .error (_, .error (.needsLiteral _)) => inferInstance

/-- No line of a read that goes on with `line` begins with DONE. -/
def Undone (line : Bytes) : Bytes → Prop
  | [] => True
  | ch :: bytes =>
      if ch = Ascii.lf then
        (asBytes "DONE").isPrefixOf (line ++ [ch]) = false ∧ Undone [] bytes
      else Undone (line ++ [ch]) bytes

instance decidableUndone : (line bytes : Bytes) → Decidable (Undone line bytes)
  | _, [] => .isTrue trivial
  | line, ch :: bytes => by
      have behind (line : Bytes) : Decidable (Undone line bytes) := decidableUndone line bytes
      unfold Undone
      infer_instance

/-- What a read leaves of a line. -/
def unfinished (line : Bytes) : Bytes → Bytes
  | [] => line
  | ch :: bytes => if ch = Ascii.lf then unfinished [] bytes else unfinished (line ++ [ch]) bytes

/-- A read of a connection that is idling: a single line that begins with DONE, or no line does, and
neither does the read. -/
def Quiet (line bytes : Bytes) : Prop :=
  if (asBytes "DONE").isPrefixOf bytes then
    line = [] ∧ Ascii.lf ∉ bytes.dropLast ∧ bytes.getLast? = some Ascii.lf
  else Undone line bytes

instance (line bytes : Bytes) : Decidable (Quiet line bytes) := by
  unfold Quiet; infer_instance

/-- The connection takes a read like the stream. -/
def Faithful (c : Connection) (line bytes : Bytes) : Prop :=
  c.flow = .next →
    match c.session.idle with
    | none => c.Tidy o (isAllowed c.session.state c.session.isTls) false bytes
    | some _ => Quiet line bytes

instance (c : Connection) (line bytes : Bytes) : Decidable (c.Faithful o line bytes) := by
  unfold Faithful
  cases c.session.idle <;> infer_instance

/-- What a read leaves of a line, while idling. -/
def line (c : Connection) (line bytes : Bytes) : Bytes :=
  match c.session.idle with
  | none => []
  | some _ => if (asBytes "DONE").isPrefixOf bytes then [] else unfinished line bytes

end Connection

end ImapToJmap.Imap
