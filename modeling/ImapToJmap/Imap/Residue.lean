import ImapToJmap.Core.RoundTrip
import ImapToJmap.Imap.Gate
import ImapToJmap.Imap.Upgrade

/-!
# What is left of the cleartext part shows

A session that goes on over TLS with anything left of the cleartext part is told from a new one by
what one or a few lines get executed: a request that is under way, or an IDLE, by a NOOP; a session
by NAMESPACE; failed authentications by the LOGIN that the connection is dropped before; IMAP4rev2
by a mailbox whose name is encoded for IMAP4rev1.
-/

namespace ImapToJmap.Imap

open Run

/-! ## Lines -/

/-- A line with a command and its arguments. -/
def line (word : String) (items : List Item) : Bytes :=
  renderRequest "x" false (asBytes word) items

/-- A line is collected by a receiver that has no request under way. -/
theorem collect_line {maxRequestSize : ℕ} {word : String} {command : Command} {items : List Item}
    (hword : Command.parse ((asBytes word).map toAsciiUppercase) false = some command)
    (hitems : ∀ item ∈ items, item.WellFormed command) (hu32 : ∀ item ∈ items, item.HasU32Length)
    (hsize : (items.map Item.size).sum = 0)
    (isAllowed : Request Command → Except StatusResponse (Request Command)) :
    (Receiver.withMaxRequestSize maxRequestSize).collect isAllowed (line word items) =
      match isAllowed ⟨"x", command, items.map Item.token⟩ with
      | .ok request => ⟨[request], [], .withMaxRequestSize maxRequestSize, none⟩
      | .error response =>
          ⟨[], [.refused ⟨"x", command, items.map Item.token⟩ response],
            .withMaxRequestSize maxRequestSize, none⟩ := by
  have htag : asBytes "x" ≠ [] := by decide +kernel
  have hname := Receiver.reads_name maxRequestSize htag (by decide +kernel)
    (by decide +kernel) hword
  have hrest := (Receiver.between_word maxRequestSize 0
    { (default : Request Command) with tag := "x" } hword).items items hitems hu32 (by omega) []
  have hparse : (Receiver.withMaxRequestSize maxRequestSize).parse (line word items) =
      (.ok ⟨"x", command, items.map Item.token⟩, .withMaxRequestSize maxRequestSize, []) := by
    rw [List.append_nil] at hrest
    rw [line, renderRequest, hname, hrest]
    rfl
  rw [Receiver.collect_eq, hparse]
  simp only [Receiver.collect]
  cases isAllowed ⟨"x", command, items.map Item.token⟩ <;> rfl

/-- NOOP. -/
abbrev noopLine : Bytes := line "NOOP" []

theorem noopLine_eq : noopLine = (120 :: 32 :: [78, 79, 79, 80, 13]) ++ [Ascii.lf] := by
  decide

/-- No command has a name that ends in an X. -/
theorem parse_append_x (word : Bytes) (isUid : Bool) :
    Command.parse (word ++ [88]) isUid = none := by
  have hlast : ∀ e ∈ Command.names, (asBytes e.1).getLast? ≠ some 88 := by decide
  refine Option.map_eq_none_iff.mpr (List.find?_eq_none.mpr fun e he heq ↦ hlast e he ?_)
  rw [of_decide_eq_true heq, List.getLast?_concat]

theorem not_uid_append_x (word : Bytes) :
    eqIgnoreAsciiCase (word ++ [88]) (asBytes "UID") = false := by
  rw [eqIgnoreAsciiCase, beq_eq_false_iff_ne]
  intro h
  have hlast := congrArg List.getLast? h
  have huid : ((asBytes "UID").map toAsciiUppercase).getLast? = some 68 := by decide
  rw [List.map_append, List.map_singleton, List.getLast?_concat, huid] at hlast
  revert hlast
  decide

/-- The request of a NOOP. -/
def noopRequest : Request Command := ⟨"x", .noop, []⟩

section Noop

variable {r : Receiver Command} {state : State} {isTls : Bool}

/-- What a receiver has of an argument goes into the request. -/
theorem noop_not_mem_of_marked (h : r.Marked) {line : Bytes} (hline : Ascii.lf ∉ line) :
    noopRequest ∉ (r.collect (isAllowed state isTls) (line ++ [Ascii.lf])).requests := by
  intro hmem
  obtain ⟨request, hallowed, htokens⟩ := h.collect_line hline _ hmem
  obtain ⟨rfl, -⟩ := isAllowed_eq hallowed
  exact htokens rfl

/-- What a receiver has of a tag makes it longer than `x`. -/
theorem noop_not_mem_of_tag (hr : r.state = .tag) (hbuf : r.buf ≠ []) :
    noopRequest ∉ (r.collect (isAllowed state isTls) noopLine).requests := by
  rw [noopLine_eq, List.cons_append]
  by_cases hlen : r.buf.length < 128
  · have hx : r.step 120 = .ok { r with buf := r.buf ++ [120] } := by
      simp [Receiver.step, hr, Receiver.stepTag, isAsciiWhitespace, hlen]
    rw [Receiver.collect_of_ok hx, List.cons_append]
    cases htag : fromUtf8 (r.buf ++ [120]) with
    | none =>
        have hspace : ({ r with buf := r.buf ++ [120] } : Receiver Command).step 32 =
            Receiver.errorReset { r with buf := [] } "Tag is not a valid UTF-8 string." := by
          simp [Receiver.step, hr, Receiver.stepTag, htag]
        rw [Receiver.collect, hspace]
        exact List.not_mem_nil
    | some tag =>
        have hspace : ({ r with buf := r.buf ++ [120] } : Receiver Command).step 32 =
            .ok { r with
              request := { r.request with tag := tag }
              buf := []
              state := .command false } := by
          simp [Receiver.step, hr, Receiver.stepTag, htag]
        have htagged : Receiver.Tagged tag ({ r with
            request := { r.request with tag := tag }
            buf := []
            state := .command false } : Receiver Command) := ⟨rfl, .inr ⟨false, rfl⟩⟩
        rw [Receiver.collect_of_ok hspace]
        intro hmem
        obtain ⟨request, hallowed, heq⟩ := htagged.collect_line (by decide) _ hmem
        obtain ⟨rfl, -⟩ := isAllowed_eq hallowed
        obtain rfl : "x" = tag := heq
        have hbytes := asBytes_of_fromUtf8 htag
        have hx : asBytes "x" = [120] := by decide
        rw [hx, List.singleton_eq_append_iff] at hbytes
        simp_all
  · have hx : r.step 120 = r.errorReset "Tag too long." := by
      simp [Receiver.step, hr, Receiver.stepTag, isAsciiWhitespace, hlen]
    rw [Receiver.collect_of_errorReset hx]
    exact List.not_mem_nil

/-- Behind what a receiver has of a command name, the `x` ends a name that no command has. -/
theorem noop_not_mem_of_command {isUid : Bool} (hr : r.state = .command isUid) :
    noopRequest ∉ (r.collect (isAllowed state isTls) noopLine).requests := by
  rw [noopLine_eq, List.cons_append]
  by_cases hlen : r.buf.length < 15
  · have hx : r.step 120 = .ok { r with buf := r.buf ++ [88] } := by
      simp only [Receiver.step, hr, Receiver.stepCommand, hlen, if_true]
      rfl
    have hname : ({ r with buf := r.buf ++ [88] } : Receiver Command).state = .command isUid := hr
    rw [Receiver.collect_of_ok hx, List.cons_append, Receiver.collect_unknown hname (by decide)
      (by decide) (by simp) (not_uid_append_x r.buf) (parse_append_x r.buf isUid)]
    exact List.not_mem_nil
  · have hx : r.step 120 = r.errorReset "Command too long" := by
      simp only [Receiver.step, hr, Receiver.stepCommand, hlen, if_false]
      rfl
    rw [Receiver.collect_of_errorReset hx]
    exact List.not_mem_nil

/-- **The request of a NOOP** comes from a receiver that has no request under way. -/
theorem reset_of_noop (h : r.Sound)
    (hnoop : noopRequest ∈ (r.collect (isAllowed state isTls) noopLine).requests) :
    r = r.reset := by
  cases hr : r.state with
  | start => exact (h.start hr).2
  | tag => exact absurd hnoop (noop_not_mem_of_tag hr (h.tag hr).2)
  | command isUid => exact absurd hnoop (noop_not_mem_of_command hr)
  | argument lastCh =>
      have hx : r.step 120 = .ok { r with buf := r.buf ++ [120], state := .argument 120 } := by
        simp [Receiver.step, hr, Receiver.stepArgument, isAsciiWhitespace]
      rw [noopLine_eq, List.cons_append, Receiver.collect_of_ok hx] at hnoop
      exact absurd hnoop (noop_not_mem_of_marked (by simp [Receiver.Marked]) (by decide))
  | argumentQuoted | literal | literalSeek | literalData =>
      rw [noopLine_eq] at hnoop
      exact absurd hnoop (noop_not_mem_of_marked (by simp [Receiver.Marked, hr]) (by decide))

end Noop

/-! ## Lines of a connection that has no request under way -/

/-- A connection that reads a request from its beginning. -/
structure Connection.Ready (maxRequestSize : ℕ) (c : Connection) : Prop where
  flow : c.flow = .next
  idle : c.session.idle = none
  receiver : c.session.receiver = .withMaxRequestSize maxRequestSize

namespace Connection

variable {o : Outside} {maxRequestSize : ℕ} {c : Connection}

/-- A connection that is not read from any more executes nothing. -/
theorem executed_of_flow (h : c.flow ≠ .next) (reads : List Bytes) : c.executed o reads = [] := by
  induction reads with
  | nil => rfl
  | cons bytes reads ih =>
      have hreceive : c.receive o bytes = (c, []) := if_neg h
      rw [executed, emit_cons, hreceive]
      exact ih

section Line

variable {word : String} {command : Command} {items : List Item}
  (hword : Command.parse ((asBytes word).map toAsciiUppercase) false = some command)
  (hitems : ∀ item ∈ items, item.WellFormed command) (hu32 : ∀ item ∈ items, item.HasU32Length)
  (hsize : (items.map Item.size).sum = 0) (reads : List Bytes)

include hword hitems hu32 hsize

/-- A line whose request is allowed. -/
theorem Ready.executed_allowed (h : c.Ready maxRequestSize)
    (hallowed : isAllowed c.session.state c.session.isTls ⟨"x", command, items.map Item.token⟩ =
      .ok ⟨"x", command, items.map Item.token⟩) :
    c.executed o (line word items :: reads) = ⟨"x", command, items.map Item.token⟩ ::
      (c.call o ⟨⟨"x", command, items.map Item.token⟩, []⟩).1.upgraded.executed o reads := by
  have hcollect : c.collect (line word items) = _ :=
    h.receiver ▸ collect_line hword hitems hu32 hsize (isAllowed c.session.state c.session.isTls)
  have hsame : c.withReceiver c.session.receiver = c := rfl
  rw [executed, emit_cons, List.flatMap_append]
  simp [receive, h.flow, h.idle, ingest, hcollect, hallowed, calls, emit_cons, hsame, goAhead,
    executed_call h.flow, Call.requests, executed]

/-- A line whose request is refused. -/
theorem Ready.executed_refused (h : c.Ready maxRequestSize) {response : StatusResponse}
    (hrefused : isAllowed c.session.state c.session.isTls ⟨"x", command, items.map Item.token⟩ =
      .error response) :
    c.executed o (line word items :: reads) = c.executed o reads := by
  have hcollect : c.collect (line word items) = _ :=
    h.receiver ▸ collect_line hword hitems hu32 hsize (isAllowed c.session.state c.session.isTls)
  have hsame : c.withReceiver c.session.receiver = c := rfl
  have hupgraded : c.upgraded = c := by simp [upgraded, h.flow]
  rw [executed, emit_cons, List.flatMap_append]
  simp [receive, h.flow, h.idle, ingest, hcollect, hrefused, calls, hsame, goAhead,
    Event.ofRefusal, Event.executed, hupgraded, executed]

end Line

end Connection

/-! ## What a line shows -/

section Shows

variable {o : Outside} {maxRequestSize : ℕ}

/-- Only NOOP itself is needed to see a request that is under way. -/
theorem noop_mem_executed_new (o : Outside) (maxRequestSize : ℕ) (isTls : Bool) :
    noopRequest ∈ executed o (.new maxRequestSize isTls) [noopLine] := by
  have hready : Connection.Ready maxRequestSize ⟨.new maxRequestSize isTls, [], [], .next⟩ :=
    ⟨rfl, rfl, rfl⟩
  have hnoop : Command.parse ((asBytes "NOOP").map toAsciiUppercase) false = some .noop := by
    decide
  rw [executed, hready.executed_allowed hnoop (by simp) (by simp) rfl [] rfl]
  exact List.mem_cons_self

/-- A session with no request under way, in this version and state. -/
def Session.fresh (maxRequestSize : ℕ) (version : ProtocolVersion) (state : State)
    (isCondstore isQresync : Bool) : Session :=
  ⟨.withMaxRequestSize maxRequestSize, version, state, true, isCondstore, isQresync, none⟩

/-- An outside that takes all credentials or none, and finds the mailbox of a SELECT under the name
that IMAP4rev1 makes of it. -/
def Outside.simple (connected : Bool) : Outside where
  base64 := fun _ ↦ none
  answer := fun version _ _ ↦
    { parsed := true, isSeparatorQuery := false, enable := [], asksModSeq := false,
      asksSeen := false, destination := false, connected := connected, mailboxesFetched := true,
      purged := true, eventSource := false
      opened := match version with
        | .rev1 => some (⟨"account", none⟩, ⟨1, 1, [], [], 0, ""⟩)
        | .rev2 => none }

/-- A LOGIN with empty credentials. -/
abbrev loginLine : Bytes := line "LOGIN" [.quoted "", .quoted ""]

theorem parse_login : Command.parse ((asBytes "LOGIN").map toAsciiUppercase) false =
    some .login := by
  decide

/-- A LOGIN that fails, on a connection that counts its failures. -/
theorem call_login {c : Connection} (hflow : c.flow = .next) {n : ℕ}
    (hs : c.session.state = .notAuthenticated n) :
    (c.call (.simple false) ⟨⟨"x", .login, [.nil, .nil]⟩, []⟩).1 =
      if n < 3 then
        ⟨{ c.session with state := .notAuthenticated (n + 1) },
          ⟨"x", .login, [.nil, .nil]⟩ :: c.handled, c.tasks, .next⟩
      else ⟨c.session, ⟨"x", .login, [.nil, .nil]⟩ :: c.handled, c.tasks, .disconnect⟩ := by
  by_cases hn : n < 3
  · simp [Connection.call, hflow, Session.handle, Session.dispatch,
      Session.handleLogin, Token.unwrapString, Session.authenticate, Outside.simple,
      Connection.answer, hs, State.authFailures, Call.requests, hn]
  · simp [Connection.call, hflow, Session.handle, Session.dispatch,
      Session.handleLogin, Token.unwrapString, Session.authenticate, Outside.simple,
      Connection.answer, hs, State.authFailures, Call.requests, hn]

/-- With every failure there is one LOGIN less before the connection is dropped. -/
theorem length_executed_logins {c : Connection} (h : c.Ready maxRequestSize)
    (htls : c.session.isTls = true) {n : ℕ} (hs : c.session.state = .notAuthenticated n) (k : ℕ) :
    (c.executed (.simple false) (List.replicate k loginLine)).length = min k (max 1 (4 - n)) := by
  induction k generalizing c n with
  | zero => rfl
  | succ k ih =>
      have hallowed : isAllowed c.session.state c.session.isTls ⟨"x", .login, [.nil, .nil]⟩ =
          .ok ⟨"x", .login, [.nil, .nil]⟩ := by
        rw [hs, htls]
        rfl
      have hitems : [Item.quoted "", .quoted ""].map Item.token = [.nil, .nil] := by decide
      have hline := h.executed_allowed (o := .simple false) parse_login (by decide)
        (by decide) (by decide) (List.replicate k loginLine) (hitems ▸ hallowed)
      rw [List.replicate_succ, hline, hitems, call_login h.flow hs, List.length_cons]
      by_cases hn : n < 3
      · rw [if_pos hn]
        have hlater := ih (c := ⟨{ c.session with state := .notAuthenticated (n + 1) },
          ⟨"x", .login, [.nil, .nil]⟩ :: c.handled, c.tasks, .next⟩) ⟨rfl, h.idle, h.receiver⟩ htls
          rfl
        rw [Connection.upgraded, hlater]
        omega
      · rw [if_neg hn, Connection.upgraded, Connection.executed_of_flow (by simp), List.length_nil]
        omega

/-- A mailbox with an empty name. -/
abbrev selectLine : Bytes := line "SELECT" [.quoted ""]

/-- A mailbox is selected only if its name is understood. -/
theorem length_executed_check (version : ProtocolVersion) (isCondstore isQresync : Bool) :
    (executed (.simple true)
        (.fresh maxRequestSize version (.notAuthenticated 0) isCondstore isQresync)
        [loginLine, selectLine, line "CHECK" []]).length =
      if version = .rev1 then 3 else 2 := by
  let fresh (state : State) (handled : List (Request Command)) : Connection :=
    ⟨.fresh maxRequestSize version state isCondstore isQresync, handled, [], .next⟩
  have hready (state : State) (handled : List (Request Command)) :
      (fresh state handled).Ready maxRequestSize := ⟨rfl, rfl, rfl⟩
  have hselect : Command.parse ((asBytes "SELECT").map toAsciiUppercase) false = some .select := by
    decide
  have hcheck : Command.parse ((asBytes "CHECK").map toAsciiUppercase) false = some .check := by
    decide
  let data : SessionData := ⟨.basic Token.nil.symbol Token.nil.symbol⟩
  let login : Request Command := ⟨"x", .login, [.quoted "", .quoted ""].map Item.token⟩
  let select : Request Command := ⟨"x", .select, [.quoted ""].map Item.token⟩
  have hlogged : ((fresh (.notAuthenticated 0) []).call (.simple true) ⟨login, []⟩).1.upgraded =
      fresh (.authenticated data) [login] := rfl
  have hlogin := (hready (.notAuthenticated 0) []).executed_allowed (o := .simple true) parse_login
    (by decide) (by decide) (by decide) [selectLine, line "CHECK" []]
    (rfl : _ = Except.ok login)
  have hselected := (hready (.authenticated data) [login]).executed_allowed (o := .simple true)
    hselect (by decide) (by decide) (by decide) [line "CHECK" []]
    (rfl : _ = Except.ok select)
  change ((fresh (.notAuthenticated 0) []).executed _ _).length = _
  rw [hlogin, hlogged, hselected]
  cases version with
  | rev1 =>
      let mailbox : SelectedMailbox := ⟨⟨"account", none⟩, ⟨1, 1, [], [], 0, ""⟩, .none, true⟩
      have hopened : ((fresh (.authenticated data) [login]).call (.simple true)
          ⟨select, []⟩).1.upgraded = fresh (.selected data mailbox) [select, login] := rfl
      rw [hopened, (hready _ _).executed_allowed hcheck (by simp) (by simp) rfl [] rfl]
      rfl
  | rev2 =>
      have hclosed : ((fresh (.authenticated data) [login]).call (.simple true)
          ⟨select, []⟩).1.upgraded = fresh (.authenticated data) [select, login] := rfl
      rw [hclosed, (hready _ _).executed_refused hcheck (by simp) (by simp) rfl [] rfl]
      rfl

end Shows

/-- A session at the beginning of TLS. -/
structure Session.AtUpgrade (maxRequestSize : ℕ) (s : Session) : Prop where
  isTls : s.isTls = true
  sound : s.receiver.Sound
  reset : s.receiver.reset = .withMaxRequestSize maxRequestSize

theorem Connection.atUpgrade {o : Outside} {maxRequestSize : ℕ} {reads : List Bytes} {last : Bytes}
    {s : Session} (h : Connection.upgrade o maxRequestSize reads last = some s) :
    s.AtUpgrade maxRequestSize := by
  have hsound := (sound_receives o maxRequestSize false reads).receive (o := o) last
  simp only [Connection.upgrade] at h
  split at h
  · next hflow =>
      obtain rfl := Option.some.inj h
      obtain ⟨hnext, -, hidle, hupgrade⟩ := hflow
      refine ⟨?_, hsound.sound, hsound.reset⟩
      simp only [Connection.receive, hnext, hidle, if_true, Connection.upgraded, hupgrade]
  · cases h

/-- The state is told by NAMESPACE and LOGIN. -/
theorem state_of_executed {maxRequestSize : ℕ} {s : Session}
    (hready : Connection.Ready maxRequestSize ⟨s, [], [], .next⟩) (htls : s.isTls = true)
    (hsame : ∀ (o : Outside) (reads : List Bytes),
      executed o s reads = executed o (.new maxRequestSize true) reads) :
    s.state = .notAuthenticated 0 := by
  have hnew : Connection.Ready maxRequestSize ⟨.new maxRequestSize true, [], [], .next⟩ :=
    ⟨rfl, rfl, rfl⟩
  cases hs : s.state with
  | notAuthenticated n =>
      have hlogins := congrArg List.length (hsame (.simple false) (List.replicate 4 loginLine))
      rw [executed, executed, length_executed_logins hready htls hs,
        length_executed_logins hnew rfl rfl] at hlogins
      obtain rfl : n = 0 := by omega
      rfl
  | authenticated data | selected data mailbox =>
      exfalso
      have hnamespace : Command.parse ((asBytes "NAMESPACE").map toAsciiUppercase) false =
          some .namespace := by decide
      have hlines := hsame (.simple false) [line "NAMESPACE" []]
      have hallowed : isAllowed s.state s.isTls ⟨"x", .namespace, [].map Item.token⟩ =
          .ok ⟨"x", .namespace, [].map Item.token⟩ := by
        rw [hs]
        rfl
      rw [executed, executed, hready.executed_allowed hnamespace (by simp) (by simp) rfl
        [] hallowed,
        hnew.executed_refused hnamespace (by simp) (by simp) rfl [] rfl] at hlines
      cases hlines

/-- **STARTTLS.**  What is executed over TLS is what a new connection executes, whatever is sent and
whatever the outside answers, if and only if nothing of account is left of the cleartext part. -/
theorem executed_upgrade_iff {o : Outside} {maxRequestSize : ℕ} {reads : List Bytes}
    {last : Bytes} {s : Session} (h : Connection.upgrade o maxRequestSize reads last = some s) :
    (∀ (o' : Outside) (reads' : List Bytes),
        executed o' s reads' = executed o' (.new maxRequestSize true) reads') ↔
      Untouched maxRequestSize s := by
  obtain ⟨htls, hsound, hreset⟩ := Connection.atUpgrade h
  constructor
  · intro hsame
    have hnoop := noop_mem_executed_new (.simple true) maxRequestSize true
    rw [← hsame] at hnoop
    obtain ⟨hidle, hmem⟩ := mem_executed hnoop
    have hreceiver := (reset_of_noop hsound hmem).trans hreset
    have hready : Connection.Ready maxRequestSize ⟨s, [], [], .next⟩ := ⟨rfl, hidle, hreceiver⟩
    have hstate : s.state = .notAuthenticated 0 := state_of_executed hready htls hsame
    refine ⟨hreceiver, ?_, hstate, hidle⟩
    have hcheck := congrArg List.length
      (hsame (.simple true) [loginLine, selectLine, line "CHECK" []])
    have hs : s =
        .fresh maxRequestSize s.version (.notAuthenticated 0) s.isCondstore s.isQresync := by
      rw [Session.fresh, ← hreceiver, ← hstate, ← htls, ← hidle]
    have hnew : Session.new maxRequestSize true =
        .fresh maxRequestSize .rev1 (.notAuthenticated 0) false false := rfl
    rw [hs, hnew, length_executed_check, length_executed_check] at hcheck
    by_contra hversion
    simp [hversion] at hcheck
  · rintro ⟨hreceiver, hversion, hstate, hidle⟩ o' reads'
    have hlike : s.Like (.new maxRequestSize true) := ⟨hversion, hstate, htls, hidle⟩
    exact hlike.executed hreceiver o' reads'

end ImapToJmap.Imap
