import ImapToJmap.Imap.Connection

/-!
# What a handler can do

The handlers of `Imap/Client.lean`, once and for all: `Effect` lists the ways in which a handler
call can end, with the state it was called in, the state it leaves, the events and the tasks.
`dispatch_effect` says that there are no others; nothing behind this module looks into a handler for
the sake of the state or the events.
-/

namespace ImapToJmap.Imap

/-- What a handler relies on to be there. -/
inductive Need where
  | nothing
  | data
  | mailbox
deriving DecidableEq

/-- The accessors that the handler of a command calls.  Those of LOGIN and AUTHENTICATE only ask for
`auth_failures`, and only when credentials are turned down; NOOP and CHECK look whether there is a
session. -/
def needs : Command → Need
  | .capability | .noop | .check | .logout | .id | .startTls | .enable | .listRights
  | .unauthenticate | .authenticate | .login => .nothing
  | .close | .expunge _ | .search _ | .fetch _ | .store _ | .copy _ | .move _ | .sort _
  | .thread _ => .mailbox
  | .select | .examine | .create | .delete | .rename | .subscribe | .unsubscribe | .list | .lsub
  | .namespace | .status | .append | .idle | .unselect | .setAcl | .deleteAcl | .getAcl
  | .myRights => .data

/-- The state has what is needed. -/
def State.offers (state : State) : Need → Prop
  | .nothing => True
  | .data => state.sessionData.isSome
  | .mailbox => state.mailbox?.isSome

/-- The commands that are not permitted in a mailbox opened by EXAMINE. -/
def writes : Command → Bool
  | .store _ | .expunge _ | .move _ => true
  | _ => false

/-- The credentials that a LOGIN or an AUTHENTICATE presents. -/
def presented (base64 : String → Option Bytes) (request : Request Command) : Option Credentials :=
  match request.command with
  | .login =>
      match request.tokens with
      | [username, password] => do
          return .basic (← username.unwrapString) (← password.unwrapString)
      | _ => none
  | .authenticate => do
      let (mechanism, params) ← parseAuthenticate request.tokens
      if mechanism = .plain ∨ mechanism = .oAuthBearer then
        challengeCredentials base64 mechanism params
      else none
  | _ => none

/-- A mailbox is opened. -/
def opens (call : Call) (answer : Answer) : Bool :=
  (call.command == .select || call.command == .examine) && answer.parsed && answer.opened.isSome

/-- A mailbox or a session is given up. -/
def leaves : Command → Bool
  | .close | .unselect | .unauthenticate => true
  | _ => false

/-- The ways in which a handler call can end. -/
inductive Effect (base64 : String → Option Bytes) (s : Session) (call : Call) (answer : Answer) :
    Handled → Prop
  | /-- Nothing happens to the state. -/
    stay {s' : Session} {flow : Flow} : s'.state = s.state → s'.isTls = s.isTls → flow ≠ .panic →
      opens call answer = false → leaves call.command = false →
      Effect base64 s call answer ⟨s', [], [], flow⟩
  | /-- The session data is used, perhaps by a task. -/
    use {s' : Session} {data : SessionData} {tasks : List Task} :
      s'.state = s.state → s'.isTls = s.isTls → s.state.sessionData = some data →
      opens call answer = false → leaves call.command = false →
      (∀ t ∈ tasks, s.state.mailbox? = some t.mailbox ∧
        (t.mailbox.isSelect = true ∨ writes call.command = true)) →
      Effect base64 s call answer ⟨s', [.useData call.command data], tasks, .next⟩
  | /-- SELECT and EXAMINE. -/
    opened {data : SessionData} {id : MailboxId} {state : MailboxData} :
      opens call answer = true → s.state.sessionData = some data →
      answer.opened = some (id, state) →
      Effect base64 s call answer
        ⟨{ s with state := .selected data ⟨id, state, .none, call.command == .select⟩ },
          [.useData call.command data], [], .next⟩
  | /-- CLOSE expunges unless the mailbox was opened by EXAMINE. -/
    closed {data : SessionData} {mailbox : SelectedMailbox} :
      call.command = .close → s.state = .selected data mailbox →
      Effect base64 s call answer
        ⟨{ s with state := .authenticated data },
          .useData call.command data ::
            if mailbox.isSelect then [.change .expunge mailbox s.state] else [], [], .next⟩
  | unselected {data : SessionData} :
      call.command = .unselect → s.state.sessionData = some data →
      Effect base64 s call answer
        ⟨{ s with state := .authenticated data }, [.useData call.command data], [], .next⟩
  | expunged {data : SessionData} {mailbox : SelectedMailbox} :
      writes call.command = true → s.state = .selected data mailbox →
      Effect base64 s call answer
        ⟨s, [.useData call.command data, .change .expunge mailbox s.state], [], .next⟩
  | /-- Credentials are accepted. -/
    accepted {credentials : Credentials} :
      presented base64 call.request = some credentials → answer.connected = true →
      answer.mailboxesFetched = true → answer.purged = true →
      Effect base64 s call answer
        ⟨{ s with state := .authenticated ⟨credentials⟩ },
          [.connect credentials, .authenticated ⟨credentials⟩], [], .next⟩
  | /-- Credentials are turned down. -/
    failed {credentials : Credentials} {authFailures : ℕ} :
      presented base64 call.request = some credentials → answer.connected = false →
      s.state = .notAuthenticated authFailures → authFailures < 3 →
      Effect base64 s call answer
        ⟨{ s with state := .notAuthenticated (authFailures + 1) },
          [.connect credentials], [], .next⟩
  | /-- The connection is dropped over credentials. -/
    dropped {credentials : Credentials} :
      presented base64 call.request = some credentials →
      Effect base64 s call answer ⟨s, [.connect credentials], [], .disconnect⟩
  | unauthenticated : call.command = .unauthenticate →
      Effect base64 s call answer
        ⟨{ s with state := .notAuthenticated 0 }, [.unauthenticated], [], .next⟩
  | /-- `auth_failures` is `unreachable!()`. -/
    counterless {credentials : Credentials} :
      presented base64 call.request = some credentials → answer.connected = false →
      s.state.authFailures = none →
      Effect base64 s call answer ⟨s, [.connect credentials, .panic call.command], [], .panic⟩
  | /-- Another accessor is `unreachable!()`. -/
    panic : ¬ s.state.offers (needs call.command) →
      Effect base64 s call answer ⟨s, [.panic call.command], [], .panic⟩

namespace Session

variable {base64 : String → Option Bytes} {s : Session} {call : Call} {answer : Answer}

theorem effect_stay (hopens : opens call answer = false) (hleaves : leaves call.command = false) :
    Effect base64 s call answer s.next :=
  .stay rfl rfl (by simp) hopens hleaves

/-- A handler that uses the session data, of a command that cannot do without. -/
theorem effect_withData {body : SessionData → Handled} (hneeds : needs call.command ≠ .nothing)
    (hbody : ∀ data, s.state.sessionData = some data → Effect base64 s call answer
      { body data with events := .useData call.command data :: (body data).events }) :
    Effect base64 s call answer (s.withData call.command s.state.sessionData body) := by
  cases hdata : s.state.sessionData with
  | some data => exact hbody data hdata
  | none =>
      refine .panic ?_
      cases hn : needs call.command with
      | nothing => exact absurd hn hneeds
      | data => simp [State.offers, hdata]
      | mailbox =>
          cases hs : s.state with
          | notAuthenticated => simp [State.offers, State.mailbox?]
          | authenticated => simp [State.offers, State.mailbox?]
          | selected => simp [hs, State.sessionData] at hdata

/-- A handler that uses the selected mailbox. -/
theorem effect_withMailbox {body : SessionData → SelectedMailbox → Handled}
    {found : Option (SessionData × SelectedMailbox)} (hfound : found = s.state.selectData)
    (hneeds : needs call.command = .mailbox)
    (hbody : ∀ data mailbox, s.state = .selected data mailbox → Effect base64 s call answer
      { body data mailbox with
        events := .useData call.command data :: (body data mailbox).events }) :
    Effect base64 s call answer (s.withMailbox call.command found body) := by
  subst hfound
  cases hs : s.state with
  | notAuthenticated => exact .panic (by simp [hneeds, hs, State.offers, State.mailbox?])
  | authenticated => exact .panic (by simp [hneeds, hs, State.offers, State.mailbox?])
  | selected data mailbox => exact hbody data mailbox hs

/-- A handler that does its work on the session data, without a change to the state. -/
theorem effect_onSessionData (hneeds : needs call.command ≠ .nothing)
    (hopens : opens call answer = false) (hleaves : leaves call.command = false) :
    Effect base64 s call answer (s.onSessionData call answer) := by
  rw [onSessionData]
  split
  · exact effect_withData hneeds fun data hdata ↦ .use rfl rfl hdata hopens hleaves (by simp [next])
  · exact effect_stay hopens hleaves

/-- A handler that does its work on the selected mailbox in a task. -/
theorem effect_onMailbox {tasks : SelectedMailbox → List Task}
    (hneeds : needs call.command = .mailbox) (hopens : opens call answer = false)
    (hleaves : leaves call.command = false)
    (htasks : ∀ mailbox, ∀ t ∈ tasks mailbox, t.mailbox = mailbox ∧ writes call.command = true) :
    Effect base64 s call answer (s.onMailbox call answer tasks) := by
  rw [onMailbox]
  split
  · refine effect_withMailbox rfl hneeds fun data mailbox hs ↦ ?_
    refine .use rfl rfl (by simp [hs, State.sessionData]) hopens hleaves fun t ht ↦ ?_
    obtain ⟨rfl, hwrites⟩ := htasks mailbox t ht
    exact ⟨by simp [hs, State.mailbox?], .inr hwrites⟩
  · exact effect_stay hopens hleaves

theorem enable_state (s : Session) (capabilities : List Capability) :
    (s.enable capabilities).state = s.state ∧ (s.enable capabilities).isTls = s.isTls := by
  induction capabilities generalizing s with
  | nil => exact ⟨rfl, rfl⟩
  | cons capability capabilities ih =>
      cases capability with
      | other => exact ⟨rfl, rfl⟩
      | _ => exact ih _

/-- Credentials that are forwarded. -/
theorem effect_authenticate {credentials : Credentials}
    (h : presented base64 call.request = some credentials) :
    Effect base64 s call answer (s.authenticate call answer credentials) := by
  rw [authenticate]
  split
  · next hconnected =>
      split
      · next hready => exact .accepted h hconnected (by simp_all) (by simp_all)
      · exact .dropped h
  · next hconnected =>
      have hconnected : answer.connected = false := by simpa using hconnected
      cases hs : s.state with
      | notAuthenticated authFailures =>
          simp only [State.authFailures]
          split
          · next hfew => exact .failed h hconnected hs hfew
          · exact .dropped h
      | authenticated => exact .counterless h hconnected (by simp [hs, State.authFailures])
      | selected => exact .counterless h hconnected (by simp [hs, State.authFailures])

theorem effect_handleLogin (hc : call.command = .login) :
    Effect base64 s call answer (s.handleLogin call answer) := by
  have hopens : opens call answer = false := by simp [opens, hc]
  have hleaves : leaves call.command = false := by simp [leaves, hc]
  have hpresented : call.request.command = .login := hc
  rw [handleLogin]
  split
  · next username password htokens =>
      split
      · next username' password' husername hpassword =>
          refine effect_authenticate ?_
          simp [presented, hpresented, htokens, husername, hpassword]
      · exact effect_stay hopens hleaves
  · exact effect_stay hopens hleaves

theorem effect_handleAuthenticate (hc : call.command = .authenticate) :
    Effect base64 s call answer (s.handleAuthenticate base64 call answer) := by
  have hopens : opens call answer = false := by simp [opens, hc]
  have hleaves : leaves call.command = false := by simp [leaves, hc]
  have hpresented : call.request.command = .authenticate := hc
  rw [handleAuthenticate]
  split
  · next mechanism params hparse =>
      split
      · next hmechanism =>
          split
          · split
            · next credentials hcredentials =>
                refine effect_authenticate ?_
                simp [presented, hpresented, hparse, hmechanism, hcredentials]
            · exact effect_stay hopens hleaves
          · exact .stay rfl rfl (by simp) hopens hleaves
      · exact effect_stay hopens hleaves
  · exact effect_stay hopens hleaves

theorem effect_handleSelect (hc : call.command = .select ∨ call.command = .examine) :
    Effect base64 s call answer (s.handleSelect call answer) := by
  have hneeds : needs call.command ≠ .nothing := by rcases hc with hc | hc <;> simp [needs, hc]
  have hleaves : leaves call.command = false := by rcases hc with hc | hc <;> simp [leaves, hc]
  rw [handleSelect]
  split
  · next hparsed =>
      refine effect_withData hneeds fun data hdata ↦ ?_
      split
      · next id state hopened =>
          refine .opened ?_ hdata hopened
          simp [opens, hparsed, hopened, hc]
      · next hopened =>
          exact .use rfl rfl hdata (by simp [opens, hopened]) hleaves (by simp [next])
  · next hparsed =>
      exact effect_stay (by simp [opens, hparsed]) hleaves

theorem effect_handleFetch {isUid : Bool} (hc : call.command = .fetch isUid) :
    Effect base64 s call answer (s.handleFetch call answer) := by
  have hopens : opens call answer = false := by simp [opens, hc]
  have hleaves : leaves call.command = false := by simp [leaves, hc]
  rw [handleFetch]
  split
  · refine effect_withMailbox rfl (by simp [needs, hc]) fun data mailbox hs ↦ ?_
    refine .use rfl rfl (by simp [hs, State.sessionData]) hopens hleaves fun t ht ↦ ?_
    split at ht
    · next hseen =>
        obtain rfl := List.mem_singleton.mp ht
        exact ⟨by simp [hs, State.mailbox?], .inl (by simp_all)⟩
    · simp at ht
  · exact effect_stay hopens hleaves

theorem effect_handleStore {isUid : Bool} (hc : call.command = .store isUid) :
    Effect base64 s call answer (s.handleStore call answer) := by
  have hopens : opens call answer = false := by simp [opens, hc]
  have hleaves : leaves call.command = false := by simp [leaves, hc]
  rw [handleStore]
  split
  · refine effect_withMailbox rfl (by simp [needs, hc]) fun data mailbox hs ↦ ?_
    refine .use rfl rfl (by simp [hs, State.sessionData]) hopens hleaves fun t ht ↦ ?_
    obtain rfl := List.mem_singleton.mp ht
    exact ⟨by simp [hs, State.mailbox?], .inr (by simp [writes, hc])⟩
  · exact effect_stay hopens hleaves

theorem effect_handleIdle (hc : call.command = .idle) :
    Effect base64 s call answer (s.handleIdle call answer) := by
  refine effect_withData (by simp [needs, hc]) fun data hdata ↦ ?_
  have hopens : opens call answer = false := by simp [opens, hc]
  have hleaves : leaves call.command = false := by simp [leaves, hc]
  split
  · exact .use rfl rfl hdata hopens hleaves (by simp [next])
  · exact .use rfl rfl hdata hopens hleaves (by simp [next])

theorem effect_handleNoop (hc : call.command = .noop ∨ call.command = .check) :
    Effect base64 s call answer (s.handleNoop call) := by
  have hopens : opens call answer = false := by rcases hc with hc | hc <;> simp [opens, hc]
  have hleaves : leaves call.command = false := by rcases hc with hc | hc <;> simp [leaves, hc]
  rw [handleNoop]
  cases hdata : s.state.sessionData with
  | some data => exact .use rfl rfl hdata hopens hleaves (by simp [next])
  | none => exact effect_stay hopens hleaves

theorem effect_handleAppend (hc : call.command = .append) :
    Effect base64 s call answer (s.handleAppend call answer) := by
  have hopens : opens call answer = false := by simp [opens, hc]
  have hleaves : leaves call.command = false := by simp [leaves, hc]
  have hdata : s.state.sessionMailboxData.map Prod.fst = s.state.sessionData := by
    cases s.state <;> rfl
  rw [handleAppend, hdata]
  split
  · exact effect_withData (by simp [needs, hc]) fun data hdata ↦
      .use rfl rfl hdata hopens hleaves (by simp [next])
  · exact effect_stay hopens hleaves

theorem effect_handleList (hc : call.command = .list ∨ call.command = .lsub) :
    Effect base64 s call answer (s.handleList call answer) := by
  have hneeds : needs call.command ≠ .nothing := by rcases hc with hc | hc <;> simp [needs, hc]
  have hopens : opens call answer = false := by rcases hc with hc | hc <;> simp [opens, hc]
  have hleaves : leaves call.command = false := by rcases hc with hc | hc <;> simp [leaves, hc]
  rw [handleList]
  split
  · exact effect_stay hopens hleaves
  · exact effect_onSessionData hneeds hopens hleaves

theorem effect_handleNamespace (hc : call.command = .namespace) :
    Effect base64 s call answer (s.handleNamespace call) :=
  effect_withData (by simp [needs, hc]) fun _ hdata ↦
    .use rfl rfl hdata (by simp [opens, hc]) (by simp [leaves, hc]) (by simp [next])

theorem effect_handleClose (hc : call.command = .close) :
    Effect base64 s call answer (s.handleClose call) :=
  effect_withMailbox rfl (by simp [needs, hc]) fun _ _ hs ↦ .closed hc hs

theorem effect_handleUnselect (hc : call.command = .unselect) :
    Effect base64 s call answer (s.handleUnselect call) :=
  effect_withData (by simp [needs, hc]) fun _ hdata ↦ .unselected hc hdata

theorem effect_handleExpunge {isUid : Bool} (hc : call.command = .expunge isUid) :
    Effect base64 s call answer (s.handleExpunge call) :=
  effect_withMailbox rfl (by simp [needs, hc]) fun _ _ hs ↦ .expunged (by simp [writes, hc]) hs

theorem effect_handleSearch (hneeds : needs call.command = .mailbox)
    (hopens : opens call answer = false) (hleaves : leaves call.command = false) :
    Effect base64 s call answer (s.handleSearch call answer) :=
  effect_onMailbox hneeds hopens hleaves (by simp)

theorem effect_handleThread {isUid : Bool} (hc : call.command = .thread isUid) :
    Effect base64 s call answer (s.handleThread call answer) :=
  effect_onMailbox (by simp [needs, hc]) (by simp [opens, hc]) (by simp [leaves, hc]) (by simp)

theorem effect_handleCopy {isUid : Bool} (hc : call.command = .copy isUid) :
    Effect base64 s call answer (s.handleCopyMove call answer false) :=
  effect_onMailbox (by simp [needs, hc]) (by simp [opens, hc]) (by simp [leaves, hc]) (by simp)

theorem effect_handleMove {isUid : Bool} (hc : call.command = .move isUid) :
    Effect base64 s call answer (s.handleCopyMove call answer true) := by
  refine effect_onMailbox (by simp [needs, hc]) (by simp [opens, hc]) (by simp [leaves, hc]) ?_
  intro mailbox t ht
  split at ht
  · obtain rfl := List.mem_singleton.mp ht
    exact ⟨rfl, by simp [writes, hc]⟩
  · simp at ht

theorem effect_handleEnable (hc : call.command = .enable) :
    Effect base64 s call answer (s.handleEnable answer) := by
  have hopens : opens call answer = false := by simp [opens, hc]
  have hleaves : leaves call.command = false := by simp [leaves, hc]
  obtain ⟨hstate, htls⟩ := s.enable_state answer.enable
  rw [handleEnable]
  split
  · exact .stay hstate htls (by simp) hopens hleaves
  · exact effect_stay hopens hleaves

/-- **Every handler call ends in one of these ways.** -/
theorem dispatch_effect : Effect base64 s call answer (s.dispatch base64 call answer) := by
  cases hc : call.command
  case list => simpa only [dispatch, hc] using effect_handleList (.inl hc)
  case lsub => simpa only [dispatch, hc] using effect_handleList (.inr hc)
  case select => simpa only [dispatch, hc] using effect_handleSelect (.inl hc)
  case examine => simpa only [dispatch, hc] using effect_handleSelect (.inr hc)
  case append => simpa only [dispatch, hc] using effect_handleAppend hc
  case close => simpa only [dispatch, hc] using effect_handleClose hc
  case unselect => simpa only [dispatch, hc] using effect_handleUnselect hc
  case expunge => simpa only [dispatch, hc] using effect_handleExpunge hc
  case fetch => simpa only [dispatch, hc] using effect_handleFetch hc
  case store => simpa only [dispatch, hc] using effect_handleStore hc
  case copy => simpa only [dispatch, hc] using effect_handleCopy hc
  case thread => simpa only [dispatch, hc] using effect_handleThread hc
  case move => simpa only [dispatch, hc] using effect_handleMove hc
  case idle => simpa only [dispatch, hc] using effect_handleIdle hc
  case authenticate => simpa only [dispatch, hc] using effect_handleAuthenticate hc
  case login => simpa only [dispatch, hc] using effect_handleLogin hc
  case unauthenticate => simpa only [dispatch, hc] using .unauthenticated hc
  case noop => simpa only [dispatch, hc] using effect_handleNoop (.inl hc)
  case check => simpa only [dispatch, hc] using effect_handleNoop (.inr hc)
  case enable => simpa only [dispatch, hc] using effect_handleEnable hc
  case search | sort =>
    simpa only [dispatch, hc] using
      effect_handleSearch (by simp [needs, hc]) (by simp [opens, hc]) (by simp [leaves, hc])
  case logout | startTls | capability | id | listRights =>
    simp only [dispatch, hc]
    exact .stay rfl rfl (by decide) (by simp [opens, hc]) (by simp [leaves, hc])
  case create | delete | rename | subscribe | unsubscribe | status | setAcl | deleteAcl | getAcl
      | myRights =>
    simp only [dispatch, hc]
    exact effect_onSessionData (by simp [needs, hc]) (by simp [opens, hc]) (by simp [leaves, hc])
  -- what is left is NAMESPACE, whose name is a keyword here
  simpa only [dispatch, hc] using effect_handleNamespace hc

end Session

end ImapToJmap.Imap
