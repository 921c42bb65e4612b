import ImapToJmap.Imap.Effects

/-!
# What a handler does not look at

No handler reads the receiver, and none of them lets CONDSTORE or QRESYNC decide what happens to the
session: sessions that are `Like` each other go on alike.  The receiver is left as it is, but for an
AUTHENTICATE without a parameter, which sets it up to read one (`continued`).
-/

namespace ImapToJmap.Imap

/-- Sessions that differ in the receiver and the flags of CONDSTORE and QRESYNC at most. -/
structure Session.Like (s s' : Session) : Prop where
  version : s.version = s'.version
  state : s.state = s'.state
  isTls : s.isTls = s'.isTls
  idle : s.idle = s'.idle

/-- Handler calls with the same outcome, that leave sessions which are alike. -/
structure Handled.Like (h h' : Handled) : Prop where
  session : h.session.Like h'.session
  events : h.events = h'.events
  tasks : h.tasks = h'.tasks
  flow : h.flow = h'.flow

namespace Session

theorem Like.refl (s : Session) : s.Like s := ⟨rfl, rfl, rfl, rfl⟩

theorem Like.trans {s s' s'' : Session} (h : s.Like s') (h' : s'.Like s'') : s.Like s'' :=
  ⟨h.version.trans h'.version, h.state.trans h'.state, h.isTls.trans h'.isTls,
    h.idle.trans h'.idle⟩

variable {base64 : String → Option Bytes} {s s' : Session} {call : Call} {answer : Answer}

theorem Like.next (h : s.Like s') : s.next.Like s'.next := ⟨h, rfl, rfl, rfl⟩

theorem Like.withData (h : s.Like s') {data : Option SessionData}
    {body body' : SessionData → Handled} (hbody : ∀ data, (body data).Like (body' data)) :
    (s.withData call.command data body).Like (s'.withData call.command data body') := by
  cases data with
  | some data =>
      obtain ⟨hsession, hevents, htasks, hflow⟩ := hbody data
      exact ⟨hsession, congrArg (_ :: ·) hevents, htasks, hflow⟩
  | none => exact ⟨h, rfl, rfl, rfl⟩

theorem Like.withMailbox (h : s.Like s') {found : Option (SessionData × SelectedMailbox)}
    {body body' : SessionData → SelectedMailbox → Handled}
    (hbody : ∀ data mailbox, (body data mailbox).Like (body' data mailbox)) :
    (s.withMailbox call.command found body).Like (s'.withMailbox call.command found body') := by
  refine h.withData fun data ↦ ?_
  cases found with
  | some found => exact hbody data found.2
  | none => exact ⟨h, rfl, rfl, rfl⟩

theorem Like.onSessionData (h : s.Like s') :
    (s.onSessionData call answer).Like (s'.onSessionData call answer) := by
  unfold Session.onSessionData
  rw [← h.state]
  split
  · exact h.withData fun _ ↦ h.next
  · exact h.next

theorem Like.onMailbox (h : s.Like s') {tasks : SelectedMailbox → List Task} :
    (s.onMailbox call answer tasks).Like (s'.onMailbox call answer tasks) := by
  unfold Session.onMailbox
  rw [← h.state]
  split
  · exact h.withMailbox fun _ _ ↦ ⟨h, rfl, rfl, rfl⟩
  · exact h.next

theorem Like.authenticate (h : s.Like s') {credentials : Credentials} :
    (s.authenticate call answer credentials).Like
      (s'.authenticate call answer credentials) := by
  unfold Session.authenticate
  rw [← h.state]
  split
  · split
    · exact ⟨⟨h.version, rfl, h.isTls, h.idle⟩, rfl, rfl, rfl⟩
    · exact ⟨h, rfl, rfl, rfl⟩
  · split
    · split
      · exact ⟨⟨h.version, rfl, h.isTls, h.idle⟩, rfl, rfl, rfl⟩
      · exact ⟨h, rfl, rfl, rfl⟩
    · exact ⟨h, rfl, rfl, rfl⟩

theorem Like.enable (h : s.Like s') (capabilities : List Capability) :
    (s.enable capabilities).Like (s'.enable capabilities) := by
  induction capabilities generalizing s s' with
  | nil => exact h
  | cons capability capabilities ih =>
      cases capability with
      | imap4rev1 | imap4rev2 => exact ih ⟨rfl, h.state, h.isTls, h.idle⟩
      | condStore | qResync => exact ih ⟨h.version, h.state, h.isTls, h.idle⟩
      | utf8Accept => exact ih h
      | other => exact h

theorem Like.handleSelect (h : s.Like s') :
    (s.handleSelect call answer).Like (s'.handleSelect call answer) := by
  unfold Session.handleSelect
  rw [← h.state]
  split
  · refine h.withData fun data ↦ ?_
    split
    · exact ⟨⟨h.version, rfl, h.isTls, h.idle⟩, rfl, rfl, rfl⟩
    · exact h.next
  · exact h.next

theorem Like.handleList (h : s.Like s') :
    (s.handleList call answer).Like (s'.handleList call answer) := by
  unfold Session.handleList
  split
  · exact h.next
  · exact h.onSessionData

theorem Like.handleAppend (h : s.Like s') :
    (s.handleAppend call answer).Like (s'.handleAppend call answer) := by
  unfold Session.handleAppend
  rw [← h.state]
  split
  · exact h.withData fun _ ↦ h.next
  · exact h.next

theorem Like.handleClose (h : s.Like s') : (s.handleClose call).Like (s'.handleClose call) := by
  unfold Session.handleClose
  rw [← h.state]
  exact h.withMailbox fun _ _ ↦ ⟨⟨h.version, rfl, h.isTls, h.idle⟩, rfl, rfl, rfl⟩

theorem Like.handleUnselect (h : s.Like s') :
    (s.handleUnselect call).Like (s'.handleUnselect call) := by
  unfold Session.handleUnselect
  rw [← h.state]
  exact h.withData fun _ ↦ ⟨⟨h.version, rfl, h.isTls, h.idle⟩, rfl, rfl, rfl⟩

theorem Like.handleExpunge (h : s.Like s') :
    (s.handleExpunge call).Like (s'.handleExpunge call) := by
  unfold Session.handleExpunge
  rw [← h.state]
  exact h.withMailbox fun _ _ ↦ ⟨h, rfl, rfl, rfl⟩

theorem Like.handleFetch (h : s.Like s') :
    (s.handleFetch call answer).Like (s'.handleFetch call answer) := by
  unfold Session.handleFetch
  rw [← h.state]
  split
  · exact h.withMailbox fun _ _ ↦ ⟨⟨h.version, rfl, h.isTls, h.idle⟩, rfl, rfl, rfl⟩
  · exact h.next

theorem Like.handleIdle (h : s.Like s') :
    (s.handleIdle call answer).Like (s'.handleIdle call answer) := by
  unfold Session.handleIdle
  rw [← h.state]
  refine h.withData fun _ ↦ ?_
  split
  · exact ⟨⟨h.version, rfl, h.isTls, rfl⟩, rfl, rfl, rfl⟩
  · exact h.next

theorem Like.handleNamespace (h : s.Like s') :
    (s.handleNamespace call).Like (s'.handleNamespace call) := by
  unfold Session.handleNamespace
  rw [← h.state]
  exact h.withData fun _ ↦ h.next

theorem Like.handleNoop (h : s.Like s') : (s.handleNoop call).Like (s'.handleNoop call) := by
  unfold Session.handleNoop
  rw [← h.state]
  split
  · exact h.withData fun _ ↦ h.next
  · exact h.next

theorem Like.handleEnable (h : s.Like s') :
    (s.handleEnable answer).Like (s'.handleEnable answer) := by
  unfold Session.handleEnable
  split
  · exact (h.enable _).next
  · exact h.next

theorem Like.handleLogin (h : s.Like s') :
    (s.handleLogin call answer).Like (s'.handleLogin call answer) := by
  unfold Session.handleLogin
  split
  · split
    · exact h.authenticate
    · exact h.next
  · exact h.next

theorem Like.handleAuthenticate (h : s.Like s') :
    (s.handleAuthenticate base64 call answer).Like
      (s'.handleAuthenticate base64 call answer) := by
  unfold Session.handleAuthenticate
  split
  · split
    · split
      · split
        · exact h.authenticate
        · exact h.next
      · exact ⟨⟨h.version, h.state, h.isTls, h.idle⟩, rfl, rfl, rfl⟩
    · exact h.next
  · exact h.next

/-- **Sessions that are alike go on alike.** -/
theorem Like.dispatch (h : s.Like s') :
    (s.dispatch base64 call answer).Like (s'.dispatch base64 call answer) := by
  unfold Session.dispatch
  split
  all_goals first
    | exact h.onSessionData
    | exact h.onMailbox
    | exact h.handleSelect
    | exact h.handleList
    | exact h.handleAppend
    | exact h.handleClose
    | exact h.handleUnselect
    | exact h.handleExpunge
    | exact h.handleFetch
    | exact h.handleIdle
    | exact h.handleNamespace
    | exact h.handleNoop
    | exact h.handleEnable
    | exact h.handleLogin
    | exact h.handleAuthenticate
    | exact ⟨⟨h.version, rfl, h.isTls, h.idle⟩, rfl, rfl, rfl⟩
    | exact ⟨h, rfl, rfl, rfl⟩

end Session

/-! ## The receiver -/

/-- The request that an AUTHENTICATE without a parameter sets the receiver up for. -/
def continuation (request : Request Command) : Option (Request Command) :=
  match request.command with
  | .authenticate =>
      match parseAuthenticate request.tokens with
      | some (mechanism, []) =>
          if mechanism = .plain ∨ mechanism = .oAuthBearer then
            some ⟨request.tag, .authenticate, [.argument (asBytes mechanism.name)]⟩
          else none
      | _ => none
  | _ => none

/-- The receiver behind a handler call. -/
def continued (r : Receiver Command) (request : Request Command) : Receiver Command :=
  match continuation request with
  | some request => { r with request := request, state := .argument Ascii.space }
  | none => r

namespace Session

variable {base64 : String → Option Bytes} {s : Session} {call : Call} {answer : Answer}

theorem withData_receiver {data : Option SessionData} {body : SessionData → Handled}
    (hbody : ∀ data, (body data).session.receiver = s.receiver) :
    (s.withData call.command data body).session.receiver = s.receiver := by
  cases data with
  | some data => exact hbody data
  | none => rfl

theorem withMailbox_receiver {found : Option (SessionData × SelectedMailbox)}
    {body : SessionData → SelectedMailbox → Handled}
    (hbody : ∀ data mailbox, (body data mailbox).session.receiver = s.receiver) :
    (s.withMailbox call.command found body).session.receiver = s.receiver := by
  refine withData_receiver fun data ↦ ?_
  cases found with
  | some found => exact hbody data found.2
  | none => rfl

theorem onSessionData_receiver :
    (s.onSessionData call answer).session.receiver = s.receiver := by
  unfold onSessionData
  split
  · exact withData_receiver fun _ ↦ rfl
  · rfl

theorem onMailbox_receiver {tasks : SelectedMailbox → List Task} :
    (s.onMailbox call answer tasks).session.receiver = s.receiver := by
  unfold onMailbox
  split
  · exact withMailbox_receiver fun _ _ ↦ rfl
  · rfl

theorem authenticate_receiver {credentials : Credentials} :
    (s.authenticate call answer credentials).session.receiver = s.receiver := by
  unfold authenticate
  split
  · split <;> rfl
  · split
    · split <;> rfl
    · rfl

theorem enable_receiver (capabilities : List Capability) :
    (s.enable capabilities).receiver = s.receiver := by
  induction capabilities generalizing s with
  | nil => rfl
  | cons capability capabilities ih =>
      cases capability with
      | other => rfl
      | _ => exact ih

theorem handleLogin_receiver : (s.handleLogin call answer).session.receiver = s.receiver := by
  unfold handleLogin
  split
  · split
    · exact authenticate_receiver
    · rfl
  · rfl

theorem handleSelect_receiver : (s.handleSelect call answer).session.receiver = s.receiver := by
  unfold handleSelect
  split
  · refine withData_receiver fun _ ↦ ?_
    split <;> rfl
  · rfl

theorem handleList_receiver : (s.handleList call answer).session.receiver = s.receiver := by
  unfold handleList
  split
  · rfl
  · exact onSessionData_receiver

theorem handleAppend_receiver : (s.handleAppend call answer).session.receiver = s.receiver := by
  unfold handleAppend
  split
  · exact withData_receiver fun _ ↦ rfl
  · rfl

theorem handleFetch_receiver : (s.handleFetch call answer).session.receiver = s.receiver := by
  unfold handleFetch
  split
  · exact withMailbox_receiver fun _ _ ↦ rfl
  · rfl

theorem handleIdle_receiver : (s.handleIdle call answer).session.receiver = s.receiver := by
  refine withData_receiver fun _ ↦ ?_
  split <;> rfl

theorem handleNoop_receiver : (s.handleNoop call).session.receiver = s.receiver := by
  unfold handleNoop
  split
  · exact withData_receiver fun _ ↦ rfl
  · rfl

theorem handleEnable_receiver : (s.handleEnable answer).session.receiver = s.receiver := by
  unfold handleEnable
  split
  · exact enable_receiver _
  · rfl

theorem handleAuthenticate_receiver (hc : call.command = .authenticate) :
    (s.handleAuthenticate base64 call answer).session.receiver =
      continued s.receiver call.request := by
  have hc' : call.request.command = .authenticate := hc
  unfold handleAuthenticate
  split
  · next mechanism params hparse =>
      split
      · next hmechanism =>
          split
          · next hparams =>
              have hnone : continuation call.request = none := by
                cases params <;> simp_all [continuation]
              simp only [continued, hnone]
              split
              · exact authenticate_receiver
              · rfl
          · next hparams =>
              obtain rfl : params = [] := by simpa using hparams
              simp [continued, continuation, hc', hparse, hmechanism, next]
      · next hmechanism =>
          have hnone : continuation call.request = none := by
            cases params <;> simp_all [continuation]
          simp only [continued, hnone]
          rfl
  · next hparse =>
      simp only [continued, continuation, hc', hparse]
      rfl

/-- **What a handler does to the receiver.** -/
theorem dispatch_receiver : (s.dispatch base64 call answer).session.receiver =
    continued s.receiver call.request := by
  by_cases hauthenticate : call.command = .authenticate
  · simpa only [dispatch, hauthenticate] using handleAuthenticate_receiver hauthenticate
  have hnone : continuation call.request = none := by
    unfold continuation
    split
    · next hc => exact absurd hc hauthenticate
    · rfl
  simp only [continued, hnone]
  unfold dispatch
  split
  all_goals first
    | exact onSessionData_receiver
    | exact onMailbox_receiver
    | exact handleSelect_receiver
    | exact handleList_receiver
    | exact handleAppend_receiver
    | exact withData_receiver fun _ ↦ rfl
    | exact withMailbox_receiver fun _ _ ↦ rfl
    | exact handleFetch_receiver
    | exact handleIdle_receiver
    | exact handleNoop_receiver
    | exact handleEnable_receiver
    | exact handleLogin_receiver
    | contradiction
    | rfl

end Session

end ImapToJmap.Imap
