import ImapToJmap.Imap.Watch

/-!
# Who may do what

Three properties of every trace of a connection: what a client may do before and after it has
authenticated, that no accessor of the state is `unreachable!()`, and that a mailbox opened by
EXAMINE is not changed.  The guards against all three are checked before a read is handled.  They
hold without more as far as one state of the session is concerned, and in the wake of a call of the
same read that changes the state if it has not taken away what the guard has seen.
-/

namespace ImapToJmap.Imap

open Run

/-! ## Authentication -/

/-- What a trace says of the authentication: the session data of the last successful one, unless it
has been undone, and how many credentials have been forwarded since. -/
structure Ledger where
  data : Option SessionData
  connects : ℕ

namespace Ledger

/-- Nothing has happened yet. -/
def blank : Ledger := ⟨none, 0⟩

/-- The ledger after an event. -/
def next (m : Ledger) : Event → Ledger
  | .connect _ => { m with connects := m.connects + 1 }
  | .authenticated data => ⟨some data, 0⟩
  | .unauthenticated => { m with data := none }
  | _ => m

/-- LOGIN is handled over TLS only, the session data that is used is that of the last successful
authentication, and no more than four credentials are forwarded between two of them. -/
def Secure (m : Ledger) : Event → Prop
  | .call call _ isTls => call.command = .login → isTls = true
  | .useData _ data => m.data = some data
  | .connect _ => m.connects < 4
  | _ => True

instance (m : Ledger) (e : Event) : Decidable (m.Secure e) := by
  cases e <;> unfold Secure <;> infer_instance

/-- A handler that uses session data runs after a successful authentication only. -/
def Entitled (m : Ledger) : Event → Prop
  | .call call _ _ => needs call.command ≠ .nothing → m.data.isSome = true
  | _ => True

instance (m : Ledger) (e : Event) : Decidable (m.Entitled e) := by
  cases e <;> unfold Entitled <;> infer_instance

/-- The ledger of a connection. -/
structure Of (c : Connection) (m : Ledger) : Prop where
  data : c.session.state.sessionData = m.data
  connects : ∀ n, c.session.state = .notAuthenticated n → m.connects ≤ n ∧ n ≤ 3
  settled : m.data.isSome = true → m.connects = 0

end Ledger

/-- No command that uses session data stands behind an UNAUTHENTICATE of its read. -/
def Signed (_ : Connection) (wake : Wake) (call : Call) : Prop :=
  wake.lost = .session → needs call.command = .nothing

instance (c : Connection) (wake : Wake) (call : Call) : Decidable (Signed c wake call) := by
  unfold Signed; infer_instance

/-- A handler call keeps the ledger. -/
theorem Ledger.Of.handle {o : Outside} {s₀ : Session} {w : Wake} {c : Connection} {m : Ledger}
    {call : Call} {handled : Handled} (h : Ledger.Of c m) (hreached : Reached s₀ w c.session)
    (hadmissible : Admissible s₀.state s₀.isTls call.command)
    (heffect : Effect o.base64 c.session call (c.answer o call) handled) :
    Along Ledger.next Ledger.Secure m
        (.call call c.session.state c.session.isTls :: handled.events) ∧
      ((c.after call handled).Alive → Ledger.Of (c.after call handled)
        (exec Ledger.next m (.call call c.session.state c.session.isTls :: handled.events))) := by
  have hcall : m.Secure (.call call c.session.state c.session.isTls) :=
    fun hlogin ↦ hreached.isTls.trans (hadmissible.overTls hlogin)
  have hconnect : m.connects < 4 := by
    cases hs : c.session.state with
    | notAuthenticated n => have := h.connects n hs; omega
    | _ =>
        have hsome : m.data.isSome = true := by simp [← h.data, hs, State.sessionData]
        have := h.settled hsome
        omega
  cases heffect with
  | stay hstate htls hflow hopens hleaves =>
      exact ⟨⟨hcall, trivial⟩, fun _ ↦ ⟨hstate ▸ h.data, hstate ▸ h.connects, h.settled⟩⟩
  | use hstate htls hdata hopens hleaves htasks =>
      exact ⟨⟨hcall, h.data.symm.trans hdata, trivial⟩,
        fun _ ↦ ⟨hstate ▸ h.data, hstate ▸ h.connects, h.settled⟩⟩
  | opened hopens hdata hopened =>
      exact ⟨⟨hcall, h.data.symm.trans hdata, trivial⟩,
        fun _ ↦ ⟨hdata.symm.trans h.data, by simp [Connection.after], h.settled⟩⟩
  | @closed data mailbox hc hs =>
      have hdata : c.session.state.sessionData = some data := by simp [hs, State.sessionData]
      have hused : m.data = some data := h.data.symm.trans hdata
      by_cases hselect : mailbox.isSelect = true
      · simp only [hselect, if_true]
        exact ⟨⟨hcall, hused, trivial, trivial⟩,
          fun _ ↦ ⟨hused.symm, by simp [Connection.after], h.settled⟩⟩
      · simp only [hselect]
        exact ⟨⟨hcall, hused, trivial⟩,
          fun _ ↦ ⟨hused.symm, by simp [Connection.after], h.settled⟩⟩
  | unselected hc hdata =>
      exact ⟨⟨hcall, h.data.symm.trans hdata, trivial⟩,
        fun _ ↦ ⟨hdata.symm.trans h.data, by simp [Connection.after], h.settled⟩⟩
  | expunged hwrites hs =>
      have hdata := h.data
      rw [hs] at hdata
      exact ⟨⟨hcall, hdata.symm, trivial, trivial⟩, fun _ ↦ ⟨h.data, h.connects, h.settled⟩⟩
  | accepted hc hconnected hfetched hpurged =>
      exact ⟨⟨hcall, hconnect, trivial, trivial⟩,
        fun _ ↦ ⟨rfl, by simp [Connection.after], fun _ ↦ rfl⟩⟩
  | @failed credentials n hc hconnected hs hfew =>
      have hcount := h.connects n hs
      have hnone : m.data = none := by rw [← h.data, hs]; rfl
      refine ⟨⟨hcall, hconnect, trivial⟩, fun _ ↦ ⟨hnone.symm, ?_, ?_⟩⟩
      · rintro n' ⟨⟩
        exact ⟨Nat.succ_le_succ hcount.1, hfew⟩
      · intro hsome
        simp [Ledger.next, hnone] at hsome
  | dropped hc => exact ⟨⟨hcall, hconnect, trivial⟩, fun halive ↦ absurd rfl halive.1⟩
  | unauthenticated hc =>
      refine ⟨⟨hcall, trivial, trivial⟩, fun _ ↦ ⟨rfl, ?_, by simp [Ledger.next]⟩⟩
      rintro n ⟨⟩
      -- a second UNAUTHENTICATE of the read resets a counter that is zero
      refine ⟨?_, Nat.zero_le 3⟩
      cases hs : c.session.state with
      | notAuthenticated n =>
          have hzero := hreached.uncounted (hadmissible.session hc) n hs
          exact (h.connects n hs).1.trans hzero.le
      | _ => exact (h.settled (by simp [← h.data, hs, State.sessionData])).le
  | counterless hc hconnected hnone =>
      exact ⟨⟨hcall, hconnect, trivial, trivial⟩, fun halive ↦ absurd rfl halive.2⟩
  | panic hneeds => exact ⟨⟨hcall, trivial, trivial⟩, fun halive ↦ absurd rfl halive.2⟩

/-- The ledger is kept along a run. -/
theorem Ledger.watched (o : Outside) (P : Connection → Wake → Call → Prop) :
    Watched o P Ledger.next Ledger.Secure (fun c m ↦ c.Alive → Ledger.Of c m) where
  frame := fun hstate _ halive h hc' ↦
    have h := h (halive hc')
    ⟨hstate ▸ h.data, hstate ▸ h.connects, h.settled⟩
  quiet := fun {m e} he ↦ by cases e <;> first | exact ⟨trivial, rfl⟩ | exact he.elim
  handle := fun hR hflow hreached hadmissible _ heffect ↦
    (hR (by simp [Connection.Alive, hflow])).handle hreached hadmissible heffect
  work := fun hR _ ↦ ⟨trivial, hR⟩
  finish := fun _ hR halive ↦
    have h := hR halive
    ⟨h.data, h.connects, h.settled⟩

/-- No event of a handler is a handler call. -/
theorem along_entitled {base64 : String → Option Bytes} {s : Session} {call : Call}
    {answer : Answer} {handled : Handled} (h : Effect base64 s call answer handled) (m : Ledger) :
    Along Ledger.next Ledger.Entitled m handled.events := by
  cases h with
  | closed => split <;> simp [Along, Ledger.Entitled]
  | _ => simp [Along, Ledger.Entitled]

/-- Handlers of commands that use session data are entitled to. -/
theorem Ledger.entitled (o : Outside) :
    Watched o Signed Ledger.next Ledger.Entitled (fun c m ↦ c.Alive → Ledger.Of c m) where
  frame := (Ledger.watched o Signed).frame
  quiet := fun {m e} he ↦ by cases e <;> first | exact ⟨trivial, rfl⟩ | exact he.elim
  handle := fun {s₀ w c m call handled} hR hflow hreached hadmissible hsigned heffect ↦ by
    have hof := hR (by simp [Connection.Alive, hflow])
    refine ⟨⟨fun hneeds ↦ ?_, along_entitled heffect m⟩,
      ((Ledger.watched o Signed).handle hR hflow hreached hadmissible hsigned heffect).2⟩
    -- before the read there was a session, and nothing in the read has ended it
    have hbefore : s₀.state.sessionData.isSome = true := by
      have hoffers := hadmissible.offers
      cases hn : needs call.command with
      | nothing => exact absurd hn hneeds
      | data => simpa [State.offers, hn] using hoffers
      | mailbox => exact State.sessionData_of_mailbox (by simpa [State.offers, hn] using hoffers)
    have hkept := hreached.data hbefore fun hlost ↦ hneeds (hsigned hlost)
    rwa [hof.data] at hkept
  work := (Ledger.watched o Signed).work
  finish := (Ledger.watched o Signed).finish

theorem Ledger.of_new (maxRequestSize : ℕ) (isTls : Bool) :
    Ledger.Of (Connection.new maxRequestSize isTls) .blank where
  data := rfl
  connects := by
    rintro n ⟨⟩
    exact ⟨le_rfl, Nat.zero_le 3⟩
  settled := fun _ ↦ rfl

/-- **Authentication.**  On every trace LOGIN is handled over TLS only, the session data in use is
that of the last successful authentication, and between two of these no more than four credentials
are forwarded.  If no command that uses session data stands behind an UNAUTHENTICATE of its read,
then no handler of such a command runs without a successful authentication that has not been
undone. -/
theorem Connection.trace_secure (o : Outside) (maxRequestSize : ℕ) (isTls : Bool)
    (inputs : List Connection.Input) :
    Along Ledger.next Ledger.Secure .blank
        ((Connection.new maxRequestSize isTls).trace o inputs) ∧
      (Along (advance (Connection.step o)) (Connection.Orderly o Signed)
          (Connection.new maxRequestSize isTls) inputs →
        Along Ledger.next Ledger.Entitled .blank
          ((Connection.new maxRequestSize isTls).trace o inputs)) := by
  have hnew := Ledger.of_new maxRequestSize isTls
  refine ⟨(Ledger.watched o fun _ _ _ ↦ True).trace (fun _ ↦ hnew) ?_,
    (Ledger.entitled o).trace fun _ ↦ hnew⟩
  refine along_of_forall fun input _ c ↦ ?_
  cases input with
  | read bytes => exact fun _ _ ↦ along_of_forall fun _ _ _ _ ↦ trivial
  | _ => trivial

/-- An outside where everything succeeds; SELECT and EXAMINE open different mailboxes. -/
def Outside.obliging : Outside where
  base64 := fun _ ↦ none
  answer := fun _ _ call ↦
    { parsed := true, isSeparatorQuery := false, enable := [], asksModSeq := false,
      asksSeen := false, destination := true, connected := true, mailboxesFetched := true,
      purged := true, eventSource := true
      opened := some (⟨"account", some (if call.command = .examine then "archive" else "inbox")⟩,
        ⟨1, 1, [], [], 0, ""⟩) }

/-- A client that authenticates, uses the session and gives it up. -/
theorem Connection.trace_secure_session :
    Along Ledger.next Ledger.Entitled .blank
      ((Connection.new 100 true).trace .obliging [.read (asBytes "a LOGIN user secret\r\n"),
        .read (asBytes "b NAMESPACE\r\nc UNAUTHENTICATE\r\nd NOOP\r\n")]) :=
  (Connection.trace_secure _ _ _ _).2 (by decide +kernel)

/-- UNAUTHENTICATE and NAMESPACE in one read: both are admitted, and when the second is handled
there is no session any more. -/
theorem Connection.entitled_fails :
    ¬ ∀ (o : Outside) (maxRequestSize : ℕ) (isTls : Bool) (inputs : List Connection.Input),
      Along Ledger.next Ledger.Entitled .blank
        ((Connection.new maxRequestSize isTls).trace o inputs) := by
  intro h
  refine absurd (h .obliging 100 true [.read (asBytes "a LOGIN user secret\r\n"),
    .read (asBytes "b UNAUTHENTICATE\r\nc NAMESPACE\r\n")]) ?_
  decide +kernel

/-! ## Accessors -/

/-- A handler reaches an `unreachable!()`. -/
def Event.Panics : Event → Prop
  | .panic _ => True
  | _ => False

instance (e : Event) : Decidable e.Panics := by
  cases e <;> unfold Event.Panics <;> infer_instance

/-- No call stands, in its read, behind one that takes away what it needs: a command that uses
session data behind an UNAUTHENTICATE, one that uses the selected mailbox behind a CLOSE or UNSELECT
(unless a mailbox has been opened since), or credentials that are turned down behind credentials
that are accepted. -/
def Kept (o : Outside) (c : Connection) (wake : Wake) (call : Call) : Prop :=
  wake.lost.spares (needs call.command) = true ∧
    (wake.accepted = true → turnsDown o.base64 call (c.answer o call) = false)

instance (o : Outside) (c : Connection) (wake : Wake) (call : Call) :
    Decidable (Kept o c wake call) := by
  unfold Kept; infer_instance

/-- A command finds what it needs unless it has been taken away. -/
theorem Reached.offers {s₀ s : Session} {w : Wake} {command : Command} (h : Reached s₀ w s)
    (hadmissible : Admissible s₀.state s₀.isTls command)
    (hspares : w.lost.spares (needs command) = true) : s.state.offers (needs command) := by
  have hoffers := hadmissible.offers
  cases hn : needs command with
  | nothing => trivial
  | data =>
      rw [hn] at hoffers hspares
      refine h.data hoffers fun hlost ↦ ?_
      simp [hlost, Lost.spares] at hspares
  | mailbox =>
      rw [hn] at hoffers hspares
      refine h.mailbox hoffers ?_
      cases hlost : w.lost <;> simp_all [Lost.spares]

/-- Without accepted credentials in its wake, LOGIN and AUTHENTICATE find the failure counter. -/
theorem Reached.counter {s₀ s : Session} {w : Wake} {command : Command} (h : Reached s₀ w s)
    (hadmissible : Admissible s₀.state s₀.isTls command) (hc : authenticates command = true)
    (haccepted : w.accepted = false) : s.state.authFailures ≠ none := by
  have hnone := h.fresh (hadmissible.fresh hc) haccepted
  cases hs : s.state <;> simp_all [State.authFailures, State.sessionData]

/-- No accessor is `unreachable!()`. -/
theorem Connection.kept_watched (o : Outside) :
    Watched o (Kept o) (fun _ _ ↦ ()) (fun _ e ↦ ¬ e.Panics) (fun _ _ ↦ True) where
  frame := fun _ _ _ _ ↦ trivial
  quiet := fun {m e} he ↦ by cases e <;> first | exact ⟨id, rfl⟩ | exact he.elim
  handle := fun {s₀ w c m call handled} _ _ hreached hadmissible hkept heffect ↦ by
    refine ⟨along_iff_forall.mpr fun e he ↦ ?_, trivial⟩
    rcases List.mem_cons.mp he with rfl | he
    · exact id
    · cases heffect with
      | counterless hc hconnected hnone =>
          have hc' := authenticates_of_presented hc
          refine absurd hnone (hreached.counter hadmissible hc' ?_)
          by_contra haccepted
          have hturned := hkept.2 (by simpa using haccepted)
          simp [turnsDown, hc, hconnected] at hturned
      | panic hneeds => exact absurd (hreached.offers hadmissible hkept.1) hneeds
      | closed =>
          rcases List.mem_cons.mp he with rfl | he
          · exact id
          · split at he
            · obtain rfl := List.mem_singleton.mp he
              exact id
            · cases he
      | _ =>
          revert e
          simp [Event.Panics]
  work := fun _ _ ↦ ⟨id, trivial⟩
  finish := fun _ _ ↦ trivial

/-- **Accessors.**  If no call stands behind one of its read that takes away what it needs, no
handler reaches an `unreachable!()`. -/
theorem Connection.no_panic_of_kept (o : Outside) {c : Connection} {inputs : List Connection.Input}
    (h : Along (advance (Connection.step o)) (Connection.Orderly o (Kept o)) c inputs) :
    ∀ e ∈ c.trace o inputs, ¬ e.Panics :=
  (along_iff_forall (s := ())).mp ((kept_watched o).trace trivial h)

/-! ## Read-only mailboxes -/

/-- A change is made with a mailbox that was opened by EXAMINE. -/
def Event.ByExamined : Event → Prop
  | .change _ mailbox _ => mailbox.isSelect = false
  | _ => False

/-- A change is made to a mailbox while it is open because of EXAMINE. -/
def Event.IntoExamined : Event → Prop
  | .change _ mailbox state =>
      ∃ open' ∈ state.mailbox?, open'.isSelect = false ∧ open'.id = mailbox.id
  | _ => False

instance (e : Event) : Decidable e.ByExamined := by
  cases e <;> unfold Event.ByExamined <;> infer_instance

instance (e : Event) : Decidable e.IntoExamined := by
  cases e <;> unfold Event.IntoExamined <;> infer_instance

/-- No STORE, EXPUNGE or MOVE stands behind an EXAMINE of its read, unless another mailbox has been
opened by SELECT or none is open. -/
def ReadOnly (_ : Connection) (wake : Wake) (call : Call) : Prop :=
  wake.examined = true → writes call.command = false

/-- Beside that, EXAMINE opens no mailbox on which a task of the connection is still at work. -/
def Unattended (o : Outside) (c : Connection) (wake : Wake) (call : Call) : Prop :=
  ReadOnly c wake call ∧
    (opens call (c.answer o call) = true → call.command = .examine →
      ∀ opened ∈ (c.answer o call).opened, ∀ t ∈ c.tasks, t.mailbox.id ≠ opened.1)

instance (c : Connection) (wake : Wake) (call : Call) : Decidable (ReadOnly c wake call) := by
  unfold ReadOnly; infer_instance

instance (o : Outside) (c : Connection) (wake : Wake) (call : Call) :
    Decidable (Unattended o c wake call) := by
  unfold Unattended; infer_instance

/-- The tasks of a connection were spawned with mailboxes opened by SELECT. -/
def Connection.Writing (c : Connection) : Prop := ∀ t ∈ c.tasks, t.mailbox.isSelect = true

/-- And none of them is at work on the mailbox that is open because of EXAMINE. -/
def Connection.Apart (c : Connection) : Prop :=
  c.Writing ∧ ∀ mailbox ∈ c.session.state.mailbox?, mailbox.isSelect = false →
    ∀ t ∈ c.tasks, t.mailbox.id ≠ mailbox.id

/-- A command that writes is handled with a mailbox opened by SELECT. -/
theorem Reached.select {s₀ s : Session} {w : Wake} {c : Connection} {call : Call}
    (h : Reached s₀ w s) (hadmissible : Admissible s₀.state s₀.isTls call.command)
    (hreadOnly : ReadOnly c w call) (hwrites : writes call.command = true) :
    ∀ mailbox, s.state.mailbox? = some mailbox → mailbox.isSelect = true := by
  refine h.writable (hadmissible.writable hwrites) ?_
  by_contra hexamined
  simp [hreadOnly (by simpa using hexamined)] at hwrites

/-- The tasks that a handler call spawns work on the mailbox that is selected, and it was opened by
SELECT. -/
theorem Reached.spawned {base64 : String → Option Bytes} {s₀ s : Session} {w : Wake}
    {c : Connection} {call : Call} {answer : Answer} {handled : Handled} (h : Reached s₀ w s)
    (hadmissible : Admissible s₀.state s₀.isTls call.command) (hreadOnly : ReadOnly c w call)
    (heffect : Effect base64 s call answer handled) :
    ∀ t ∈ handled.tasks, s.state.mailbox? = some t.mailbox ∧ t.mailbox.isSelect = true ∧
      handled.session.state = s.state := by
  cases heffect with
  | use hstate htls hdata hopens hleaves htasks =>
      intro t ht
      obtain ⟨hmailbox, hselect | hwrites⟩ := htasks t ht
      · exact ⟨hmailbox, hselect, hstate⟩
      · exact ⟨hmailbox, h.select hadmissible hreadOnly hwrites _ hmailbox, hstate⟩
  | _ => simp

/-- A change that a handler itself makes is one to the selected mailbox, opened by SELECT. -/
theorem Reached.changed {base64 : String → Option Bytes} {s₀ s : Session} {w : Wake}
    {c : Connection} {call : Call} {answer : Answer} {handled : Handled} (h : Reached s₀ w s)
    (hadmissible : Admissible s₀.state s₀.isTls call.command) (hreadOnly : ReadOnly c w call)
    (heffect : Effect base64 s call answer handled) :
    ∀ e ∈ handled.events, ¬ e.ByExamined ∧ ¬ e.IntoExamined := by
  have own {mailbox : SelectedMailbox} {data : SessionData} {change : Change}
      (hs : s.state = .selected data mailbox) (hselect : mailbox.isSelect = true) :
      ¬ (Event.change change mailbox s.state).ByExamined ∧
        ¬ (Event.change change mailbox s.state).IntoExamined := by
    constructor
    · simp [Event.ByExamined, hselect]
    · simp [Event.IntoExamined, hs, State.mailbox?, hselect]
  cases heffect with
  | closed hc hs =>
      intro e he
      rcases List.mem_cons.mp he with rfl | he
      · exact ⟨id, id⟩
      · split at he
        · next hselect =>
            obtain rfl := List.mem_singleton.mp he
            exact own hs hselect
        · cases he
  | expunged hwrites hs =>
      intro e he
      simp only [List.mem_cons, List.not_mem_nil, or_false] at he
      rcases he with rfl | rfl
      · exact ⟨id, id⟩
      · exact own hs (h.select hadmissible hreadOnly hwrites _ (by simp [hs, State.mailbox?]))
  | _ => simp [Event.ByExamined, Event.IntoExamined]

theorem Connection.writing_after {o : Outside} {s₀ : Session} {w : Wake} {c : Connection}
    {call : Call} {handled : Handled} (h : c.Writing) (hreached : Reached s₀ w c.session)
    (hadmissible : Admissible s₀.state s₀.isTls call.command) (hreadOnly : ReadOnly c w call)
    (heffect : Effect o.base64 c.session call (c.answer o call) handled) :
    (c.after call handled).Writing := by
  intro t ht
  rcases List.mem_append.mp ht with ht | ht
  · exact h t ht
  · exact (hreached.spawned hadmissible hreadOnly heffect t ht).2.1

/-- Changes are made with mailboxes opened by SELECT. -/
theorem Connection.writing_watched (o : Outside) :
    Watched o ReadOnly (fun _ _ ↦ ()) (fun _ e ↦ ¬ e.ByExamined) (fun c _ ↦ c.Writing) where
  frame := fun _ htasks _ h t ht ↦ h t (htasks ▸ ht)
  quiet := fun {m e} he ↦ by cases e <;> first | exact ⟨id, rfl⟩ | exact he.elim
  handle := fun {s₀ w c m call handled} hR _ hreached hadmissible hreadOnly heffect ↦ by
    refine ⟨along_iff_forall.mpr ?_, writing_after hR hreached hadmissible hreadOnly heffect⟩
    intro e he
    rcases List.mem_cons.mp he with rfl | he
    · exact id
    · exact (hreached.changed hadmissible hreadOnly heffect e he).1
  work := fun {c m t} hR ht ↦ ⟨by simp [Event.ByExamined, hR t ht], hR⟩
  finish := fun i hR t ht ↦ hR t (List.mem_of_mem_eraseIdx ht)

/-- A handler call keeps the tasks off a mailbox that is open because of EXAMINE. -/
theorem Connection.apart_after {o : Outside} {s₀ : Session} {w : Wake} {c : Connection}
    {call : Call} {handled : Handled} (h : c.Apart) (hreached : Reached s₀ w c.session)
    (hadmissible : Admissible s₀.state s₀.isTls call.command)
    (hunattended : Unattended o c w call)
    (heffect : Effect o.base64 c.session call (c.answer o call) handled) :
    (c.after call handled).Apart := by
  obtain ⟨hreadOnly, hexamine⟩ := hunattended
  have hspawned := hreached.spawned hadmissible hreadOnly heffect
  refine ⟨writing_after h.1 hreached hadmissible hreadOnly heffect, ?_⟩
  intro mailbox hmailbox hexamined t htask
  rcases List.mem_append.mp htask with ht | ht
  · -- a task from before: the mailbox was open already, or it has just been opened by EXAMINE
    cases heffect with
    | @opened data id state hopens hdata hopened =>
        obtain rfl : _ = mailbox := Option.some.inj hmailbox
        have hcommand : call.command = .select ∨ call.command = .examine := by
          simp only [opens, Bool.and_eq_true, Bool.or_eq_true, beq_iff_eq] at hopens
          exact hopens.1.1
        have hnot : call.command ≠ .select := by simpa using hexamined
        exact hexamine hopens (hcommand.resolve_left hnot) (id, state) (by simp [hopened]) t ht
    | stay hstate => exact h.2 mailbox (hstate ▸ hmailbox) hexamined t ht
    | use hstate => exact h.2 mailbox (hstate ▸ hmailbox) hexamined t ht
    | closed | unselected | accepted | failed | unauthenticated =>
        simp [Connection.after, State.mailbox?] at hmailbox
    | expunged | dropped | counterless | panic => exact h.2 mailbox hmailbox hexamined t ht
  · -- a new one works on the selected mailbox, which was opened by SELECT
    obtain ⟨hselected, hselect, hstate⟩ := hspawned t ht
    have hsame : c.session.state.mailbox? = some mailbox := by
      rw [← hstate]
      exact hmailbox
    obtain rfl := Option.some.inj (hselected.symm.trans hsame)
    simp [hexamined] at hselect

/-- A mailbox that is open because of EXAMINE is not changed. -/
theorem Connection.apart_watched (o : Outside) :
    Watched o (Unattended o) (fun _ _ ↦ ()) (fun _ e ↦ ¬ e.IntoExamined)
      (fun c _ ↦ c.Apart) where
  frame := fun hstate htasks _ h ↦
    ⟨fun t ht ↦ h.1 t (htasks ▸ ht), fun mailbox hmailbox hexamined t ht ↦
      h.2 mailbox (hstate ▸ hmailbox) hexamined t (htasks ▸ ht)⟩
  quiet := fun {m e} he ↦ by cases e <;> first | exact ⟨id, rfl⟩ | exact he.elim
  handle := fun {s₀ w c m call handled} hR _ hreached hadmissible hunattended heffect ↦ by
    refine ⟨along_iff_forall.mpr ?_, apart_after hR hreached hadmissible hunattended heffect⟩
    intro e he
    rcases List.mem_cons.mp he with rfl | he
    · exact id
    · exact (hreached.changed hadmissible hunattended.1 heffect e he).2
  work := fun {c m t} hR ht ↦ by
    refine ⟨?_, hR⟩
    rintro ⟨mailbox, hmailbox, hexamined, hid⟩
    exact hR.2 mailbox hmailbox hexamined t ht hid.symm
  finish := fun i hR ↦
    ⟨fun t ht ↦ hR.1 t (List.mem_of_mem_eraseIdx ht), fun mailbox hmailbox hexamined t ht ↦
      hR.2 mailbox hmailbox hexamined t (List.mem_of_mem_eraseIdx ht)⟩

/-- **Read-only mailboxes.**  If no STORE, EXPUNGE or MOVE stands behind an EXAMINE of its read
(unless another mailbox has been opened by SELECT or none is open), then every change is made with a
mailbox opened by SELECT.  If beside that EXAMINE opens no mailbox on which a task of the connection
is still at work, then no mailbox is changed while it is open because of EXAMINE. -/
theorem Connection.trace_readOnly (o : Outside) (maxRequestSize : ℕ) (isTls : Bool)
    (inputs : List Connection.Input) :
    (Along (advance (Connection.step o)) (Connection.Orderly o ReadOnly)
        (Connection.new maxRequestSize isTls) inputs →
      ∀ e ∈ (Connection.new maxRequestSize isTls).trace o inputs, ¬ e.ByExamined) ∧
    (Along (advance (Connection.step o)) (Connection.Orderly o (Unattended o))
        (Connection.new maxRequestSize isTls) inputs →
      ∀ e ∈ (Connection.new maxRequestSize isTls).trace o inputs, ¬ e.IntoExamined) := by
  have hwriting : (Connection.new maxRequestSize isTls).Writing := by
    intro t ht
    cases ht
  have hapart : (Connection.new maxRequestSize isTls).Apart := by
    refine ⟨hwriting, fun mailbox hmailbox ↦ ?_⟩
    cases hmailbox
  constructor
  · intro h
    exact (along_iff_forall (s := ())).mp ((writing_watched o).trace hwriting h)
  · intro h
    exact (along_iff_forall (s := ())).mp ((apart_watched o).trace hapart h)

/-- A client that changes one mailbox, and then reads another. -/
theorem Connection.trace_readOnly_session :
    ∀ e ∈ (Connection.new 100 true).trace .obliging [.read (asBytes "a LOGIN user secret\r\n"),
        .read (asBytes "b SELECT inbox\r\n"), .read (asBytes "c STORE 1 +FLAGS x\r\n"), .work 0,
        .read (asBytes "d EXAMINE archive\r\ne FETCH 1 FLAGS\r\n"), .work 0, .finish 0],
      ¬ e.IntoExamined :=
  (Connection.trace_readOnly _ _ _ _).2 (by decide +kernel)

/-- EXAMINE and EXPUNGE in one read: the second is admitted because another mailbox is open when the
read arrives. -/
theorem Connection.readOnly_fails :
    ¬ ∀ (o : Outside) (maxRequestSize : ℕ) (isTls : Bool) (inputs : List Connection.Input),
      ∀ e ∈ (Connection.new maxRequestSize isTls).trace o inputs, ¬ e.IntoExamined := by
  intro h
  have hexpunged := h .obliging 100 true [.read (asBytes "a LOGIN user secret\r\n"),
    .read (asBytes "b SELECT inbox\r\n"),
    .read (asBytes "c EXAMINE archive\r\nd EXPUNGE\r\n")]
  revert hexpunged
  decide +kernel

end ImapToJmap.Imap
