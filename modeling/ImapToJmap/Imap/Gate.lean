import ImapToJmap.Imap.Effects

/-!
# Admission

`is_allowed` is asked for all requests of a read before the first of them is handled, so what it
has seen need not be what a handler finds.  `Wake` is what the calls before it in the same read may
have done to what a call was admitted for: `Reached` relates the session before the read, the wake
and the session in which the call is handled, and every handler call keeps it.

A call in whose wake nothing that it needs has been taken away finds what it was admitted for.
-/

namespace ImapToJmap.Imap

/-! ## What `is_allowed` guarantees -/

/-- The commands that present credentials. -/
def authenticates : Command → Bool
  | .authenticate | .login => true
  | _ => false

theorem authenticates_of_presented {base64 : String → Option Bytes} {request : Request Command}
    {credentials : Credentials} (h : presented base64 request = some credentials) :
    authenticates request.command = true := by
  rw [presented] at h
  split at h
  · next hc => simp [authenticates, hc]
  · next hc => simp [authenticates, hc]
  · cases h

/-- What is known of the state in which a command is admitted. -/
structure Admissible (state : State) (isTls : Bool) (command : Command) : Prop where
  offers : state.offers (needs command)
  overTls : command = .login → isTls = true
  fresh : authenticates command = true → state.sessionData = none
  session : command = .unauthenticate → state.sessionData.isSome = true
  writable : writes command = true →
    ∃ mailbox, state.mailbox? = some mailbox ∧ mailbox.isSelect = true

/-- The arms of `is_allowed`: each is unconditional in a given state, or asks for one thing more,
TLS or a mailbox that is not read-only. -/
theorem isAllowed_eq {state : State} {isTls : Bool} {request request' : Request Command}
    (h : isAllowed state isTls request = .ok request') :
    request' = request ∧ Admissible state isTls request.command := by
  cases hc : request.command <;> cases state <;>
    simp only [isAllowed, hc, reduceCtorEq, Bool.not_true, Bool.not_false, Bool.or_true,
      Bool.or_false] at h <;>
    first
    | (obtain rfl := Except.ok.inj h
       refine ⟨rfl, ?_, ?_, ?_, ?_, ?_⟩ <;>
         simp [State.offers, needs, authenticates, writes, State.sessionData, State.mailbox?])
    | (split at h
       · next hmore =>
           obtain rfl := Except.ok.inj h
           refine ⟨rfl, ?_, ?_, ?_, ?_, ?_⟩ <;>
             simp_all [State.offers, needs, authenticates, writes, State.sessionData,
               State.mailbox?]
       · cases h)

/-- A mailbox is selected in a session. -/
theorem State.sessionData_of_mailbox {state : State} (h : state.mailbox?.isSome = true) :
    state.sessionData.isSome = true := by
  cases state with
  | selected => rfl
  | _ => simp [State.mailbox?] at h

/-- The calls of a read are for requests of the read. -/
theorem mem_of_mem_calls {requests : List (Request Command)} {call : Call}
    (h : call ∈ calls requests) : call.request ∈ requests := by
  induction requests generalizing call with
  | nil => simp [calls] at h
  | cons request requests ih =>
      rw [calls] at h
      split at h
      · obtain rfl := List.mem_singleton.mp h
        exact List.mem_cons_self
      · next first later hcalls =>
          have hlater {call : Call} (h : call ∈ first :: later) : call.request ∈ requests :=
            ih (hcalls ▸ h)
          split at h
          · rcases List.mem_cons.mp h with rfl | h
            · exact List.mem_cons_self
            · exact List.mem_cons_of_mem _ (hlater (List.mem_cons_of_mem _ h))
          · rcases List.mem_cons.mp h with rfl | h
            · exact List.mem_cons_self
            · exact List.mem_cons_of_mem _ (hlater h)

/-- **The calls of a read are for requests that are admissible before the read.** -/
theorem Connection.admissible_of_mem_calls {c : Connection} {bytes : Bytes} {call : Call}
    (h : call ∈ calls (c.collect bytes).requests) :
    Admissible c.session.state c.session.isTls call.command := by
  obtain ⟨request, hallowed⟩ := Receiver.allowed_of_mem_collect _ (mem_of_mem_calls h)
  obtain ⟨hrequest, hadmissible⟩ := isAllowed_eq hallowed
  rwa [← hrequest] at hadmissible

/-! ## In the wake of other calls -/

/-- What may have been taken away. -/
inductive Lost where
  | nothing
  | mailbox
  | session
deriving DecidableEq

/-- What the calls before it in its read leave a call: what may have been taken away, whether
credentials have been accepted, and whether the mailbox that is selected was opened by EXAMINE. -/
structure Wake where
  lost : Lost
  accepted : Bool
  examined : Bool

/-- The first call of a read. -/
def Wake.still : Wake := ⟨.nothing, false, false⟩

/-- The credentials that a call presents are accepted. -/
def accepts (base64 : String → Option Bytes) (call : Call) (answer : Answer) : Bool :=
  (presented base64 call.request).isSome && answer.connected && answer.mailboxesFetched &&
    answer.purged

/-- The credentials that a call presents are turned down. -/
def turnsDown (base64 : String → Option Bytes) (call : Call) (answer : Answer) : Bool :=
  (presented base64 call.request).isSome && !answer.connected

/-- The wake behind another call. -/
def Wake.after (base64 : String → Option Bytes) (wake : Wake) (call : Call) (answer : Answer) :
    Wake where
  lost :=
    if wake.lost = .session ∨ call.command = .unauthenticate then .session
    else if leaves call.command then .mailbox
    else if opens call answer then .nothing
    else wake.lost
  accepted := wake.accepted || accepts base64 call answer
  examined :=
    if opens call answer then call.command == .examine
    else !leaves call.command && wake.examined

/-- Nothing of what is needed has been taken away. -/
def Lost.spares : Lost → Need → Bool
  | .nothing, _ | _, .nothing | .mailbox, .data => true
  | _, _ => false

/-- What the session before a read and the wake in it say of the session that is reached. -/
structure Reached (s₀ : Session) (wake : Wake) (s : Session) : Prop where
  isTls : s.isTls = s₀.isTls
  data : s₀.state.sessionData.isSome = true → wake.lost ≠ .session →
    s.state.sessionData.isSome = true
  mailbox : s₀.state.mailbox?.isSome = true → wake.lost = .nothing →
    s.state.mailbox?.isSome = true
  fresh : s₀.state.sessionData = none → wake.accepted = false → s.state.sessionData = none
  writable : (∃ mailbox, s₀.state.mailbox? = some mailbox ∧ mailbox.isSelect = true) →
    wake.examined = false → ∀ mailbox, s.state.mailbox? = some mailbox → mailbox.isSelect = true
  uncounted : s₀.state.sessionData.isSome = true →
    ∀ n, s.state = .notAuthenticated n → n = 0

theorem Reached.still (s : Session) : Reached s .still s where
  isTls := rfl
  data := fun h _ ↦ h
  mailbox := fun h _ ↦ h
  fresh := fun h _ ↦ h
  writable := by
    rintro ⟨mailbox, hmailbox, hselect⟩ - mailbox' hmailbox'
    obtain rfl := Option.some.inj (hmailbox.symm.trans hmailbox')
    exact hselect
  uncounted := fun h n hn ↦ by simp [hn, State.sessionData] at h

section Wake

variable {base64 : String → Option Bytes} {wake : Wake} {call : Call} {answer : Answer}

theorem Wake.lost_of_after (h : (wake.after base64 call answer).lost ≠ .session) :
    wake.lost ≠ .session ∧ call.command ≠ .unauthenticate := by
  constructor <;> intro hlost <;> exact h (by simp [Wake.after, hlost])

/-- A mailbox that cannot have been given up was there before, or has just been opened. -/
theorem Wake.nothing_of_after (hopens : opens call answer = false)
    (h : (wake.after base64 call answer).lost = .nothing) :
    wake.lost = .nothing ∧ leaves call.command = false := by
  simp only [Wake.after, hopens] at h
  split at h
  · cases h
  · split at h
    · cases h
    · next hleaves => exact ⟨by simpa using h, by simpa using hleaves⟩

theorem Wake.examined_of_after (hopens : opens call answer = false)
    (hleaves : leaves call.command = false)
    (h : (wake.after base64 call answer).examined = false) : wake.examined = false := by
  simpa [Wake.after, hopens, hleaves] using h

theorem Wake.accepted_of_after (h : (wake.after base64 call answer).accepted = false) :
    wake.accepted = false ∧ accepts base64 call answer = false := by
  simpa [Wake.after] using h

theorem opens_of_writes (h : writes call.command = true) : opens call answer = false := by
  cases hc : call.command <;> simp_all [writes, opens]

theorem leaves_of_writes (h : writes call.command = true) : leaves call.command = false := by
  cases hc : call.command <;> simp_all [writes, leaves]

theorem opens_of_authenticates (h : authenticates call.command = true) :
    opens call answer = false := by
  cases hc : call.command <;> simp_all [authenticates, opens]

theorem leaves_of_authenticates (h : authenticates call.command = true) :
    leaves call.command = false := by
  cases hc : call.command <;> simp_all [authenticates, leaves]

/-- A call that leaves the state alone. -/
theorem Reached.same {s₀ s s' : Session} (h : Reached s₀ wake s) (hstate : s'.state = s.state)
    (htls : s'.isTls = s.isTls) (hopens : opens call answer = false)
    (hleaves : leaves call.command = false) :
    Reached s₀ (wake.after base64 call answer) s' where
  isTls := htls.trans h.isTls
  data := fun h₀ hlost ↦ hstate ▸ h.data h₀ (Wake.lost_of_after hlost).1
  mailbox := fun h₀ hlost ↦ hstate ▸ h.mailbox h₀ (Wake.nothing_of_after hopens hlost).1
  fresh := fun h₀ haccepted ↦ hstate ▸ h.fresh h₀ (Wake.accepted_of_after haccepted).1
  writable := fun h₀ hexamined ↦
    hstate ▸ h.writable h₀ (Wake.examined_of_after hopens hleaves hexamined)
  uncounted := fun h₀ ↦ hstate ▸ h.uncounted h₀

/-- A call that gives the mailbox up, but keeps the session. -/
theorem Reached.unselected {s₀ s : Session} {data : SessionData} (h : Reached s₀ wake s)
    (hdata : s.state.sessionData = some data)
    (hc : call.command = .close ∨ call.command = .unselect) :
    Reached s₀ (wake.after base64 call answer) { s with state := .authenticated data } where
  isTls := h.isTls
  data := fun _ _ ↦ rfl
  mailbox := fun _ hlost ↦ by
    have hopens : opens call answer = false := by rcases hc with hc | hc <;> simp [opens, hc]
    have hleaves := (Wake.nothing_of_after hopens hlost).2
    rcases hc with hc | hc <;> simp [leaves, hc] at hleaves
  fresh := fun h₀ haccepted ↦ by
    have hnone := h.fresh h₀ (Wake.accepted_of_after haccepted).1
    simp [hnone] at hdata
  writable := fun _ _ mailbox hmailbox ↦ by simp [State.mailbox?] at hmailbox
  uncounted := fun _ n hn ↦ by simp at hn

/-- A call that presents credentials: there was no session before the read. -/
theorem Reached.authenticated {s₀ s : Session} {state : State} (h : Reached s₀ wake s)
    (h₀ : s₀.state.sessionData = none) (hmailbox : state.mailbox? = none)
    (hfresh : (wake.after base64 call answer).accepted = false → state.sessionData = none) :
    Reached s₀ (wake.after base64 call answer) { s with state := state } where
  isTls := h.isTls
  data := fun hsome ↦ by simp [h₀] at hsome
  mailbox := fun hsome ↦ by
    have hdata := State.sessionData_of_mailbox hsome
    simp [h₀] at hdata
  fresh := fun _ ↦ hfresh
  writable := fun _ _ mailbox hsome ↦ by simp [hmailbox] at hsome
  uncounted := fun hsome ↦ by simp [h₀] at hsome

/-- **Handler calls**: what is reached is told by the wake. -/
theorem Reached.step {s₀ s : Session} {handled : Handled} (h : Reached s₀ wake s)
    (hadmissible : Admissible s₀.state s₀.isTls call.command)
    (heffect : Effect base64 s call answer handled) (hflow : handled.flow ≠ .panic) :
    Reached s₀ (wake.after base64 call answer) handled.session := by
  have credentials {c : Credentials} (hc : presented base64 call.request = some c) :
      authenticates call.command = true := authenticates_of_presented hc
  cases heffect with
  | stay hstate htls _ hopens hleaves => exact h.same hstate htls hopens hleaves
  | use hstate htls hdata hopens hleaves htasks => exact h.same hstate htls hopens hleaves
  | @opened data id state hopens hdata hopened =>
      refine ⟨h.isTls, fun _ _ ↦ rfl, fun _ _ ↦ rfl, fun h₀ haccepted ↦ ?_, ?_, by simp⟩
      · have hnone := h.fresh h₀ (Wake.accepted_of_after haccepted).1
        simp [hnone] at hdata
      · rintro - hexamined mailbox ⟨⟩
        have hcommand : call.command = .select ∨ call.command = .examine := by
          simp only [opens, Bool.and_eq_true, Bool.or_eq_true, beq_iff_eq] at hopens
          exact hopens.1.1
        have hexamine : call.command ≠ .examine := by simpa [Wake.after, hopens] using hexamined
        simpa [hexamine] using hcommand
  | closed hc hs => exact h.unselected (by simp [hs, State.sessionData]) (.inl hc)
  | unselected hc hdata => exact h.unselected hdata (.inr hc)
  | expunged hwrites hs =>
      exact h.same rfl rfl (opens_of_writes hwrites) (leaves_of_writes hwrites)
  | accepted hc hconnected hfetched hpurged =>
      refine h.authenticated (hadmissible.fresh (credentials hc)) rfl fun haccepted ↦ ?_
      have hnot := (Wake.accepted_of_after haccepted).2
      simp [accepts, hc, hconnected, hfetched, hpurged] at hnot
  | failed hc hconnected hs hfew =>
      exact h.authenticated (hadmissible.fresh (credentials hc)) rfl fun _ ↦ rfl
  | dropped hc =>
      exact h.same rfl rfl (opens_of_authenticates (credentials hc))
        (leaves_of_authenticates (credentials hc))
  | unauthenticated hc =>
      refine ⟨h.isTls, fun _ hlost ↦ ?_, fun _ hlost ↦ ?_, fun _ _ ↦ rfl, ?_, ?_⟩
      · exact absurd hc (Wake.lost_of_after hlost).2
      · exact absurd hc (Wake.lost_of_after (hlost.trans_ne (by simp))).2
      · rintro - - mailbox ⟨⟩
      · rintro - n ⟨⟩
        rfl
  | counterless => exact absurd rfl hflow
  | panic => exact absurd rfl hflow

end Wake

end ImapToJmap.Imap
