import ImapToJmap.Imap.Access
import ImapToJmap.ManageSieve.Connection

/-!
# Accessors, on both protocols

The analysis of admission of `Imap/Gate.lean` for ManageSieve, where a read can take away the
session and the failure counter only.  With it, no handler of either protocol reaches an
`unreachable!()` of the accessors as long as no request of a read takes away what a later one needs;
and it takes no more than two requests in one read to reach one.
-/

namespace ImapToJmap.ManageSieve

open Run

/-- What the requests before it in its read leave a request. -/
structure Wake where
  left : Bool
  accepted : Bool

/-- The first request of a read. -/
def Wake.still : Wake := ⟨false, false⟩

/-- The wake behind another request. -/
def Wake.after (base64 : String → Option Bytes) (wake : Wake) (request : Request Command)
    (answer : Answer) : Wake where
  left := wake.left || request.command == .unauthenticate
  accepted :=
    wake.accepted || ((presented base64 request).isSome && answer.connected && answer.sieve)

/-- No request stands, in its read, behind one that takes away what it needs: a command on scripts
behind an UNAUTHENTICATE, or credentials that are turned down behind ones that are accepted. -/
def Kept (o : Outside) (c : Connection) (wake : Wake) (request : Request Command) : Prop :=
  (wake.left = true → usesClient request.command = false) ∧
    (wake.accepted = true → (presented o.base64 request).isSome = true →
      (o.answer c.handled request).connected = true)

instance (o : Outside) (c : Connection) (wake : Wake) (request : Request Command) :
    Decidable (Kept o c wake request) := by
  unfold Kept; infer_instance

/-- What the session before a read and the wake in it say of the session that is reached. -/
structure Reached (s₀ : Session) (wake : Wake) (s : Session) : Prop where
  client : s₀.state.client.isSome = true → wake.left = false → s.state.client.isSome = true
  fresh : s₀.state.client = none → wake.accepted = false → s.state.client = none

section Wake

variable {base64 : String → Option Bytes} {wake : Wake} {request : Request Command}
  {answer : Answer}

theorem Wake.left_of_after (h : (wake.after base64 request answer).left = false) :
    wake.left = false ∧ request.command ≠ .unauthenticate := by
  simpa [Wake.after] using h

theorem Wake.accepted_of_after (h : (wake.after base64 request answer).accepted = false) :
    wake.accepted = false := by
  simp only [Wake.after, Bool.or_eq_false_iff] at h
  exact h.1

/-- **Handler calls**: what is reached is told by the wake. -/
theorem Reached.step {s₀ s : Session} {handled : Handled} (h : Reached s₀ wake s)
    (hadmissible : Admissible s₀.state s₀.isTls request.command)
    (heffect : Effect base64 s request answer handled) (hflow : handled.flow ≠ .panic) :
    Reached s₀ (wake.after base64 request answer) handled.session := by
  cases heffect with
  | stay hstate =>
      exact ⟨fun h₀ hleft ↦ hstate ▸ h.client h₀ (Wake.left_of_after hleft).1,
        fun h₀ haccepted ↦ hstate ▸ h.fresh h₀ (Wake.accepted_of_after haccepted)⟩
  | accepted hc hconnected hsieve =>
      refine ⟨fun _ _ ↦ rfl, fun _ haccepted ↦ ?_⟩
      simp [Wake.after, hc, hconnected, hsieve] at haccepted
  | failed hc hs =>
      refine ⟨fun h₀ _ ↦ ?_, fun _ _ ↦ rfl⟩
      simp [(hadmissible.fresh (presented_authenticate hc)).1] at h₀
  | unauthenticated hc =>
      exact ⟨fun _ hleft ↦ absurd hc (Wake.left_of_after hleft).2, fun _ _ ↦ rfl⟩
  | counterless => exact absurd rfl hflow
  | clientless => exact absurd rfl hflow

end Wake

namespace Connection

/-- The wake behind a request that is reached. -/
def wake (o : Outside) (c : Connection) (wake : Wake) (request : Request Command) : Wake :=
  wake.after o.base64 request (o.answer c.handled request)

/-- A condition on the requests of a read that are reached. -/
def Orderly (o : Outside) (P : Connection → Wake → Request Command → Prop) (c : Connection)
    (bytes : Bytes) : Prop :=
  c.flow = .next →
    Along (advance (tracked (call o) (wake o))) (fun at' request ↦ at'.1.flow = .next →
      P at'.1 at'.2 request) (c.withReceiver (c.collect bytes).receiver, Wake.still)
      (c.collect bytes).requests

instance (o : Outside) (P : Connection → Wake → Request Command → Prop)
    [∀ c w request, Decidable (P c w request)] (c : Connection) (bytes : Bytes) :
    Decidable (c.Orderly o P bytes) := by
  unfold Orderly; infer_instance

end Connection

/-- A handler reaches an `unreachable!()`. -/
def Event.Panics : Event → Prop
  | .panic _ => True
  | _ => False

instance (e : Event) : Decidable e.Panics := by
  cases e <;> unfold Event.Panics <;> infer_instance

/-- A request that finds what it needs does not panic. -/
theorem no_panic_of_effect {o : Outside} {s₀ : Session} {w : Wake} {c : Connection}
    {request : Request Command} {handled : Handled} (hreached : Reached s₀ w c.session)
    (hadmissible : Admissible s₀.state s₀.isTls request.command) (hkept : Kept o c w request)
    (heffect : Effect o.base64 c.session request (o.answer c.handled request) handled) :
    (∀ e ∈ handled.events, ¬ e.Panics) ∧ handled.flow ≠ .panic := by
  cases heffect with
  | stay _ _ hflow => exact ⟨by simp, hflow⟩
  | counterless hc hconnected hsome =>
      exfalso
      have hnone := hreached.fresh (hadmissible.fresh (presented_authenticate hc)).1
      by_cases haccepted : w.accepted = true
      · have := hkept.2 haccepted (by simp [hc])
        simp [hconnected] at this
      · simp [hnone (by simpa using haccepted)] at hsome
  | clientless hc hnone =>
      exfalso
      have hsome := hreached.client (hadmissible.client hc)
      by_cases hleft : w.left = true
      · simp [hkept.1 hleft] at hc
      · simp [hnone] at hsome
        simp [hsome] at hleft
  | _ => exact ⟨by simp, by simp⟩

/-- **The requests of a read.** -/
theorem no_panic_of_calls {o : Outside} {s₀ : Session} {w : Wake} {c : Connection}
    {requests : List (Request Command)} (hreached : c.flow = .next → Reached s₀ w c.session)
    (hadmissible : ∀ request ∈ requests, Admissible s₀.state s₀.isTls request.command)
    (hkept : Along (advance (tracked (Connection.call o) (Connection.wake o)))
      (fun at' request ↦ at'.1.flow = .next → Kept o at'.1 at'.2 request) (c, w) requests) :
    ∀ e ∈ (emit (Connection.call o) c requests).2, ¬ e.Panics := by
  induction requests generalizing c w with
  | nil => simp
  | cons request requests ih =>
      have hlater : ∀ request ∈ requests, Admissible s₀.state s₀.isTls request.command :=
        fun request h ↦ hadmissible request (List.mem_cons_of_mem _ h)
      obtain ⟨hhere, hrest⟩ := hkept
      by_cases hflow : c.flow = .next
      · have heffect : Effect o.base64 c.session request (o.answer c.handled request)
            (c.session.dispatch o.base64 request (o.answer c.handled request)) :=
          Session.dispatch_effect
        have hhead := hadmissible request List.mem_cons_self
        obtain ⟨hevents, hgo⟩ := no_panic_of_effect (hreached hflow) hhead (hhere hflow) heffect
        have hstep := (hreached hflow).step hhead heffect hgo
        rw [emit_cons]
        simp only [Connection.call, if_pos hflow, advance, tracked] at hrest ⊢
        intro e he
        rcases List.mem_append.mp he with he | he
        · rcases List.mem_cons.mp he with rfl | he
          · exact id
          · exact hevents e he
        · exact ih (fun _ ↦ hstep) hlater hrest e he
      · rw [emit_cons]
        simp only [Connection.call, if_neg hflow, advance, tracked] at hrest ⊢
        exact ih (fun hgo ↦ absurd hgo hflow) hlater hrest

/-- **Accessors.**  If no request stands behind one of its read that takes away what it needs, no
handler reaches an `unreachable!()`. -/
theorem Connection.no_panic_of_kept (o : Outside) {c : Connection} {reads : List Bytes}
    (h : Along (advance (Connection.receive o)) (Connection.Orderly o (Kept o)) c reads) :
    ∀ e ∈ c.trace o reads, ¬ e.Panics := by
  suffices htrace : Along (fun _ _ ↦ ()) (fun _ e ↦ ¬ Event.Panics e) () (c.trace o reads) from
    along_iff_forall.mp htrace
  refine (emit_along (fun _ _ ↦ True) (fun c m bytes _ hkept ↦ ⟨along_iff_forall.mpr ?_, trivial⟩)
    trivial h).1
  by_cases hflow : c.flow = .next
  · simp only [Connection.receive, if_pos hflow, Connection.ingest]
    have hreached : Reached c.session .still
        (c.withReceiver (c.collect bytes).receiver).session := ⟨fun h _ ↦ h, fun h _ ↦ h⟩
    have hcalls := no_panic_of_calls (fun _ ↦ hreached)
      (fun request h ↦ Connection.admissible_of_mem_collect h) (hkept hflow)
    intro e he
    rcases List.mem_append.mp he with he | he
    · rcases List.mem_append.mp he with he | he
      · obtain ⟨refusal, -, rfl⟩ := List.mem_map.mp he
        cases refusal <;> exact id
      · exact hcalls e he
    · unfold Connection.goAhead at he
      split at he
      · split at he
        · obtain rfl := List.mem_singleton.mp he
          exact id
        · cases he
      · cases he
  · simp [Connection.receive, if_neg hflow]

/-- An outside where everything succeeds. -/
def Outside.obliging : Outside where
  base64 := fun param ↦ if param = "AHUAcw==" then some [0, 117, 0, 115] else none
  answer := fun _ _ ↦ ⟨true, true⟩

end ImapToJmap.ManageSieve

namespace ImapToJmap

open Run

/-- **No accessor is `unreachable!()`** on a connection of either protocol, if no request stands
behind one of its read that takes away what it needs. -/
theorem trace_reachable (o : Imap.Outside) (o' : ManageSieve.Outside) (maxRequestSize : ℕ)
    (isTls : Bool) (inputs : List Imap.Connection.Input) (reads : List Bytes) :
    (Along (advance (Imap.Connection.step o)) (Imap.Connection.Orderly o (Imap.Kept o))
        (Imap.Connection.new maxRequestSize isTls) inputs →
      ∀ e ∈ (Imap.Connection.new maxRequestSize isTls).trace o inputs, ¬ e.Panics) ∧
    (Along (advance (ManageSieve.Connection.receive o'))
        (ManageSieve.Connection.Orderly o' (ManageSieve.Kept o'))
        (ManageSieve.Connection.new maxRequestSize isTls) reads →
      ∀ e ∈ (ManageSieve.Connection.new maxRequestSize isTls).trace o' reads, ¬ e.Panics) :=
  ⟨Imap.Connection.no_panic_of_kept o, ManageSieve.Connection.no_panic_of_kept o'⟩

/-- Two clients that pipeline, and give up what they have last. -/
theorem trace_reachable_sessions :
    (∀ e ∈ (Imap.Connection.new 100 true).trace .obliging [
        .read (asBytes "a LOGIN user secret\r\n"), .read (asBytes "b SELECT inbox\r\n"),
        .read (asBytes "c FETCH 1 FLAGS\r\nd CLOSE\r\ne UNAUTHENTICATE\r\nf NOOP\r\n")],
      ¬ e.Panics) ∧
    ∀ e ∈ (ManageSieve.Connection.new 100 true).trace .obliging [
        asBytes "AUTHENTICATE \"PLAIN\" \"AHUAcw==\"\r\n",
        asBytes "LISTSCRIPTS\r\nUNAUTHENTICATE\r\nNOOP\r\n"],
      ¬ e.Panics :=
  ⟨(trace_reachable _ .obliging _ _ _ []).1 (by decide +kernel),
    (trace_reachable .obliging _ _ _ [] _).2 (by decide +kernel)⟩

/-- Two CLOSE in one read, and LISTSCRIPTS behind an UNAUTHENTICATE: all are admitted, and when the
second is handled there is no mailbox or no client any more. -/
theorem trace_unreachable :
    (¬ ∀ (o : Imap.Outside) (maxRequestSize : ℕ) (isTls : Bool)
        (inputs : List Imap.Connection.Input),
      ∀ e ∈ (Imap.Connection.new maxRequestSize isTls).trace o inputs, ¬ e.Panics) ∧
    ¬ ∀ (o : ManageSieve.Outside) (maxRequestSize : ℕ) (isTls : Bool) (reads : List Bytes),
      ∀ e ∈ (ManageSieve.Connection.new maxRequestSize isTls).trace o reads, ¬ e.Panics := by
  constructor
  · intro h
    have hclosed := h .obliging 100 true [.read (asBytes "a LOGIN user secret\r\n"),
      .read (asBytes "b SELECT inbox\r\n"), .read (asBytes "c CLOSE\r\nd CLOSE\r\n")]
    revert hclosed
    decide +kernel
  · intro h
    have hlisted := h .obliging 100 true [asBytes "AUTHENTICATE \"PLAIN\" \"AHUAcw==\"\r\n",
      asBytes "UNAUTHENTICATE\r\nLISTSCRIPTS\r\n"]
    revert hlisted
    decide +kernel

end ImapToJmap
