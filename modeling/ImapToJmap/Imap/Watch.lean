import ImapToJmap.Imap.Gate

/-!
# Monitored connections

The rule by which a connection is shown to satisfy a monitor of its trace.  `Watched` collects what
has to be shown of single handler calls and task steps; `Watched.trace` is the induction over the
calls of a read and over the reads of a run.

A condition `P` on a run is one on each handler call: on the connection and on the wake in which the
call stands (`Orderly`).
-/

namespace ImapToJmap.Imap

open Run

/-- Neither dropped nor lost in a panic. -/
def Connection.Alive (c : Connection) : Prop := c.flow ≠ .disconnect ∧ c.flow ≠ .panic

namespace Connection

variable (o : Outside) {P : Connection → Wake → Call → Prop}

/-- The wake behind a call that is reached; the others are not handled. -/
def wake (c : Connection) (wake : Wake) (call : Call) : Wake :=
  wake.after o.base64 call (c.answer o call)

/-- A condition on the handler calls of a read. -/
def Orderly (P : Connection → Wake → Call → Prop) (c : Connection) : Input → Prop
  | .read bytes =>
      c.flow = .next → c.session.idle = none →
        Along (advance (tracked (call o) (wake o))) (fun at' call ↦ at'.1.flow = .next →
          P at'.1 at'.2 call) (c.withReceiver (c.collect bytes).receiver, Wake.still)
          (calls (c.collect bytes).requests)
  | _ => True

instance [∀ c w call, Decidable (P c w call)] (c : Connection) :
    (input : Input) → Decidable (c.Orderly o P input)
  | .read bytes => by unfold Orderly; infer_instance
  | .work _ | .finish _ => .isTrue trivial

end Connection

/-- The events that are no business of a monitor of the handlers. -/
def Event.Quiet : Event → Prop
  | .refuse _ _ | .respond _ | .goAhead _ | .idleDone _ => True
  | _ => False

/-- What a handler call does to the connection. -/
def Connection.after (c : Connection) (call : Call) (handled : Handled) : Connection :=
  ⟨handled.session, call.requests.reverse ++ c.handled, c.tasks ++ handled.tasks, handled.flow⟩

/-- A connection satisfies a monitor, by a relation between the two. -/
structure Watched {μ : Type} (o : Outside) (P : Connection → Wake → Call → Prop)
    (next : μ → Event → μ) (ok : μ → Event → Prop) (R : Connection → μ → Prop) : Prop where
  /-- The relation is about the state, the tasks and whether the connection is alive. -/
  frame : ∀ {c c' : Connection} {m : μ}, c'.session.state = c.session.state →
    c'.tasks = c.tasks → (c'.Alive → c.Alive) → R c m → R c' m
  quiet : ∀ {m : μ} {e : Event}, e.Quiet → ok m e ∧ next m e = m
  handle : ∀ {s₀ : Session} {w : Wake} {c : Connection} {m : μ} {call : Call} {handled : Handled},
    R c m → c.flow = .next → Reached s₀ w c.session →
    Admissible s₀.state s₀.isTls call.command → P c w call →
    Effect o.base64 c.session call (c.answer o call) handled →
    Along next ok m (.call call c.session.state c.session.isTls :: handled.events) ∧
      R (c.after call handled)
        (exec next m (.call call c.session.state c.session.isTls :: handled.events))
  work : ∀ {c : Connection} {m : μ} {t : Task}, R c m → t ∈ c.tasks →
    ok m (.change t.change t.mailbox c.session.state) ∧
      R c (next m (.change t.change t.mailbox c.session.state))
  finish : ∀ {c : Connection} {m : μ} (i : ℕ), R c m → R { c with tasks := c.tasks.eraseIdx i } m

namespace Watched

variable {μ : Type} {o : Outside} {P : Connection → Wake → Call → Prop} {next : μ → Event → μ}
  {ok : μ → Event → Prop} {R : Connection → μ → Prop}

/-- Quiet events pass. -/
theorem along_quiet (h : Watched o P next ok R) {m : μ} {events : List Event}
    (hquiet : ∀ e ∈ events, e.Quiet) : Along next ok m events ∧ exec next m events = m := by
  induction events with
  | nil => exact ⟨trivial, rfl⟩
  | cons e events ih =>
      obtain ⟨hok, hnext⟩ := h.quiet (m := m) (hquiet e List.mem_cons_self)
      obtain ⟨hoks, hexec⟩ := ih fun e he ↦ hquiet e (List.mem_cons_of_mem _ he)
      exact ⟨⟨hok, by rwa [hnext]⟩, by rwa [exec_cons, hnext]⟩

/-- **The calls of a read.** -/
theorem calls (h : Watched o P next ok R) {s₀ : Session} {w : Wake} {c : Connection} {m : μ}
    {calls : List Call} (hR : R c m) (hreached : c.flow = .next → Reached s₀ w c.session)
    (hadmissible : ∀ call ∈ calls, Admissible s₀.state s₀.isTls call.command)
    (hP : Along (advance (tracked (Connection.call o) (Connection.wake o)))
      (fun at' call ↦ at'.1.flow = .next → P at'.1 at'.2 call) (c, w) calls) :
    Along next ok m (emit (Connection.call o) c calls).2 ∧
      R (emit (Connection.call o) c calls).1
        (exec next m (emit (Connection.call o) c calls).2) := by
  induction calls generalizing c w m with
  | nil => exact ⟨trivial, hR⟩
  | cons call calls ih =>
      have hlater : ∀ call ∈ calls, Admissible s₀.state s₀.isTls call.command :=
        fun call hcall ↦ hadmissible call (List.mem_cons_of_mem _ hcall)
      obtain ⟨hhere, hrest⟩ := hP
      by_cases hflow : c.flow = .next
      · have heffect : Effect o.base64 c.session call (c.answer o call)
            (c.session.dispatch o.base64 call (c.answer o call)) := Session.dispatch_effect
        have hhead := hadmissible call List.mem_cons_self
        obtain ⟨hok, hnext⟩ := h.handle hR hflow (hreached hflow) hhead (hhere hflow) heffect
        have hcall : c.call o call =
            (c.after call (c.session.dispatch o.base64 call (c.answer o call)),
              .call call c.session.state c.session.isTls ::
                (c.session.dispatch o.base64 call (c.answer o call)).events) := by
          simp [Connection.call, hflow, Session.handle, Connection.after]
        have hstep := (hreached hflow).step hhead heffect
        simp only [advance, tracked, hcall] at hrest
        rw [emit_cons, hcall, exec_append]
        obtain ⟨hoks, hfinal⟩ := ih hnext (fun hgo ↦ hstep (by simp_all [Connection.after])) hlater
          hrest
        exact ⟨along_append.mpr ⟨hok, hoks⟩, hfinal⟩
      · have hcall : c.call o call = (c, []) := by simp [Connection.call, hflow]
        simp only [advance, tracked, hcall] at hrest
        rw [emit_cons, hcall]
        exact ih hR (fun hgo ↦ absurd hgo hflow) hlater hrest

theorem quiet_refusals (refusals : List (Refusal Command StatusResponse)) :
    ∀ e ∈ refusals.map Event.ofRefusal, e.Quiet := by
  intro e he
  obtain ⟨refusal, -, rfl⟩ := List.mem_map.mp he
  cases refusal <;> trivial

theorem quiet_goAhead (c : Connection) (needsLiteral : Option ℕ) :
    ∀ e ∈ c.goAhead needsLiteral, e.Quiet := by
  intro e he
  unfold Connection.goAhead at he
  split at he
  · split at he
    · obtain rfl := List.mem_singleton.mp he
      trivial
    · cases he
  · cases he

theorem upgraded_alive {c : Connection} (h : c.upgraded.Alive) : c.Alive := by
  rw [Connection.upgraded] at h
  split at h
  · next hflow => simp [Connection.Alive, hflow]
  · exact h

/-- **`Session::ingest`.** -/
theorem ingest (h : Watched o P next ok R) {c : Connection} {m : μ} {bytes : Bytes} (hR : R c m)
    (hP : Along (advance (tracked (Connection.call o) (Connection.wake o)))
      (fun at' call ↦ at'.1.flow = .next → P at'.1 at'.2 call)
      (c.withReceiver (c.collect bytes).receiver, Wake.still)
      (ImapToJmap.Imap.calls (c.collect bytes).requests)) :
    Along next ok m (c.ingest o bytes).2 ∧
      R (c.ingest o bytes).1 (exec next m (c.ingest o bytes).2) := by
  have hreceiver : R (c.withReceiver (c.collect bytes).receiver) m := h.frame (c := c) rfl rfl id hR
  obtain ⟨hbefore, hbefore'⟩ := h.along_quiet (m := m) (quiet_refusals (c.collect bytes).refusals)
  have hstill := Reached.still c.session
  have hreached : Reached c.session .still (c.withReceiver (c.collect bytes).receiver).session :=
    ⟨rfl, hstill.data, hstill.mailbox, hstill.fresh, hstill.writable, hstill.uncounted⟩
  obtain ⟨hcalls, hR'⟩ := h.calls hreceiver (fun _ ↦ hreached)
    (fun call hcall ↦ Connection.admissible_of_mem_calls hcall) hP
  rw [Connection.ingest]
  simp only [along_append, exec_append, hbefore']
  obtain ⟨hafter, hafter'⟩ := h.along_quiet (quiet_goAhead _ (c.collect bytes).needsLiteral)
  exact ⟨⟨⟨hbefore, hcalls⟩, hafter⟩, by rwa [hafter']⟩

/-- **A read.** -/
theorem receive (h : Watched o P next ok R) {c : Connection} {m : μ} {bytes : Bytes} (hR : R c m)
    (hP : c.Orderly o P (.read bytes)) :
    Along next ok m (c.receive o bytes).2 ∧
      R (c.receive o bytes).1 (exec next m (c.receive o bytes).2) := by
  rw [Connection.receive]
  split
  · next hflow =>
      split
      · next hidle =>
          obtain ⟨hok, hR'⟩ := h.ingest hR (hP hflow hidle)
          exact ⟨hok, h.frame (Connection.upgraded_state _) (Connection.upgraded_tasks _)
            upgraded_alive hR'⟩
      · next tag hidle =>
          split
          · obtain ⟨hok, hnext⟩ := h.quiet (m := m) (e := .idleDone tag) trivial
            refine ⟨⟨hok, trivial⟩, ?_⟩
            rw [exec_cons, exec_nil, hnext]
            exact h.frame (c := c) rfl rfl id hR
          · exact ⟨trivial, hR⟩
  · exact ⟨trivial, hR⟩

/-- **A run.** -/
theorem trace (h : Watched o P next ok R) {c : Connection} {m : μ} (hR : R c m)
    {inputs : List Connection.Input}
    (hP : Along (advance (Connection.step o)) (Connection.Orderly o P) c inputs) :
    Along next ok m (c.trace o inputs) := by
  refine (emit_along R (fun c m input hR hP ↦ ?_) hR hP).1
  cases input with
  | read bytes => exact h.receive hR hP
  | work i =>
      rw [Connection.step]
      split
      · next t ht =>
          obtain ⟨hok, hR'⟩ := h.work hR (List.mem_of_getElem? ht)
          exact ⟨⟨hok, trivial⟩, hR'⟩
      · exact ⟨trivial, hR⟩
  | finish i => exact ⟨trivial, h.finish i hR⟩

end Watched

end ImapToJmap.Imap
