import ImapToJmap.Core.Bytes
import ImapToJmap.Run.Queue

/-!
# The writer of a connection

`core/writer.rs`, with what `core/connection.rs` and STARTTLS do with it.  A connection, on either
protocol, and the tasks its handlers have spawned put what they write into one channel, and a task
of its own writes it to the stream.  For STARTTLS the connection has the stream sent back, and sends
another one when the handshake is done.

`written_prefix`: in every interleaving, whatever write fails, each stream is given a prefix of
what was sent while it was the connection's stream, in the order in which it was sent.

`delivered_iff`: if no write fails, all of it arrives and the writer never meets `unreachable!()` if
and only if no spawned task sends anything between the upgrade and the end of the handshake.  The
writer takes the next event after the upgrade to be a stream.  ManageSieve spawns no tasks; on IMAP
STARTTLS is admitted after AUTHENTICATE, when there may be some.
-/

namespace ImapToJmap.WriterTask

/-! ## The writer -/

/-- `Event` -/
inductive Event where
  | stream
  | streamTls
  | bytes (bytes : Bytes)
  | upgrade
deriving DecidableEq

/-- Where the task of `spawn_writer` is. -/
inductive Place where
  | /-- It waits for its first stream. -/
    first
  | stream
  | /-- It has sent the stream back, and waits for the next one. -/
    upgraded
  | streamTls
  | /-- It has broken out of the outer loop. -/
    left
  | /-- `unreachable!()` -/
    panic
deriving DecidableEq

/-- The receiver of the channel is dropped. -/
def Place.isClosed : Place → Bool
  | left | panic => true
  | _ => false

/-- The task, with all that it has written to the one stream and the other. -/
structure Writer where
  place : Place
  clear : Bytes
  tls : Bytes
  /-- It has answered an upgrade. -/
  returned : Bool

namespace Writer

def new : Writer := ⟨.first, [], [], false⟩

/-- The `match` of the outer loop. -/
def enter (w : Writer) : Event → Writer
  | .stream => { w with place := .stream }
  | .streamTls => { w with place := .streamTls }
  | .bytes _ | .upgrade => { w with place := .panic }

/-- How `write_all` fares on one of the streams, after what it has been given so far: if it fails,
some of the bytes may have got through. -/
abbrev Fails := (isTls : Bool) → (before bytes : Bytes) → Option ℕ

variable (fails : Fails)

/-- `write_all` on the cleartext stream. -/
def writeClear (w : Writer) (bytes : Bytes) : Writer :=
  match fails false w.clear bytes with
  | none => { w with clear := w.clear ++ bytes }
  | some n => { w with clear := w.clear ++ bytes.take n, place := .left }

/-- `write_all` on the TLS stream. -/
def writeTls (w : Writer) (bytes : Bytes) : Writer :=
  match fails true w.tls bytes with
  | none => { w with tls := w.tls ++ bytes }
  | some n => { w with tls := w.tls ++ bytes.take n, place := .left }

/-- What the task does with an event.  `left` and `panic` do not read any more. -/
def handle (w : Writer) (e : Event) : Writer :=
  match w.place with
  | .first | .upgraded => w.enter e
  | .stream =>
      match e with
      | .bytes bytes => w.writeClear fails bytes
      | .upgrade => { w with place := .upgraded, returned := true }
      | e => w.enter e
  | .streamTls =>
      match e with
      | .bytes bytes => w.writeTls fails bytes
      | e => w.enter e
  | .left | .panic => w

/-- It has written no less. -/
def Le (w w' : Writer) : Prop := w.clear <+: w'.clear ∧ w.tls <+: w'.tls

theorem le_refl (w : Writer) : w.Le w := ⟨List.prefix_rfl, List.prefix_rfl⟩

theorem Le.trans {w₁ w₂ w₃ : Writer} (h : w₁.Le w₂) (h' : w₂.Le w₃) : w₁.Le w₃ :=
  ⟨h.1.trans h'.1, h.2.trans h'.2⟩

theorem le_enter (w : Writer) (e : Event) : w.Le (w.enter e) := by
  cases e <;> exact w.le_refl

theorem le_handle (w : Writer) (e : Event) : w.Le (w.handle fails e) := by
  unfold handle
  split
  · exact w.le_enter e
  · exact w.le_enter e
  · split
    · unfold writeClear
      split
      · exact ⟨List.prefix_append _ _, List.prefix_rfl⟩
      · exact ⟨List.prefix_append _ _, List.prefix_rfl⟩
    · exact w.le_refl
    · exact w.le_enter _
  · split
    · unfold writeTls
      split
      · exact ⟨List.prefix_rfl, List.prefix_append _ _⟩
      · exact ⟨List.prefix_rfl, List.prefix_append _ _⟩
    · exact w.le_enter _
  · exact w.le_refl
  · exact w.le_refl

/-- A writer that reads no more stays as it is. -/
theorem handle_of_isClosed {w : Writer} (h : w.place.isClosed = true) (e : Event) :
    w.handle fails e = w := by
  unfold handle
  split <;> simp_all [Place.isClosed]

end Writer

/-! ## The connection and its tasks -/

/-- How far a connection is. -/
inductive Phase where
  | /-- `Session::new` -/
    fresh
  | /-- `handle_conn` -/
    cleartext
  | /-- STARTTLS has been answered. -/
    answered
  | /-- The upgrade has been sent, and the stream is awaited. -/
    upgrading
  | /-- The stream is back, and TLS is being set up on it. -/
    handshake
  | /-- `handle_conn_tls` -/
    secure
deriving DecidableEq

/-- `IPC_CHANNEL_BUFFER` -/
def ipcChannelBuffer : ℕ := 128

/-- What a connection sends to its client. -/
structure Output where
  queue : Run.Queue Writer Event
  phase : Phase
  /-- The task of the connection is running. -/
  isOpen : Bool
  /-- The bytes sent while the connection had its cleartext stream. -/
  clearSent : Bytes
  /-- The bytes sent while it had its TLS stream. -/
  tlsSent : Bytes

namespace Output

def new : Output := ⟨⟨[], .new⟩, .fresh, true, [], []⟩

/-- The writer reads no more, so that sending is an error. -/
def isClosed (s : Output) : Bool := s.queue.actor.place.isClosed

/-- A sender waits while the channel is full. -/
def isFull (s : Output) : Bool := ipcChannelBuffer ≤ s.queue.waiting.length

/-- An event goes into the channel. -/
def send (s : Output) (e : Event) : Output := { s with queue := s.queue.put e }

/-- Bytes go into the channel, and count for the stream the connection has. -/
def sendBytes (s : Output) (bytes : Bytes) : Output :=
  match s.phase with
  | .cleartext | .answered => { s.send (.bytes bytes) with clearSent := s.clearSent ++ bytes }
  | .secure => { s.send (.bytes bytes) with tlsSent := s.tlsSent ++ bytes }
  | .fresh | .upgrading | .handshake => s.send (.bytes bytes)

/-- The connection sends something and goes on; it ends if the writer has. -/
def attempt (s : Output) (next : Output) : Output :=
  if s.isClosed then { s with isOpen := false } else if s.isFull then s else next

inductive Step where
  | /-- `set_stream`, or `set_stream_tls` on the TLS port. -/
    accept (isTls : Bool)
  | /-- `Session::write_bytes` -/
    write (bytes : Bytes)
  | /-- `SessionData::write_bytes`, by a spawned task. -/
    task (bytes : Bytes)
  | /-- `handle_starttls` answers. -/
    starttls (bytes : Bytes)
  | /-- `handle_starttls` sends the upgrade. -/
    upgrade
  | /-- `handle_starttls` receives the stream, or that there is none. -/
    resume
  | /-- `set_stream_tls` after the handshake, if that succeeds. -/
    secured (accepted : Bool)
  | /-- The connection ends. -/
    close
  | /-- The writer takes an event. -/
    turn

variable (fails : Writer.Fails)

/-- The effect of a step; one that is not possible has none. -/
def apply (s : Output) : Step → Output
  | .accept isTls =>
      if s.isOpen ∧ s.phase = .fresh then
        s.attempt
          (if isTls then { s.send .streamTls with phase := .secure }
            else { s.send .stream with phase := .cleartext })
      else s
  | .write bytes =>
      if s.isOpen ∧ (s.phase = .cleartext ∨ s.phase = .secure) then s.attempt (s.sendBytes bytes)
      else s
  | .task bytes =>
      if s.phase = .fresh ∨ s.isClosed ∨ s.isFull then s else s.sendBytes bytes
  | .starttls bytes =>
      if s.isOpen ∧ s.phase = .cleartext then
        s.attempt { s.sendBytes bytes with phase := .answered }
      else s
  | .upgrade =>
      if s.isOpen ∧ s.phase = .answered then
        s.attempt { s.send .upgrade with phase := .upgrading }
      else s
  | .resume =>
      if s.isOpen ∧ s.phase = .upgrading then
        if s.queue.actor.returned then { s with phase := .handshake }
        else if s.isClosed then { s with isOpen := false } else s
      else s
  | .secured accepted =>
      if s.isOpen ∧ s.phase = .handshake then
        if accepted then s.attempt { s.send .streamTls with phase := .secure }
        else { s with isOpen := false }
      else s
  | .close => { s with isOpen := false }
  | .turn => { s with queue := s.queue.take (Writer.handle fails) }

/-- The writer once it has read all that was sent. -/
def drained (s : Output) : Writer := s.queue.drained (Writer.handle fails)

/-- All that was sent has been written, each to its stream. -/
structure Delivered (s : Output) : Prop where
  clear_eq : (s.drained fails).clear = s.clearSent
  tls_eq : (s.drained fails).tls = s.tlsSent
  place_ne : (s.drained fails).place ≠ .panic

/-- No spawned task sends anything while the writer has no stream. -/
def Quiet (s : Output) : Step → Prop
  | .task _ => s.isClosed = false → s.isFull = false → s.phase ≠ .upgrading ∧ s.phase ≠ .handshake
  | _ => True

instance decidableQuiet (s : Output) : (step : Step) → Decidable (s.Quiet step)
  | .task _ => inferInstanceAs (Decidable
      (s.isClosed = false → s.isFull = false → s.phase ≠ .upgrading ∧ s.phase ≠ .handshake))
  | .accept _ | .write _ | .starttls _ | .upgrade | .resume | .secured _ | .close | .turn =>
      .isTrue trivial

/-! ## What a step sends -/

/-- Where the writer is when it has read what a connection in this phase has sent. -/
def place : Phase → Place
  | .fresh => .first
  | .cleartext | .answered => .stream
  | .upgrading | .handshake => .upgraded
  | .secure => .streamTls

/-- An event that takes the writer from one place to the next. -/
inductive Leads : Place → Event → Place → Prop
  | stream : Leads .first .stream .stream
  | streamTls : Leads .first .streamTls .streamTls
  | upgrade : Leads .stream .upgrade .upgraded
  | secured : Leads .upgraded .streamTls .streamTls

/-- What a step may send.  Only one that is not quiet sends bytes while the writer has no stream. -/
inductive Sends (s : Output) (step : Step) (s' : Output) : Prop
  | nothing (hdrained : s'.drained fails = s.drained fails)
      (hplace : place s'.phase = place s.phase) (hclear : s'.clearSent = s.clearSent)
      (htls : s'.tlsSent = s.tlsSent)
  | event (e : Event) (hdrained : s'.drained fails = (s.drained fails).handle fails e)
      (hplace : Leads (place s.phase) e (place s'.phase)) (hclear : s'.clearSent = s.clearSent)
      (htls : s'.tlsSent = s.tlsSent)
  | clear (bytes : Bytes)
      (hdrained : s'.drained fails = (s.drained fails).handle fails (.bytes bytes))
      (hstream : place s.phase = .stream) (hplace : place s'.phase = .stream)
      (hclear : s'.clearSent = s.clearSent ++ bytes) (htls : s'.tlsSent = s.tlsSent)
  | tls (bytes : Bytes)
      (hdrained : s'.drained fails = (s.drained fails).handle fails (.bytes bytes))
      (hstream : place s.phase = .streamTls) (hplace : place s'.phase = .streamTls)
      (hclear : s'.clearSent = s.clearSent) (htls : s'.tlsSent = s.tlsSent ++ bytes)
  | late (bytes : Bytes) (hquiet : ¬ s.Quiet step)
      (hdrained : s'.drained fails = (s.drained fails).handle fails (.bytes bytes))
      (hstream : place s.phase = .upgraded)
      (hclear : s'.clearSent = s.clearSent) (htls : s'.tlsSent = s.tlsSent)

variable {fails} {s : Output} {step : Step}

@[simp] theorem drained_send (e : Event) :
    (s.send e).drained fails = (s.drained fails).handle fails e := by
  simp [drained, send]

@[simp] theorem phase_send (e : Event) : (s.send e).phase = s.phase := rfl

@[simp] theorem drained_phase (phase : Phase) :
    ({ s with phase := phase } : Output).drained fails = s.drained fails := rfl

@[simp] theorem drained_isOpen (isOpen : Bool) :
    ({ s with isOpen := isOpen } : Output).drained fails = s.drained fails := rfl

theorem sends_self : s.Sends fails step s := .nothing rfl rfl rfl rfl

/-- The connection ends. -/
theorem sends_close : s.Sends fails step { s with isOpen := false } := .nothing rfl rfl rfl rfl

theorem sends_attempt {next : Output} (h : s.Sends fails step next) :
    s.Sends fails step (s.attempt next) := by
  unfold attempt
  split
  · exact sends_close
  · split
    · exact sends_self
    · exact h

/-- Bytes are sent while the writer has a stream. -/
theorem sends_sendBytes (bytes : Bytes) (hplace : place s.phase = .stream ∨
    place s.phase = .streamTls) : s.Sends fails step (s.sendBytes bytes) := by
  unfold sendBytes
  split
  · next h => exact .clear bytes (drained_send _) (by rw [h, place]) (by simp [h, place]) rfl rfl
  · next h => exact .clear bytes (drained_send _) (by rw [h, place]) (by simp [h, place]) rfl rfl
  · next h => exact .tls bytes (drained_send _) (by rw [h, place]) (by simp [h, place]) rfl rfl
  · next h => simp [h, place] at hplace
  · next h => simp [h, place] at hplace
  · next h => simp [h, place] at hplace

/-- A task sends bytes. -/
theorem sends_task (bytes : Bytes) (hfresh : s.phase ≠ .fresh) (hclosed : s.isClosed = false)
    (hfull : s.isFull = false) : s.Sends fails (.task bytes) (s.sendBytes bytes) := by
  by_cases hquiet : s.Quiet (.task bytes)
  · obtain ⟨hupgrading, hhandshake⟩ := hquiet hclosed hfull
    refine sends_sendBytes bytes ?_
    cases h : s.phase <;> simp_all [place]
  · have hphase : s.phase = .upgrading ∨ s.phase = .handshake := by
      by_contra hne
      exact hquiet fun _ _ ↦ not_or.mp hne
    refine .late bytes hquiet ?_ ?_ ?_ ?_
    · rcases hphase with h | h <;> simp [sendBytes, h]
    · rcases hphase with h | h <;> rw [h, place]
    · rcases hphase with h | h <;> simp [sendBytes, h, send]
    · rcases hphase with h | h <;> simp [sendBytes, h, send]

/-- **Every step.** -/
theorem sends_apply (step : Step) : s.Sends fails step (s.apply fails step) := by
  cases step with
  | accept isTls =>
      rw [apply]
      split
      · next h =>
          refine sends_attempt ?_
          cases isTls with
          | true =>
              exact .event .streamTls (drained_send _) (by rw [h.2]; exact .streamTls) rfl rfl
          | false => exact .event .stream (drained_send _) (by rw [h.2]; exact .stream) rfl rfl
      · exact sends_self
  | write bytes =>
      rw [apply]
      split
      · next h =>
          refine sends_attempt (sends_sendBytes bytes ?_)
          rcases h.2 with h | h
          · exact .inl (by rw [h, place])
          · exact .inr (by rw [h, place])
      · exact sends_self
  | task bytes =>
      rw [apply]
      split
      · exact sends_self
      · next h =>
          simp only [not_or, Bool.not_eq_true] at h
          exact sends_task bytes h.1 h.2.1 h.2.2
  | starttls bytes =>
      rw [apply]
      split
      · next h =>
          refine sends_attempt ?_
          simp only [sendBytes, h.2]
          exact .clear bytes (drained_send _) (by rw [h.2, place]) rfl rfl rfl
      · exact sends_self
  | upgrade =>
      rw [apply]
      split
      · next h =>
          exact sends_attempt
            (.event .upgrade (drained_send _) (by rw [h.2]; exact .upgrade) rfl rfl)
      · exact sends_self
  | resume =>
      rw [apply]
      split
      · next h =>
          split
          · exact .nothing rfl (by rw [h.2, place, place]) rfl rfl
          · split
            · exact sends_close
            · exact sends_self
      · exact sends_self
  | secured accepted =>
      rw [apply]
      split
      · next h =>
          split
          · exact sends_attempt
              (.event .streamTls (drained_send _) (by rw [h.2]; exact .secured) rfl rfl)
          · exact sends_close
      · exact sends_self
  | close => exact sends_close
  | turn =>
      refine .nothing ?_ rfl rfl rfl
      simp [drained, apply]

/-! ## What is written -/

/-- The writer has written all that was sent and is where the connection takes it to be. -/
structure Exact (fails : Writer.Fails) (s : Output) : Prop where
  place_eq : (s.drained fails).place = place s.phase
  clear_eq : (s.drained fails).clear = s.clearSent
  tls_eq : (s.drained fails).tls = s.tlsSent

/-- The writer has stopped. -/
structure Behind (fails : Writer.Fails) (s : Output) : Prop where
  isClosed : (s.drained fails).place.isClosed = true
  clear_prefix : (s.drained fails).clear <+: s.clearSent
  tls_prefix : (s.drained fails).tls <+: s.tlsSent

theorem exact_new : Exact fails .new := ⟨rfl, rfl, rfl⟩

theorem Behind.later {s' : Output} (h : s.Behind fails)
    (hdrained : s'.drained fails = s.drained fails) (hclear : s.clearSent <+: s'.clearSent)
    (htls : s.tlsSent <+: s'.tlsSent) : s'.Behind fails where
  isClosed := hdrained ▸ h.isClosed
  clear_prefix := hdrained ▸ h.clear_prefix.trans hclear
  tls_prefix := hdrained ▸ h.tls_prefix.trans htls

theorem Behind.sends {s' : Output} (h : s.Behind fails) (hs : s.Sends fails step s') :
    s'.Behind fails := by
  have hstays := fun e ↦ Writer.handle_of_isClosed fails h.isClosed e
  cases hs with
  | nothing hdrained _ hclear htls =>
      exact h.later hdrained (hclear ▸ List.prefix_rfl) (htls ▸ List.prefix_rfl)
  | event e hdrained _ hclear htls =>
      exact h.later (hdrained.trans (hstays e)) (hclear ▸ List.prefix_rfl) (htls ▸ List.prefix_rfl)
  | clear bytes hdrained _ _ hclear htls =>
      exact h.later (hdrained.trans (hstays _)) (hclear ▸ List.prefix_append _ _)
        (htls ▸ List.prefix_rfl)
  | tls bytes hdrained _ _ hclear htls =>
      exact h.later (hdrained.trans (hstays _)) (hclear ▸ List.prefix_rfl)
        (htls ▸ List.prefix_append _ _)
  | late bytes _ hdrained _ hclear htls =>
      exact h.later (hdrained.trans (hstays _)) (hclear ▸ List.prefix_rfl) (htls ▸ List.prefix_rfl)

/-- The writer goes from one place to the next. -/
theorem handle_leads {w : Writer} {e : Event} {p : Place} (h : Leads w.place e p) :
    (w.handle fails e).place = p ∧ (w.handle fails e).clear = w.clear ∧
      (w.handle fails e).tls = w.tls := by
  obtain ⟨wplace, clear, tls, returned⟩ := w
  cases h <;> exact ⟨rfl, rfl, rfl⟩

/-- As long as it is where the connection takes it to be, the writer writes what is sent, or stops
because a write fails or because it has no stream. -/
theorem Exact.sends {s' : Output} (h : s.Exact fails) (hs : s.Sends fails step s') :
    s'.Exact fails ∨ s'.Behind fails ∧
      ((∃ isTls before bytes, fails isTls before bytes ≠ none) ∨ ¬ s.Quiet step) := by
  obtain ⟨hplace, hclear, htls⟩ := h
  cases hs with
  | nothing hdrained hp hc ht =>
      refine .inl ⟨?_, ?_, ?_⟩
      · rw [hdrained, hp, hplace]
      · rw [hdrained, hc, hclear]
      · rw [hdrained, ht, htls]
  | event e hdrained hp hc ht =>
      obtain ⟨hp', hc', ht'⟩ := @handle_leads fails (s.drained fails) e _ (hplace ▸ hp)
      refine .inl ⟨?_, ?_, ?_⟩
      · rw [hdrained, hp']
      · rw [hdrained, hc, hc', hclear]
      · rw [hdrained, ht, ht', htls]
  | clear bytes hdrained hstream hp hc ht =>
      have hhandle : s'.drained fails = (s.drained fails).writeClear fails bytes := by
        rw [hdrained, Writer.handle, hplace, hstream]
      rw [Writer.writeClear] at hhandle
      split at hhandle
      · refine .inl ⟨?_, ?_, ?_⟩
        · rw [hhandle, hp, ← hstream, ← hplace]
        · rw [hhandle, hc, hclear]
        · rw [hhandle, ht, htls]
      · next hfails =>
        refine .inr ⟨⟨?_, ?_, ?_⟩, .inl ⟨_, _, _, by rw [hfails]; exact Option.some_ne_none _⟩⟩
        · rw [hhandle]
          rfl
        · rw [hhandle, hc, ← hclear]
          exact (List.prefix_append_right_inj _).mpr (List.take_prefix _ _)
        · rw [hhandle, ht, ← htls]
  | tls bytes hdrained hstream hp hc ht =>
      have hhandle : s'.drained fails = (s.drained fails).writeTls fails bytes := by
        rw [hdrained, Writer.handle, hplace, hstream]
      rw [Writer.writeTls] at hhandle
      split at hhandle
      · refine .inl ⟨?_, ?_, ?_⟩
        · rw [hhandle, hp, ← hstream, ← hplace]
        · rw [hhandle, hc, hclear]
        · rw [hhandle, ht, htls]
      · next hfails =>
        refine .inr ⟨⟨?_, ?_, ?_⟩, .inl ⟨_, _, _, by rw [hfails]; exact Option.some_ne_none _⟩⟩
        · rw [hhandle]
          rfl
        · rw [hhandle, hc, ← hclear]
        · rw [hhandle, ht, ← htls]
          exact (List.prefix_append_right_inj _).mpr (List.take_prefix _ _)
  | late bytes hquiet hdrained hstream hc ht =>
      have hhandle : s'.drained fails = { s.drained fails with place := .panic } := by
        rw [hdrained, Writer.handle, hplace, hstream]
        rfl
      refine .inr ⟨⟨?_, ?_, ?_⟩, .inr hquiet⟩
      · rw [hhandle]
        rfl
      · rw [hhandle, hc, ← hclear]
      · rw [hhandle, ht, ← htls]

/-- What holds in every run: the writer, once it has read everything, has written what was sent, or
it has stopped on the way. -/
def Ordered (fails : Writer.Fails) (s : Output) : Prop := s.Exact fails ∨ s.Behind fails

theorem Ordered.apply (h : s.Ordered fails) (step : Step) : (s.apply fails step).Ordered fails := by
  rcases h with h | h
  · exact (h.sends (sends_apply step)).imp_right And.left
  · exact .inr (h.sends (sends_apply step))

theorem ordered_run (steps : List Step) :
    (Run.exec (Output.apply fails) .new steps).Ordered fails :=
  Run.exec_induct (C := fun _ _ ↦ True) (Ordered fails) (.inl exact_new)
    (fun _ step h _ ↦ h.apply step) (Run.along_of_forall fun _ _ _ ↦ trivial)

theorem Ordered.prefixes (h : s.Ordered fails) : (s.drained fails).clear <+: s.clearSent ∧
    (s.drained fails).tls <+: s.tlsSent := by
  rcases h with h | h
  · exact ⟨h.clear_eq ▸ List.prefix_rfl, h.tls_eq ▸ List.prefix_rfl⟩
  · exact ⟨h.clear_prefix, h.tls_prefix⟩

end Output

open Output

/-- **In order, and on its own stream.**  Whatever the interleaving of the connection, its tasks and
the writer, and whatever writes fail: what the writer has given to the cleartext stream is a prefix
of what was sent while the connection had that stream, and likewise with TLS. -/
theorem written_prefix (fails : Writer.Fails) (steps : List Step) :
    (Run.exec (Output.apply fails) .new steps).queue.actor.clear <+:
        (Run.exec (Output.apply fails) .new steps).clearSent ∧
      (Run.exec (Output.apply fails) .new steps).queue.actor.tls <+:
        (Run.exec (Output.apply fails) .new steps).tlsSent := by
  obtain ⟨hclear, htls⟩ := (@ordered_run fails steps).prefixes
  obtain ⟨hclear', htls'⟩ := Run.Queue.le_drained (Writer.handle fails)
    (Run.exec (Output.apply fails) .new steps).queue Writer.Le Writer.le_refl
    (fun _ _ _ h h' ↦ h.trans h') (Writer.le_handle fails)
  exact ⟨hclear'.trans hclear, htls'.trans htls⟩

/-! ## If no write fails -/

namespace Output

/-- Every write succeeds. -/
def never : Writer.Fails := fun _ _ _ ↦ none

variable {s : Output} {step : Step}

/-- A writer that has stopped has met `unreachable!()`. -/
def Stuck (s : Output) : Prop := (s.drained never).place = .panic

theorem not_stuck_of_exact (h : s.Exact never) : ¬ s.Stuck := by
  rw [Stuck, h.place_eq]
  cases s.phase <;> simp [place]

theorem Stuck.apply (h : s.Stuck) (step : Step) : (s.apply never step).Stuck := by
  have hstays := fun e ↦ Writer.handle_of_isClosed never (w := s.drained never) (by rw [h]; rfl) e
  unfold Stuck at h ⊢
  cases @sends_apply never s step with
  | nothing hdrained => rw [hdrained, h]
  | event e hdrained => rw [hdrained, hstays, h]
  | clear bytes hdrained => rw [hdrained, hstays, h]
  | tls bytes hdrained => rw [hdrained, hstays, h]
  | late bytes _ hdrained => rw [hdrained, hstays, h]

/-- A quiet step keeps the writer where the connection takes it to be. -/
theorem Exact.apply (h : s.Exact never) (hquiet : s.Quiet step) :
    (s.apply never step).Exact never := by
  refine (h.sends (sends_apply step)).resolve_right fun hstopped ↦ ?_
  obtain ⟨-, ⟨_, _, _, hfails⟩ | hloud⟩ := hstopped
  · exact hfails rfl
  · exact hloud hquiet

/-- Any other one leaves the writer in `unreachable!()`. -/
theorem Exact.stuck (h : s.Exact never) (hquiet : ¬ s.Quiet step) :
    (s.apply never step).Stuck := by
  cases step with
  | task bytes =>
      simp only [Quiet, not_forall] at hquiet
      obtain ⟨hclosed, hfull, hphase⟩ := hquiet
      have hphase' : s.phase = .upgrading ∨ s.phase = .handshake := by
        by_contra hne
        exact hphase (not_or.mp hne)
      have hplace : (s.drained never).place = .upgraded := by
        rw [h.place_eq]
        rcases hphase' with h | h <;> rw [h, place]
      have hsend : s.apply never (.task bytes) = s.send (.bytes bytes) := by
        rcases hphase' with h | h <;> simp [Output.apply, sendBytes, hclosed, hfull, h]
      rw [Stuck, hsend, drained_send, Writer.handle, hplace]
      rfl
  | _ => exact absurd trivial hquiet

/-- **Quiet runs** are those that lead to where everything is written; all others lead to
`unreachable!()`. -/
theorem along_quiet_iff (h : s.Exact never) (steps : List Step) :
    Run.Along (apply never) Quiet s steps ↔ (Run.exec (apply never) s steps).Exact never := by
  induction steps generalizing s with
  | nil => exact ⟨fun _ ↦ h, fun _ ↦ trivial⟩
  | cons step steps ih =>
      rw [Run.Along, Run.exec_cons]
      by_cases hquiet : s.Quiet step
      · rw [ih (h.apply hquiet)]
        exact and_iff_right hquiet
      · have hstuck : (Run.exec (apply never) (s.apply never step) steps).Stuck :=
          Run.exec_induct (C := fun _ _ ↦ True) Stuck (h.stuck hquiet)
            (fun _ step h _ ↦ h.apply step) (Run.along_of_forall fun _ _ _ ↦ trivial)
        constructor
        · exact fun hrun ↦ absurd hrun.1 hquiet
        · exact fun hexact ↦ absurd hstuck (not_stuck_of_exact hexact)

theorem delivered_iff_exact (h : s.Exact never ∨ s.Stuck) :
    s.Delivered never ↔ s.Exact never := by
  constructor
  · exact fun hdelivered ↦ h.resolve_right hdelivered.place_ne
  · exact fun hexact ↦ ⟨hexact.clear_eq, hexact.tls_eq, not_stuck_of_exact hexact⟩

theorem exact_or_stuck (steps : List Step) :
    (Run.exec (apply never) .new steps).Exact never ∨
      (Run.exec (apply never) .new steps).Stuck := by
  refine Run.exec_induct (C := fun _ _ ↦ True) (fun s : Output ↦ s.Exact never ∨ s.Stuck)
    (.inl exact_new) (fun s step h _ ↦ ?_) (Run.along_of_forall fun _ _ _ ↦ trivial)
  rcases h with h | h
  · by_cases hquiet : s.Quiet step
    · exact .inl (h.apply hquiet)
    · exact .inr (h.stuck hquiet)
  · exact .inr (h.apply step)

end Output

/-- **Everything arrives** if no write fails: once the writer has read all that was sent, the client
has been given all of it, on the stream the connection had when it was sent, if and only if no
spawned task has sent anything while the writer was without a stream.  Otherwise the writer has met
`unreachable!()`. -/
theorem delivered_iff (steps : List Step) :
    ((Run.exec (apply never) .new steps).Delivered never ↔
      Run.Along (apply never) Quiet .new steps) ∧
    (¬ Run.Along (apply never) Quiet .new steps → (Run.exec (apply never) .new steps).Stuck) := by
  have hquiet := along_quiet_iff exact_new steps
  refine ⟨(delivered_iff_exact (exact_or_stuck steps)).trans hquiet.symm, ?_⟩
  intro hloud
  exact (exact_or_stuck steps).resolve_left (mt hquiet.mpr hloud)

/-- A task answers while TLS is being set up: its bytes are taken for a stream. -/
example (answer ready : Bytes) :
    (Run.exec (apply never) .new [.accept false, .starttls ready, .upgrade, .turn, .turn, .turn,
      .resume, .task answer, .secured true]).Stuck := rfl

end ImapToJmap.WriterTask
