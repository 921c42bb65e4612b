import ImapToJmap.Imap.Access
import ImapToJmap.Imap.Tidy

/-!
# Splitting the stream

With every read taken like the stream, the outcomes do not depend on how the stream is split into
reads, and every request that is complete in the stream is answered.
-/

namespace ImapToJmap.Imap

open Run

namespace Connection

variable {o : Outside} {c : Connection}

/-! ## A read of a connection that is idling -/

theorem stream_step_idle {tag : String} (hidle : c.session.idle = some tag) (line : Bytes)
    (ch : UInt8) : Stream.step o ⟨c, line⟩ ch =
      if ch = Ascii.lf then
        (⟨(c.receive o (line ++ [ch])).1, []⟩, (c.receive o (line ++ [ch])).2)
      else (⟨c, line ++ [ch]⟩, []) := by
  simp only [Stream.step, hidle]

/-- The beginning of a line. -/
theorem stream_line {tag : String} (hidle : c.session.idle = some tag) {line bytes : Bytes}
    (hbytes : Ascii.lf ∉ bytes) :
    emit (Stream.step o) ⟨c, line⟩ bytes = (⟨c, line ++ bytes⟩, []) := by
  induction bytes generalizing line with
  | nil => rw [List.append_nil, emit_nil]
  | cons ch bytes ih =>
      obtain ⟨hch, hbytes⟩ := not_or.mp (mt List.mem_cons.mpr hbytes)
      rw [emit_cons, stream_step_idle hidle, if_neg (Ne.symm hch), ih hbytes, List.append_assoc]
      rfl

/-- A read that does not begin with DONE is discarded. -/
theorem receive_undone {tag : String} (hidle : c.session.idle = some tag) {bytes : Bytes}
    (hdone : (asBytes "DONE").isPrefixOf bytes = false) : c.receive o bytes = (c, []) := by
  rw [receive, hidle]
  simp only [hdone, Bool.false_eq_true, if_false, ite_self]

/-- Lines that do not begin with DONE. -/
theorem stream_undone {tag : String} (hidle : c.session.idle = some tag) {line bytes : Bytes}
    (h : Undone line bytes) :
    emit (Stream.step o) ⟨c, line⟩ bytes = (⟨c, unfinished line bytes⟩, []) := by
  induction bytes generalizing line with
  | nil => rfl
  | cons ch bytes ih =>
      rw [emit_cons, stream_step_idle hidle, unfinished]
      rw [Undone] at h
      split at h
      · next hch =>
          obtain ⟨hdone, hlater⟩ := h
          rw [if_pos hch, if_pos hch, receive_undone hidle hdone, ih hlater]
          rfl
      · next hch =>
          rw [if_neg hch, if_neg hch, ih h]
          rfl

/-- **A read of a connection that is idling.** -/
theorem Quiet.receive {tag : String} (hidle : c.session.idle = some tag) {line bytes : Bytes}
    (h : Quiet line bytes) :
    emit (Stream.step o) ⟨c, line⟩ bytes =
      (⟨(c.receive o bytes).1, c.line line bytes⟩, (c.receive o bytes).2) := by
  unfold Quiet at h
  rw [Connection.line, hidle]
  split at h
  · next hdone =>
      obtain ⟨rfl, hbytes, hlast⟩ := h
      obtain ⟨init, rfl⟩ := List.getLast?_eq_some_iff.mp hlast
      rw [List.dropLast_concat] at hbytes
      simp only [hdone, if_true]
      rw [emit_append, stream_line hidle hbytes, emit_cons, stream_step_idle hidle, if_pos rfl,
        List.nil_append]
      simp only [emit_nil, List.nil_append, List.append_nil]
  · next hdone =>
      have hdone : (asBytes "DONE").isPrefixOf bytes = false := eq_false_of_ne_true hdone
      rw [stream_undone hidle h, receive_undone hidle hdone, hdone]
      rfl

end Connection

/-! ## All the reads -/

/-- Streams that are alike. -/
structure Stream.Like (st st' : Stream) : Prop where
  connection : st.connection.Like st'.connection
  line : st.line = st'.line

theorem Stream.Like.step {o : Outside} {st st' : Stream} (h : st.Like st') (ch : UInt8) :
    (st.step o ch).1.Like (st'.step o ch).1 ∧ (st.step o ch).2 = (st'.step o ch).2 := by
  obtain ⟨hconnection, hline⟩ := h
  unfold Stream.step
  rw [← hconnection.session.idle, ← hline]
  split
  · obtain ⟨hlike, hevents⟩ := hconnection.receive (o := o) [ch]
    exact ⟨⟨hlike, rfl⟩, hevents⟩
  · split
    · obtain ⟨hlike, hevents⟩ := hconnection.receive (o := o) (st.line ++ [ch])
      exact ⟨⟨hlike, rfl⟩, hevents⟩
    · exact ⟨⟨hconnection, rfl⟩, rfl⟩

theorem Connection.Follows.of_stream {c : Connection} {line : Bytes} {st st' : Stream}
    (h : c.Follows line st) (hlike : st.Like st') : c.Follows line st' := by
  rcases h with ⟨h, hline⟩ | ⟨hleft, hst⟩
  · exact .inl ⟨h.trans hlike.connection, hlike.line.symm.trans hline⟩
  · exact .inr ⟨hleft, hlike.connection.flow ▸ hst⟩

namespace Connection

variable {o : Outside} {c : Connection}

/-- **A read.** -/
theorem Faithful.receive {line bytes : Bytes} (h : c.Faithful o line bytes)
    (hline : c.session.idle = none → line = []) :
    outcomes (c.receive o bytes).2 = outcomes (emit (Stream.step o) ⟨c, line⟩ bytes).2 ∧
      Follows (c.receive o bytes).1 (c.line line bytes)
        (emit (Stream.step o) ⟨c, line⟩ bytes).1 := by
  by_cases hflow : c.flow = .next
  · have h := h hflow
    cases hidle : c.session.idle with
    | none =>
        rw [hidle] at h
        obtain rfl := hline hidle
        obtain ⟨-, hinTurn, houtcomes, hfollows⟩ := h.taken hflow hidle
        obtain ⟨hstate, hsame⟩ := emit_calls hinTurn
        have hgoAhead (c : Connection) (needsLiteral : Option ℕ) :
            outcomes (c.goAhead needsLiteral) = [] := by
          unfold goAhead
          repeat' split
          all_goals rfl
        rw [houtcomes, receive_eq hflow hidle, Connection.line, hidle]
        simp only [ingest, outcomes_append, hgoAhead, List.append_nil]
        constructor
        · exact congrArg _ hsame
        · exact hstate ▸ hfollows
    | some tag =>
        rw [hidle] at h
        rw [h.receive hidle]
        exact ⟨rfl, .inl ⟨.refl _, rfl⟩⟩
  · have hreceive : c.receive o bytes = (c, []) := if_neg hflow
    obtain ⟨hleft, hquiet⟩ := stream_left (o := o) line hflow bytes
    rw [hreceive, hquiet]
    exact ⟨rfl, .inr ⟨hflow, hleft⟩⟩

/-- A connection that goes on like the stream takes the next read like it. -/
theorem Follows.receive {line bytes : Bytes} {st : Stream} (h : c.Follows line st)
    (hfaithful : c.Faithful o line bytes) (hline : c.session.idle = none → line = []) :
    outcomes (c.receive o bytes).2 = outcomes (emit (Stream.step o) st bytes).2 ∧
      Follows (c.receive o bytes).1 (c.line line bytes) (emit (Stream.step o) st bytes).1 := by
  rcases h with ⟨hlike, rfl⟩ | ⟨hleft, hst⟩
  · obtain ⟨houtcomes, hfollows⟩ := hfaithful.receive hline
    obtain ⟨hsame, hevents⟩ := emit_related Stream.Like (fun _ _ ch h ↦ h.step (o := o) ch)
      (⟨hlike, rfl⟩ : Stream.Like ⟨c, st.line⟩ st) bytes
    exact ⟨hevents ▸ houtcomes, hfollows.of_stream hsame⟩
  · have hreceive : c.receive o bytes = (c, []) := if_neg hleft
    obtain ⟨hst', hquiet⟩ := stream_left (o := o) st.line hst bytes
    rw [hreceive, hquiet]
    exact ⟨rfl, .inr ⟨hleft, hst'⟩⟩

/-- The connection takes every read like the stream. -/
def Splits (o : Outside) (c : Connection) (reads : List Bytes) : Prop :=
  Along (advance (tracked (Connection.receive o) Connection.line))
    (fun at' bytes ↦ at'.1.Faithful o at'.2 bytes) (c, []) reads

/-- Nothing of a line is kept but while idling. -/
theorem line_of_idle {line bytes : Bytes} (h : (c.receive o bytes).1.session.idle = none) :
    c.line line bytes = [] := by
  rw [Connection.line]
  cases hidle : c.session.idle with
  | none => rfl
  | some tag =>
      cases hdone : (asBytes "DONE").isPrefixOf bytes with
      | true => rfl
      | false =>
          rw [receive_undone hidle hdone, hidle] at h
          cases h

/-- **All the reads.** -/
theorem Follows.receives {line : Bytes} {reads : List Bytes} {st : Stream} (h : c.Follows line st)
    (hline : c.session.idle = none → line = [])
    (hfaithful : Along (advance (tracked (Connection.receive o) Connection.line))
      (fun at' bytes ↦ at'.1.Faithful o at'.2 bytes) (c, line) reads) :
    outcomes (emit (Connection.receive o) c reads).2 =
      outcomes (emit (emit (Stream.step o)) st reads).2 := by
  induction reads generalizing c line st with
  | nil => rfl
  | cons bytes reads ih =>
      obtain ⟨hhere, hlater⟩ := hfaithful
      obtain ⟨houtcomes, hfollows⟩ := h.receive hhere hline
      rw [emit_cons, emit_cons, outcomes_append, outcomes_append, houtcomes,
        ih hfollows line_of_idle hlater]

/-- **The outcomes of a run** are those of the stream. -/
theorem Splits.outcomes {reads : List Bytes} (h : c.Splits o reads)  :
    outcomes (emit (Connection.receive o) c reads).2 =
      outcomes (emit (Stream.step o) ⟨c, []⟩ reads.flatten).2 := by
  have hfollows : c.Follows [] ⟨c, []⟩ := .inl ⟨.refl c, rfl⟩
  rw [emit_flatten]
  exact hfollows.receives (fun _ ↦ rfl) h

end Connection

/-! ## Nothing is dropped -/

/-- A byte that completes a request has it answered, and no other byte answers one. -/
theorem Connection.answered_byte {o : Outside} {c : Connection} (hflow : c.flow = .next)
    (hidle : c.session.idle = none) (ch : UInt8) :
    (outcomes (c.receive o [ch]).2).filterMap Outcome.answered =
      match c.session.receiver.step ch with
      | .error (_, .ok request) => [request]
      | _ => [] := by
  cases hstep : c.session.receiver.step ch with
  | ok r =>
      rw [receive_ok hflow hidle hstep]
      rfl
  | error turn =>
      obtain ⟨r, result⟩ := turn
      cases result with
      | ok request =>
          cases hallowed : isAllowed c.session.state c.session.isTls request with
          | ok request' =>
              have hnext : (c.withReceiver r).flow = .next := hflow
              obtain ⟨rfl, -⟩ := isAllowed_eq hallowed
              rw [receive_allowed hflow hidle hstep hallowed, outcomes_call hnext]
              rfl
          | error response =>
              rw [receive_refused hflow hidle hstep hallowed]
              rfl
      | error error =>
          cases error with
          | error response =>
              rw [receive_unparsed hflow hidle hstep]
              rfl
          | needsMoreData => rw [(receive_waits hflow hidle hstep (by simp)).2, List.filterMap_nil]
          | needsLiteral size =>
              rw [(receive_waits hflow hidle hstep (by simp)).2, List.filterMap_nil]

/-- While idling no request is answered. -/
theorem Connection.answered_idle {o : Outside} {c : Connection} {tag : String}
    (hidle : c.session.idle = some tag) (bytes : Bytes) :
    (outcomes (c.receive o bytes).2).filterMap Outcome.answered = [] := by
  simp only [Connection.receive, hidle]
  repeat' split
  all_goals rfl

/-- Every request that a byte completes is answered. -/
theorem Stream.answered_step (o : Outside) (st : Stream) (ch : UInt8) :
    (outcomes (st.step o ch).2).filterMap Outcome.answered = st.completed ch := by
  obtain ⟨c, line⟩ := st
  by_cases hflow : c.flow = .next
  · cases hidle : c.session.idle with
    | none =>
        simp only [Stream.step, Stream.completed, hidle, hflow, and_self, if_true]
        exact Connection.answered_byte hflow hidle ch
    | some tag =>
        simp only [Stream.step, Stream.completed, hidle, reduceCtorEq, and_false, if_false]
        split
        · exact Connection.answered_idle hidle _
        · rfl
  · have hreceive (bytes : Bytes) : c.receive o bytes = (c, []) := if_neg hflow
    simp only [Stream.step, Stream.completed, hflow, false_and, if_false, hreceive]
    repeat' split
    all_goals rfl

/-- **Every request that is complete in a stream is answered.** -/
theorem Stream.answered (o : Outside) (st : Stream) (bytes : Bytes) :
    (outcomes (emit (Stream.step o) st bytes).2).filterMap Outcome.answered =
      st.requests o bytes := by
  unfold Stream.requests
  induction bytes generalizing st with
  | nil => rfl
  | cons ch bytes ih =>
      rw [emit_cons, emit_cons, outcomes_append, List.filterMap_append, answered_step, ih]

/-- **Splitting.**  Two ways of splitting a stream into reads, in both of which the connection takes
every read like the stream, have the same outcomes, and no request that is complete in the stream is
dropped. -/
theorem Connection.outcomes_split {o : Outside} {c : Connection} {reads reads' : List Bytes}
    (hstream : reads.flatten = reads'.flatten) (h : c.Splits o reads) (h' : c.Splits o reads') :
    outcomes (emit (Connection.receive o) c reads).2 =
        outcomes (emit (Connection.receive o) c reads').2 ∧
      (outcomes (emit (Connection.receive o) c reads).2).filterMap Outcome.answered =
        Stream.requests o ⟨c, []⟩ reads.flatten := by
  constructor
  · rw [h.outcomes, h'.outcomes, hstream]
  · rw [h.outcomes, Stream.answered]

instance (o : Outside) (c : Connection) (reads : List Bytes) : Decidable (c.Splits o reads) := by
  unfold Connection.Splits; infer_instance

/-- A session that pipelines and idles, split in two ways. -/
theorem Connection.outcomes_split_session :
    outcomes (emit (Connection.receive .obliging) (.new 100 true)
        [asBytes "a LOGIN us", asBytes "er secret\r\n", asBytes "b NOOP\r\nc NAMESPACE\r\n",
          asBytes "d IDLE\r\n", asBytes "DONE\r\n", asBytes "e LOGOUT\r\n"]).2 =
      outcomes (emit (Connection.receive .obliging) (.new 100 true)
        [asBytes "a LOGIN user secret\r\n", asBytes "b NOOP\r\nc NAMES",
          asBytes "PACE\r\nd IDLE\r\n", asBytes "DONE\r\n", asBytes "e LOGOUT\r\n"]).2 :=
  (Connection.outcomes_split (by decide +kernel) (by decide +kernel) (by decide +kernel)).1

/-- A line that is no request: if the next request is in the same read, it is dropped. -/
theorem Connection.outcomes_differ :
    ¬ ∀ (o : Outside) (maxRequestSize : ℕ) (isTls : Bool) (reads reads' : List Bytes),
      reads.flatten = reads'.flatten →
      outcomes (emit (Connection.receive o) (.new maxRequestSize isTls) reads).2 =
        outcomes (emit (Connection.receive o) (.new maxRequestSize isTls) reads').2 := by
  intro h
  have hlines := congrArg List.length (h .obliging 100 true
    [asBytes "x\r\n", asBytes "a NOOP\r\n"] [asBytes "x\r\na NOOP\r\n"] (by decide +kernel))
  revert hlines
  decide +kernel

end ImapToJmap.Imap
