import ImapToJmap.Core.Ingest

/-!
# What a read leaves in the receiver

A request may arrive in several reads, so the receiver goes on where the last read has left it.
`Turn` says what one byte does to a receiver that is in the arguments of a request: it stays there,
or the request is over and the receiver is as it was made (`reset`).  From it follows which
receivers there are between two reads (`Sound`), and that a receiver which is not at the beginning
of a request counts what it has into the next request.
-/

namespace ImapToJmap.Receiver

open Ascii

variable {T : Type} [CommandParser T]

/-- The states behind the command name. -/
def State.inArguments : State → Bool
  | argument _ | argumentQuoted _ | literal _ | literalSeek _ _ | literalData _ => true
  | _ => false

/-- The request will have an argument. -/
def Marked (r : Receiver T) : Prop :=
  match r.state with
  | .argument _ => r.request.tokens ≠ [] ∨ r.buf ≠ []
  | .argumentQuoted _ | .literal _ | .literalSeek _ _ | .literalData _ => True
  | _ => False

/-- The receiver has gone on within the arguments. -/
structure Onward (r r' : Receiver T) : Prop where
  inArguments : r'.state.inArguments = true
  reset : r'.reset = r.reset
  tag : r'.request.tag = r.request.tag
  marked : r.Marked → r'.Marked

/-- What a byte does to a receiver in the arguments of a request. -/
def Turn (r : Receiver T) (ch : UInt8) : Loop T (Receiver T) → Prop
  | .ok r' => r.Onward r'
  | .error (r', .ok request) =>
      r' = r.reset ∧ ch = lf ∧ request.tag = r.request.tag ∧ (r.Marked → request.tokens ≠ [])
  | .error (r', .error (.needsLiteral _)) => r.Onward r'
  | .error (r', .error (.error _)) => r' = r.reset
  | .error (_, .error .needsMoreData) => False

variable {r : Receiver T} {ch : UInt8}

theorem turn_errorReset (message : String) : r.Turn ch (r.errorReset message) := rfl

/-- A turn is told by what a receiver has besides its buffer. -/
theorem Turn.congr {r' : Receiver T} {turn : Loop T (Receiver T)} (h : r'.Turn ch turn)
    (hreset : r'.reset = r.reset) (htag : r'.request.tag = r.request.tag)
    (hmarked : r.Marked → r'.Marked) : r.Turn ch turn := by
  have onward {r'' : Receiver T} (h : r'.Onward r'') : r.Onward r'' :=
    ⟨h.inArguments, h.reset.trans hreset, h.tag.trans htag, fun hr ↦ h.marked (hmarked hr)⟩
  rcases turn with ⟨r'', (_ | _ | _) | request⟩ | r''
  · exact h
  · exact onward h
  · exact h.trans hreset
  · exact ⟨h.1.trans hreset, h.2.1, h.2.2.1.trans htag, fun hr ↦ h.2.2.2 (hmarked hr)⟩
  · exact onward h

/-- An argument is pushed, or the request gets too large. -/
theorem pushArgument_cases (r : Receiver T) (inQuote : Bool) :
    (∃ tokens size, r.pushArgument inQuote = .ok { r with
        request := { r.request with tokens := r.request.tokens ++ tokens }
        buf := []
        currentRequestSize := size } ∧ (r.buf ≠ [] ∨ inQuote = true → tokens ≠ [])) ∨
      ∃ message, r.pushArgument inQuote = r.errorReset message := by
  unfold pushArgument
  split
  · simp only
    split
    · exact .inr ⟨_, rfl⟩
    · exact .inl ⟨[.argument r.buf], _, rfl, by simp⟩
  · next hbuf =>
      have hbuf : r.buf = [] := by simpa using hbuf
      split
      · exact .inl ⟨[.nil], r.currentRequestSize, by simp [← hbuf], by simp⟩
      · next hquote =>
          refine .inl ⟨[], r.currentRequestSize, ?_, by simp [hbuf, hquote]⟩
          rw [List.append_nil, ← hbuf]

/-- A token is pushed, or the request gets too large. -/
theorem pushToken_cases (r : Receiver T) (token : Token) :
    r.pushToken token = .ok { r with
        request := { r.request with tokens := r.request.tokens ++ [token] }
        currentRequestSize := r.currentRequestSize + 1 } ∨
      ∃ message, r.pushToken token = r.errorReset message := by
  unfold pushToken
  simp only
  split
  · exact .inr ⟨_, rfl⟩
  · exact .inl rfl

/-- An argument is complete, and the receiver goes on to another state. -/
theorem turn_pushArgument {inQuote : Bool} {state : State} (hstate : state.inArguments = true)
    (hmarked : ∀ r' : Receiver T, r'.state = state → r.Marked →
      (∃ tokens, r'.request.tokens = r.request.tokens ++ tokens ∧
        (r.buf ≠ [] ∨ inQuote = true → tokens ≠ [])) → r'.Marked) :
    r.Turn ch (do
      let r ← r.pushArgument inQuote
      return { r with state := state }) := by
  rcases r.pushArgument_cases inQuote with ⟨tokens, size, hpush, htokens⟩ | ⟨message, hpush⟩
  · rw [hpush]
    exact ⟨hstate, rfl, rfl, fun hmark ↦ hmarked _ rfl hmark ⟨tokens, rfl, htokens⟩⟩
  · rw [hpush]
    exact turn_errorReset message

/-- A token stands behind the argument that it completes. -/
theorem turn_pushToken (hr : r.state.inArguments = true) {lastCh : UInt8}
    (hlast : r.state = .argument lastCh) (token : Token) :
    r.Turn ch (do (← r.pushArgument false).pushToken token) := by
  rcases r.pushArgument_cases false with ⟨tokens, size, hpush, -⟩ | ⟨message, hpush⟩
  · rw [hpush]
    change r.Turn ch (pushToken _ token)
    rcases pushToken_cases (T := T) _ token with htoken | ⟨message, htoken⟩
    · rw [htoken]
      exact ⟨hr, rfl, rfl, fun _ ↦ by simp [Marked, hlast]⟩
    · rw [htoken]
      rfl
  · rw [hpush]
    exact turn_errorReset message

theorem turn_stepArgument {lastCh : UInt8} (hr : r.state = .argument lastCh) :
    r.Turn ch (r.stepArgument lastCh ch) := by
  have hin : r.state.inArguments = true := by rw [hr]; rfl
  have hmark : r.Marked ↔ r.request.tokens ≠ [] ∨ r.buf ≠ [] := by simp [Marked, hr]
  unfold stepArgument
  extract_lets brackets
  refine iteInduction (fun _ ↦ ?_) fun _ ↦ iteInduction (fun _ ↦ ?_) fun _ ↦
    iteInduction (fun _ ↦ ?_) fun _ ↦ iteInduction (fun _ ↦ ?_) fun _ ↦
    iteInduction (fun _ ↦ ?_) fun _ ↦ iteInduction (fun _ ↦ ?_) fun _ ↦
    iteInduction (fun _ ↦ ?_) fun _ ↦ iteInduction (fun _ ↦ ?_) fun _ ↦
    iteInduction (fun _ ↦ ?_) fun _ ↦ iteInduction (fun hlf ↦ ?_) fun _ ↦
    iteInduction (fun _ ↦ ?_) fun _ ↦ ?_
  · exact turn_pushArgument rfl fun r' hstate _ _ ↦ by simp [Marked, hstate]
  · exact turn_pushArgument rfl fun r' hstate _ _ ↦ by simp [Marked, hstate]
  · exact turn_pushToken hin hr _
  · exact turn_pushToken hin hr _
  · exact turn_pushToken hin hr _
  · exact turn_pushToken hin hr _
  · exact turn_pushToken hin hr _
  · exact turn_pushToken hin hr _
  · exact turn_pushToken hin hr _
  · rcases r.pushArgument_cases false with ⟨tokens, size, hpush, htokens⟩ | ⟨message, hpush⟩
    · rw [hpush]
      refine ⟨rfl, hlf, rfl, fun hmarked ↦ ?_⟩
      rcases hmark.mp hmarked with h | h
      · simp [h]
      · simp [htokens (.inl h)]
    · rw [hpush]
      exact turn_errorReset message
  · refine turn_pushArgument rfl fun r' hstate hmarked ⟨tokens, htokens, hne⟩ ↦ ?_
    simp only [Marked, hstate]
    rcases hmark.mp hmarked with h | h
    · exact .inl (by simp [htokens, h])
    · exact .inl (by simp [htokens, hne (.inl h)])
  · exact ⟨rfl, rfl, rfl, fun _ ↦ .inr (by simp)⟩

theorem turn_stepQuoted {escaped : Bool} :
    r.Turn ch (r.stepQuoted escaped ch) := by
  unfold stepQuoted
  refine iteInduction (fun _ ↦ iteInduction (fun _ ↦ ?_) fun _ ↦ iteInduction (fun _ ↦ ?_) fun _ ↦
    ?_) fun _ ↦ iteInduction (fun _ ↦ ?_) fun _ ↦ iteInduction (fun _ ↦ ?_) fun _ ↦
    iteInduction (fun _ ↦ ?_) fun _ ↦ ?_
  · refine turn_pushArgument rfl fun r' hstate _ ⟨tokens, htokens, hne⟩ ↦ ?_
    simp [Marked, hstate, htokens, hne (.inr rfl)]
  · exact ⟨rfl, rfl, rfl, fun _ ↦ trivial⟩
  · exact turn_errorReset _
  · exact ⟨rfl, rfl, rfl, fun _ ↦ trivial⟩
  · exact turn_errorReset _
  · exact ⟨rfl, rfl, rfl, fun _ ↦ trivial⟩
  · exact turn_errorReset _

theorem turn_stepLiteral {nonSync : Bool} (hr : r.state = .literal nonSync) :
    r.Turn ch (r.stepLiteral nonSync ch) := by
  have on {state : State} {buf : Bytes} (hstate : state.inArguments = true)
      (hmarked : ∀ r' : Receiver T, r'.state = state → r'.Marked) :
      r.Onward { r with state := state, buf := buf } := ⟨hstate, rfl, rfl, fun _ ↦ hmarked _ rfl⟩
  unfold stepLiteral
  refine iteInduction (fun _ ↦ iteInduction (fun _ ↦ ?_) fun _ ↦ turn_errorReset _) fun _ ↦
    iteInduction (fun _ ↦ iteInduction (fun _ ↦ ?_) fun _ ↦ turn_errorReset _) fun _ ↦
    iteInduction (fun _ ↦ iteInduction (fun _ ↦ ?_) fun _ ↦ turn_errorReset _) fun _ ↦
    turn_errorReset _
  · split
    · refine iteInduction (fun _ ↦ turn_errorReset _) fun _ ↦ ?_
      exact on rfl fun r' hstate ↦ by simp [Marked, hstate]
    · exact turn_errorReset _
  · have hon : r.Onward { r with state := .literal true } :=
      on rfl fun r' hstate ↦ by simp [Marked, hstate]
    exact hon
  · exact ⟨by rw [hr]; rfl, rfl, rfl, fun _ ↦ by simp [Marked, hr]⟩

theorem turn_stepLiteralSeek {size : ℕ} {nonSync : Bool}
    (hr : r.state = .literalSeek size nonSync) :
    r.Turn ch (r.stepLiteralSeek size nonSync ch) := by
  unfold stepLiteralSeek
  refine iteInduction (fun _ ↦ ?_) fun _ ↦ iteInduction (fun _ ↦ turn_errorReset _) fun _ ↦
    ⟨by rw [hr]; rfl, rfl, rfl, id⟩
  by_cases hsize : size > 0
  · have hon : r.Onward { r with state := .literalData size } := ⟨rfl, rfl, rfl, fun _ ↦ trivial⟩
    simp only [hsize, if_true]
    cases nonSync <;> exact hon
  · simp only [hsize, if_false]
    rcases pushToken_cases { r with state := .argument space } .nil with hpush | ⟨message, hpush⟩
    · rw [hpush]
      have hon : r.Onward { r with
          state := .argument space
          request := { r.request with tokens := r.request.tokens ++ [.nil] }
          currentRequestSize := r.currentRequestSize + 1 } :=
        ⟨rfl, rfl, rfl, fun _ ↦ by simp [Marked]⟩
      cases nonSync <;> exact hon
    · rw [hpush]
      exact turn_errorReset message

theorem turn_stepLiteralData {remaining : ℕ} (hr : r.state = .literalData remaining) :
    r.Turn ch (r.stepLiteralData remaining ch) := by
  unfold stepLiteralData
  extract_lets r'
  refine iteInduction (fun _ ↦ ⟨rfl, rfl, rfl, fun _ ↦ trivial⟩) fun _ ↦ ?_
  refine Turn.congr (turn_pushArgument (r := r') rfl ?_) rfl rfl fun _ ↦ by simp [Marked, r', hr]
  rintro r'' hstate - ⟨tokens, htokens, hne⟩
  simp [Marked, hstate, htokens, hne (.inl (by simp [r']))]

/-- **A byte in the arguments of a request.** -/
theorem turn_step (hr : r.state.inArguments = true) : r.Turn ch (r.step ch) := by
  unfold step
  split
  · next hstate => simp [hstate, State.inArguments] at hr
  · next hstate => simp [hstate, State.inArguments] at hr
  · next hstate => simp [hstate, State.inArguments] at hr
  · next hstate => exact turn_stepArgument hstate
  · next hstate => exact turn_stepQuoted
  · next hstate => exact turn_stepLiteral hstate
  · next hstate => exact turn_stepLiteralSeek hstate
  · next hstate => exact turn_stepLiteralData hstate

/-! ## Between two reads -/

/-- What holds of a receiver between two bytes. -/
structure Sound (r : Receiver T) : Prop where
  startState : r.startState = .start ∨ r.startState = .command false
  start : r.state = .start → r.startState = .start ∧ r = r.reset
  tag : r.state = .tag → r.startState = .start ∧ r.buf ≠ []
  command : ∀ isUid, r.state = .command isUid →
    r.startState = .start ∨ r = { r.reset with state := r.state, buf := r.buf }

theorem Sound.reset {r : Receiver T} (h : r.Sound) : r.reset.Sound where
  startState := h.startState
  start := fun hstate ↦ ⟨hstate, rfl⟩
  tag := fun hstate ↦ by
    have hstate : r.startState = .tag := hstate
    rcases h.startState with h | h <;> simp [h] at hstate
  command := fun _ _ ↦ .inr rfl

/-- In the arguments there is nothing to show. -/
theorem Sound.of_inArguments {r r' : Receiver T} (h : r.Sound) (hreset : r'.reset = r.reset)
    (hin : r'.state.inArguments = true) : r'.Sound where
  startState := by
    have hstart : r'.reset.startState = r.reset.startState := congrArg Receiver.startState hreset
    simp only [Receiver.reset] at hstart
    rw [hstart]
    exact h.startState
  start := fun hstate ↦ by simp [hstate, State.inArguments] at hin
  tag := fun hstate ↦ by simp [hstate, State.inArguments] at hin
  command := fun _ hstate ↦ by simp [hstate, State.inArguments] at hin

/-- The receiver that a byte leaves. -/
def Leaves (r : Receiver T) : Loop T (Receiver T) → Prop
  | .ok r' | .error (r', _) => r'.Sound ∧ r'.reset = r.reset

theorem Sound.leaves_reset (h : r.Sound) (message : String) :
    r.Leaves (r.errorReset message) := ⟨h.reset, rfl⟩

theorem Sound.stepStart (h : r.Sound) (hr : r.state = .start) : r.Leaves (r.stepStart ch) := by
  obtain ⟨hstart, -⟩ := h.start hr
  unfold Receiver.stepStart
  refine iteInduction (fun _ ↦ ⟨⟨.inl hstart, ?_, ?_, ?_⟩, rfl⟩) fun _ ↦
    iteInduction (fun _ ↦ h.leaves_reset _) fun _ ↦ ⟨h, rfl⟩
  · simp
  · exact fun _ ↦ ⟨hstart, by simp⟩
  · simp

theorem Sound.stepTag (h : r.Sound) (hr : r.state = .tag) : r.Leaves (r.stepTag ch) := by
  obtain ⟨hstart, hbuf⟩ := h.tag hr
  unfold Receiver.stepTag
  refine iteInduction (fun _ ↦ iteInduction (fun _ ↦ ?_) fun _ ↦ ⟨h, rfl⟩) fun _ ↦
    iteInduction (fun _ ↦ iteInduction (fun _ ↦ ?_) fun _ ↦ h.leaves_reset _) fun _ ↦
    h.leaves_reset _
  · split
    · exact ⟨⟨.inl hstart, by simp, by simp, fun _ _ ↦ .inl hstart⟩, rfl⟩
    · exact ⟨h.reset, rfl⟩
  · exact ⟨⟨.inl hstart, by simp [hr], fun _ ↦ ⟨hstart, by simp⟩, by simp [hr]⟩, rfl⟩

theorem Sound.stepCommand (h : r.Sound) {isUid : Bool} (hr : r.state = .command isUid) :
    r.Leaves (r.stepCommand isUid ch) := by
  have on {isUid' : Bool} {buf : Bytes} :
      r.Leaves (.ok { r with state := .command isUid', buf := buf }) := by
    refine ⟨⟨h.startState, by simp, by simp, fun _ _ ↦ ?_⟩, rfl⟩
    rcases h.command isUid hr with hstart | hrest
    · exact .inl hstart
    · refine .inr ?_
      have hrequest : r.request = default := congrArg Receiver.request hrest
      have hsize : r.currentRequestSize = 0 := congrArg Receiver.currentRequestSize hrest
      simp [Receiver.reset, hrequest, hsize]
  unfold Receiver.stepCommand
  refine iteInduction (fun _ ↦ iteInduction (fun _ ↦ ?_) fun _ ↦ h.leaves_reset _) fun _ ↦
    iteInduction (fun _ ↦ iteInduction (fun _ ↦ iteInduction (fun _ ↦ ?_) fun _ ↦ on) fun _ ↦
      ⟨h, rfl⟩) fun _ ↦ h.leaves_reset _
  · have hsame : r.Leaves (.ok { r with
        state := .command isUid, buf := r.buf ++ [toAsciiUppercase ch] }) := on
    rwa [← hr] at hsame
  · split
    · refine iteInduction (fun _ ↦ ⟨h.of_inArguments rfl rfl, rfl⟩) fun _ ↦ ⟨h.reset, rfl⟩
    · exact h.leaves_reset _

/-- **A byte leaves a sound receiver.** -/
theorem Sound.step (h : r.Sound) : r.Leaves (r.step ch) := by
  by_cases hin : r.state.inArguments = true
  · have hturn : r.Turn ch (r.step ch) := turn_step hin
    generalize r.step ch = turn at hturn ⊢
    rcases turn with ⟨r', (_ | _ | _) | request⟩ | r'
    · exact hturn.elim
    · exact ⟨h.of_inArguments hturn.reset hturn.inArguments, hturn.reset⟩
    · rw [show r' = r.reset from hturn]
      exact ⟨h.reset, rfl⟩
    · rw [show r' = r.reset from hturn.1]
      exact ⟨h.reset, rfl⟩
    · exact ⟨h.of_inArguments hturn.reset hturn.inArguments, hturn.reset⟩
  · cases hr : r.state with
    | start => simpa only [Receiver.step, hr] using h.stepStart hr
    | tag => simpa only [Receiver.step, hr] using h.stepTag hr
    | command isUid => simpa only [Receiver.step, hr] using h.stepCommand hr
    | _ => simp [hr, State.inArguments] at hin

/-- **A read leaves a sound receiver.** -/
theorem Sound.collect {ρ : Type} (isAllowed : Request T → Except ρ (Request T)) (h : r.Sound)
    (bytes : Bytes) :
    (r.collect isAllowed bytes).receiver.Sound ∧
      (r.collect isAllowed bytes).receiver.reset = r.reset := by
  induction bytes generalizing r with
  | nil => exact ⟨h, rfl⟩
  | cons ch bytes ih =>
      have hstep : r.Leaves (r.step ch) := h.step
      rw [Receiver.collect]
      generalize r.step ch = turn at hstep
      rcases turn with ⟨r', (_ | _ | _) | request⟩ | r'
      · exact hstep
      · exact hstep
      · exact hstep
      · obtain ⟨hsound, hreset⟩ := ih hstep.1
        simp only
        split
        · exact ⟨hsound, hreset.trans hstep.2⟩
        · exact ⟨hsound, hreset.trans hstep.2⟩
      · obtain ⟨hsound, hreset⟩ := ih hstep.1
        exact ⟨hsound, hreset.trans hstep.2⟩

/-! ## One more line -/

/-- What holds of the request that a line completes, by an invariant of the receiver on the way. -/
theorem collect_line {ρ : Type} {isAllowed : Request T → Except ρ (Request T)}
    (Inv : Receiver T → Prop) (P : Request T → Prop)
    (hok : ∀ r ch r', Inv r → r.step ch = .ok r' → Inv r')
    (hrequest : ∀ r ch r' request, Inv r → r.step ch = .error (r', .ok request) →
      ch = lf ∧ P request)
    (hr : Inv r) {line : Bytes} (hline : lf ∉ line) :
    ∀ request ∈ (r.collect isAllowed (line ++ [lf])).requests,
      ∃ request', isAllowed request' = .ok request ∧ P request' := by
  induction line generalizing r with
  | nil =>
      intro request h
      rw [List.nil_append, collect] at h
      generalize hturn : r.step lf = turn at h
      rcases turn with ⟨r', (_ | _ | _) | parsed⟩ | r'
      · simp at h
      · simp at h
      · simp at h
      · simp only [collect] at h
        split at h
        · next hallowed =>
            obtain rfl := List.mem_singleton.mp h
            exact ⟨parsed, hallowed, (hrequest r lf r' parsed hr hturn).2⟩
        · simp at h
      · simp [collect] at h
  | cons ch line ih =>
      obtain ⟨hch, hline⟩ := not_or.mp (mt List.mem_cons.mpr hline)
      intro request h
      rw [List.cons_append, collect] at h
      generalize hturn : r.step ch = turn at h
      rcases turn with ⟨r', (_ | _ | _) | parsed⟩ | r'
      · simp at h
      · simp at h
      · simp at h
      · exact absurd (hrequest r ch r' parsed hr hturn).1.symm hch
      · exact ih (hok r ch r' hr hturn) hline request h

section Line

variable {ρ : Type} {isAllowed : Request T → Except ρ (Request T)} {line : Bytes}

omit [CommandParser T] in
theorem Marked.inArguments {r : Receiver T} (h : r.Marked) : r.state.inArguments = true := by
  unfold Marked at h
  split at h
  · next hr => simp [hr, State.inArguments]
  · next hr => simp [hr, State.inArguments]
  · next hr => simp [hr, State.inArguments]
  · next hr => simp [hr, State.inArguments]
  · next hr => simp [hr, State.inArguments]
  · exact h.elim

/-- What a marked receiver has goes into the request that the line completes. -/
theorem Marked.collect_line (h : r.Marked) (hline : lf ∉ line) :
    ∀ request ∈ (r.collect isAllowed (line ++ [lf])).requests,
      ∃ request', isAllowed request' = .ok request ∧ request'.tokens ≠ [] := by
  refine Receiver.collect_line Marked (fun request ↦ request.tokens ≠ []) ?_ ?_ h hline
  · intro r ch r' hr hstep
    have hturn : r.Turn ch (r.step ch) := turn_step hr.inArguments
    rw [hstep] at hturn
    exact hturn.marked hr
  · intro r ch r' request hr hstep
    have hturn : r.Turn ch (r.step ch) := turn_step hr.inArguments
    rw [hstep] at hturn
    exact ⟨hturn.2.1, hturn.2.2.2 hr⟩

/-- The receiver has read this tag. -/
def Tagged (tag : String) (r : Receiver T) : Prop :=
  r.request.tag = tag ∧ (r.state.inArguments = true ∨ ∃ isUid, r.state = .command isUid)

/-- The tag goes into the request that the line completes. -/
theorem Tagged.collect_line {tag : String} (h : r.Tagged tag) (hline : lf ∉ line) :
    ∀ request ∈ (r.collect isAllowed (line ++ [lf])).requests,
      ∃ request', isAllowed request' = .ok request ∧ request'.tag = tag := by
  refine Receiver.collect_line (Tagged tag) (fun request ↦ request.tag = tag) ?_ ?_ h hline
  · rintro r ch r' ⟨htag, hin | ⟨isUid, hr⟩⟩ hstep
    · have hturn : r.Turn ch (r.step ch) := turn_step hin
      rw [hstep] at hturn
      exact ⟨hturn.tag.trans htag, .inl hturn.inArguments⟩
    · rw [step, hr] at hstep
      simp only [stepCommand, errorReset, finish] at hstep
      repeat' split at hstep
      all_goals first
        | (obtain rfl := Except.ok.inj hstep
           exact ⟨htag, by simp [hr, State.inArguments]⟩)
        | cases hstep
  · rintro r ch r' request ⟨htag, hin | ⟨isUid, hr⟩⟩ hstep
    · have hturn : r.Turn ch (r.step ch) := turn_step hin
      rw [hstep] at hturn
      exact ⟨hturn.2.1, hturn.2.2.1.trans htag⟩
    · rw [step, hr] at hstep
      simp only [stepCommand, errorReset, finish] at hstep
      repeat' split at hstep
      all_goals first
        | (cases hstep
           exact ⟨by simp_all, htag⟩)
        | cases hstep

theorem collect_of_ok {r' : Receiver T} (h : r.step ch = .ok r') (rest : Bytes) :
    r.collect isAllowed (ch :: rest) = r'.collect isAllowed rest := by
  rw [collect, h]

theorem collect_of_errorReset {message : String} (h : r.step ch = r.errorReset message)
    (rest : Bytes) : (r.collect isAllowed (ch :: rest)).requests = [] := by
  rw [collect, h]
  rfl

/-- A word is read into a command name, or it gets too long. -/
theorem collect_word {isUid : Bool} (hr : r.state = .command isUid) {word : Bytes}
    (hword : ∀ ch ∈ word, isAsciiAlphanumeric ch = true) (rest : Bytes) :
    r.collect isAllowed (word ++ rest) =
        ({ r with buf := r.buf ++ word.map toAsciiUppercase } : Receiver T).collect isAllowed rest ∨
      (r.collect isAllowed (word ++ rest)).requests = [] := by
  induction word generalizing r with
  | nil => exact .inl (by simp)
  | cons ch word ih =>
      have hch := hword ch List.mem_cons_self
      have hrest := fun c h ↦ hword c (List.mem_cons_of_mem _ h)
      by_cases hlen : r.buf.length < 15
      · have hstep : r.step ch = .ok { r with buf := r.buf ++ [toAsciiUppercase ch] } := by
          simp only [step, hr, stepCommand, hch, hlen, if_true]
        rw [List.cons_append, collect_of_ok hstep]
        have hnext := ih (r := { r with buf := r.buf ++ [toAsciiUppercase ch] }) hr hrest
        simpa only [List.append_assoc, List.map_cons, List.singleton_append] using hnext
      · refine .inr (collect_of_errorReset (?_ : _ = r.errorReset "Command too long") _)
        simp only [step, hr, stepCommand, hch, hlen, if_true, if_false]

/-- A word that no command has is refused. -/
theorem collect_unknown {isUid : Bool} (hr : r.state = .command isUid) {ch : UInt8}
    (hch : isAsciiAlphanumeric ch = false) (hblank : isAsciiWhitespace ch = true)
    (hbuf : r.buf ≠ []) (huid : eqIgnoreAsciiCase r.buf (asBytes "UID") = false)
    (hunknown : CommandParser.parse (T := T) r.buf isUid = none) (rest : Bytes) :
    (r.collect isAllowed (ch :: rest)).requests = [] := by
  have hstep : r.step ch =
      r.errorReset ("Unrecognized command '" ++ asciiString r.buf ++ "'.") := by
    simp [step, hr, stepCommand, hch, hblank, hbuf, huid, hunknown]
  exact collect_of_errorReset hstep rest

end Line

end ImapToJmap.Receiver
