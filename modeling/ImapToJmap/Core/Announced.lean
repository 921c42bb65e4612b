import ImapToJmap.Core.Leftover
import ImapToJmap.Parser.Basic
import ImapToJmap.Run.Basic

/-!
# What the receiver keeps to, byte by byte

A receiver with any start state is fed any bytes, in any number of calls, and in between a session
may set its request and put it into the arguments, as AUTHENTICATE does to wait for a response.
`Tracked` is the receiver with the size that the literal under way was announced with; the receiver
itself has only what remains of it.

`Intact` is the invariant of every state, `Turned` what one byte does to it.  A call that ends a
request, with the request or with an error, leaves the receiver as it was made.
-/

namespace ImapToJmap.Receiver

open Ascii

variable {T : Type} [CommandParser T]

/-- Digits are UTF-8. -/
theorem fromUtf8_digits {buf : Bytes} (h : ∀ ch ∈ buf, isAsciiDigit ch = true) :
    fromUtf8 buf ≠ none := by
  have hbyte : ∀ ch : UInt8, isAsciiDigit ch = true →
      String.utf8EncodeChar (Char.ofNat ch.toNat) = [ch] := by
    intro ch hch
    obtain ⟨n, hn, rfl⟩ : ∃ n < 256, ch = UInt8.ofNat n := ⟨ch.toNat, ch.toNat_lt, by simp⟩
    have hlt : 48 ≤ n ∧ n ≤ 57 := by
      simp only [isAsciiDigit, Bool.and_eq_true, decide_eq_true_eq, UInt8.le_iff_toNat_le,
        UInt8.toNat_ofNat', UInt8.reduceToNat] at hch
      omega
    obtain ⟨h₁, h₂⟩ := hlt
    interval_cases n <;> rfl
  have hbytes : asBytes (asciiString buf) = buf := by
    rw [asBytes_eq_flatMap, asciiString, String.toList_ofList, List.flatMap_map]
    induction buf with
    | nil => rfl
    | cons ch buf ih =>
        rw [List.flatMap_cons, hbyte ch (h ch List.mem_cons_self),
          ih fun x hx ↦ h x (List.mem_cons_of_mem _ hx), List.singleton_append]
  rw [← hbytes, fromUtf8_asBytes]
  simp

/-! ## Runs -/

/-- The size of a literal, in a state that has one. -/
def State.size : State → ℕ
  | literalSeek size _ => size
  | literalData remaining => remaining
  | _ => 0

/-- A receiver, and the size announced for the literal under way. -/
structure Tracked (T : Type) where
  receiver : Receiver T
  announced : ℕ

namespace Tracked

/-- A receiver as it is made. -/
def new (maxRequestSize : ℕ) (startState : State) : Tracked T :=
  ⟨(withMaxRequestSize maxRequestSize).withStartState startState, startState.size⟩

/-- The size announced, after a byte: the braces announce one. -/
def announce (announced : ℕ) (r : Receiver T) : Tracked T :=
  match r.state with
  | .literalSeek size _ => ⟨r, size⟩
  | _ => ⟨r, announced⟩

/-- One byte. -/
def step (t : Tracked T) (ch : UInt8) : Except (Tracked T × Except Error (Request T)) (Tracked T) :=
  match t.receiver.step ch with
  | .ok r => .ok (announce t.announced r)
  | .error (r, .error (.needsLiteral size)) =>
      .error (⟨r, t.announced⟩, .error (.needsLiteral size))
  | .error (r, result) => .error (⟨r, r.startState.size⟩, result)

/-- `Receiver::parse` -/
def parse (t : Tracked T) : Bytes → Except Error (Request T) × Tracked T × Bytes
  | [] => (.error .needsMoreData, t, [])
  | ch :: bytes =>
      match t.step ch with
      | .ok t => t.parse bytes
      | .error (t, result) => (result, t, bytes)

/-- Keeping track of the size changes nothing. -/
theorem parse_receiver (t : Tracked T) (bytes : Bytes) :
    ((t.parse bytes).1, (t.parse bytes).2.1.receiver, (t.parse bytes).2.2) =
      t.receiver.parse bytes := by
  have hannounce : ∀ n (r : Receiver T), (announce n r).receiver = r := by
    intro n r
    unfold announce
    split <;> rfl
  induction bytes generalizing t with
  | nil => rfl
  | cons ch bytes ih =>
      rw [parse, Receiver.parse, step]
      rcases t.receiver.step ch with ⟨r, (_ | _ | _) | request⟩ | r
      · rfl
      · rfl
      · rfl
      · rfl
      · show ((parse _ bytes).1, _, _) = _
        rw [ih, hannounce]

/-- What happens to a receiver between two bytes. -/
inductive Event (T : Type) where
  | parse (bytes : Bytes)
  | /-- `handle_authenticate` waits for the response to a challenge. -/
    resume (request : Request T)

/-- One event. -/
def apply (t : Tracked T) : Event T → Tracked T
  | .parse bytes => (t.parse bytes).2.1
  | .resume request =>
      { t with receiver := { t.receiver with request := request, state := .argument space } }

/-- The result of a call of `parse`. -/
def result? (t : Tracked T) : Event T → Option (Except Error (Request T))
  | .parse bytes => some (t.parse bytes).1
  | .resume _ => none

/-- What holds of a receiver that was made as `fresh`. -/
structure Intact (fresh : Receiver T) (t : Tracked T) : Prop where
  reset : t.receiver.reset = fresh
  size : t.receiver.currentRequestSize ≤ t.receiver.maxRequestSize
  /-- The size of a literal is read from digits, so `from_utf8` does not fail on it. -/
  literal : ∀ nonSync, t.receiver.state = .literal nonSync →
    (∀ ch ∈ t.receiver.buf, isAsciiDigit ch = true) ∧ fromUtf8 t.receiver.buf ≠ none
  literalSeek : ∀ size nonSync, t.receiver.state = .literalSeek size nonSync →
    t.receiver.buf = [] ∧ t.announced = size
  literalData : ∀ remaining, t.receiver.state = .literalData remaining →
    1 ≤ remaining ∧ t.receiver.buf.length + remaining = t.announced

/-- The call has ended a request, with the request or with an error. -/
def Ends : Except Error (Request T) → Prop
  | .ok _ | .error (.error _) => True
  | .error (.needsLiteral _) | .error .needsMoreData => False

/-! ## One byte -/

/-- What a byte leaves, when the size announced so far is known. -/
def Turned (fresh : Receiver T) (announced : ℕ) : Loop T (Receiver T) → Prop
  | .ok r => Intact fresh (announce announced r)
  | .error (r, .error (.needsLiteral _)) => Intact fresh ⟨r, announced⟩
  | .error (_, .error .needsMoreData) => False
  | .error (r, .error (.error _)) => r = fresh
  | .error (r, .ok _) => r = fresh

/-- The states in which there is no literal. -/
def IsPlain : State → Prop
  | .literal _ | .literalSeek _ _ | .literalData _ => False
  | _ => True

variable {fresh r : Receiver T} {n : ℕ} {ch : UInt8}

/-- Outside of a literal there is little to show. -/
theorem intact_of_plain (hreset : r.reset = fresh)
    (hsize : r.currentRequestSize ≤ r.maxRequestSize) (hstate : IsPlain r.state) (n : ℕ) :
    Intact fresh ⟨r, n⟩ where
  reset := hreset
  size := hsize
  literal nonSync h := by
    have hr : r.state = .literal nonSync := h
    rw [hr] at hstate
    exact hstate.elim
  literalSeek size nonSync h := by
    have hr : r.state = .literalSeek size nonSync := h
    rw [hr] at hstate
    exact hstate.elim
  literalData remaining h := by
    have hr : r.state = .literalData remaining := h
    rw [hr] at hstate
    exact hstate.elim

/-- In the braces of a literal there are digits. -/
theorem intact_literal (hreset : r.reset = fresh)
    (hsize : r.currentRequestSize ≤ r.maxRequestSize) {nonSync : Bool}
    (hstate : r.state = .literal nonSync) (hbuf : ∀ ch ∈ r.buf, isAsciiDigit ch = true) :
    Intact fresh ⟨r, n⟩ where
  reset := hreset
  size := hsize
  literal _ _ := ⟨hbuf, fromUtf8_digits hbuf⟩
  literalSeek size nonSync h := by simp [hstate] at h
  literalData remaining h := by simp [hstate] at h

/-- Behind the braces the buffer is empty. -/
theorem intact_literalSeek (hreset : r.reset = fresh)
    (hsize : r.currentRequestSize ≤ r.maxRequestSize) {size : ℕ} {nonSync : Bool}
    (hstate : r.state = .literalSeek size nonSync) (hbuf : r.buf = []) :
    Intact fresh (announce n r) := by
  rw [announce, hstate]
  refine ⟨hreset, hsize, fun _ h ↦ by simp [hstate] at h, fun size' _ h ↦ ?_,
    fun _ h ↦ by simp [hstate] at h⟩
  have hr : r.state = .literalSeek size' _ := h
  rw [hstate] at hr
  exact ⟨hbuf, (State.literalSeek.inj hr).1⟩

/-- Within a literal. -/
theorem intact_literalData (hreset : r.reset = fresh)
    (hsize : r.currentRequestSize ≤ r.maxRequestSize) {remaining : ℕ}
    (hstate : r.state = .literalData remaining) (hpos : 1 ≤ remaining)
    (hlength : r.buf.length + remaining = n) : Intact fresh ⟨r, n⟩ where
  reset := hreset
  size := hsize
  literal nonSync h := by simp [hstate] at h
  literalSeek size nonSync h := by simp [hstate] at h
  literalData left h := by
    have hr : r.state = .literalData left := h
    rw [hstate] at hr
    exact State.literalData.inj hr ▸ ⟨hpos, hlength⟩

omit [CommandParser T] in
theorem announce_of_ne (h : ∀ size nonSync, r.state ≠ .literalSeek size nonSync) :
    announce n r = ⟨r, n⟩ := by
  unfold announce
  split
  · rename_i size nonSync hstate
    exact absurd hstate (h size nonSync)
  · rfl

theorem turned_of_plain (hreset : r.reset = fresh)
    (hsize : r.currentRequestSize ≤ r.maxRequestSize) (hstate : IsPlain r.state) :
    Turned fresh n (.ok r) := by
  show Intact fresh (announce n r)
  rw [announce_of_ne fun size nonSync h ↦ by
    rw [h] at hstate
    exact hstate]
  exact intact_of_plain hreset hsize hstate n

theorem turned_errorReset (hreset : r.reset = fresh) (message : String) :
    Turned fresh n (r.errorReset message) := hreset

/-- An argument is pushed within the limit, or the request is given up. -/
theorem pushArgument_size (hsize : r.currentRequestSize ≤ r.maxRequestSize) (inQuote : Bool) :
    (∃ r', r.pushArgument inQuote = .ok r' ∧ r'.reset = r.reset ∧ r'.buf = [] ∧
      r'.state = r.state ∧ r'.currentRequestSize ≤ r'.maxRequestSize) ∨
    ∃ message, r.pushArgument inQuote = r.errorReset message := by
  unfold pushArgument
  split
  · dsimp only
    split
    · exact .inr ⟨_, rfl⟩
    · next hle => exact .inl ⟨_, rfl, rfl, rfl, rfl, not_lt.mp hle⟩
  · next hbuf =>
      have hbuf : r.buf = [] := by simpa using hbuf
      split
      · exact .inl ⟨_, rfl, rfl, hbuf, rfl, hsize⟩
      · exact .inl ⟨_, rfl, rfl, hbuf, rfl, hsize⟩

/-- The same for a token. -/
theorem pushToken_size (r : Receiver T) (token : Token) :
    (∃ r', r.pushToken token = .ok r' ∧ r'.reset = r.reset ∧ r'.buf = r.buf ∧
      r'.state = r.state ∧ r'.currentRequestSize ≤ r'.maxRequestSize) ∨
    ∃ message, r.pushToken token = r.errorReset message := by
  unfold pushToken
  dsimp only
  split
  · exact .inr ⟨_, rfl⟩
  · next hle => exact .inl ⟨_, rfl, rfl, rfl, rfl, not_lt.mp hle⟩

/-- An argument is complete, and what follows goes on from a receiver with an empty buffer. -/
theorem turned_pushArgument (hreset : r.reset = fresh)
    (hsize : r.currentRequestSize ≤ r.maxRequestSize) {inQuote : Bool}
    {next : Receiver T → Loop T (Receiver T)}
    (hnext : ∀ r' : Receiver T, r'.reset = fresh → r'.buf = [] → r'.state = r.state →
      r'.currentRequestSize ≤ r'.maxRequestSize → Turned fresh n (next r')) :
    Turned fresh n (r.pushArgument inQuote >>= next) := by
  rcases pushArgument_size hsize inQuote with
    ⟨r', hpush, hr, hbuf, hstate, hsize'⟩ | ⟨message, hpush⟩
  · rw [hpush]
    exact hnext r' (hr.trans hreset) hbuf hstate hsize'
  · rw [hpush]
    exact turned_errorReset hreset message

/-- A token behind the argument that it completes. -/
theorem turned_pushToken (hreset : r.reset = fresh)
    (hsize : r.currentRequestSize ≤ r.maxRequestSize) (hstate : IsPlain r.state) (token : Token) :
    Turned fresh n (r.pushArgument false >>= fun r ↦ r.pushToken token) := by
  refine turned_pushArgument hreset hsize fun r' hr' hbuf hstate' _ ↦ ?_
  rcases pushToken_size r' token with ⟨r'', hpush, hr'', -, hstate'', hsize''⟩ | ⟨message, hpush⟩
  · rw [hpush]
    refine turned_of_plain (hr''.trans hr') hsize'' ?_
    rw [hstate'', hstate']
    exact hstate
  · rw [hpush]
    exact turned_errorReset hr' message

theorem turned_stepStart (hreset : r.reset = fresh)
    (hsize : r.currentRequestSize ≤ r.maxRequestSize) (hstate : r.state = .start) :
    Turned fresh n (r.stepStart ch) := by
  unfold stepStart
  split
  · exact turned_of_plain hreset hsize trivial
  · split
    · exact turned_errorReset hreset _
    · exact turned_of_plain hreset hsize (hstate ▸ trivial)

theorem turned_stepTag (hreset : r.reset = fresh)
    (hsize : r.currentRequestSize ≤ r.maxRequestSize) (hstate : r.state = .tag) :
    Turned fresh n (r.stepTag ch) := by
  have hplain : IsPlain r.state := hstate ▸ trivial
  unfold stepTag
  split
  · split
    · split
      · exact turned_of_plain hreset hsize trivial
      · exact turned_errorReset hreset _
    · exact turned_of_plain hreset hsize hplain
  · split
    · split
      · exact turned_of_plain hreset hsize hplain
      · exact turned_errorReset hreset _
    · exact turned_errorReset hreset _

theorem turned_stepCommand {isUid : Bool} (hreset : r.reset = fresh)
    (hsize : r.currentRequestSize ≤ r.maxRequestSize) (hstate : r.state = .command isUid) :
    Turned fresh n (r.stepCommand isUid ch) := by
  have hplain : IsPlain r.state := hstate ▸ trivial
  unfold stepCommand
  split
  · split
    · exact turned_of_plain hreset hsize hplain
    · exact turned_errorReset hreset _
  · split
    · split
      · split
        · split
          · dsimp only
            split
            · exact turned_of_plain hreset hsize trivial
            · exact hreset
          · exact turned_errorReset hreset _
        · exact turned_of_plain hreset hsize trivial
      · exact turned_of_plain hreset hsize hplain
    · exact turned_errorReset hreset _

theorem turned_stepArgument {lastCh : UInt8} (hreset : r.reset = fresh)
    (hsize : r.currentRequestSize ≤ r.maxRequestSize) (hstate : r.state = .argument lastCh) :
    Turned fresh n (r.stepArgument lastCh ch) := by
  have hplain : IsPlain r.state := hstate ▸ trivial
  have htoken := fun token ↦ turned_pushToken (n := n) hreset hsize hplain token
  unfold stepArgument
  extract_lets brackets
  refine iteInduction (fun _ ↦ ?_) fun _ ↦ iteInduction (fun _ ↦ ?_) fun _ ↦
    iteInduction (fun _ ↦ htoken _) fun _ ↦ iteInduction (fun _ ↦ htoken _) fun _ ↦
    iteInduction (fun _ ↦ htoken _) fun _ ↦ iteInduction (fun _ ↦ htoken _) fun _ ↦
    iteInduction (fun _ ↦ htoken _) fun _ ↦ iteInduction (fun _ ↦ htoken _) fun _ ↦
    iteInduction (fun _ ↦ htoken _) fun _ ↦ iteInduction (fun _ ↦ ?_) fun _ ↦
    iteInduction (fun _ ↦ ?_) fun _ ↦ ?_
  · exact turned_pushArgument hreset hsize fun r' hr' _ _ hsize' ↦
      turned_of_plain hr' hsize' trivial
  · -- a literal begins, with an empty buffer
    refine turned_pushArgument hreset hsize fun r' hr' hbuf _ hsize' ↦ ?_
    show Intact fresh ⟨{ r' with state := .literal false }, n⟩
    exact intact_literal hr' hsize' rfl (by simp [hbuf])
  · refine turned_pushArgument hreset hsize fun r' hr' hbuf _ _ ↦ ?_
    show { r' with request := default, state := r'.startState, currentRequestSize := 0 } = fresh
    rw [← hr', Receiver.reset, hbuf]
  · exact turned_pushArgument hreset hsize fun r' hr' _ _ hsize' ↦
      turned_of_plain hr' hsize' trivial
  · exact turned_of_plain hreset hsize trivial

theorem turned_stepQuoted {escaped : Bool} (hreset : r.reset = fresh)
    (hsize : r.currentRequestSize ≤ r.maxRequestSize) :
    Turned fresh n (r.stepQuoted escaped ch) := by
  unfold stepQuoted
  refine iteInduction (fun _ ↦ iteInduction (fun _ ↦ ?_) fun _ ↦ iteInduction (fun _ ↦ ?_) fun _ ↦
    ?_) fun _ ↦ iteInduction (fun _ ↦ ?_) fun _ ↦ iteInduction (fun _ ↦ ?_) fun _ ↦
    iteInduction (fun _ ↦ ?_) fun _ ↦ ?_
  · exact turned_pushArgument hreset hsize fun r' hr' _ _ hsize' ↦
      turned_of_plain hr' hsize' trivial
  · exact turned_of_plain hreset hsize trivial
  · exact turned_errorReset hreset _
  · exact turned_of_plain hreset hsize trivial
  · exact turned_errorReset hreset _
  · exact turned_of_plain hreset hsize trivial
  · exact turned_errorReset hreset _

theorem turned_stepLiteral {nonSync : Bool} (hreset : r.reset = fresh)
    (hsize : r.currentRequestSize ≤ r.maxRequestSize) (hstate : r.state = .literal nonSync)
    (hbuf : ∀ ch ∈ r.buf, isAsciiDigit ch = true) : Turned fresh n (r.stepLiteral nonSync ch) := by
  have hbraces : ∀ (buf : Bytes) (nonSync : Bool), (∀ ch ∈ buf, isAsciiDigit ch = true) →
      Turned fresh n (.ok { r with state := .literal nonSync, buf := buf }) :=
    fun buf nonSync hdigits ↦ intact_literal hreset hsize rfl hdigits
  unfold stepLiteral
  split
  · split
    · split
      · split
        · exact turned_errorReset hreset _
        · exact intact_literalSeek (r := { r with state := _, buf := [] }) hreset hsize rfl rfl
      · exact turned_errorReset hreset _
    · exact turned_errorReset hreset _
  · split
    · split
      · exact hbraces r.buf true hbuf
      · exact turned_errorReset hreset _
    · split
      · next hdigit =>
          split
          · have hnew := hbraces (r.buf ++ [ch]) nonSync (by
              intro x hx
              rcases List.mem_append.mp hx with hx | hx
              · exact hbuf x hx
              · rw [List.mem_singleton.mp hx]
                exact hdigit)
            rwa [← hstate] at hnew
          · exact turned_errorReset hreset _
      · exact turned_errorReset hreset _

theorem turned_stepLiteralSeek {size : ℕ} {nonSync : Bool} (hreset : r.reset = fresh)
    (hsize : r.currentRequestSize ≤ r.maxRequestSize) (hstate : r.state = .literalSeek size nonSync)
    (hbuf : r.buf = []) : Turned fresh size (r.stepLiteralSeek size nonSync ch) := by
  unfold stepLiteralSeek
  split
  · by_cases hpos : size > 0
    · have hdata : Intact fresh ⟨{ r with state := .literalData size }, size⟩ :=
        intact_literalData (r := { r with state := .literalData size }) hreset hsize rfl hpos
          (by simp [hbuf])
      rw [if_pos hpos]
      cases nonSync <;> exact hdata
    · rw [if_neg hpos]
      rcases pushToken_size { r with state := .argument space } .nil with
        ⟨r', hpush, hr', -, hstate', hsize'⟩ | ⟨message, hpush⟩
      · rw [hpush]
        have hplain : IsPlain r'.state := hstate' ▸ trivial
        cases nonSync with
        | false => exact intact_of_plain (hr'.trans hreset) hsize' hplain size
        | true => exact turned_of_plain (hr'.trans hreset) hsize' hplain
      · rw [hpush]
        exact turned_errorReset hreset message
  · split
    · exact turned_errorReset hreset _
    · exact intact_literalSeek hreset hsize hstate hbuf

theorem turned_stepLiteralData {remaining : ℕ} (hreset : r.reset = fresh)
    (hsize : r.currentRequestSize ≤ r.maxRequestSize)
    (hlength : r.buf.length + remaining = n) :
    Turned fresh n (r.stepLiteralData remaining ch) := by
  unfold stepLiteralData
  extract_lets r'
  split
  · next hmore =>
      have hleft : (r.buf ++ [ch]).length + (remaining - 1) = n := by
        rw [List.length_append, List.length_singleton]
        omega
      exact intact_literalData (r := { r' with state := .literalData (remaining - 1) }) hreset hsize
        rfl (by omega) hleft
  · exact turned_pushArgument (r := r') hreset hsize fun r'' hr'' _ _ hsize'' ↦
      turned_of_plain hr'' hsize'' trivial

/-- **One byte**, in any state. -/
theorem Intact.turned {t : Tracked T} (h : Intact fresh t) :
    Turned fresh t.announced (t.receiver.step ch) := by
  unfold Receiver.step
  split
  · next hstate => exact turned_stepStart h.reset h.size hstate
  · next hstate => exact turned_stepTag h.reset h.size hstate
  · next hstate => exact turned_stepCommand h.reset h.size hstate
  · next hstate => exact turned_stepArgument h.reset h.size hstate
  · next hstate => exact turned_stepQuoted h.reset h.size
  · next hstate => exact turned_stepLiteral h.reset h.size hstate (h.literal _ hstate).1
  · next hstate =>
      obtain ⟨hbuf, hannounced⟩ := h.literalSeek _ _ hstate
      rw [hannounced]
      exact turned_stepLiteralSeek h.reset h.size hstate hbuf
  · next hstate => exact turned_stepLiteralData h.reset h.size (h.literalData _ hstate).2

/-! ## Calls -/

/-- A receiver as it is made keeps to all this, unless it is made to wait for no byte at all. -/
theorem intact_new (maxRequestSize : ℕ) {startState : State} (h : startState ≠ .literalData 0) :
    Intact ((withMaxRequestSize maxRequestSize).withStartState startState)
      (new maxRequestSize startState : Tracked T) where
  reset := rfl
  size := Nat.zero_le _
  literal _ _ := by
    have hbuf : ∀ ch ∈ (new maxRequestSize startState : Tracked T).receiver.buf,
        isAsciiDigit ch = true := by simp [new, withStartState, withMaxRequestSize]
    exact ⟨hbuf, fromUtf8_digits hbuf⟩
  literalSeek size nonSync hstate := by
    have hstart : startState = .literalSeek size nonSync := hstate
    exact ⟨rfl, by rw [new, hstart]; rfl⟩
  literalData remaining hstate := by
    have hstart : startState = .literalData remaining := hstate
    refine ⟨?_, by rw [new, hstart]; simp [withStartState, withMaxRequestSize, State.size]⟩
    by_contra hc
    obtain rfl : remaining = 0 := by omega
    exact h hstart

/-- What a call leaves: an intact receiver, and a fresh one if it has ended a request. -/
theorem Intact.parse {t : Tracked T} (maxRequestSize : ℕ) {startState : State}
    (hstart : startState ≠ .literalData 0)
    (h : Intact ((withMaxRequestSize maxRequestSize).withStartState startState) t) (bytes : Bytes) :
    Intact ((withMaxRequestSize maxRequestSize).withStartState startState) (t.parse bytes).2.1 ∧
      (Ends (t.parse bytes).1 → (t.parse bytes).2.1 = new maxRequestSize startState) := by
  induction bytes generalizing t with
  | nil => exact ⟨h, fun hends ↦ hends.elim⟩
  | cons ch bytes ih =>
      have hturned : Turned _ t.announced (t.receiver.step ch) := h.turned
      rw [Tracked.parse, Tracked.step]
      rcases hstep : t.receiver.step ch with ⟨r, (_ | size | response) | request⟩ | r
      · rw [hstep] at hturned
        exact hturned.elim
      · rw [hstep] at hturned
        exact ⟨hturned, fun hends ↦ hends.elim⟩
      · rw [hstep] at hturned
        have hfresh : r = (withMaxRequestSize maxRequestSize).withStartState startState := hturned
        rw [hfresh]
        exact ⟨intact_new maxRequestSize hstart, fun _ ↦ rfl⟩
      · rw [hstep] at hturned
        have hfresh : r = (withMaxRequestSize maxRequestSize).withStartState startState := hturned
        rw [hfresh]
        exact ⟨intact_new maxRequestSize hstart, fun _ ↦ rfl⟩
      · rw [hstep] at hturned
        exact ih hturned

end Tracked

/-- **The receiver**, made with any limit and any start state but a literal without bytes, in every
state that calls of `parse` and the continuations of AUTHENTICATE lead to. -/
theorem receiver_intact (maxRequestSize : ℕ) {startState : State}
    (hstart : startState ≠ .literalData 0) (events : List (Tracked.Event T)) :
    (Run.exec Tracked.apply (Tracked.new maxRequestSize startState) events).Intact
      ((withMaxRequestSize maxRequestSize).withStartState startState) ∧
    Run.Along Tracked.apply (fun t e ↦ ∀ result ∈ t.result? e, Tracked.Ends result →
        (t.apply e).receiver = (withMaxRequestSize maxRequestSize).withStartState startState)
      (Tracked.new maxRequestSize startState) events := by
  have hstep : ∀ t : Tracked T,
      t.Intact ((withMaxRequestSize maxRequestSize).withStartState startState) → ∀ e,
      (t.apply e).Intact ((withMaxRequestSize maxRequestSize).withStartState startState) := by
    intro t h e
    cases e with
    | parse bytes => exact (h.parse maxRequestSize hstart bytes).1
    | resume request =>
        exact Tracked.intact_of_plain
          (r := { t.receiver with request := request, state := .argument space })
          h.reset h.size trivial t.announced
  have hnew : (Tracked.new maxRequestSize startState : Tracked T).Intact
      ((withMaxRequestSize maxRequestSize).withStartState startState) :=
    Tracked.intact_new maxRequestSize hstart
  have hall : Run.Along Tracked.apply (fun _ _ ↦ True)
      (Tracked.new maxRequestSize startState : Tracked T) events :=
    Run.along_of_forall fun _ _ _ ↦ trivial
  constructor
  · exact Run.exec_induct (Tracked.Intact _) hnew (fun t e h _ ↦ hstep t h e) hall
  · refine Run.along_of_inv (Tracked.Intact _) hnew (fun t e h _ ↦ hstep t h e) ?_ hall
    intro t e h _ result hresult hends
    cases e with
    | parse bytes =>
        obtain rfl := Option.some.inj hresult
        exact congrArg Tracked.receiver ((h.parse maxRequestSize hstart bytes).2 hends)
    | resume request => cases hresult

/-- Half of a literal, a session that waits for a response to a challenge, and the response. -/
def loginEvents : List (Tracked.Event Command) :=
  [.parse (asBytes "a LOGIN {4}\r\n"), .parse (asBytes "user"),
    .resume ⟨"b", .authenticate, [.argument (asBytes "PLAIN")]⟩, .parse (asBytes "AGE=\r\n")]

/-- The receiver of ManageSieve. -/
theorem receiver_intact_login :
    State.command false ≠ .literalData 0 ∧
    (Run.exec Tracked.apply (Tracked.new 1024 (.command false)) loginEvents).Intact
      ((withMaxRequestSize 1024).withStartState (.command false)) ∧
    Run.Along Tracked.apply (fun t e ↦ ∀ result ∈ t.result? e, Tracked.Ends result →
        (t.apply e).receiver = (withMaxRequestSize 1024).withStartState (.command false))
      (Tracked.new 1024 (.command false)) loginEvents := by
  refine ⟨by decide, ?_⟩
  exact receiver_intact 1024 (by decide) loginEvents

/-- Made to begin within a literal of which no byte is left. -/
theorem receiver_awaits_nothing : ¬ ∀ (maxRequestSize : ℕ) (startState : State)
    (events : List (Tracked.Event Command)),
    (Run.exec Tracked.apply (Tracked.new maxRequestSize startState) events).Intact
      ((withMaxRequestSize maxRequestSize).withStartState startState) := by
  intro h
  have hdata := (h 1024 (.literalData 0) []).literalData 0 rfl
  exact absurd hdata.1 (by decide)

end ImapToJmap.Receiver
