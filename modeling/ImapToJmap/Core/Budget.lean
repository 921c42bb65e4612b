import ImapToJmap.Core.Lines
import ImapToJmap.Core.RoundTrip

/-!
# What a request may hold

The receiver counts the bytes of the arguments and the tokens that are no arguments against its
limit, and the size of a literal before it is read.  `Counted` is what holds of it between any two
bytes.

An argument counts as its bytes, and not as a token besides (`held_exceeds`); what is not counted at
all are the bytes of an argument before its end, and the NIL of an empty quoted string.
-/

namespace ImapToJmap

/-- What a token counts for. -/
def Token.cost : Token → ℕ
  | argument value => value.length
  | nil => 0
  | _ => 1

/-- The bytes of an argument and the token itself; a NIL is left out. -/
def Token.weight : Token → ℕ
  | argument value => value.length + 1
  | nil => 0
  | _ => 1

namespace Receiver

open Ascii Tracked

variable {T : Type} [CommandParser T]

/-- The bytes of the arguments, and the other tokens but NIL. -/
def cost (tokens : List Token) : ℕ := (tokens.map Token.cost).sum

/-- The bytes of the arguments, and all tokens but NIL. -/
def weight (tokens : List Token) : ℕ := (tokens.map Token.weight).sum

/-- The bytes and the tokens that are held for a request. -/
def held (r : Receiver T) : ℕ :=
  r.buf.length + (r.request.tokens.map fun token ↦
    match token with
    | .argument value => value.length
    | _ => 0).sum + r.request.tokens.length

/-- What there is of a literal, and what is missing of it. -/
def awaited (r : Receiver T) : ℕ :=
  match r.state with
  | .literalSeek size _ => r.buf.length + size
  | .literalData remaining => r.buf.length + remaining
  | _ => 0

/-- What the buffer holds of an atom, a quoted string or the size of a literal. -/
def unended (r : Receiver T) : ℕ :=
  match r.state with
  | .argument _ | .argumentQuoted _ | .literal _ => r.buf.length
  | _ => 0

/-- The NIL tokens. -/
def nils (r : Receiver T) : ℕ := r.request.tokens.count .nil

/-- A tag, or the name of a command, is short. -/
def Named (r : Receiver T) : Prop :=
  match r.state with
  | .start => r.buf = []
  | .tag | .command _ => r.buf.length ≤ 128
  | _ => True

/-- The receiver that a byte leaves behind. -/
def after : Loop T (Receiver T) → Receiver T
  | .ok r => r
  | .error (r, _) => r

/-- The receiver after some bytes, whatever it has returned in between. -/
def feed (r : Receiver T) (bytes : Bytes) : Receiver T :=
  bytes.foldl (fun r ch ↦ after (r.step ch)) r

/-- The limit is kept to, for what is counted. -/
structure Counted (n : ℕ) (r : Receiver T) : Prop where
  cost : cost r.request.tokens ≤ r.currentRequestSize
  weight : weight r.request.tokens ≤ 2 * r.currentRequestSize
  limit : r.currentRequestSize ≤ n
  maxRequestSize : r.maxRequestSize = n
  startState : IsPlain r.startState

/-- A literal fits into what is left, and a tag or a name is short. -/
structure Budget (n : ℕ) (r : Receiver T) : Prop extends Counted n r where
  literal : r.currentRequestSize + r.awaited ≤ n
  name : r.Named

/-- A byte leaves a receiver within the limit. -/
def Keeps (n : ℕ) (result : Loop T (Receiver T)) : Prop := Budget n (after result)

section

variable {r : Receiver T} {n : ℕ} {ch : UInt8}

omit [CommandParser T] in
theorem awaited_of_plain (h : IsPlain r.state) : r.awaited = 0 := by
  unfold awaited
  split
  · rename_i hstate
    rw [hstate] at h
    exact h.elim
  · rename_i hstate
    rw [hstate] at h
    exact h.elim
  · rfl

theorem cost_append (tokens : List Token) (token : Token) :
    cost (tokens ++ [token]) = cost tokens + token.cost := by
  simp [cost]

omit [CommandParser T] in
theorem named_of_nil (h : r.buf = []) : r.Named := by
  unfold Named
  rw [h]
  split
  · rfl
  · exact Nat.zero_le _
  · exact Nat.zero_le _
  · trivial

theorem weight_append (tokens : List Token) (token : Token) :
    weight (tokens ++ [token]) = weight tokens + token.weight := by
  simp [weight]

omit [CommandParser T] in
/-- Where no literal is awaited there is nothing else to show. -/
theorem Counted.budget (h : Counted n r) (hawaited : r.awaited = 0) (hname : r.Named) :
    Budget n r where
  toCounted := h
  literal := by
    rw [hawaited]
    exact h.limit
  name := hname

/-- Nothing is held of a request that has been given up. -/
theorem budget_errorReset (h : Counted n r) (message : String) :
    Keeps n (r.errorReset message) :=
  Counted.budget ⟨Nat.zero_le _, Nat.zero_le _, Nat.zero_le _, h.maxRequestSize, h.startState⟩
    (awaited_of_plain h.startState) (named_of_nil rfl)

/-- Nor of one that is complete. -/
theorem budget_finish (h : Counted n r) (hbuf : r.buf = []) : Keeps n r.finish :=
  Counted.budget ⟨Nat.zero_le _, Nat.zero_le _, Nat.zero_le _, h.maxRequestSize, h.startState⟩
    (awaited_of_plain h.startState) (named_of_nil hbuf)

/-- The size counted so far does not matter for a request that is given up. -/
theorem budget_tooLarge (h : Counted n r) (size : ℕ) :
    Keeps n (tooLarge { r with currentRequestSize := size }) :=
  Counted.budget ⟨Nat.zero_le _, Nat.zero_le _, Nat.zero_le _, h.maxRequestSize, h.startState⟩
    (awaited_of_plain h.startState) (named_of_nil rfl)

/-- An argument is counted when it is pushed. -/
theorem budget_pushArgument (h : Counted n r) {inQuote : Bool}
    {next : Receiver T → Loop T (Receiver T)}
    (hnext : ∀ r' : Receiver T, Counted n r' → r'.buf = [] → r'.state = r.state →
      Keeps n (next r')) :
    Keeps n (r.pushArgument inQuote >>= next) := by
  unfold pushArgument
  split
  · rename_i hbuf
    have hlength : 1 ≤ r.buf.length := List.length_pos_iff.mpr hbuf
    dsimp only
    split
    · exact budget_tooLarge h _
    · rename_i hle
      refine hnext _ ⟨?_, ?_, ?_, h.maxRequestSize, h.startState⟩ rfl rfl
      · show Receiver.cost (r.request.tokens ++ [.argument r.buf]) ≤ _
        rw [cost_append]
        exact Nat.add_le_add_right h.cost _
      · have hweight := h.weight
        show Receiver.weight (r.request.tokens ++ [.argument r.buf]) ≤
          2 * (r.currentRequestSize + r.buf.length)
        rw [weight_append]
        show _ + (r.buf.length + 1) ≤ _
        omega
      · rw [← h.maxRequestSize]
        exact not_lt.mp hle
  · rename_i hbuf
    have hbuf : r.buf = [] := by simpa using hbuf
    split
    · refine hnext _ ⟨?_, ?_, h.limit, h.maxRequestSize, h.startState⟩ hbuf rfl
      · show Receiver.cost (r.request.tokens ++ [.nil]) ≤ _
        rw [cost_append]
        exact h.cost
      · show Receiver.weight (r.request.tokens ++ [.nil]) ≤ _
        rw [weight_append]
        exact h.weight
    · exact hnext r h hbuf rfl

omit [CommandParser T] in
/-- So is a token. -/
theorem counted_pushToken (h : Counted n r) {token : Token} (hcost : token.cost ≤ 1)
    (hweight : token.weight ≤ 1) (hle : r.currentRequestSize + 1 ≤ n) :
    Counted n { r with
      currentRequestSize := r.currentRequestSize + 1
      request := { r.request with tokens := r.request.tokens ++ [token] } } where
  cost := by
    show Receiver.cost (r.request.tokens ++ [token]) ≤ r.currentRequestSize + 1
    rw [cost_append]
    exact Nat.add_le_add h.cost hcost
  weight := by
    have hle := h.weight
    show Receiver.weight (r.request.tokens ++ [token]) ≤ 2 * (r.currentRequestSize + 1)
    rw [weight_append]
    omega
  limit := hle
  maxRequestSize := h.maxRequestSize
  startState := h.startState

theorem budget_pushToken (h : Counted n r) {lastCh : UInt8} (hstate : r.state = .argument lastCh)
    {token : Token} (hcost : token.cost ≤ 1) (hweight : token.weight ≤ 1) :
    Keeps n (r.pushToken token) := by
  unfold pushToken
  dsimp only
  split
  · exact budget_tooLarge h _
  · rename_i hle
    rw [h.maxRequestSize] at hle
    refine (counted_pushToken h hcost hweight (not_lt.mp hle)).budget ?_ ?_
    · rw [awaited, hstate]
    · rw [Named, hstate]
      trivial

omit [CommandParser T] in
/-- Bytes in the buffer and another state do not change what is counted. -/
theorem Counted.with (h : Counted n r) (buf : Bytes) (state : State) :
    Counted n { r with buf := buf, state := state } :=
  ⟨h.cost, h.weight, h.limit, h.maxRequestSize, h.startState⟩

theorem budget_stepStart (h : Budget n r) (hstate : r.state = .start) :
    Keeps n (r.stepStart ch) := by
  have hbuf : r.buf = [] := by
    have hname := h.name
    rwa [Named, hstate] at hname
  unfold stepStart
  split
  · refine (h.with (r.buf ++ [ch]) .tag).budget rfl ?_
    show (r.buf ++ [ch]).length ≤ 128
    rw [hbuf]
    exact Nat.le_of_ble_eq_true rfl
  · split
    · exact budget_errorReset h.toCounted _
    · exact h

theorem budget_stepTag (h : Budget n r) (hstate : r.state = .tag) : Keeps n (r.stepTag ch) := by
  unfold stepTag
  split
  · split
    · split
      · exact Counted.budget ⟨h.cost, h.weight, h.limit, h.maxRequestSize, h.startState⟩ rfl
          (Nat.zero_le _)
      · exact budget_errorReset (h.with [] r.state) _
    · exact h
  · split
    · split
      · rename_i hlt
        rw [hstate]
        refine (h.with (r.buf ++ [ch]) .tag).budget rfl ?_
        show (r.buf ++ [ch]).length ≤ 128
        rw [List.length_append]
        exact hlt
      · exact budget_errorReset h.toCounted _
    · exact budget_errorReset h.toCounted _

theorem budget_stepCommand {isUid : Bool} (h : Budget n r) (hstate : r.state = .command isUid) :
    Keeps n (r.stepCommand isUid ch) := by
  unfold stepCommand
  split
  · split
    · rename_i hlt
      rw [hstate]
      refine (h.with (r.buf ++ [toAsciiUppercase ch]) (.command isUid)).budget rfl ?_
      show (r.buf ++ [toAsciiUppercase ch]).length ≤ 128
      rw [List.length_append, List.length_singleton]
      omega
    · exact budget_errorReset h.toCounted _
  · split
    · split
      · split
        · split
          · dsimp only
            split
            · exact Counted.budget ⟨h.cost, h.weight, h.limit, h.maxRequestSize, h.startState⟩ rfl
                trivial
            · exact budget_finish ⟨h.cost, h.weight, h.limit, h.maxRequestSize, h.startState⟩ rfl
          · exact budget_errorReset h.toCounted _
        · exact (h.with [] (.command true)).budget rfl (Nat.zero_le _)
      · exact h
    · exact budget_errorReset h.toCounted _

theorem budget_stepArgument {lastCh : UInt8} (h : Budget n r)
    (hstate : r.state = .argument lastCh) :
    Keeps n (r.stepArgument lastCh ch) := by
  have htoken : ∀ token : Token, token.cost ≤ 1 → token.weight ≤ 1 →
      Keeps n (r.pushArgument false >>= fun r ↦ r.pushToken token) := by
    intro token hcost hweight
    exact budget_pushArgument h.toCounted fun r' hr' _ hstate' ↦
      budget_pushToken hr' (hstate'.trans hstate) hcost hweight
  have hending : ∀ state : State,
      (∀ r' : Receiver T, Counted n r' → Budget n { r' with state := state }) →
      Keeps n (r.pushArgument false >>= fun r ↦ .ok { r with state := state }) := by
    intro state hbudget
    exact budget_pushArgument h.toCounted fun r' hr' _ _ ↦ hbudget r' hr'
  unfold stepArgument
  extract_lets brackets
  refine iteInduction (fun _ ↦ hending (.argumentQuoted false) ?_) fun _ ↦
    iteInduction (fun _ ↦ hending (.literal false) ?_) fun _ ↦
    iteInduction (fun _ ↦ htoken .parenthesisOpen le_rfl le_rfl) fun _ ↦
    iteInduction (fun _ ↦ htoken .parenthesisClose le_rfl le_rfl) fun _ ↦
    iteInduction (fun _ ↦ htoken .bracketOpen le_rfl le_rfl) fun _ ↦
    iteInduction (fun _ ↦ htoken .bracketClose le_rfl le_rfl) fun _ ↦
    iteInduction (fun _ ↦ htoken .lt le_rfl le_rfl) fun _ ↦
    iteInduction (fun _ ↦ htoken .gt le_rfl le_rfl) fun _ ↦
    iteInduction (fun _ ↦ htoken .dot le_rfl le_rfl) fun _ ↦ iteInduction (fun _ ↦ ?_) fun _ ↦
    iteInduction (fun _ ↦ hending (.argument ch) ?_) fun _ ↦ ?_
  · intro r' hr'
    exact (hr'.with r'.buf (.argumentQuoted false)).budget rfl trivial
  · intro r' hr'
    exact (hr'.with r'.buf (.literal false)).budget rfl trivial
  · exact budget_pushArgument h.toCounted fun r' hr' hbuf _ ↦ budget_finish hr' hbuf
  · intro r' hr'
    exact (hr'.with r'.buf (.argument ch)).budget rfl trivial
  · exact (h.with (r.buf ++ [ch]) (.argument ch)).budget rfl trivial

theorem budget_stepQuoted {escaped : Bool} (h : Budget n r) :
    Keeps n (r.stepQuoted escaped ch) := by
  unfold stepQuoted
  refine iteInduction (fun _ ↦ iteInduction (fun _ ↦ ?_) fun _ ↦ iteInduction (fun _ ↦ ?_) fun _ ↦
    ?_) fun _ ↦ iteInduction (fun _ ↦ ?_) fun _ ↦ iteInduction (fun _ ↦ ?_) fun _ ↦
    iteInduction (fun _ ↦ ?_) fun _ ↦ ?_
  · exact budget_pushArgument h.toCounted fun r' hr' _ _ ↦
      (hr'.with r'.buf (.argument space)).budget rfl trivial
  · exact (h.with _ (.argumentQuoted false)).budget rfl trivial
  · exact budget_errorReset h.toCounted _
  · exact (h.with _ (.argumentQuoted !escaped)).budget rfl trivial
  · exact budget_errorReset h.toCounted _
  · exact (h.with _ (.argumentQuoted false)).budget rfl trivial
  · exact budget_errorReset h.toCounted _

/-- A literal is refused before it is read if it does not fit. -/
theorem budget_stepLiteral {nonSync : Bool} (h : Budget n r) (hstate : r.state = .literal nonSync) :
    Keeps n (r.stepLiteral nonSync ch) := by
  unfold stepLiteral
  split
  · split
    · split
      · rename_i size hsize
        split
        · exact budget_errorReset h.toCounted _
        · rename_i hle
          refine ⟨h.with [] (.literalSeek size nonSync), ?_, trivial⟩
          show r.currentRequestSize + (0 + size) ≤ n
          rw [Nat.zero_add, ← h.maxRequestSize]
          exact not_lt.mp hle
      · exact budget_errorReset h.toCounted _
    · exact budget_errorReset h.toCounted _
  · split
    · split
      · exact (h.with r.buf (.literal true)).budget rfl trivial
      · exact budget_errorReset h.toCounted _
    · split
      · split
        · rw [hstate]
          exact (h.with (r.buf ++ [ch]) (.literal nonSync)).budget rfl trivial
        · exact budget_errorReset h.toCounted _
      · exact budget_errorReset h.toCounted _

theorem budget_stepLiteralSeek {size : ℕ} {nonSync : Bool} (h : Budget n r)
    (hstate : r.state = .literalSeek size nonSync) :
    Keeps n (r.stepLiteralSeek size nonSync ch) := by
  have hfits : r.currentRequestSize + (r.buf.length + size) ≤ n := by
    have hliteral := h.literal
    rwa [awaited, hstate] at hliteral
  unfold stepLiteralSeek
  split
  · by_cases hpos : size > 0
    · have hdata : Budget n { r with state := .literalData size } :=
        ⟨h.with r.buf (.literalData size), hfits, trivial⟩
      rw [if_pos hpos]
      cases nonSync with
      | true => exact hdata
      | false => exact hdata
    · rw [if_neg hpos]
      have hnil : Keeps n (pushToken { r with state := .argument space } .nil) :=
        budget_pushToken (h.with r.buf (.argument space)) rfl (Nat.zero_le 1) (Nat.zero_le 1)
      cases hpush : pushToken { r with state := .argument space } .nil with
      | error e =>
          rw [hpush] at hnil
          exact hnil
      | ok r' =>
          rw [hpush] at hnil
          cases nonSync with
          | true => exact hnil
          | false => exact hnil
  · split
    · exact budget_errorReset h.toCounted _
    · exact h

theorem budget_stepLiteralData {remaining : ℕ} (h : Budget n r)
    (hstate : r.state = .literalData remaining) :
    Keeps n (r.stepLiteralData remaining ch) := by
  unfold stepLiteralData
  extract_lets r'
  have hr' : Counted n r' := h.with (r.buf ++ [ch]) r.state
  split
  · rename_i hmore
    refine ⟨hr'.with r'.buf (.literalData (remaining - 1)), ?_, trivial⟩
    have hliteral := h.literal
    rw [awaited, hstate] at hliteral
    change r.currentRequestSize + (r.buf.length + remaining) ≤ n at hliteral
    show r.currentRequestSize + ((r.buf ++ [ch]).length + (remaining - 1)) ≤ n
    rw [List.length_append, List.length_singleton]
    omega
  · exact budget_pushArgument hr' fun r'' hr'' _ _ ↦
      (hr''.with r''.buf (.argument space)).budget rfl trivial

/-- **One byte**, in any state. -/
theorem Budget.step (h : Budget n r) (ch : UInt8) : Keeps n (r.step ch) := by
  unfold Receiver.step
  split
  · rename_i hstate
    exact budget_stepStart h hstate
  · rename_i hstate
    exact budget_stepTag h hstate
  · rename_i hstate
    exact budget_stepCommand h hstate
  · rename_i hstate
    exact budget_stepArgument h hstate
  · exact budget_stepQuoted h
  · rename_i hstate
    exact budget_stepLiteral h hstate
  · rename_i hstate
    exact budget_stepLiteralSeek h hstate
  · rename_i hstate
    exact budget_stepLiteralData h hstate

theorem Budget.feed (h : Budget n r) (bytes : Bytes) : Budget n (r.feed bytes) := by
  induction bytes generalizing r with
  | nil => exact h
  | cons ch bytes ih => exact ih (h.step ch)

end

/-! ## The limit -/

section

variable {r : Receiver T} {n : ℕ}

/-- The bytes of the arguments and the number of tokens: what has a weight, and the NIL. -/
theorem sum_add_length (tokens : List Token) : (tokens.map fun token ↦
    match token with
    | .argument value => value.length
    | _ => 0).sum + tokens.length = weight tokens + tokens.count .nil := by
  induction tokens with
  | nil => rfl
  | cons token tokens ih =>
      rw [List.map_cons, List.sum_cons, List.length_cons, List.count_cons, weight, List.map_cons,
        List.sum_cons, ← weight]
      cases token <;> simp [Token.weight] <;> omega

omit [CommandParser T] in
theorem held_eq (r : Receiver T) : r.held = r.buf.length + (weight r.request.tokens + r.nils) := by
  rw [held, nils, ← sum_add_length, Nat.add_assoc]

omit [CommandParser T] in
/-- The buffer holds an argument that has not ended, a part of a literal, or a name. -/
theorem buf_le (h : r.Named) : r.buf.length ≤ 128 + r.unended + r.awaited := by
  unfold Named at h
  unfold unended awaited
  cases hstate : r.state <;> rw [hstate] at h <;> simp_all <;> omega

/-- What a receiver holds is within the limit: by the bytes of the arguments and the tokens that are
neither arguments nor NIL, together with a literal that is awaited or read, and within twice the
limit by the bytes and all tokens but NIL. -/
structure WithinLimit (n : ℕ) (r : Receiver T) : Prop where
  cost : cost r.request.tokens + r.awaited ≤ n
  weight : weight r.request.tokens + r.awaited ≤ 2 * n
  name : r.Named
  held : r.held ≤ 2 * n + 128 + (r.unended + r.nils)

omit [CommandParser T] in
theorem Budget.withinLimit (h : Budget n r) : WithinLimit n r := by
  have hcost := h.cost
  have hweight := h.weight
  have hliteral := h.literal
  have hsum : Receiver.weight r.request.tokens + r.awaited ≤ 2 * n := by omega
  refine ⟨(Nat.add_le_add_right hcost _).trans hliteral, hsum, h.name, ?_⟩
  have hbuf := buf_le h.name
  rw [held_eq]
  omega

end

/-- **The limit is kept to**, after any bytes: all that is held is at most twice the limit and a
name, but for an argument that has not ended and for NIL tokens. -/
theorem withinLimit_feed {maxRequestSize : ℕ} {managesieve : Bool} (bytes : Bytes) :
    WithinLimit maxRequestSize ((Starting T maxRequestSize managesieve).feed bytes) := by
  have hstart : Budget maxRequestSize (Starting T maxRequestSize managesieve) := by
    cases managesieve with
    | false =>
        exact Counted.budget ⟨Nat.zero_le _, Nat.zero_le _, Nat.zero_le _, rfl, trivial⟩ rfl rfl
    | true =>
        exact Counted.budget ⟨Nat.zero_le _, Nat.zero_le _, Nat.zero_le _, rfl, trivial⟩ rfl
          (Nat.zero_le _)
  exact (hstart.feed bytes).withinLimit

theorem feed_append (r : Receiver T) (bytes bytes' : Bytes) :
    r.feed (bytes ++ bytes') = (r.feed bytes).feed bytes' := List.foldl_append

/-- Arguments of one byte each. -/
def ones : ℕ → Bytes
  | 0 => []
  | n + 1 => 120 :: space :: ones n

theorem feed_ones (max : ℕ) (request : Request Command) (size : ℕ) (lastCh : UInt8)
    (hcommand : request.command = .noop) (hlast : isAsciiWhitespace lastCh = true) (n : ℕ)
    (hsize : size + n ≤ max) : ∃ lastCh',
    (within max request size [] (.argument lastCh)).feed (ones n) =
      within max { request with
        tokens := request.tokens ++ List.replicate n (.argument [120]) } (size + n) []
        (.argument lastCh') := by
  induction n generalizing request size lastCh with
  | zero =>
      refine ⟨lastCh, ?_⟩
      rw [List.replicate_zero, List.append_nil]
      rfl
  | succ n ih =>
      have hatom : IsAtomByte request.command 120 := by
        rw [hcommand]
        decide +kernel
      have hbyte : (within max request size [] (.argument lastCh)).step 120 =
          .ok (within max request size [120] (.argument 120)) :=
        step_atom hatom fun _ ↦ by decide
      have hone : size + [(120 : UInt8)].length ≤ max := by
        rw [List.length_singleton]
        omega
      have hbetween : (within max request size [120] (.argument 120)).Between max
          { request with tokens := request.tokens ++ [.argument [120]] } (size + 1) :=
        between_argument (List.cons_ne_nil 120 []) hone
      obtain ⟨lastCh', hlast', hblank⟩ := hbetween space rfl (by decide)
      obtain ⟨lastCh'', hrest⟩ := ih { request with
        tokens := request.tokens ++ [.argument [120]] } (size + 1) lastCh' hcommand hlast'
          (by omega)
      refine ⟨lastCh'', ?_⟩
      rw [ones, feed, List.foldl_cons, hbyte, List.foldl_cons]
      show feed (after ((within max request size [120] (.argument 120)).step space)) (ones n) = _
      rw [hblank]
      show (within max _ (size + 1) [] (.argument lastCh')).feed (ones n) = _
      rw [hrest, Nat.add_right_comm, Nat.add_assoc, List.append_assoc]
      rfl

/-- An argument of one byte counts one, and holds a byte and a token; so no constant bounds what is
held beyond the limit. -/
theorem held_exceeds : ¬∃ c, ∀ maxRequestSize managesieve bytes,
    ((Starting Command maxRequestSize managesieve).feed bytes).held ≤ maxRequestSize + c := by
  rintro ⟨c, h⟩
  have htag : (within (c + 1) (default : Request Command) 0 [97] .tag).step space =
      .ok (within (c + 1) ⟨"a", .noop, []⟩ 0 [] (.command false)) := by
    have hutf8 : fromUtf8 [97] = some "a" := by decide +kernel
    simp only [within, Receiver.step, stepTag, hutf8]
    rfl
  have hname : (within (c + 1) (⟨"a", .noop, []⟩ : Request Command) 0 (asBytes "NOOP")
      (.command false)).Between (c + 1) ⟨"a", .noop, []⟩ 0 :=
    between_word (c + 1) 0 ⟨"a", .noop, []⟩ (by decide +kernel)
  obtain ⟨lastCh, hlast, hblank⟩ := hname space rfl (by decide)
  obtain ⟨lastCh', hones⟩ := feed_ones (c + 1) ⟨"a", .noop, []⟩ 0 lastCh rfl hlast (c + 1)
    (Nat.zero_add (c + 1)).le
  have hheld := h (c + 1) false ([97, space, 78, 79, 79, 80, space] ++ ones (c + 1))
  have hstart : (Starting Command (c + 1) false).feed [97, space, 78, 79, 79, 80, space] =
      within (c + 1) ⟨"a", .noop, []⟩ 0 [] (.argument lastCh) := by
    show feed (after ((within (c + 1) (default : Request Command) 0 [97] .tag).step space))
      [78, 79, 79, 80, space] = _
    rw [htag]
    show after ((within (c + 1) (⟨"a", .noop, []⟩ : Request Command) 0 (asBytes "NOOP")
      (.command false)).step space) = _
    rw [hblank]
    rfl
  rw [feed_append, hstart, hones] at hheld
  simp [held, within] at hheld

end Receiver

end ImapToJmap
