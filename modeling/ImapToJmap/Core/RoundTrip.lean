import ImapToJmap.Parser.Basic
import ImapToJmap.Protocol.Text

/-!
# Requests written and read back

A client writes a request as its tag, its command and its arguments, each argument as parentheses,
an atom, a quoted string or a non-synchronizing literal.  `parse_render` says that the receiver
reads it back, whatever the quoted strings and literals contain.

Everything is said with `Reads`: what a stretch of bytes does to a receiver, whatever follows it.
The invariant between two arguments is `Between`: the next blank completes the argument that is
still in the buffer, if one is, and nothing else.
-/

namespace ImapToJmap

open Ascii

namespace Receiver

variable {T : Type} [CommandParser T]

/-! ## Reading a stretch of bytes -/

/-- After these bytes the receiver goes on as another one does. -/
def Reads (r : Receiver T) (bytes : Bytes) (r' : Receiver T) : Prop :=
  ∀ rest, r.parse (bytes ++ rest) = r'.parse rest

theorem Reads.nil (r : Receiver T) : r.Reads [] r := fun _ ↦ rfl

theorem Reads.cons {r r'' : Receiver T} (r' : Receiver T) {ch : UInt8} {bytes : Bytes}
    (h : r.step ch = .ok r')
    (h' : r'.Reads bytes r'') : r.Reads (ch :: bytes) r'' := fun rest ↦ by
  rw [List.cons_append, parse, h]
  exact h' rest

theorem Reads.one {r r' : Receiver T} {ch : UInt8} (h : r.step ch = .ok r') : r.Reads [ch] r' :=
  .cons r' h (.nil r')

theorem Reads.append {r r' r'' : Receiver T} {bytes bytes' : Bytes} (h : r.Reads bytes r')
    (h' : r'.Reads bytes' r'') : r.Reads (bytes ++ bytes') r'' := fun rest ↦ by
  rw [List.append_assoc, h, h']

/-- A byte at which `parse` returns. -/
theorem parse_of_step_error {r r' : Receiver T} {ch : UInt8} {result : Except Error (Request T)}
    (h : r.step ch = .error (r', result)) (rest : Bytes) :
    r.parse (ch :: rest) = (result, r', rest) := by
  rw [parse, h]

/-- A receiver in the middle of a request. -/
def within (max : ℕ) (request : Request T) (size : ℕ) (buf : Bytes) (state : State) :
    Receiver T where
  buf := buf
  request := request
  state := state
  maxRequestSize := max
  currentRequestSize := size
  startState := .start

variable {max size : ℕ} {request : Request T} {buf : Bytes}

/-! ## Pushing -/

variable (max size request) in
/-- Nothing in the buffer, nothing to push. -/
@[simp] theorem pushArgument_nil (state : State) :
    (within max request size [] state).pushArgument false =
      .ok (within max request size [] state) := by
  simp [pushArgument, within]

variable (request) in
theorem pushArgument_buf (state : State) (inQuote : Bool) (hbuf : buf ≠ [])
    (h : size + buf.length ≤ max) :
    (within max request size buf state).pushArgument inQuote =
      .ok (within max { request with tokens := request.tokens ++ [.argument buf] }
        (size + buf.length) [] state) := by
  simp [pushArgument, within, hbuf, Nat.not_lt.mpr h]

variable (max size request) in
theorem pushArgument_empty_quote (state : State) :
    (within max request size [] state).pushArgument true =
      .ok (within max { request with tokens := request.tokens ++ [.nil] } size [] state) := by
  simp [pushArgument, within]

variable (request buf) in
theorem pushToken_ok (state : State) (token : Token) (h : size + 1 ≤ max) :
    (within max request size buf state).pushToken token =
      .ok (within max { request with tokens := request.tokens ++ [token] } (size + 1) buf
        state) := by
  simp [pushToken, within, Nat.not_lt.mpr h]

/-! ## Tag and command -/

variable (max size request buf) in
theorem reads_tag_bytes (bytes : Bytes) (hws : ∀ ch ∈ bytes, isAsciiWhitespace ch = false)
    (hlen : buf.length + bytes.length ≤ 128) :
    (within max request size buf .tag).Reads bytes
      (within max request size (buf ++ bytes) .tag) := by
  induction bytes generalizing buf with
  | nil => simpa using Reads.nil _
  | cons ch bytes ih =>
      rw [List.length_cons] at hlen
      have hch : isAsciiWhitespace ch = false := hws ch List.mem_cons_self
      have hne : ch ≠ space := fun h ↦ by simp [h, isAsciiWhitespace] at hch
      have hlt : buf.length < 128 := by omega
      refine .cons (within max request size (buf ++ [ch]) .tag) ?_ ?_
      · simp [step, stepTag, within, hne, hch, hlt]
      · have := ih (buf ++ [ch]) (fun x hx ↦ hws x (List.mem_cons_of_mem _ hx))
          (by simp; omega)
        simpa using this

variable (max) in
/-- The tag and the blank behind it. -/
theorem reads_tag (tag : String) (hne : asBytes tag ≠ [])
    (hws : ∀ ch ∈ asBytes tag, isAsciiWhitespace ch = false)
    (hlen : (asBytes tag).length ≤ 128) :
    (withMaxRequestSize max : Receiver T).Reads (asBytes tag ++ [space])
      (within max { (default : Request T) with tag := tag } 0 [] (.command false)) := by
  obtain ⟨ch, bytes, heq⟩ := List.exists_cons_of_ne_nil hne
  rw [heq] at hws hlen ⊢
  have hch : isAsciiWhitespace ch = false := hws ch List.mem_cons_self
  have hfirst : (withMaxRequestSize max : Receiver T).Reads [ch]
      (within max default 0 [ch] .tag) :=
    .one (by simp [step, stepStart, withMaxRequestSize, within, hch])
  have hrest := reads_tag_bytes max 0 (default : Request T) [ch] bytes
    (fun x hx ↦ hws x (List.mem_cons_of_mem _ hx))
    (by simpa [Nat.add_comm] using hlen)
  refine (hfirst.append hrest).append (.one ?_)
  simp only [step, stepTag, within, List.singleton_append, ← heq, fromUtf8_asBytes]
  simp [hne]

variable (max size request buf) in
theorem reads_word_bytes (word : Bytes) (isUid : Bool)
    (halnum : ∀ ch ∈ word, isAsciiAlphanumeric ch = true)
    (hlen : buf.length + word.length ≤ 15) :
    (within max request size buf (.command isUid)).Reads word
      (within max request size (buf ++ word.map toAsciiUppercase) (.command isUid)) := by
  induction word generalizing buf with
  | nil => simpa using Reads.nil _
  | cons ch word ih =>
      rw [List.length_cons] at hlen
      have hlt : buf.length < 15 := by omega
      refine .cons (within max request size (buf ++ [toAsciiUppercase ch])
        (.command isUid)) ?_ ?_
      · simp [step, stepCommand, within, halnum ch List.mem_cons_self, hlt]
      · have := ih (buf ++ [toAsciiUppercase ch])
          (fun x hx ↦ halnum x (List.mem_cons_of_mem _ hx)) (by simp; omega)
        simpa using this

/-- The prefix `UID` and the blank behind it. -/
theorem reads_uid : (within max request size [] (.command false)).Reads (asBytes "UID" ++ [space])
    (within max request size [] (.command true)) := by
  have hbytes : asBytes "UID" = [85, 73, 68] := by decide +kernel
  have hword := reads_word_bytes max size request [] (asBytes "UID") false (by decide +kernel)
    (by decide +kernel)
  refine hword.append (.one ?_)
  have heq : eqIgnoreAsciiCase ((asBytes "UID").map toAsciiUppercase) (asBytes "UID") = true := by
    rw [hbytes]
    decide
  have hne : (asBytes "UID").map toAsciiUppercase ≠ [] := by rw [hbytes]; decide
  have hspace : isAsciiAlphanumeric space = false := by decide
  simp only [step, stepCommand, within, List.nil_append, heq, hspace]
  simp [isAsciiWhitespace, hne]

/-! ## Between arguments -/

/-- The next blank brings the receiver to `base`, ready for an argument. -/
def Between (r : Receiver T) (max : ℕ) (request : Request T) (size : ℕ) : Prop :=
  ∀ ch, isAsciiWhitespace ch = true → ch ≠ lf → ∃ lastCh, isAsciiWhitespace lastCh = true ∧
    r.step ch = .ok (within max request size [] (.argument lastCh))

/-- An argument in the buffer. -/
theorem between_argument {lastCh : UInt8} (hbuf : buf ≠ []) (h : size + buf.length ≤ max) :
    (within max request size buf (.argument lastCh)).Between max
      { request with tokens := request.tokens ++ [.argument buf] } (size + buf.length) := by
  intro ch hch hlf
  refine ⟨ch, hch, ?_⟩
  have hcases : ch = 32 ∨ ch = 9 ∨ ch = 12 ∨ ch = 13 := by
    simpa [isAsciiWhitespace, hlf, or_assoc] using hch
  have hpush := pushArgument_buf request (.argument lastCh) false hbuf h
  rw [step]
  simp only [within] at hpush ⊢
  rcases hcases with rfl | rfl | rfl | rfl <;>
    simp [stepArgument, isAsciiWhitespace, hpush, bind, Except.bind, pure, Except.pure]

/-- No argument in the buffer. -/
theorem between_nil {lastCh : UInt8} :
    (within max request size [] (.argument lastCh)).Between max request size := by
  intro ch hch hlf
  refine ⟨ch, hch, ?_⟩
  have hcases : ch = 32 ∨ ch = 9 ∨ ch = 12 ∨ ch = 13 := by
    simpa [isAsciiWhitespace, hlf, or_assoc] using hch
  have hpush := pushArgument_nil max size request
    (.argument lastCh)
  rw [step]
  simp only [within] at hpush ⊢
  rcases hcases with rfl | rfl | rfl | rfl <;>
    simp [stepArgument, isAsciiWhitespace, hpush, bind, Except.bind, pure, Except.pure]

/-! ## Atoms -/

/-- A byte that is no token of its own for a command. -/
def IsAtomByte (command : T) (ch : UInt8) : Prop :=
  isAsciiWhitespace ch = false ∧ ch ≠ parenOpen ∧ ch ≠ parenClose ∧
    (CommandParser.tokenizeBrackets command = true →
      ch ≠ bracketOpen ∧ ch ≠ bracketClose ∧ ch ≠ lt ∧ ch ≠ gt ∧ ch ≠ dot)

instance (command : T) (ch : UInt8) : Decidable (IsAtomByte command ch) :=
  inferInstanceAs (Decidable (_ ∧ _))

/-- A byte of an atom goes to the buffer. -/
theorem step_atom {lastCh ch : UInt8} (hch : IsAtomByte request.command ch)
    (hfirst : isAsciiWhitespace lastCh = true → ch ≠ quote ∧ ch ≠ braceOpen) :
    (within max request size buf (.argument lastCh)).step ch =
      .ok (within max request size (buf ++ [ch]) (.argument ch)) := by
  obtain ⟨hws, hopen, hclose, hbrackets⟩ := hch
  have hlf : ch ≠ lf := fun h ↦ by simp [h, isAsciiWhitespace] at hws
  have hquote : ¬ (ch = quote ∧ isAsciiWhitespace lastCh = true) := fun h ↦ (hfirst h.2).1 h.1
  have hbrace : ¬ (ch = braceOpen ∧ isAsciiWhitespace lastCh = true) := fun h ↦ (hfirst h.2).2 h.1
  simp only [step, stepArgument, within]
  rw [if_neg hquote, if_neg hbrace, if_neg hopen, if_neg hclose]
  by_cases hb : CommandParser.tokenizeBrackets request.command = true
  · obtain ⟨h₁, h₂, h₃, h₄, h₅⟩ := hbrackets hb
    simp [h₁, h₂, h₃, h₄, h₅, hlf, hws]
  · simp [hb, hlf, hws]

variable (max size buf) in
theorem reads_atom_rest {lastCh : UInt8} (hlast : isAsciiWhitespace lastCh = false)
    (bytes : Bytes) (hbytes : ∀ ch ∈ bytes, IsAtomByte request.command ch) :
    ∃ lastCh', (within max request size buf (.argument lastCh)).Reads bytes
      (within max request size (buf ++ bytes) (.argument lastCh')) := by
  induction bytes generalizing buf lastCh with
  | nil => exact ⟨lastCh, by simpa using Reads.nil _⟩
  | cons ch bytes ih =>
      have hch := hbytes ch List.mem_cons_self
      obtain ⟨lastCh', h⟩ := ih (buf ++ [ch]) hch.1
        fun x hx ↦ hbytes x (List.mem_cons_of_mem _ hx)
      refine ⟨lastCh', .cons _ (step_atom hch fun h ↦ by simp [hlast] at h) ?_⟩
      simpa using h

/-- An atom goes to the buffer. -/
theorem reads_atom {lastCh : UInt8} {value : Bytes} (hne : value ≠ [])
    (hbytes : ∀ ch ∈ value, IsAtomByte request.command ch)
    (hfirst : value.head? ≠ some quote ∧ value.head? ≠ some braceOpen) :
    ∃ lastCh', (within max request size [] (.argument lastCh)).Reads value
      (within max request size value (.argument lastCh')) := by
  obtain ⟨ch, bytes, rfl⟩ := List.exists_cons_of_ne_nil hne
  have hch := hbytes ch List.mem_cons_self
  obtain ⟨lastCh', h⟩ := reads_atom_rest (T := T) max size [ch] hch.1
    bytes fun x hx ↦ hbytes x (List.mem_cons_of_mem _ hx)
  exact ⟨lastCh', .cons _ (step_atom hch fun _ ↦ by simpa using hfirst) h⟩

/-! ## Parentheses -/

theorem step_parenOpen {lastCh : UInt8} (h : size + 1 ≤ max) :
    (within max request size [] (.argument lastCh)).step parenOpen =
      .ok (within max { request with tokens := request.tokens ++ [.parenthesisOpen] } (size + 1) []
        (.argument lastCh)) := by
  have hpush := pushArgument_nil max size request
    (.argument lastCh)
  have htoken := pushToken_ok request [] (.argument lastCh)
    .parenthesisOpen h
  simp only [within] at hpush htoken ⊢
  simp [step, stepArgument, hpush, htoken, bind, Except.bind]

theorem step_parenClose {lastCh : UInt8} (h : size + 1 ≤ max) :
    (within max request size [] (.argument lastCh)).step parenClose =
      .ok (within max { request with tokens := request.tokens ++ [.parenthesisClose] } (size + 1)
        [] (.argument lastCh)) := by
  have hpush := pushArgument_nil max size request
    (.argument lastCh)
  have htoken := pushToken_ok request [] (.argument lastCh)
    .parenthesisClose h
  simp only [within] at hpush htoken ⊢
  simp [step, stepArgument, hpush, htoken, bind, Except.bind]

/-! ## Quoted strings -/

theorem step_quote_open {lastCh : UInt8} (hlast : isAsciiWhitespace lastCh = true) :
    (within max request size [] (.argument lastCh)).step quote =
      .ok (within max request size [] (.argumentQuoted false)) := by
  have hpush := pushArgument_nil max size request
    (.argument lastCh)
  simp only [within] at hpush ⊢
  simp [step, stepArgument, hlast, hpush, bind, Except.bind, pure, Except.pure]

variable (max size request buf) in
/-- The bytes for one byte of the text put that byte into the buffer. -/
theorem reads_escape {c : UInt8} (hlf : c ≠ lf) (hlen : buf.length < 1024) :
    (within max request size buf (.argumentQuoted false)).Reads (escape c)
      (within max request size (buf ++ [c]) (.argumentQuoted false)) := by
  unfold escape
  split
  · rename_i h
    refine .cons (within max request size buf (.argumentQuoted true)) ?_ (.one ?_)
    · simp [step, stepQuoted, within]
    · rcases h with rfl | rfl <;> simp [step, stepQuoted, within, hlen]
  · rename_i h
    have hquote : c ≠ quote := fun h' ↦ h (.inr h')
    have hback : c ≠ backslash := fun h' ↦ h (.inl h')
    refine .one ?_
    simp [step, stepQuoted, within, hlen, hquote, hback, hlf]

variable (max size request buf) in
theorem reads_escaped (text : Bytes) (hlf : lf ∉ text) (hlen : buf.length + text.length ≤ 1024) :
    (within max request size buf (.argumentQuoted false)).Reads (text.flatMap escape)
      (within max request size (buf ++ text) (.argumentQuoted false)) := by
  induction text generalizing buf with
  | nil => simpa using Reads.nil _
  | cons c text ih =>
      rw [List.length_cons] at hlen
      rw [List.mem_cons, not_or] at hlf
      have hc := reads_escape max size request buf (Ne.symm hlf.1) (by omega)
      have hrest := ih (buf ++ [c]) hlf.2 (by simp; omega)
      rw [List.flatMap_cons]
      simpa using hc.append hrest

/-- The closing quote completes the argument, also an empty one. -/
theorem step_quote_close (h : size + buf.length ≤ max) :
    (within max request size buf (.argumentQuoted false)).step quote =
      .ok (within max { request with
        tokens := request.tokens ++ [if buf = [] then .nil else .argument buf] }
        (size + buf.length) [] (.argument space)) := by
  by_cases hbuf : buf = []
  · subst hbuf
    have hpush := pushArgument_empty_quote max size request (.argumentQuoted false)
    simp only [within] at hpush ⊢
    simp [step, stepQuoted, hpush, bind, Except.bind, pure, Except.pure]
  · have hpush := pushArgument_buf request (.argumentQuoted false) true
      hbuf h
    simp only [within] at hpush ⊢
    simp [step, stepQuoted, hpush, hbuf, bind, Except.bind, pure, Except.pure]

/-- **A quoted string** is read back as the text it was written from. -/
theorem reads_quotedString {lastCh : UInt8} {text : String}
    (hlast : isAsciiWhitespace lastCh = true) (hlf : lf ∉ asBytes text)
    (hlen : (asBytes text).length ≤ 1024) (h : size + (asBytes text).length ≤ max) :
    (within max request size [] (.argument lastCh)).Reads (quotedString text)
      (within max { request with tokens := request.tokens ++
        [if asBytes text = [] then .nil else .argument (asBytes text)] }
        (size + (asBytes text).length) [] (.argument space)) := by
  have htext := reads_escaped max size request [] (asBytes text) hlf (by simpa using hlen)
  rw [quotedString, List.cons_append]
  refine .cons _ (step_quote_open hlast) (htext.append (.one ?_))
  exact step_quote_close (by simpa using h)

/-! ## Literals -/

/-- A non-synchronizing literal. -/
def literalPlus (value : Bytes) : Bytes :=
  braceOpen :: decimal value.length ++ [plus, braceClose, cr, lf] ++ value

theorem step_brace_open {lastCh : UInt8} (hlast : isAsciiWhitespace lastCh = true) :
    (within max request size [] (.argument lastCh)).step braceOpen =
      .ok (within max request size [] (.literal false)) := by
  have hpush := pushArgument_nil max size request
    (.argument lastCh)
  simp only [within] at hpush ⊢
  simp [step, stepArgument, hlast, hpush, bind, Except.bind, pure, Except.pure]

variable (max size request buf) in
theorem reads_digits (digits : Bytes) (h : ∀ ch ∈ digits, isAsciiDigit ch = true) :
    (within max request size buf (.literal false)).Reads digits
      (within max request size (buf ++ digits) (.literal false)) := by
  induction digits generalizing buf with
  | nil => simpa using Reads.nil _
  | cons ch digits ih =>
      have hch : isAsciiDigit ch = true := h ch List.mem_cons_self
      have hbrace : ch ≠ braceClose := fun he ↦ by simp [he, isAsciiDigit] at hch
      have hplus : ch ≠ plus := fun he ↦ by simp [he, isAsciiDigit] at hch
      refine .cons (within max request size (buf ++ [ch]) (.literal false)) ?_ ?_
      · simp [step, stepLiteral, within, hbrace, hplus, hch]
      · have := ih (buf ++ [ch]) fun x hx ↦ h x (List.mem_cons_of_mem _ hx)
        simpa using this

/-- The opening brace, the length and the `+`. -/
theorem reads_literal_length {lastCh : UInt8} (hlast : isAsciiWhitespace lastCh = true) (n : ℕ) :
    (within max request size [] (.argument lastCh)).Reads (braceOpen :: decimal n ++ [plus])
      (within max request size (decimal n) (.literal true)) := by
  have hdigits := reads_digits max size request [] (decimal n) fun ch hch ↦
    isAsciiDigit_of_mem_decimal hch
  rw [List.cons_append]
  refine .cons _ (step_brace_open hlast) (hdigits.append (.one ?_))
  simp [step, stepLiteral, within, decimal_ne_nil]

variable (max size request buf) in
/-- The bytes of a literal but the last. -/
theorem reads_literal_init (value : Bytes) (remaining : ℕ) (h : 0 < remaining) :
    (within max request size buf (.literalData (value.length + remaining))).Reads value
      (within max request size (buf ++ value) (.literalData remaining)) := by
  induction value generalizing buf with
  | nil => simpa using Reads.nil _
  | cons ch value ih =>
      refine .cons (within max request size (buf ++ [ch])
        (.literalData (value.length + remaining))) ?_ ?_
      · have hgt : 1 < value.length + 1 + remaining := by omega
        have heq : value.length + 1 + remaining - 1 = value.length + remaining := by omega
        simp [step, stepLiteralData, within, hgt, heq]
      · have := ih (buf ++ [ch])
        simpa using this

theorem reads_literal_data {value : Bytes} (hne : value ≠ []) (h : size + value.length ≤ max) :
    (within max request size [] (.literalData value.length)).Reads value
      (within max { request with tokens := request.tokens ++ [.argument value] }
        (size + value.length) [] (.argument space)) := by
  obtain ⟨init, last, rfl⟩ := List.eq_nil_or_concat value |>.resolve_left hne
  rw [List.concat_eq_append] at h ⊢
  have hinit := reads_literal_init max size request [] init 1 Nat.one_pos
  rw [List.length_append, List.length_singleton]
  refine hinit.append (.one ?_)
  have hne : init ++ [last] ≠ [] := by simp
  have hpush := pushArgument_buf request (.literalData 1) false hne h
  simp only [within] at hpush ⊢
  simp only [step, stepLiteralData, List.nil_append, hpush]
  simp [bind, Except.bind, pure, Except.pure]

/-- **A literal** is read back as its bytes, whatever they are. -/
theorem reads_literalPlus {lastCh : UInt8} {value : Bytes}
    (hlast : isAsciiWhitespace lastCh = true) (hlt : value.length < 2 ^ 32)
    (h : size + (if value = [] then 1 else value.length) ≤ max) :
    (within max request size [] (.argument lastCh)).Reads (literalPlus value)
      (within max { request with tokens := request.tokens ++
        [if value = [] then .nil else .argument value] }
        (size + if value = [] then 1 else value.length) [] (.argument space)) := by
  have hle : size + value.length ≤ max := by
    split at h
    · rename_i hnil
      rw [hnil, List.length_nil]
      omega
    · exact h
  have hclose : (within max request size (decimal value.length) (.literal true)).step braceClose =
      .ok (within max request size [] (.literalSeek value.length true)) := by
    simp [step, stepLiteral, within, decimal_ne_nil, parseU32_decimal hlt, Nat.not_lt.mpr hle]
  have hcr : (within max request size [] (.literalSeek value.length true)).step cr =
      .ok (within max request size [] (.literalSeek value.length true)) := by
    simp [step, stepLiteralSeek, within, isAsciiWhitespace]
  have hbytes : literalPlus value = (braceOpen :: decimal value.length ++ [plus]) ++
      (braceClose :: cr :: lf :: value) := by
    simp [literalPlus]
  rw [hbytes]
  refine (reads_literal_length hlast value.length).append (.cons _ hclose (.cons _ hcr ?_))
  by_cases hne : value = []
  · subst hne
    have htoken := pushToken_ok request [] (.argument space) .nil
      (by simpa using h)
    refine .one ?_
    simp only [within] at htoken ⊢
    simp [step, stepLiteralSeek, htoken, bind, Except.bind]
  · simp only [hne, if_false]
    refine .cons (within max request size [] (.literalData value.length)) ?_
      (reads_literal_data hne hle)
    have hpos : 0 < value.length := List.length_pos_of_ne_nil hne
    simp [step, stepLiteralSeek, within, hpos, bind, Except.bind]

end Receiver

/-! ## Requests -/

/-- An argument in the form a client writes it. -/
inductive Item where
  | parenthesisOpen
  | parenthesisClose
  | atom (value : Bytes)
  | quoted (text : String)
  | literal (value : Bytes)

namespace Item

/-- The bytes on the wire. -/
def render : Item → Bytes
  | parenthesisOpen => [parenOpen]
  | parenthesisClose => [parenClose]
  | atom value => value
  | quoted text => quotedString text
  | literal value => Receiver.literalPlus value

/-- The token that is meant. -/
def token : Item → Token
  | parenthesisOpen => .parenthesisOpen
  | parenthesisClose => .parenthesisClose
  | atom value => .argument value
  | quoted text => if asBytes text = [] then .nil else .argument (asBytes text)
  | literal value => if value = [] then .nil else .argument value

/-- The bytes of the argument itself. -/
def argumentSize : Item → ℕ
  | atom value | literal value => value.length
  | quoted text => (asBytes text).length
  | _ => 0

/-- What the receiver counts: one for a parenthesis and for an empty literal. -/
def size : Item → ℕ
  | parenthesisOpen | parenthesisClose => 1
  | literal [] => 1
  | item => item.argumentSize

/-- The arguments a client may write. -/
def WellFormed (command : Command) : Item → Prop
  | atom value => value ≠ [] ∧ (∀ ch ∈ value, Receiver.IsAtomByte command ch) ∧
      value.head? ≠ some quote ∧ value.head? ≠ some braceOpen
  | quoted text => lf ∉ asBytes text ∧ (asBytes text).length ≤ 1024
  | _ => True

instance decidableWellFormed (command : Command) : (item : Item) →
    Decidable (item.WellFormed command)
  | parenthesisOpen | parenthesisClose | literal _ => .isTrue trivial
  | atom value => inferInstanceAs (Decidable (value ≠ [] ∧
      (∀ ch ∈ value, Receiver.IsAtomByte command ch) ∧ _ ∧ _))
  | quoted _ => inferInstanceAs (Decidable (_ ∧ _))

/-- The length of a literal is a `u32`. -/
def HasU32Length : Item → Prop
  | literal value => value.length < 2 ^ 32
  | _ => True

instance : DecidablePred HasU32Length
  | literal value => inferInstanceAs (Decidable (value.length < 2 ^ 32))
  | parenthesisOpen | parenthesisClose | atom _ | quoted _ => .isTrue trivial

end Item

/-- The arguments, each behind a blank, and the end of the line. -/
def renderItems : List Item → Bytes
  | [] => [cr, lf]
  | item :: items => space :: item.render ++ renderItems items

/-- A request as a client writes it; the word is the command's name in any case. -/
def renderRequest (tag : String) (isUid : Bool) (word : Bytes) (items : List Item) : Bytes :=
  asBytes tag ++ [space] ++ (if isUid then asBytes "UID" ++ [space] else []) ++ word ++
    renderItems items

namespace Receiver

variable {max size : ℕ} {request : Request Command}

/-- **One argument.** -/
theorem Between.item {r : Receiver Command} (h : r.Between max request size) {item : Item}
    (hitem : item.WellFormed request.command) (hu32 : item.HasU32Length)
    (hsize : size + item.size ≤ max) :
    ∃ r', r.Reads (space :: item.render) r' ∧
      r'.Between max { request with tokens := request.tokens ++ [item.token] }
        (size + item.size) := by
  obtain ⟨lastCh, hlast, hstep⟩ := h space (by decide) (by decide)
  cases item with
  | parenthesisOpen => exact ⟨_, .cons _ hstep (.one (step_parenOpen hsize)), between_nil⟩
  | parenthesisClose => exact ⟨_, .cons _ hstep (.one (step_parenClose hsize)), between_nil⟩
  | atom value =>
      obtain ⟨hne, hbytes, hfirst⟩ := hitem
      obtain ⟨lastCh', hreads⟩ := reads_atom hne hbytes hfirst
      exact ⟨_, .cons _ hstep hreads, between_argument hne hsize⟩
  | quoted text =>
      obtain ⟨hlf, hlen⟩ := hitem
      exact ⟨_, .cons _ hstep (reads_quotedString hlast hlf hlen hsize), between_nil⟩
  | literal value =>
      have hcount : (Item.literal value).size = if value = [] then 1 else value.length := by
        cases value <;> simp [Item.size, Item.argumentSize]
      rw [hcount] at hsize ⊢
      exact ⟨_, .cons _ hstep (reads_literalPlus hlast hu32 hsize), between_nil⟩

/-- The end of the line completes the request. -/
theorem Between.crlf {r : Receiver Command} (h : r.Between max request size) (rest : Bytes) :
    r.parse (cr :: lf :: rest) = (.ok request, withMaxRequestSize max, rest) := by
  obtain ⟨lastCh, hlast, hstep⟩ := h cr (by decide) (by decide)
  rw [parse, hstep]
  have hpush := pushArgument_nil max size request
    (.argument lastCh)
  refine parse_of_step_error ?_ rest
  simp only [within] at hpush ⊢
  simp [step, stepArgument, isAsciiWhitespace, hpush, finish, withMaxRequestSize, bind, Except.bind]

/-- **All arguments.** -/
theorem Between.items {r : Receiver Command} (h : r.Between max request size) (items : List Item)
    (hitems : ∀ item ∈ items, item.WellFormed request.command)
    (hu32 : ∀ item ∈ items, item.HasU32Length)
    (hsize : size + (items.map Item.size).sum ≤ max) (rest : Bytes) :
    r.parse (renderItems items ++ rest) =
      (.ok { request with tokens := request.tokens ++ items.map Item.token },
        withMaxRequestSize max, rest) := by
  induction items generalizing r request size with
  | nil => simpa [renderItems] using h.crlf rest
  | cons item items ih =>
      rw [List.map_cons, List.sum_cons] at hsize
      obtain ⟨r', hreads, hbetween⟩ := h.item (hitems item List.mem_cons_self)
        (hu32 item List.mem_cons_self) (by omega)
      have hrest := ih hbetween (fun i hi ↦ hitems i (List.mem_cons_of_mem _ hi))
        (fun i hi ↦ hu32 i (List.mem_cons_of_mem _ hi)) (by omega)
      rw [renderItems, List.append_assoc, hreads, hrest]
      simp

variable (max size request) in
/-- The command's name. -/
theorem between_word {word : Bytes} {isUid : Bool} {command : Command}
    (h : Command.parse word isUid = some command) :
    (within max request size word (.command isUid)).Between max
      { request with command := command } size := by
  obtain ⟨hne, -, huid, -⟩ := Command.word_of_parse h
  intro ch hch hlf
  have halnum : isAsciiAlphanumeric ch = false := by
    cases ha : isAsciiAlphanumeric ch with
    | false => rfl
    | true => simp [not_whitespace_of_alphanumeric ha] at hch
  have hparse : CommandParser.parse word isUid = some command := h
  refine ⟨space, by decide, ?_⟩
  simp only [step, stepCommand, within, halnum, hch, huid, hparse]
  simp [hne, hlf]

/-- The tag, the prefix `UID` and the name of a command. -/
theorem reads_name (max : ℕ) {tag : String} (htag : asBytes tag ≠ [])
    (htagLen : (asBytes tag).length ≤ 128)
    (htagWs : ∀ ch ∈ asBytes tag, isAsciiWhitespace ch = false) {isUid : Bool} {word : Bytes}
    {command : Command}
    (hcommand : Command.parse (word.map toAsciiUppercase) isUid = some command) :
    (withMaxRequestSize max : Receiver Command).Reads
      (asBytes tag ++ [space] ++ (if isUid then asBytes "UID" ++ [space] else []) ++ word)
      (within max { (default : Request Command) with tag := tag } 0 (word.map toAsciiUppercase)
        (.command isUid)) := by
  obtain ⟨-, hlen, -, halnum⟩ := Command.word_of_parse hcommand
  have huid : (within max { (default : Request Command) with tag := tag } 0 []
      (.command false)).Reads (if isUid then asBytes "UID" ++ [space] else [])
      (within max { (default : Request Command) with tag := tag } 0 [] (.command isUid)) := by
    cases isUid with
    | false => exact .nil _
    | true => exact reads_uid
  have hword := reads_word_bytes max 0 { (default : Request Command) with tag := tag } [] word isUid
    (fun ch hch ↦ alphanumeric_of_uppercase (halnum _ (List.mem_map_of_mem hch)))
    (by simpa using hlen)
  exact ((reads_tag max tag htag htagWs htagLen).append huid).append hword

/-- **A request written by a client is read back**, with its tag, its command and its arguments,
and the receiver is as before.  What follows the request is left alone. -/
theorem parse_render (max : ℕ) (tag : String) (htag : asBytes tag ≠ [])
    (htagLen : (asBytes tag).length ≤ 128)
    (htagWs : ∀ ch ∈ asBytes tag, isAsciiWhitespace ch = false) (isUid : Bool) (word : Bytes)
    (command : Command) (hcommand : Command.parse (word.map toAsciiUppercase) isUid = some command)
    (items : List Item) (hitems : ∀ item ∈ items, item.WellFormed command)
    (hu32 : ∀ item ∈ items, item.HasU32Length) (hsize : (items.map Item.size).sum ≤ max)
    (rest : Bytes) :
    (withMaxRequestSize max : Receiver Command).parse
        (renderRequest tag isUid word items ++ rest) =
      (.ok ⟨tag, command, items.map Item.token⟩, withMaxRequestSize max, rest) := by
  have hname := reads_name max htag htagLen htagWs hcommand
  have hrest := (between_word max 0 { (default : Request Command) with tag := tag }
    hcommand).items items hitems hu32 (by simpa using hsize) rest
  rw [renderRequest, List.append_assoc, hname, hrest]
  rfl

/-- Quotes, backslashes, braces, brackets and line breaks inside of strings. -/
theorem parse_render_search :
    (withMaxRequestSize 100 : Receiver Command).parse
        (renderRequest "a1" true (asBytes "Search") [.parenthesisOpen, .atom (asBytes "BODY"),
          .quoted "say \"{3}\" \\ (x)\r", .parenthesisClose, .literal (asBytes "\" )\r\n{1}"),
          .quoted "", .literal []] ++ asBytes "a2 NOOP\r\n") =
      (.ok ⟨"a1", .search true, [.parenthesisOpen, .argument (asBytes "BODY"),
          .argument (asBytes "say \"{3}\" \\ (x)\r"), .parenthesisClose,
          .argument (asBytes "\" )\r\n{1}"), .nil, .nil]⟩,
        withMaxRequestSize 100, asBytes "a2 NOOP\r\n") :=
  parse_render 100 "a1" (by decide +kernel) (by decide +kernel) (by decide +kernel) true
    (asBytes "Search") (.search true) (by decide +kernel) _ (by decide +kernel)
    (by decide +kernel) (by decide +kernel) _

/-- A literal whose length is no `u32` is refused at its closing brace. -/
theorem parse_literal_overflow {max : ℕ} {value : Bytes} (h : 2 ^ 32 ≤ value.length) :
    ((withMaxRequestSize max : Receiver Command).parse
        (renderRequest "a" false (asBytes "APPEND") [.literal value])).1 =
      .error (.err (some "a") "Literal size is not a valid number.") := by
  have hcommand : Command.parse ((asBytes "APPEND").map toAsciiUppercase) false =
      some .append := by decide +kernel
  have htag := reads_tag (T := Command) max "a" (by decide +kernel) (by decide +kernel)
    (by decide +kernel)
  have hword := reads_word_bytes max 0 { (default : Request Command) with tag := "a" } []
    (asBytes "APPEND") false
    (by decide +kernel) (by decide +kernel)
  obtain ⟨lastCh, hlast, hstep⟩ := between_word max 0
    { (default : Request Command) with tag := "a" } hcommand space (by decide)
    (by decide)
  have hbytes : renderRequest "a" false (asBytes "APPEND") [.literal value] =
      asBytes "a" ++ [space] ++ asBytes "APPEND" ++
        (space :: (braceOpen :: decimal value.length ++ [plus])) ++
          braceClose :: (cr :: lf :: value ++ [cr, lf]) := by
    simp [renderRequest, renderItems, Item.render, literalPlus]
  rw [hbytes, (htag.append hword).append (.cons _ hstep (reads_literal_length hlast value.length))]
  have hclose : (within max ⟨"a", Command.append, []⟩ 0 (decimal value.length)
      (.literal true)).step braceClose =
        errorReset (within max ⟨"a", Command.append, []⟩ 0 (decimal value.length)
          (.literal true)) "Literal size is not a valid number." := by
    simp [step, stepLiteral, within, decimal_ne_nil, parseU32_decimal_eq_none h]
  exact congrArg Prod.fst (parse_of_step_error hclose _)

/-- **Two limits are tighter than the size of the arguments.**  The length of a literal is a `u32`,
however large a request may be, and a parenthesis counts like a byte of an argument. -/
theorem render_refused :
    (Item.WellFormed .append (.literal (List.replicate (2 ^ 32) 0)) ∧
      (Item.literal (List.replicate (2 ^ 32) 0)).argumentSize ≤ 2 ^ 32 ∧
      ((withMaxRequestSize (2 ^ 32) : Receiver Command).parse
          (renderRequest "a" false (asBytes "APPEND") [.literal (List.replicate (2 ^ 32) 0)])).1 =
        .error (.err (some "a") "Literal size is not a valid number.")) ∧
    ((∀ item ∈ [Item.parenthesisOpen, .atom (asBytes "abcd"), .parenthesisClose],
        item.WellFormed .list) ∧
      ([Item.parenthesisOpen, .atom (asBytes "abcd"), .parenthesisClose].map
        Item.argumentSize).sum ≤ 4 ∧
      ((withMaxRequestSize 4 : Receiver Command).parse (renderRequest "a" false (asBytes "LIST")
          [.parenthesisOpen, .atom (asBytes "abcd"), .parenthesisClose])).1 =
        .error (.err (some "a") "Request exceeds maximum limit of 4 bytes.")) := by
  refine ⟨⟨trivial, ?_, parse_literal_overflow ?_⟩, by decide +kernel, by decide +kernel,
    by decide +kernel⟩
  · rw [Item.argumentSize, List.length_replicate]
  · rw [List.length_replicate]

end Receiver

end ImapToJmap
