import ImapToJmap.Core.Budget

/-!
# Arguments without quotes and literals

What the receiver makes of the arguments of a command that has brackets and dots as tokens of their
own, when there are no quotes and no braces among them: the bytes between tokens and blanks
(`plainTokens`).  `Written` are the texts whose tokens do not depend on what follows, as long as
that is a token or a blank; these put together are such texts again.
-/

namespace ImapToJmap

open Ascii

/-- The token that is a byte. -/
def Token.ofByte : UInt8 → Option Token
  | parenOpen => some .parenthesisOpen
  | parenClose => some .parenthesisClose
  | Ascii.bracketOpen => some .bracketOpen
  | Ascii.bracketClose => some .bracketClose
  | Ascii.lt => some .lt
  | Ascii.gt => some .gt
  | Ascii.dot => some .dot
  | _ => none

theorem Token.ofByte_cases {ch : UInt8} {token : Token} (h : Token.ofByte ch = some token) :
    (ch = parenOpen ∧ token = .parenthesisOpen) ∨ (ch = parenClose ∧ token = .parenthesisClose) ∨
      (ch = Ascii.bracketOpen ∧ token = .bracketOpen) ∨
      (ch = Ascii.bracketClose ∧ token = .bracketClose) ∨ (ch = Ascii.lt ∧ token = .lt) ∨
      (ch = Ascii.gt ∧ token = .gt) ∨ (ch = Ascii.dot ∧ token = .dot) := by
  unfold Token.ofByte at h
  split at h <;> cases h <;> simp

/-- An argument that has come to its end. -/
def pending (buf : Bytes) : List Token := if buf = [] then [] else [.argument buf]

/-- The tokens of a text, behind what is in the buffer. -/
def plainTokens (buf : Bytes) : Bytes → List Token
  | [] => pending buf
  | ch :: text =>
      match Token.ofByte ch with
      | some token => pending buf ++ token :: plainTokens [] text
      | none =>
          if isAsciiWhitespace ch then pending buf ++ plainTokens [] text
          else plainTokens (buf ++ [ch]) text

/-- A byte that begins no string, and does not end the line. -/
def IsPlainByte (ch : UInt8) : Prop := ch ≠ quote ∧ ch ≠ braceOpen ∧ ch ≠ lf

/-- A byte of an atom, where brackets and dots are tokens. -/
def IsNameByte (ch : UInt8) : Prop :=
  IsPlainByte ch ∧ Token.ofByte ch = none ∧ isAsciiWhitespace ch = false

instance (ch : UInt8) : Decidable (IsPlainByte ch) := inferInstanceAs (Decidable (_ ∧ _))

instance (ch : UInt8) : Decidable (IsNameByte ch) := inferInstanceAs (Decidable (_ ∧ _))

/-! ## Reading -/

namespace Receiver

variable {T : Type} [CommandParser T] {max size : ℕ} {request : Request T} {buf : Bytes}
  {lastCh ch : UInt8}

theorem pushArgument_pending (state : State) (h : size + buf.length ≤ max) :
    (within max request size buf state).pushArgument false =
      .ok (within max { request with tokens := request.tokens ++ pending buf } (size + buf.length)
        [] state) := by
  by_cases hbuf : buf = []
  · subst hbuf
    rw [pushArgument_nil, pending, if_pos rfl, List.append_nil]
    rfl
  · rw [pushArgument_buf request state false hbuf h, pending, if_neg hbuf]

theorem step_symbol {token : Token} (hbrackets :
    CommandParser.tokenizeBrackets request.command = true)
    (hch : Token.ofByte ch = some token) (h : size + buf.length + 1 ≤ max) :
    (within max request size buf (.argument lastCh)).step ch =
      .ok (within max { request with tokens := request.tokens ++ (pending buf ++ [token]) }
        (size + buf.length + 1) [] (.argument lastCh)) := by
  have hpush : (within max request size buf (.argument lastCh)).pushArgument false = _ :=
    pushArgument_pending (.argument lastCh) (by omega)
  have htoken := pushToken_ok { request with tokens := request.tokens ++ pending buf } []
    (.argument lastCh) token h
  rw [List.append_assoc] at htoken
  simp only [within] at hpush htoken ⊢
  rcases Token.ofByte_cases hch with
    ⟨rfl, rfl⟩ | ⟨rfl, rfl⟩ | ⟨rfl, rfl⟩ | ⟨rfl, rfl⟩ | ⟨rfl, rfl⟩ | ⟨rfl, rfl⟩ | ⟨rfl, rfl⟩ <;>
    simp [step, stepArgument, hpush, htoken, hbrackets, bind, Except.bind]

theorem step_blank (hws : isAsciiWhitespace ch = true) (hlf : ch ≠ lf)
    (h : size + buf.length ≤ max) :
    (within max request size buf (.argument lastCh)).step ch =
      .ok (within max { request with tokens := request.tokens ++ pending buf } (size + buf.length)
        [] (.argument ch)) := by
  have hpush : (within max request size buf (.argument lastCh)).pushArgument false = _ :=
    pushArgument_pending (.argument lastCh) h
  have hcases : ch = 32 ∨ ch = 9 ∨ ch = 12 ∨ ch = 13 := by
    simp only [isAsciiWhitespace, Bool.or_eq_true, beq_iff_eq] at hws
    tauto
  simp only [within] at hpush ⊢
  rcases hcases with rfl | rfl | rfl | rfl <;>
    simp [step, stepArgument, isAsciiWhitespace, hpush, bind, Except.bind, pure, Except.pure]

theorem step_end (h : size + buf.length ≤ max) :
    (within max request size buf (.argument lastCh)).step lf =
      .error (withMaxRequestSize max,
        .ok { request with tokens := request.tokens ++ pending buf }) := by
  have hpush : (within max request size buf (.argument lastCh)).pushArgument false = _ :=
    pushArgument_pending (.argument lastCh) h
  simp only [within] at hpush ⊢
  simp [step, stepArgument, isAsciiWhitespace, hpush, finish, withMaxRequestSize, bind, Except.bind]

theorem cost_append_list (tokens tokens' : List Token) :
    cost (tokens ++ tokens') = cost tokens + cost tokens' := by
  simp [cost]

theorem cost_pending (buf : Bytes) : cost (pending buf) = buf.length := by
  by_cases hbuf : buf = []
  · subst hbuf
    rfl
  · rw [pending, if_neg hbuf]
    simp [cost, Token.cost]

theorem cost_symbol {token : Token} (h : Token.ofByte ch = some token) : token.cost = 1 := by
  rcases Token.ofByte_cases h with ⟨-, rfl⟩ | ⟨-, rfl⟩ | ⟨-, rfl⟩ | ⟨-, rfl⟩ | ⟨-, rfl⟩ | ⟨-, rfl⟩ |
    ⟨-, rfl⟩ <;> rfl

/-- **The arguments are read as their tokens**, when these are within the limit. -/
theorem parse_plain (hbrackets : CommandParser.tokenizeBrackets request.command = true)
    (text : Bytes) (hplain : ∀ ch ∈ text, IsPlainByte ch)
    (hsize : size + cost (plainTokens buf text) ≤ max) (rest : Bytes) :
    (within max request size buf (.argument lastCh)).parse (text ++ lf :: rest) =
      (.ok { request with tokens := request.tokens ++ plainTokens buf text },
        withMaxRequestSize max, rest) := by
  induction text generalizing request size buf lastCh with
  | nil =>
      rw [plainTokens, cost_pending] at hsize
      exact parse_of_step_error (step_end hsize) rest
  | cons ch text ih =>
      obtain ⟨hch, htext⟩ := List.forall_mem_cons.mp hplain
      cases htoken : Token.ofByte ch with
      | some token =>
          have htokens : plainTokens buf (ch :: text) =
              pending buf ++ [token] ++ plainTokens [] text := by
            simp [plainTokens, htoken]
          rw [htokens, cost_append_list, cost_append_list, cost_pending] at hsize
          have hone : cost [token] = 1 := by simp [cost, cost_symbol htoken]
          rw [hone] at hsize
          rw [List.cons_append, parse, step_symbol hbrackets htoken (by omega)]
          refine (@ih (size + buf.length + 1) { request with
            tokens := request.tokens ++ (pending buf ++ [token]) } [] lastCh hbrackets htext
              (by omega)).trans ?_
          rw [htokens, List.append_assoc]
      | none =>
          by_cases hws : isAsciiWhitespace ch = true
          · have htokens : plainTokens buf (ch :: text) = pending buf ++ plainTokens [] text := by
              simp [plainTokens, htoken, hws]
            rw [htokens, cost_append_list, cost_pending] at hsize
            rw [List.cons_append, parse, step_blank hws hch.2.2 (by omega)]
            refine (@ih (size + buf.length) { request with
              tokens := request.tokens ++ pending buf } [] ch hbrackets htext (by omega)).trans ?_
            rw [htokens, List.append_assoc]
          · have htokens : plainTokens buf (ch :: text) = plainTokens (buf ++ [ch]) text := by
              simp [plainTokens, htoken, hws]
            rw [htokens] at hsize
            have hatom : IsAtomByte request.command ch := by
              refine ⟨by simpa using hws, ?_, ?_, fun _ ↦ ⟨?_, ?_, ?_, ?_, ?_⟩⟩ <;>
                · rintro rfl
                  cases htoken
            rw [List.cons_append, parse, step_atom hatom fun _ ↦ ⟨hch.1, hch.2.1⟩]
            dsimp only
            rw [ih hbrackets htext hsize, htokens]

end Receiver

/-! ## Texts that are written -/

section

variable {text text' rest : Bytes} {tokens tokens' : List Token}

/-- An argument ends before it. -/
def Separates (rest : Bytes) : Prop :=
  ∀ buf, plainTokens buf rest = pending buf ++ plainTokens [] rest

theorem separates_nil : Separates [] := fun buf ↦ (List.append_nil (pending buf)).symm

theorem separates_symbol {ch : UInt8} {token : Token} (h : Token.ofByte ch = some token)
    (rest : Bytes) : Separates (ch :: rest) := by
  intro buf
  simp only [plainTokens, h]
  rfl

theorem separates_blank {ch : UInt8} (h : isAsciiWhitespace ch = true) (rest : Bytes) :
    Separates (ch :: rest) := by
  have hsymbol : Token.ofByte ch = none := by
    cases htoken : Token.ofByte ch with
    | none => rfl
    | some token =>
        rcases Token.ofByte_cases htoken with ⟨rfl, -⟩ | ⟨rfl, -⟩ | ⟨rfl, -⟩ | ⟨rfl, -⟩ |
          ⟨rfl, -⟩ | ⟨rfl, -⟩ | ⟨rfl, -⟩ <;> cases h
  intro buf
  simp only [plainTokens, hsymbol, h, if_true]
  rfl

/-- A text that is some tokens, before anything that ends an argument. -/
structure Written (text : Bytes) (tokens : List Token) : Prop where
  plain : ∀ ch ∈ text, IsPlainByte ch
  read : ∀ rest, Separates rest → plainTokens [] (text ++ rest) = tokens ++ plainTokens [] rest

theorem Written.nil : Written [] [] where
  plain := by simp
  read _ _ := rfl

theorem plainTokens_name (buf : Bytes) {value : Bytes} (h : ∀ ch ∈ value, IsNameByte ch)
    (rest : Bytes) : plainTokens buf (value ++ rest) = plainTokens (buf ++ value) rest := by
  induction value generalizing buf with
  | nil => rw [List.nil_append, List.append_nil]
  | cons ch value ih =>
      obtain ⟨⟨-, hsymbol, hws⟩, hvalue⟩ := List.forall_mem_cons.mp h
      rw [List.cons_append, plainTokens]
      simp only [hsymbol, hws, Bool.false_eq_true, if_false]
      rw [ih (buf ++ [ch]) hvalue, List.append_assoc]
      rfl

/-- An atom. -/
theorem Written.name {value : Bytes} (hne : value ≠ []) (h : ∀ ch ∈ value, IsNameByte ch) :
    Written value [.argument value] where
  plain ch hch := (h ch hch).1
  read rest hrest := by
    rw [plainTokens_name [] h, hrest, List.nil_append, pending, if_neg hne]

theorem isPlainByte_of_symbol {ch : UInt8} {token : Token} (h : Token.ofByte ch = some token) :
    IsPlainByte ch := by
  refine ⟨?_, ?_, ?_⟩ <;>
    · rintro rfl
      cases h

/-- A token between two texts. -/
theorem Written.symbol {ch : UInt8} {token : Token} (h : Written text tokens)
    (hch : Token.ofByte ch = some token) (h' : Written text' tokens') :
    Written (text ++ ch :: text') (tokens ++ token :: tokens') where
  plain := by
    simp only [List.mem_append, List.mem_cons]
    rintro c (hc | rfl | hc)
    · exact h.plain c hc
    · exact isPlainByte_of_symbol hch
    · exact h'.plain c hc
  read rest hrest := by
    rw [List.append_assoc, List.cons_append, h.read _ (separates_symbol hch _), plainTokens]
    simp only [hch]
    rw [h'.read rest hrest, List.append_assoc]
    rfl

/-- A space between two texts. -/
theorem Written.space (h : Written text tokens) (h' : Written text' tokens') :
    Written (text ++ space :: text') (tokens ++ tokens') where
  plain := by
    simp only [List.mem_append, List.mem_cons]
    rintro c (hc | rfl | hc)
    · exact h.plain c hc
    · decide
    · exact h'.plain c hc
  read rest hrest := by
    rw [List.append_assoc, List.cons_append, h.read _ (separates_blank rfl _),
      List.append_assoc]
    congr 1
    exact h'.read rest hrest

/-- Texts with a byte between them. -/
def separated (sep : UInt8) : List Bytes → Bytes
  | [] => []
  | [text] => text
  | text :: texts => text ++ sep :: separated sep texts

/-- Tokens with dots between them. -/
def dotted : List (List Token) → List Token
  | [] => []
  | [tokens] => tokens
  | tokens :: rest => tokens ++ .dot :: dotted rest

theorem Written.spaced {α : Type} {toText : α → Bytes} {toTokens : α → List Token} (as : List α)
    (h : ∀ a ∈ as, Written (toText a) (toTokens a)) :
    Written (separated Ascii.space (as.map toText)) (as.flatMap toTokens) := by
  induction as with
  | nil => exact .nil
  | cons a as ih =>
      obtain ⟨ha, has⟩ := List.forall_mem_cons.mp h
      cases as with
      | nil => simpa [separated] using ha
      | cons b as => exact ha.space (ih has)

theorem Written.dotted {α : Type} {toText : α → Bytes} {toTokens : α → List Token} (as : List α)
    (h : ∀ a ∈ as, Written (toText a) (toTokens a)) :
    Written (separated Ascii.dot (as.map toText)) (dotted (as.map toTokens)) := by
  induction as with
  | nil => exact .nil
  | cons a as ih =>
      obtain ⟨ha, has⟩ := List.forall_mem_cons.mp h
      cases as with
      | nil => exact ha
      | cons b as => exact ha.symbol rfl (ih has)

/-- The tokens of all of a text. -/
theorem Written.plainTokens_eq (h : Written text tokens) : plainTokens [] text = tokens := by
  have hread := h.read [] separates_nil
  rw [List.append_nil] at hread
  rw [hread]
  exact List.append_nil tokens

end

end ImapToJmap
