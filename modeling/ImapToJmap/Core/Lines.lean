import ImapToJmap.Core.Announced

/-!
# One line, one answer

A line without `{` has no literal, so its LF ends a request or an error, and the receiver is back
where it began (`Answers`).  Two things go wrong.  An error can come before the LF, so that the rest
of the line is read as the beginning of another one (`Blames` says where); and an LF in front of a
command, or behind `UID`, is passed over (`Swallows`), so that the next line goes on with this one.

`answers_iff`: the lines that are answered are those on which neither happens.
-/

namespace ImapToJmap.Receiver

open Ascii Tracked

variable {T : Type} [CommandParser T]

/-- The receiver takes a line, makes one request or error of it at the LF, and is what it was. -/
def Answers (r : Receiver T) (line : Bytes) : Prop :=
  ∃ result, r.parse line = (result, r, []) ∧ Ends result

/-- A byte that is a token of its own. -/
def IsSymbol (command : T) (ch : UInt8) : Prop :=
  ch = parenOpen ∨ ch = parenClose ∨ CommandParser.tokenizeBrackets command = true ∧
    (ch = bracketOpen ∨ ch = bracketClose ∨ ch = lt ∨ ch = gt ∨ ch = dot)

/-- Where a byte that is not the LF makes an error. -/
def Blames (r : Receiver T) (ch : UInt8) : Prop :=
  match r.state with
  | .tag =>
      -- the tag is not UTF-8, is not followed by a space, or is too long
      (ch = space ∧ r.buf ≠ [] ∧ fromUtf8 r.buf = none) ∨
        (ch ≠ space ∧ isAsciiWhitespace ch = true) ∨
        (isAsciiWhitespace ch = false ∧ 128 ≤ r.buf.length)
  | .command isUid =>
      -- the command is too long, has another character, or is not known
      (isAsciiAlphanumeric ch = true ∧ 15 ≤ r.buf.length) ∨
        (isAsciiAlphanumeric ch = false ∧ isAsciiWhitespace ch = false) ∨
        (isAsciiWhitespace ch = true ∧ r.buf ≠ [] ∧
          eqIgnoreAsciiCase r.buf (asBytes "UID") = false ∧
          CommandParser.parse (T := T) r.buf isUid = none)
  | .argument lastCh =>
      -- the request is too large
      (IsSymbol r.request.command ch ∧
          r.maxRequestSize < r.currentRequestSize + r.buf.length + 1) ∨
        ((isAsciiWhitespace ch = true ∨ ch = quote ∧ isAsciiWhitespace lastCh = true) ∧
          r.maxRequestSize < r.currentRequestSize + r.buf.length)
  | .argumentQuoted escaped =>
      -- the request is too large, or the string too long
      (ch = quote ∧ escaped = false ∧ r.maxRequestSize < r.currentRequestSize + r.buf.length) ∨
        (ch ≠ backslash ∧ (ch = quote → escaped = true) ∧ 1024 ≤ r.buf.length)
  | _ => False

/-- The LF is passed over: there is no command yet. -/
def Swallows (r : Receiver T) : Prop :=
  ∃ isUid, r.state = .command isUid ∧ (r.buf = [] ∨ eqIgnoreAsciiCase r.buf (asBytes "UID") = true)

/-- No byte makes an error, and the LF behind them all is not passed over. -/
def Smooth (r : Receiver T) : Bytes → Prop
  | [] => ¬r.Swallows
  | ch :: rest => ¬r.Blames ch ∧ ∀ r', r.step ch = .ok r' → Smooth r' rest

/-! ## One byte -/

section

variable {r : Receiver T} {ch : UInt8}

/-- A step fails, or leaves a receiver without a literal. -/
def Decided (blamed : Prop) (result : Loop T (Receiver T)) : Prop :=
  (blamed ∧ ∃ r' response, result = .error (r', .error (.error response))) ∨
    (¬blamed ∧ ∃ r', result = .ok r' ∧ IsPlain r'.state)

theorem decided_errorReset {blamed : Prop} (h : blamed) (r : Receiver T) (message : String) :
    Decided blamed (r.errorReset message) := .inl ⟨h, _, _, rfl⟩

omit [CommandParser T] in
theorem decided_ok {blamed : Prop} (h : ¬blamed) {r : Receiver T} (hplain : IsPlain r.state) :
    Decided blamed (.ok r) := .inr ⟨h, r, rfl, hplain⟩

/-- An argument is pushed exactly if it is within the limit. -/
theorem pushArgument_limit (hsize : r.currentRequestSize ≤ r.maxRequestSize) (inQuote : Bool) :
    (r.maxRequestSize < r.currentRequestSize + r.buf.length ∧
      ∃ message, r.pushArgument inQuote = errorReset { r with
        currentRequestSize := r.currentRequestSize + r.buf.length } message) ∨
    (r.currentRequestSize + r.buf.length ≤ r.maxRequestSize ∧
      ∃ tokens, r.pushArgument inQuote = .ok { r with
        currentRequestSize := r.currentRequestSize + r.buf.length
        request := { r.request with tokens := tokens }
        buf := [] }) := by
  unfold pushArgument
  split
  · dsimp only
    split
    · rename_i hlt
      exact .inl ⟨hlt, _, rfl⟩
    · rename_i hle
      exact .inr ⟨not_lt.mp hle, _, rfl⟩
  · rename_i hbuf
    have hbuf : r.buf = [] := by simpa using hbuf
    have hlength : r.buf.length = 0 := by rw [hbuf]; rfl
    rw [hlength]
    have hr : ∀ tokens, ({ r with request := { r.request with tokens := tokens } } : Receiver T) =
        { r with request := { r.request with tokens := tokens }, buf := [] } := by
      intro tokens
      rw [← hbuf]
    split
    · exact .inr ⟨hsize, _, congrArg Except.ok (hr _)⟩
    · exact .inr ⟨hsize, r.request.tokens, congrArg Except.ok (hr _)⟩

theorem decided_stepTag (hstate : r.state = .tag) (hlf : ch ≠ lf) :
    Decided (r.Blames ch) (r.stepTag ch) := by
  have hplain : IsPlain r.state := hstate ▸ trivial
  unfold stepTag Blames
  simp only [hstate]
  split
  · rename_i hspace
    subst hspace
    split
    · rename_i hbuf
      split
      · rename_i tag htag
        refine decided_ok ?_ trivial
        simp [htag, isAsciiWhitespace]
      · rename_i hnone
        exact decided_errorReset (.inl ⟨rfl, hbuf, hnone⟩) _ _
    · rename_i hbuf
      refine decided_ok ?_ hplain
      simp [not_not.mp hbuf]
  · rename_i hspace
    split
    · rename_i hchar
      have hchar : isAsciiWhitespace ch = false := by simpa using hchar
      split
      · rename_i hlt
        refine decided_ok ?_ trivial
        simp [hspace, hchar, hlt]
      · rename_i hge
        exact decided_errorReset (.inr (.inr ⟨hchar, not_lt.mp hge⟩)) _ _
    · rename_i hblank
      have hblank : isAsciiWhitespace ch = true := by simpa using hblank
      exact decided_errorReset (.inr (.inl ⟨hspace, hblank⟩)) _ _

theorem decided_stepCommand {isUid : Bool} (hstate : r.state = .command isUid) (hlf : ch ≠ lf) :
    Decided (r.Blames ch) (r.stepCommand isUid ch) := by
  have hplain : IsPlain r.state := hstate ▸ trivial
  unfold stepCommand Blames
  simp only [hstate]
  split
  · rename_i hword
    split
    · rename_i hlt
      refine decided_ok ?_ trivial
      simp [hword, hlt, not_whitespace_of_alphanumeric hword]
    · rename_i hge
      exact decided_errorReset (.inl ⟨hword, not_lt.mp hge⟩) _ _
  · rename_i hword
    have hword : isAsciiAlphanumeric ch = false := by simpa using hword
    split
    · rename_i hspace
      split
      · rename_i hbuf
        split
        · rename_i huid
          have huid : eqIgnoreAsciiCase r.buf (asBytes "UID") = false := by simpa using huid
          split
          · rename_i command hcommand
            refine decided_ok ?_ trivial
            simp [hword, hspace, hcommand]
          · rename_i hnone
            exact decided_errorReset (.inr (.inr ⟨hspace, hbuf, huid, hnone⟩)) _ _
        · rename_i huid
          refine decided_ok ?_ trivial
          simp_all
      · rename_i hbuf
        refine decided_ok ?_ hplain
        simp [hword, hspace, not_not.mp hbuf]
    · rename_i hspace
      have hspace : isAsciiWhitespace ch = false := by simpa using hspace
      exact decided_errorReset (.inr (.inl ⟨hword, hspace⟩)) _ _

theorem IsSymbol.not_whitespace {command : T} (h : IsSymbol command ch) :
    isAsciiWhitespace ch = false ∧ ch ≠ quote := by
  rcases h with rfl | rfl | ⟨-, rfl | rfl | rfl | rfl | rfl⟩
  all_goals exact ⟨rfl, by decide⟩

/-- A byte that is a token of its own. -/
theorem decided_symbol {lastCh : UInt8} (hstate : r.state = .argument lastCh)
    (hsize : r.currentRequestSize ≤ r.maxRequestSize) (hsymbol : IsSymbol r.request.command ch)
    (token : Token) :
    Decided (r.Blames ch) (r.pushArgument false >>= fun r ↦ r.pushToken token) := by
  obtain ⟨hblank, hquote⟩ := hsymbol.not_whitespace
  have hblames : r.Blames ch ↔ r.maxRequestSize < r.currentRequestSize + r.buf.length + 1 := by
    unfold Blames
    simp only [hstate]
    simp [hsymbol, hblank, hquote]
  rcases pushArgument_limit hsize false with ⟨hlt, message, hpush⟩ | ⟨hle, tokens, hpush⟩
  · rw [hpush]
    exact decided_errorReset (hblames.mpr (Nat.lt_succ_of_lt hlt)) _ _
  · rw [hpush]
    show Decided _ (pushToken _ token)
    unfold pushToken
    dsimp only
    split
    · rename_i hlt
      exact decided_errorReset (hblames.mpr hlt) _ _
    · rename_i hge
      refine decided_ok (mt hblames.mp hge) ?_
      show IsPlain r.state
      rw [hstate]
      trivial

/-- A byte that only ends the argument before it. -/
theorem decided_ending {lastCh : UInt8} (hstate : r.state = .argument lastCh)
    (hsize : r.currentRequestSize ≤ r.maxRequestSize)
    (hends : isAsciiWhitespace ch = true ∨ ch = quote ∧ isAsciiWhitespace lastCh = true)
    {state : State} (hplain : IsPlain state) :
    Decided (r.Blames ch) (r.pushArgument false >>= fun r ↦ .ok { r with state := state }) := by
  have hsymbol : ¬IsSymbol r.request.command ch := by
    intro h
    obtain ⟨hblank, hquote⟩ := h.not_whitespace
    rcases hends with hends | ⟨hends, -⟩
    · rw [hblank] at hends
      cases hends
    · exact hquote hends
  have hblames : r.Blames ch ↔ r.maxRequestSize < r.currentRequestSize + r.buf.length := by
    unfold Blames
    simp only [hstate]
    simp only [hsymbol, false_and, false_or, hends, true_and]
  rcases pushArgument_limit hsize false with ⟨hlt, message, hpush⟩ | ⟨hle, tokens, hpush⟩
  · rw [hpush]
    exact decided_errorReset (hblames.mpr hlt) _ _
  · rw [hpush]
    exact decided_ok (mt hblames.mp (not_lt.mpr hle)) hplain

theorem decided_stepArgument {lastCh : UInt8} (hstate : r.state = .argument lastCh)
    (hsize : r.currentRequestSize ≤ r.maxRequestSize) (hlf : ch ≠ lf) (hbrace : ch ≠ braceOpen) :
    Decided (r.Blames ch) (r.stepArgument lastCh ch) := by
  have hsymbol : IsSymbol r.request.command ch → ∀ token,
      Decided (r.Blames ch) (r.pushArgument false >>= fun r ↦ r.pushToken token) :=
    decided_symbol hstate hsize
  unfold stepArgument
  extract_lets brackets
  refine iteInduction (fun h ↦ ?_) fun hquote ↦ iteInduction (fun h ↦ absurd h.1 hbrace) fun _ ↦
    iteInduction (fun h ↦ hsymbol (.inl h) _) fun h₁ ↦
    iteInduction (fun h ↦ hsymbol (.inr (.inl h)) _) fun h₂ ↦
    iteInduction (fun h ↦ hsymbol (.inr (.inr ⟨h.2, .inl h.1⟩)) _) fun h₃ ↦
    iteInduction (fun h ↦ hsymbol (.inr (.inr ⟨h.2, .inr (.inl h.1)⟩)) _) fun h₄ ↦
    iteInduction (fun h ↦ hsymbol (.inr (.inr ⟨h.2, .inr (.inr (.inl h.1))⟩)) _) fun h₅ ↦
    iteInduction (fun h ↦ hsymbol (.inr (.inr ⟨h.2, .inr (.inr (.inr (.inl h.1)))⟩)) _) fun h₆ ↦
    iteInduction (fun h ↦ hsymbol (.inr (.inr ⟨h.2, .inr (.inr (.inr (.inr h.1)))⟩)) _) fun h₇ ↦
    iteInduction (fun h ↦ absurd h hlf) fun _ ↦ iteInduction (fun h ↦ ?_) fun hblank ↦ ?_
  · exact decided_ending hstate hsize (.inr h) trivial
  · exact decided_ending hstate hsize (.inl h) trivial
  · -- the byte goes on with an argument
    refine decided_ok ?_ trivial
    unfold Blames
    simp only [hstate]
    rintro (⟨hsymbol, -⟩ | ⟨h | h, -⟩)
    · rcases hsymbol with h | h | ⟨hbrackets, h | h | h | h | h⟩
      · exact h₁ h
      · exact h₂ h
      · exact h₃ ⟨h, hbrackets⟩
      · exact h₄ ⟨h, hbrackets⟩
      · exact h₅ ⟨h, hbrackets⟩
      · exact h₆ ⟨h, hbrackets⟩
      · exact h₇ ⟨h, hbrackets⟩
    · exact hblank h
    · exact hquote h

theorem decided_stepQuoted {escaped : Bool} (hstate : r.state = .argumentQuoted escaped)
    (hsize : r.currentRequestSize ≤ r.maxRequestSize) (hlf : ch ≠ lf) :
    Decided (r.Blames ch) (r.stepQuoted escaped ch) := by
  have hbackslash : quote ≠ backslash := by decide
  unfold stepQuoted
  split
  · rename_i hquote
    subst hquote
    cases escaped with
    | false =>
        have hblames : r.Blames quote ↔ r.maxRequestSize < r.currentRequestSize + r.buf.length := by
          unfold Blames
          simp [hstate]
        show Decided _ (r.pushArgument true >>= fun r ↦ .ok { r with state := .argument space })
        rcases pushArgument_limit hsize true with ⟨hlt, message, hpush⟩ | ⟨hle, tokens, hpush⟩
        · rw [hpush]
          exact decided_errorReset (hblames.mpr hlt) _ _
        · rw [hpush]
          exact decided_ok (mt hblames.mp (not_lt.mpr hle)) trivial
    | true =>
        have hblames : r.Blames quote ↔ 1024 ≤ r.buf.length := by
          unfold Blames
          simp [hstate, hbackslash]
        show Decided _ (if r.buf.length < 1024 then _ else _)
        split
        · rename_i hlt
          exact decided_ok (mt hblames.mp (not_le.mpr hlt)) trivial
        · rename_i hge
          exact decided_errorReset (hblames.mpr (not_lt.mp hge)) _ _
  · rename_i hquote
    split
    · rename_i hback
      refine decided_ok ?_ trivial
      unfold Blames
      simp [hstate, hback, Ne.symm hbackslash]
    · rename_i hback
      have hblames : r.Blames ch ↔ 1024 ≤ r.buf.length := by
        unfold Blames
        simp [hstate, hquote, hback]
      split
      · rename_i hlt
        exact decided_ok (mt hblames.mp (not_le.mpr hlt)) trivial
      · rename_i hge
        exact decided_errorReset (hblames.mpr (not_lt.mp hge)) _ _

/-- **A byte that is neither LF nor a brace** makes an error exactly where `Blames` says so. -/
theorem decided_step (hplain : IsPlain r.state) (hsize : r.currentRequestSize ≤ r.maxRequestSize)
    (hlf : ch ≠ lf) (hbrace : ch ≠ braceOpen) : Decided (r.Blames ch) (r.step ch) := by
  unfold step
  split
  · rename_i hstate
    have hblames : ¬r.Blames ch := by
      unfold Blames
      simp [hstate]
    unfold stepStart
    split
    · exact decided_ok hblames trivial
    · exact decided_ok hblames hplain
  · rename_i hstate
    exact decided_stepTag hstate hlf
  · rename_i isUid hstate
    exact decided_stepCommand hstate hlf
  · rename_i lastCh hstate
    exact decided_stepArgument hstate hsize hlf hbrace
  · rename_i escaped hstate
    exact decided_stepQuoted hstate hsize hlf
  · rename_i hstate
    rw [hstate] at hplain
    exact hplain.elim
  · rename_i hstate
    rw [hstate] at hplain
    exact hplain.elim
  · rename_i hstate
    rw [hstate] at hplain
    exact hplain.elim

/-! ## The LF -/

/-- The LF ends a request, or is passed over. -/
theorem step_lf (hplain : IsPlain r.state) (hsize : r.currentRequestSize ≤ r.maxRequestSize) :
    (r.Swallows ∧ ∃ r', r.step lf = .ok r') ∨
      (¬r.Swallows ∧ ∃ r' result, r.step lf = .error (r', result) ∧ Ends result) := by
  unfold step
  split
  · rename_i hstate
    refine .inr ⟨?_, _, _, rfl, trivial⟩
    rintro ⟨isUid, hcommand, -⟩
    rw [hstate] at hcommand
    cases hcommand
  · rename_i hstate
    refine .inr ⟨?_, _, _, rfl, trivial⟩
    rintro ⟨isUid, hcommand, -⟩
    rw [hstate] at hcommand
    cases hcommand
  · rename_i isUid hstate
    have hswallows : r.Swallows ↔ r.buf = [] ∨ eqIgnoreAsciiCase r.buf (asBytes "UID") = true := by
      constructor
      · rintro ⟨_, -, h⟩
        exact h
      · intro h
        exact ⟨isUid, hstate, h⟩
    rw [hswallows]
    unfold stepCommand
    rw [if_neg (by decide), if_pos (by decide)]
    split
    · rename_i hbuf
      split
      · rename_i huid
        have huid : eqIgnoreAsciiCase r.buf (asBytes "UID") = false := by simpa using huid
        right
        constructor
        · rw [huid]
          simp [hbuf]
        · split
          · exact ⟨_, _, rfl, trivial⟩
          · exact ⟨_, _, rfl, trivial⟩
      · rename_i huid
        have huid : eqIgnoreAsciiCase r.buf (asBytes "UID") = true := by simpa using huid
        exact .inl ⟨.inr huid, _, rfl⟩
    · rename_i hbuf
      exact .inl ⟨.inl (not_not.mp hbuf), _, rfl⟩
  · rename_i lastCh hstate
    right
    constructor
    · rintro ⟨isUid, hcommand, -⟩
      rw [hstate] at hcommand
      cases hcommand
    · show ∃ r' result, (r.pushArgument false >>= fun r ↦ r.finish) = .error (r', result) ∧ _
      rcases pushArgument_limit hsize false with ⟨-, message, hpush⟩ | ⟨-, tokens, hpush⟩
      · rw [hpush]
        exact ⟨_, _, rfl, trivial⟩
      · rw [hpush]
        exact ⟨_, _, rfl, trivial⟩
  · rename_i escaped hstate
    refine .inr ⟨?_, _, _, rfl, trivial⟩
    rintro ⟨isUid, hcommand, -⟩
    rw [hstate] at hcommand
    cases hcommand
  · rename_i hstate
    rw [hstate] at hplain
    exact hplain.elim
  · rename_i hstate
    rw [hstate] at hplain
    exact hplain.elim
  · rename_i hstate
    rw [hstate] at hplain
    exact hplain.elim

end

/-! ## A whole line -/

section

variable {fresh r : Receiver T} {n : ℕ} {body : Bytes}

/-- The line is answered from a receiver that has read the beginning of it. -/
theorem parse_line (h : Intact fresh ⟨r, n⟩) (hplain : IsPlain r.state) (hlf : lf ∉ body)
    (hbrace : braceOpen ∉ body) :
    (∃ result, r.parse (body ++ [lf]) = (result, fresh, []) ∧ Ends result) ↔ r.Smooth body := by
  induction body generalizing r with
  | nil =>
      have hturned : Turned fresh n (r.step lf) := h.turned
      rw [List.nil_append, parse, Smooth]
      rcases step_lf hplain h.size with
        ⟨hswallows, r', hstep⟩ | ⟨hswallows, r', result, hstep, hends⟩
      · rw [hstep]
        refine iff_of_false ?_ (not_not.mpr hswallows)
        rintro ⟨result, hparse, hends⟩
        obtain ⟨rfl, -⟩ := Prod.mk.inj hparse
        exact hends
      · rw [hstep]
        rw [hstep] at hturned
        refine iff_of_true ⟨result, ?_, hends⟩ hswallows
        obtain rfl : r' = fresh := by
          cases result with
          | ok request => exact hturned
          | error e =>
              cases e with
              | error response => exact hturned
              | needsLiteral size => exact hends.elim
              | needsMoreData => exact hends.elim
        rfl
  | cons ch body ih =>
      obtain ⟨hch, hlf'⟩ := not_or.mp (mt List.mem_cons.mpr hlf)
      obtain ⟨hch', hbrace'⟩ := not_or.mp (mt List.mem_cons.mpr hbrace)
      have hturned : Turned fresh n (r.step ch) := h.turned
      rw [List.cons_append, parse, Smooth]
      rcases decided_step hplain h.size (Ne.symm hch) (Ne.symm hch') with
        ⟨hblames, r', response, hstep⟩ | ⟨hblames, r', hstep, hplain'⟩
      · rw [hstep]
        refine iff_of_false ?_ fun hsmooth ↦ hsmooth.1 hblames
        rintro ⟨result, hparse, -⟩
        have hrest := (Prod.mk.inj (Prod.mk.inj hparse).2).2
        simp at hrest
      · rw [hstep] at hturned ⊢
        have hintact : Intact fresh ⟨r', n⟩ := by
          have hne : ∀ size nonSync, r'.state ≠ .literalSeek size nonSync := by
            intro size nonSync hstate
            rw [hstate] at hplain'
            exact hplain'
          have hannounced : Intact fresh (announce n r') := hturned
          rwa [announce_of_ne hne] at hannounced
        show (∃ result, r'.parse (body ++ [lf]) = (result, fresh, []) ∧ Ends result) ↔ _
        rw [ih hintact hplain' hlf' hbrace']
        constructor
        · intro hsmooth
          refine ⟨hblames, fun r'' hr'' ↦ ?_⟩
          obtain rfl := Except.ok.inj hr''
          exact hsmooth
        · intro hsmooth
          exact hsmooth.2 r' rfl

end

/-- A receiver in its start state, for IMAP or for ManageSieve. -/
def Starting (T : Type) [CommandParser T] (maxRequestSize : ℕ) (managesieve : Bool) : Receiver T :=
  (withMaxRequestSize maxRequestSize).withStartState
    (if managesieve then .command false else .start)

/-- **One line, one answer**: the LF of a line without `{` ends a request or an error, the only one
and with nothing left, exactly if no byte before it makes an error and the LF is not passed over. -/
theorem answers_iff {maxRequestSize : ℕ} {managesieve : Bool} {body : Bytes} (hlf : lf ∉ body)
    (hbrace : braceOpen ∉ body) :
    Answers (Starting T maxRequestSize managesieve) (body ++ [lf]) ↔
      (Starting T maxRequestSize managesieve).Smooth body := by
  have hplain : IsPlain (Starting T maxRequestSize managesieve).state := by
    cases managesieve with
    | false => trivial
    | true => trivial
  have hintact : Intact (Starting T maxRequestSize managesieve)
      ⟨Starting T maxRequestSize managesieve, 0⟩ := by
    refine intact_of_plain ?_ (Nat.zero_le _) hplain 0
    rfl
  exact parse_line hintact hplain hlf hbrace

/-- `a NOOP` -/
theorem answers_noop :
    Answers (Starting Command 100 false) (asBytes "a NOOP" ++ [lf]) ↔
      (Starting Command 100 false).Smooth (asBytes "a NOOP") :=
  answers_iff (by decide +kernel) (by decide +kernel)

/-- The CR behind a tag makes an error before the LF does; the LF behind `UID` is passed over, as is
that of an empty line of ManageSieve. -/
theorem answers_fails :
    ¬Answers (Starting Command 100 false) (asBytes "a\r\n") ∧
      ¬Answers (Starting Command 100 false) (asBytes "a UID\n") ∧
        ¬Answers (Starting Command 100 true) (asBytes "\n") := by
  have hrest : ((Starting Command 100 false).parse (asBytes "a\r\n")).2.2 ≠ [] := by decide +kernel
  have huid : ((Starting Command 100 false).parse (asBytes "a UID\n")).1 =
    .error .needsMoreData := by
    decide +kernel
  have hempty : ((Starting Command 100 true).parse (asBytes "\n")).1 = .error .needsMoreData := by
    decide +kernel
  refine ⟨?_, ?_, ?_⟩
  · rintro ⟨result, hparse, -⟩
    rw [hparse] at hrest
    exact hrest rfl
  · rintro ⟨result, hparse, hends⟩
    rw [hparse] at huid
    change result = _ at huid
    subst huid
    exact hends
  · rintro ⟨result, hparse, hends⟩
    rw [hparse] at hempty
    change result = _ at hempty
    subst hempty
    exact hends

end ImapToJmap.Receiver
