import ImapToJmap.Wire.Basic

/-!
# Lists of values on the wire

What a client makes of a response beyond its lines: atoms and numbers, `NIL`, strings, quoted or as
literals, and lists of these in parentheses, to any depth.  An atom may have brackets, in which any
byte may stand, and a literal may have a tilde.

The client goes over the bytes with a `Reader`, which keeps the lists that are open and the token
that it is in.  A writer shows with `ReadsAs` that its bytes are taken for certain values wherever
the reader is between two tokens; `Settles` is that it is between two tokens again, while an atom
may go on until the byte behind it.  The rules say how these compose: bytes one after the other,
with a space between them, and in parentheses.
-/

namespace ImapToJmap.Wire

open Ascii

/-- A value. -/
inductive Tree where
  | nil
  | number (n : ℕ)
  | atom (b : Bytes)
  | string (b : Bytes)
  | list (items : List Tree)

/-- An atom that is `NIL` or a numeral stands for that. -/
def Tree.ofAtom (b : Bytes) : Tree :=
  if b = [78, 73, 76] then .nil
  else if b.all isAsciiDigit then .number (ofDecimal b)
  else .atom b

/-- What a reader is in. -/
inductive Token where
  | between
  | atom (b : Bytes)
  | /-- The brackets of an atom. -/
    brackets (b : Bytes)
  | quoted (b : Bytes)
  | /-- Behind the backslash of a quoted string. -/
    escaped (b : Bytes)
  | /-- The size of a literal. -/
    size (digits : Bytes)
  | sizeEnd (n : ℕ)
  | sizeCr (n : ℕ)
  | /-- A literal of which so many bytes and one more are to come. -/
    literal (n : ℕ) (b : Bytes)

/-- The items of the innermost list that is open, and those of the lists around it. -/
structure Reader where
  items : List Tree
  outer : List (List Tree)
  token : Token

namespace Reader

def within (r : Reader) (token : Token) : Reader := { r with token := token }

/-- Values at the end of the innermost list. -/
def push (r : Reader) (trees : List Tree) : Reader := ⟨r.items ++ trees, r.outer, .between⟩

/-- The end of an atom. -/
def settle (r : Reader) : Option Reader :=
  match r.token with
  | .between => some r
  | .atom b => some (r.push [.ofAtom b])
  | _ => none

/-- A parenthesis that opens a list. -/
def opened (r : Reader) : Reader := ⟨[], r.items :: r.outer, .between⟩

/-- A parenthesis that closes one. -/
def closed (r : Reader) : Option Reader :=
  match r.outer with
  | [] => none
  | items :: outer => some ⟨items ++ [.list r.items], outer, .between⟩

/-- A byte between two tokens, or at the end of an atom. -/
def delimiter (r : Reader) (c : UInt8) : Option Reader :=
  if c = space then r.settle
  else if c = parenOpen then r.settle.map opened
  else r.settle.bind closed

def IsDelimiter (c : UInt8) : Prop := c = space ∨ c = parenOpen ∨ c = parenClose

instance (c : UInt8) : Decidable (IsDelimiter c) := inferInstanceAs (Decidable (_ ∨ _))

/-- One byte. -/
def step (r : Reader) (c : UInt8) : Option Reader :=
  match r.token with
  | .between =>
      if IsDelimiter c then r.delimiter c
      else if c = quote then some (r.within (.quoted []))
      else if c = braceOpen then some (r.within (.size []))
      else some (r.within (.atom [c]))
  | .atom b =>
      if IsDelimiter c then r.delimiter c
      else if c = bracketOpen then some (r.within (.brackets (b ++ [c])))
      else if c = braceOpen ∧ b = [126] then some (r.within (.size []))
      else if c = quote ∨ c = braceOpen then none
      else some (r.within (.atom (b ++ [c])))
  | .brackets b =>
      some (r.within (if c = bracketClose then .atom (b ++ [c]) else .brackets (b ++ [c])))
  | .quoted b =>
      if c = quote then some (r.push [.string b])
      else some (r.within (if c = backslash then .escaped b else .quoted (b ++ [c])))
  | .escaped b => some (r.within (.quoted (b ++ [c])))
  | .size digits =>
      if isAsciiDigit c then some (r.within (.size (digits ++ [c])))
      else if c = braceClose ∧ digits ≠ [] then some (r.within (.sizeEnd (ofDecimal digits)))
      else none
  | .sizeEnd n => if c = cr then some (r.within (.sizeCr n)) else none
  | .sizeCr 0 => if c = lf then some (r.push [.string []]) else none
  | .sizeCr (n + 1) => if c = lf then some (r.within (.literal n [])) else none
  | .literal 0 b => some (r.push [.string (b ++ [c])])
  | .literal (n + 1) b => some (r.within (.literal n (b ++ [c])))

/-- One byte after the other. -/
def run (r : Reader) (b : Bytes) : Option Reader := b.foldlM step r

@[simp] theorem run_nil (r : Reader) : r.run [] = some r := rfl

theorem run_cons (r : Reader) (c : UInt8) (b : Bytes) :
    r.run (c :: b) = (r.step c).bind fun r ↦ r.run b := rfl

theorem run_append (r : Reader) (a b : Bytes) :
    r.run (a ++ b) = (r.run a).bind fun r ↦ r.run b := List.foldlM_append

theorem run_cons_of_step {r r' : Reader} {c : UInt8} (h : r.step c = some r') (b : Bytes) :
    r.run (c :: b) = r'.run b := by
  rw [run_cons, h, Option.bind_some]

theorem push_push (r : Reader) (x y : List Tree) : (r.push x).push y = r.push (x ++ y) := by
  rw [push, push, push, List.append_assoc]

/-- A reader that can end what it is in goes on as if it had. -/
theorem step_of_settle {r r' : Reader} (h : r.settle = some r') {c : UInt8} (hc : IsDelimiter c) :
    r.step c = r'.step c := by
  obtain ⟨items, outer, token⟩ := r
  cases token with
  | between =>
      obtain rfl := Option.some.inj h
      rfl
  | atom b =>
      obtain rfl := Option.some.inj h
      show (if _ then _ else _) = (if _ then _ else _)
      rw [if_pos hc, if_pos hc]
      rfl
  | _ => cases h

end Reader

/-! ## What bytes are read as -/

/-- Between two tokens, the bytes are read as the values and leave the reader between two tokens. -/
def Settles (b : Bytes) (trees : List Tree) : Prop :=
  ∀ r : Reader, r.token = .between → r.run b = some (r.push trees)

/-- Between two tokens, the bytes are read as the values, of which the last may be an atom that has
not ended. -/
def ReadsAs (b : Bytes) (trees : List Tree) : Prop :=
  ∀ r : Reader, r.token = .between → ∃ r', r.run b = some r' ∧ r'.settle = some (r.push trees)

section

variable {a b : Bytes} {x y : List Tree}

theorem Settles.reads (h : Settles b x) : ReadsAs b x :=
  fun r hr ↦ ⟨_, h r hr, rfl⟩

theorem settles_nil : Settles [] [] := by
  rintro ⟨items, outer, token⟩ rfl
  exact congrArg some (congrArg (Reader.mk · outer .between) (List.append_nil items).symm)

theorem Settles.append (ha : Settles a x) (hb : Settles b y) : Settles (a ++ b) (x ++ y) := by
  intro r hr
  rw [Reader.run_append, ha r hr, Option.bind_some, hb _ rfl, Reader.push_push]

theorem Settles.append_reads (ha : Settles a x) (hb : ReadsAs b y) : ReadsAs (a ++ b) (x ++ y) := by
  intro r hr
  obtain ⟨r', hrun, hsettle⟩ := hb (r.push x) rfl
  refine ⟨r', ?_, Reader.push_push r x y ▸ hsettle⟩
  rw [Reader.run_append, ha r hr, Option.bind_some, hrun]

/-- A space ends an atom. -/
theorem ReadsAs.settles_space (h : ReadsAs b x) : Settles (b ++ [space]) x := by
  intro r hr
  obtain ⟨r', hrun, hsettle⟩ := h r hr
  rw [Reader.run_append, hrun, Option.bind_some, Reader.run_cons,
    Reader.step_of_settle hsettle (.inl rfl)]
  rfl

/-- Values with a space between them. -/
theorem ReadsAs.append_space (ha : ReadsAs a x) (hb : ReadsAs b y) :
    ReadsAs (a ++ space :: b) (x ++ y) := by
  rw [List.append_cons]
  exact ha.settles_space.append_reads hb

/-- Pieces with a space between any two. -/
def spaced : List Bytes → Bytes
  | [] => []
  | [b] => b
  | b :: c :: bs => b ++ space :: spaced (c :: bs)

theorem reads_spaced {bs : List Bytes} {xs : List (List Tree)} (h : List.Forall₂ ReadsAs bs xs) :
    ReadsAs (spaced bs) xs.flatten := by
  induction h with
  | nil => exact settles_nil.reads
  | @cons b x bs xs hb hbs ih =>
      cases hbs with
      | nil => rwa [List.flatten_cons, List.flatten_nil, List.append_nil]
      | cons _ _ => exact hb.append_space ih

theorem settles_flatten {bs : List Bytes} {xs : List (List Tree)} (h : List.Forall₂ Settles bs xs) :
    Settles bs.flatten xs.flatten := by
  induction h with
  | nil => exact settles_nil
  | cons hb _ ih => exact hb.append ih

/-- A list. -/
theorem ReadsAs.list (h : ReadsAs b x) : Settles (parenOpen :: b ++ [parenClose]) [.list x] := by
  intro r hr
  obtain ⟨r', hrun, hsettle⟩ := h r.opened rfl
  have hopen : r.step parenOpen = some r.opened := by
    obtain ⟨items, outer, token⟩ := r
    obtain rfl : token = .between := hr
    rfl
  rw [List.cons_append, Reader.run_cons_of_step hopen, Reader.run_append, hrun, Option.bind_some,
    Reader.run_cons, Reader.step_of_settle hsettle (.inr (.inr rfl))]
  rfl

/-! ### Tokens -/

/-- A byte that can stand in an atom, outside its brackets. -/
def IsAtomByte (c : UInt8) : Prop :=
  ¬Reader.IsDelimiter c ∧ c ≠ quote ∧ c ≠ braceOpen ∧ c ≠ bracketOpen

instance (c : UInt8) : Decidable (IsAtomByte c) := inferInstanceAs (Decidable (_ ∧ _))

/-- Bytes that are an atom. -/
def IsAtom (b : Bytes) : Prop := b ≠ [] ∧ ∀ c ∈ b, IsAtomByte c

instance (b : Bytes) : Decidable (IsAtom b) := inferInstanceAs (Decidable (_ ∧ _))

/-- The bytes of an atom that has begun. -/
theorem run_atom {r : Reader} {b : Bytes} (hr : r.token = .atom b) (rest : Bytes)
    (hrest : ∀ c ∈ rest, IsAtomByte c) : r.run rest = some (r.within (.atom (b ++ rest))) := by
  obtain ⟨items, outer, token⟩ := r
  obtain rfl : token = .atom b := hr
  induction rest generalizing b with
  | nil => rw [List.append_nil]; rfl
  | cons c rest ih =>
      obtain ⟨hc, hrest⟩ := List.forall_mem_cons.mp hrest
      have hstep : Reader.step ⟨items, outer, .atom b⟩ c =
          some ⟨items, outer, .atom (b ++ [c])⟩ := by
        show (if _ then _ else if _ then _ else if _ then _ else if _ then _ else _) = _
        rw [if_neg hc.1, if_neg hc.2.2.2, if_neg fun h ↦ hc.2.2.1 h.1,
          if_neg (by simp [hc.2.1, hc.2.2.1])]
        rfl
      rw [Reader.run_cons_of_step hstep, ih hrest, List.append_assoc]
      rfl

theorem run_atom_of_between {r : Reader} (hr : r.token = .between) {b : Bytes} (hb : IsAtom b) :
    r.run b = some (r.within (.atom b)) := by
  obtain ⟨items, outer, token⟩ := r
  obtain rfl : token = .between := hr
  cases b with
  | nil => exact absurd rfl hb.1
  | cons c b =>
      obtain ⟨hc, hrest⟩ := List.forall_mem_cons.mp hb.2
      have hstep : Reader.step ⟨items, outer, .between⟩ c = some ⟨items, outer, .atom [c]⟩ := by
        show (if _ then _ else if _ then _ else if _ then _ else _) = _
        rw [if_neg hc.1, if_neg hc.2.1, if_neg hc.2.2.1]
        rfl
      rw [Reader.run_cons_of_step hstep, run_atom rfl b hrest]
      rfl

theorem reads_atom (hb : IsAtom b) : ReadsAs b [.ofAtom b] :=
  fun _ hr ↦ ⟨_, run_atom_of_between hr hb, rfl⟩

theorem isAtomByte_digit {c : UInt8} (h : isAsciiDigit c = true) : IsAtomByte c := by
  refine ⟨?_, ?_, ?_, ?_⟩
  · rintro (rfl | rfl | rfl)
    · exact absurd h (by decide)
    · exact absurd h (by decide)
    · exact absurd h (by decide)
  · rintro rfl
    exact absurd h (by decide)
  · rintro rfl
    exact absurd h (by decide)
  · rintro rfl
    exact absurd h (by decide)

/-- A numeral. -/
theorem reads_decimal (n : ℕ) : ReadsAs (decimal n) [.number n] := by
  have hdigits : ∀ c ∈ decimal n, isAsciiDigit c = true := fun c ↦ isAsciiDigit_of_mem_decimal
  have hatom : IsAtom (decimal n) := ⟨decimal_ne_nil n, fun c hc ↦ isAtomByte_digit (hdigits c hc)⟩
  have htree : Tree.ofAtom (decimal n) = .number n := by
    have hnil : decimal n ≠ [78, 73, 76] := by
      intro h
      exact absurd (hdigits 78 (h ▸ List.mem_cons_self)) (by decide)
    rw [Tree.ofAtom, if_neg hnil, if_pos (List.all_eq_true.mpr hdigits), ofDecimal_decimal]
  exact htree ▸ reads_atom hatom

theorem run_brackets {r : Reader} {b : Bytes} (hr : r.token = .brackets b) (inside : Bytes)
    (hinside : bracketClose ∉ inside) :
    r.run inside = some (r.within (.brackets (b ++ inside))) := by
  obtain ⟨items, outer, token⟩ := r
  obtain rfl : token = .brackets b := hr
  induction inside generalizing b with
  | nil => rw [List.append_nil]; rfl
  | cons c inside ih =>
      obtain ⟨hc, hinside⟩ := not_or.mp (List.mem_cons.not.mp hinside)
      have hstep : Reader.step ⟨items, outer, .brackets b⟩ c =
          some ⟨items, outer, .brackets (b ++ [c])⟩ := by
        show some (Reader.within _ (if _ then _ else _)) = _
        rw [if_neg (Ne.symm hc)]
        rfl
      rw [Reader.run_cons_of_step hstep, ih hinside, List.append_assoc]
      rfl

/-- An atom with brackets. -/
theorem reads_brackets {name inside after : Bytes} (hname : IsAtom name)
    (hinside : bracketClose ∉ inside) (hafter : ∀ c ∈ after, IsAtomByte c) :
    ReadsAs (name ++ bracketOpen :: (inside ++ bracketClose :: after))
      [.ofAtom (name ++ bracketOpen :: (inside ++ bracketClose :: after))] := by
  intro r hr
  obtain ⟨items, outer, token⟩ := r
  obtain rfl : token = .between := hr
  refine ⟨⟨items, outer, .atom (name ++ bracketOpen :: (inside ++ bracketClose :: after))⟩, ?_,
    rfl⟩
  have hopen : Reader.step ⟨items, outer, .atom name⟩ bracketOpen =
      some ⟨items, outer, .brackets (name ++ [bracketOpen])⟩ := rfl
  have hclose : ∀ b, Reader.step ⟨items, outer, .brackets b⟩ bracketClose =
      some ⟨items, outer, .atom (b ++ [bracketClose])⟩ := fun _ ↦ rfl
  rw [Reader.run_append, run_atom_of_between rfl hname, Option.bind_some]
  show Reader.run ⟨items, outer, .atom name⟩ _ = _
  rw [Reader.run_cons_of_step hopen, Reader.run_append, run_brackets rfl inside hinside,
    Option.bind_some]
  show Reader.run ⟨items, outer, .brackets _⟩ _ = _
  rw [Reader.run_cons_of_step (hclose _), run_atom rfl after hafter]
  simp only [Reader.within, List.append_assoc, List.cons_append, List.nil_append]

/-- The inside of a quoted string, each byte as it is or behind a backslash. -/
theorem run_quoted {r : Reader} {b : Bytes} (hr : r.token = .quoted b) {e : UInt8 → Bytes}
    (text : Bytes)
    (he : ∀ c ∈ text, e c = [c] ∧ c ≠ quote ∧ c ≠ backslash ∨ e c = [backslash, c]) :
    r.run (text.flatMap e) = some (r.within (.quoted (b ++ text))) := by
  obtain ⟨items, outer, token⟩ := r
  obtain rfl : token = .quoted b := hr
  induction text generalizing b with
  | nil => rw [List.append_nil]; rfl
  | cons c text ih =>
      obtain ⟨hc, he⟩ := List.forall_mem_cons.mp he
      have hbyte : Reader.run ⟨items, outer, .quoted b⟩ (e c) =
          some ⟨items, outer, .quoted (b ++ [c])⟩ := by
        rcases hc with ⟨hc, hquote, hbackslash⟩ | hc
        · rw [hc, Reader.run_cons]
          show Option.bind (if _ then _ else some (Reader.within _ (if _ then _ else _))) _ = _
          rw [if_neg hquote, if_neg hbackslash]
          rfl
        · rw [hc]
          rfl
      rw [List.flatMap_cons, Reader.run_append, hbyte, Option.bind_some, ih he,
        List.append_assoc]
      rfl

theorem settles_quoted {e : UInt8 → Bytes} {text : Bytes}
    (he : ∀ c ∈ text, e c = [c] ∧ c ≠ quote ∧ c ≠ backslash ∨ e c = [backslash, c]) :
    Settles (quote :: text.flatMap e ++ [quote]) [.string text] := by
  rintro ⟨items, outer, token⟩ rfl
  have hopen : Reader.step ⟨items, outer, .between⟩ quote = some ⟨items, outer, .quoted []⟩ := rfl
  rw [List.cons_append, Reader.run_cons_of_step hopen, Reader.run_append, run_quoted rfl text he,
    Option.bind_some]
  rfl

/-- The bytes of a literal, of which there is one at least. -/
theorem run_literal {r : Reader} {b : Bytes} (payload : Bytes) (c : UInt8)
    (hr : r.token = .literal payload.length b) :
    r.run (payload ++ [c]) = some (r.push [.string (b ++ payload ++ [c])]) := by
  obtain ⟨items, outer, token⟩ := r
  obtain rfl : token = .literal payload.length b := hr
  induction payload generalizing b with
  | nil => rw [List.append_nil]; rfl
  | cons d payload ih =>
      rw [List.cons_append]
      show Reader.run ⟨items, outer, .literal payload.length (b ++ [d])⟩ (payload ++ [c]) = _
      rw [ih, List.append_assoc b [d], List.singleton_append]
      rfl

theorem run_digits {r : Reader} {b : Bytes} (hr : r.token = .size b) (digits : Bytes)
    (hdigits : ∀ c ∈ digits, isAsciiDigit c = true) :
    r.run digits = some (r.within (.size (b ++ digits))) := by
  obtain ⟨items, outer, token⟩ := r
  obtain rfl : token = .size b := hr
  induction digits generalizing b with
  | nil => rw [List.append_nil]; rfl
  | cons c digits ih =>
      obtain ⟨hc, hdigits⟩ := List.forall_mem_cons.mp hdigits
      have hstep : Reader.step ⟨items, outer, .size b⟩ c =
          some ⟨items, outer, .size (b ++ [c])⟩ := if_pos hc
      rw [Reader.run_cons_of_step hstep, ih hdigits, List.append_assoc]
      rfl

/-- A literal behind its brace. -/
theorem run_size {r : Reader} (hr : r.token = .size []) (payload : Bytes) :
    r.run (decimal payload.length ++ [braceClose, cr, lf] ++ payload) =
      some (r.push [.string payload]) := by
  obtain ⟨items, outer, token⟩ := r
  obtain rfl : token = .size [] := hr
  have hdigits : ∀ c ∈ decimal payload.length, isAsciiDigit c = true :=
    fun c ↦ isAsciiDigit_of_mem_decimal
  have hend : Reader.step ⟨items, outer, .size (decimal payload.length)⟩ braceClose =
      some ⟨items, outer, .sizeEnd payload.length⟩ := by
    rw [Reader.step]
    dsimp only
    rw [if_neg (by decide), if_pos ⟨rfl, decimal_ne_nil _⟩, ofDecimal_decimal]
    rfl
  rw [List.append_assoc, Reader.run_append, run_digits rfl _ hdigits, Option.bind_some]
  show Reader.run ⟨items, outer, .size (decimal payload.length)⟩ _ = _
  rw [List.cons_append, Reader.run_cons_of_step hend]
  rcases List.eq_nil_or_concat payload with rfl | ⟨payload, c, rfl⟩
  · rfl
  · rw [List.concat_eq_append, List.length_append, List.length_singleton]
    show Reader.run ⟨items, outer, .literal payload.length []⟩ (payload ++ [c]) = _
    rw [run_literal payload c rfl]
    rfl

theorem settles_literal (payload : Bytes) :
    Settles (announce payload.length ++ payload) [.string payload] := by
  rintro ⟨items, outer, token⟩ rfl
  exact run_size rfl payload

/-- A literal with a tilde. -/
theorem settles_literal8 (payload : Bytes) :
    Settles (126 :: (announce payload.length ++ payload)) [.string payload] := by
  rintro ⟨items, outer, token⟩ rfl
  exact run_size (r := ⟨items, outer, .size []⟩) rfl payload

end

/-! ## A line -/

/-- The values on a line, without its end. -/
def readTrees (line : Bytes) : Option (List Tree) :=
  ((Reader.mk [] [] .between).run line).bind fun r ↦ r.settle.bind fun r ↦
    if r.outer = [] then some r.items else none

theorem readTrees_of_reads {b : Bytes} {trees : List Tree} (h : ReadsAs b trees) :
    readTrees b = some trees := by
  obtain ⟨r', hrun, hsettle⟩ := h ⟨[], [], .between⟩ rfl
  rw [readTrees, hrun, Option.bind_some, hsettle, Option.bind_some]
  rfl

namespace Buffer

/-- A client that waits for a response and takes it apart: the values, and what is behind the
response. -/
def readValues (input : Bytes) : Option (List Tree × Bytes) :=
  (readResponse input).bind fun (response, rest) ↦
    (readTrees (response.take (response.length - 2))).map fun trees ↦ (trees, rest)

/-- A response that is one, and whose bytes before the line end are read as values. -/
theorem readValues_of_reads {b : Buffer} (hone : OneResponse (b ++ crlf)) {trees : List Tree}
    (h : ReadsAs b.bytes trees) (rest : Bytes) :
    readValues ((b ++ crlf).bytes ++ rest) = some (trees, rest) := by
  have htake : (b ++ crlf).bytes.take ((b ++ crlf).bytes.length - 2) = b.bytes := by
    rw [bytes_append, List.length_append]
    exact List.take_left' (by simp [crlf, bytes, Piece.bytes])
  rw [readValues, hone.read, Option.bind_some]
  show (readTrees ((b ++ crlf).bytes.take ((b ++ crlf).bytes.length - 2))).map _ = _
  rw [htake, readTrees_of_reads h]
  rfl

/-! ## Replies of several lines

A protocol may answer a command with several lines, of which the last can be told by its values. -/

/-- Bytes that a client reads as one line with certain values, whatever is behind them. -/
structure LineOf (b : Bytes) (line : List Tree) : Prop where
  read : ∀ rest, readValues (b ++ rest) = some (line, rest)
  ne_nil : b ≠ []

theorem lineOf_of_reads {b : Buffer} (hone : OneResponse (b ++ crlf)) {line : List Tree}
    (h : ReadsAs b.bytes line) : LineOf (b ++ crlf).bytes line :=
  ⟨readValues_of_reads hone h, by simp [crlf, bytes, Piece.bytes]⟩

variable (isLast : List Tree → Bool)

/-- Lines up to the last one of a reply. -/
def readLines : ℕ → Bytes → Option (List (List Tree) × Bytes)
  | 0, _ => none
  | fuel + 1, input =>
      (readValues input).bind fun (line, rest) ↦
        if isLast line then some ([line], rest)
        else (readLines fuel rest).map fun (lines, rest') ↦ (line :: lines, rest')

/-- One reply and what is behind it, or `none` when more input is needed. -/
def readReply (input : Bytes) : Option (List (List Tree) × Bytes) :=
  readLines isLast (input.length + 1) input

/-- So many replies. -/
def readReplies : ℕ → Bytes → Option (List (List (List Tree)) × Bytes)
  | 0, input => some ([], input)
  | n + 1, input =>
      (readReply isLast input).bind fun (reply, rest) ↦
        (readReplies n rest).map fun (replies, rest') ↦ (reply :: replies, rest')

/-- Bytes that are the lines of a reply. -/
inductive ReplyOf : Bytes → List (List Tree) → Prop where
  | last {b line} : LineOf b line → isLast line = true → ReplyOf b [line]
  | cons {b line b' lines} : LineOf b line → isLast line = false → ReplyOf b' lines →
      ReplyOf (b ++ b') (line :: lines)

variable {isLast}

theorem readLines_of_last {b : Bytes} {line : List Tree} (h : LineOf b line)
    (hlast : isLast line = true) (fuel : ℕ) (rest : Bytes) :
    readLines isLast (fuel + 1) (b ++ rest) = some ([line], rest) := by
  rw [readLines, h.read, Option.bind_some]
  exact if_pos hlast

theorem readLines_of_line {b : Bytes} {line : List Tree} (h : LineOf b line)
    (hlast : isLast line = false) (fuel : ℕ) (rest : Bytes) :
    readLines isLast (fuel + 1) (b ++ rest) =
      (readLines isLast fuel rest).map fun p ↦ (line :: p.1, p.2) := by
  rw [readLines, h.read, Option.bind_some]
  exact if_neg (by simp [hlast])

/-- The number of bytes is fuel enough for the lines. -/
theorem readLines_of_replyOf {b : Bytes} {lines : List (List Tree)}
    (h : ReplyOf isLast b lines) (rest : Bytes) {fuel : ℕ} (hfuel : b.length ≤ fuel) :
    readLines isLast fuel (b ++ rest) = some (lines, rest) := by
  induction h generalizing fuel with
  | last hline hlast =>
      have hpos := List.length_pos_iff.mpr hline.ne_nil
      obtain ⟨fuel, rfl⟩ : ∃ k, fuel = k + 1 := ⟨fuel - 1, by omega⟩
      exact readLines_of_last hline hlast fuel rest
  | @cons b line b' lines hline hlast _ ih =>
      have hpos := List.length_pos_iff.mpr hline.ne_nil
      rw [List.length_append] at hfuel
      obtain ⟨fuel, rfl⟩ : ∃ k, fuel = k + 1 := ⟨fuel - 1, by omega⟩
      rw [List.append_assoc, readLines_of_line hline hlast, ih (by omega), Option.map_some]

theorem readReply_of_replyOf {b : Bytes} {lines : List (List Tree)}
    (h : ReplyOf isLast b lines) (rest : Bytes) :
    readReply isLast (b ++ rest) = some (lines, rest) :=
  readLines_of_replyOf h rest (by rw [List.length_append]; omega)

/-- Lines before the last ones. -/
theorem ReplyOf.lines {α : Type} {l : List α} {f : α → Bytes} {g : α → List Tree}
    (h : ∀ a ∈ l, LineOf (f a) (g a) ∧ isLast (g a) = false) {b : Bytes}
    {lines : List (List Tree)} (hlast : ReplyOf isLast b lines) :
    ReplyOf isLast (l.flatMap f ++ b) (l.map g ++ lines) := by
  induction l with
  | nil => exact hlast
  | cons a l ih =>
      obtain ⟨⟨hline, ha⟩, hl⟩ := List.forall_mem_cons.mp h
      rw [List.flatMap_cons, List.append_assoc]
      exact .cons hline ha (ih hl)

/-- A reply begins with the first line. -/
theorem head_of_readReply {b : Bytes} {line : List Tree} (h : LineOf b line) {rest rest' : Bytes}
    {lines : List (List Tree)} (hread : readReply isLast (b ++ rest) = some (lines, rest')) :
    lines.head? = some line := by
  rw [readReply] at hread
  cases hlast : isLast line with
  | true =>
      rw [readLines_of_last h hlast] at hread
      obtain ⟨rfl, -⟩ := Prod.mk.inj (Option.some.inj hread)
      rfl
  | false =>
      rw [readLines_of_line h hlast] at hread
      obtain ⟨p, -, hp⟩ := Option.map_eq_some_iff.mp hread
      obtain ⟨rfl, -⟩ := Prod.mk.inj hp
      rfl

theorem readReplies_succ_eq_some {n : ℕ} {input rest : Bytes} {reply : List (List Tree)}
    {replies : List (List (List Tree))} :
    readReplies isLast (n + 1) input = some (reply :: replies, rest) ↔
      ∃ mid, readReply isLast input = some (reply, mid) ∧
        readReplies isLast n mid = some (replies, rest) := by
  rw [readReplies, Option.bind_eq_some_iff]
  constructor
  · rintro ⟨⟨reply', mid⟩, hreply, hmap⟩
    obtain ⟨⟨replies', rest'⟩, hreplies, heq⟩ := Option.map_eq_some_iff.mp hmap
    obtain ⟨hcons, rfl⟩ := Prod.mk.inj heq
    obtain ⟨rfl, rfl⟩ := List.cons.inj hcons
    exact ⟨mid, hreply, hreplies⟩
  · rintro ⟨mid, hreply, hreplies⟩
    exact ⟨_, hreply, Option.map_eq_some_iff.mpr ⟨_, hreplies, rfl⟩⟩

/-- **Replies one after the other.**  If the bytes of some are those of a reply, and the others
begin with a line that is not their own, then a client reads back all of them just if there are none
of the others. -/
theorem readReplies_iff {α : Type} {f : α → Bytes} {g : α → List (List Tree)} {C : α → Prop}
    {l : List α} (hgood : ∀ a ∈ l, C a → ReplyOf isLast (f a) (g a))
    (hbad : ∀ a ∈ l, ¬ C a → ∃ b line b', f a = b ++ b' ∧ LineOf b line ∧
      (g a).head? ≠ some line) (rest : Bytes) :
    readReplies isLast l.length (l.flatMap f ++ rest) = some (l.map g, rest) ↔ ∀ a ∈ l, C a := by
  induction l with
  | nil => simp [readReplies]
  | cons a l ih =>
      obtain ⟨hgood, hgoods⟩ := List.forall_mem_cons.mp hgood
      obtain ⟨hbad, hbads⟩ := List.forall_mem_cons.mp hbad
      rw [List.length_cons, List.flatMap_cons, List.append_assoc, List.map_cons,
        readReplies_succ_eq_some, List.forall_mem_cons, ← ih hgoods hbads]
      by_cases ha : C a
      · rw [readReply_of_replyOf (hgood ha)]
        simp [ha]
      · obtain ⟨b, line, b', heq, hline, hne⟩ := hbad ha
        constructor
        · rintro ⟨mid, hreply, -⟩
          rw [heq, List.append_assoc] at hreply
          exact absurd (head_of_readReply hline hreply) hne
        · exact fun h ↦ absurd h.1 ha

end Buffer

end ImapToJmap.Wire
