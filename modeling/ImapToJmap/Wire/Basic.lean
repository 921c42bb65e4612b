import ImapToJmap.Core.Bytes
import ImapToJmap.Data.Ascii

/-!
# Lines and literals

A protocol of lines in which a string may also be sent as a literal: `{n}` at the end of a line
announces that the next `n` bytes are data, whatever they are.  A `Buffer` is what a writer has
written, with the literals marked; `Buffer.bytes` forgets the marks and is what goes over the wire.
The other side is `readResponse`, a client that only sees the bytes.

A buffer is `Free` when no byte outside its literals can end a line.  `Buffer.oneResponse_iff` is
the fact a writer needs: a free buffer with a line end behind it is read back as exactly one
response, whatever follows it on the wire.
-/

namespace ImapToJmap.Wire

open Ascii

/-! ## Bytes that do not end a line -/

/-- No byte is CR or LF. -/
def LineFree (b : Bytes) : Prop := cr ∉ b ∧ lf ∉ b

instance (b : Bytes) : Decidable (LineFree b) := inferInstanceAs (Decidable (_ ∧ _))

@[simp] theorem lineFree_nil : LineFree [] := by simp [LineFree]

@[simp] theorem lineFree_append {a b : Bytes} :
    LineFree (a ++ b) ↔ LineFree a ∧ LineFree b := by
  simp only [LineFree, List.mem_append]
  tauto

@[simp] theorem lineFree_cons {c : UInt8} {b : Bytes} :
    LineFree (c :: b) ↔ (c ≠ cr ∧ c ≠ lf) ∧ LineFree b := by
  simp only [LineFree, List.mem_cons, not_or, ne_eq, eq_comm (a := c)]
  tauto

/-- A map that neither makes nor hides a line end. -/
theorem lineFree_map {f : UInt8 → UInt8} (hcr : ∀ c, f c = cr ↔ c = cr)
    (hlf : ∀ c, f c = lf ↔ c = lf)
    (b : Bytes) : LineFree (b.map f) ↔ LineFree b := by
  induction b with
  | nil => simp
  | cons c b ih => simp only [List.map_cons, lineFree_cons, ne_eq, hcr, hlf, ih]

theorem lineFree_decimal (n : ℕ) : LineFree (decimal n) := by
  constructor
  · intro h
    exact absurd (isAsciiDigit_of_mem_decimal h) (by decide)
  · intro h
    exact absurd (isAsciiDigit_of_mem_decimal h) (by decide)

/-! ## Buffers -/

/-- A piece of a response. -/
inductive Piece where
  | text (b : Bytes)
  | literal (payload : Bytes)
deriving DecidableEq

/-- What a literal starts with. -/
def announce (n : ℕ) : Bytes := braceOpen :: decimal n ++ [braceClose, cr, lf]

def Piece.bytes : Piece → Bytes
  | text b => b
  | literal payload => announce payload.length ++ payload

/-- The bytes outside a literal. -/
def Piece.outside : Piece → Bytes
  | text b => b
  | literal _ => []

abbrev Buffer := List Piece

namespace Buffer

/-- What goes over the wire. -/
def bytes (b : Buffer) : Bytes := b.flatMap Piece.bytes

/-- What a writer has written outside the literals. -/
def outside (b : Buffer) : Bytes := b.flatMap Piece.outside

/-- No byte outside a literal can end a line. -/
def Free (b : Buffer) : Prop := LineFree b.outside

instance (b : Buffer) : Decidable (Free b) := inferInstanceAs (Decidable (LineFree _))

/-- The end of a line. -/
def crlf : Buffer := [.text [cr, lf]]

/-- Pieces with a separator between any two. -/
def join (sep : Buffer) : List Buffer → Buffer
  | [] => []
  | [b] => b
  | b :: bs => b ++ sep ++ join sep bs

@[simp] theorem bytes_nil : bytes [] = [] := rfl

@[simp] theorem bytes_append (a b : Buffer) : (a ++ b).bytes = a.bytes ++ b.bytes :=
  List.flatMap_append

@[simp] theorem free_nil : Free [] := lineFree_nil

@[simp] theorem free_append {a b : Buffer} : Free (a ++ b) ↔ Free a ∧ Free b := by
  rw [Free, outside, List.flatMap_append, lineFree_append]
  rfl

@[simp] theorem free_text {b : Bytes} : Free [.text b] ↔ LineFree b := by
  simp [Free, outside, Piece.outside]

@[simp] theorem free_literal (payload : Bytes) : Free [.literal payload] := by
  simp [Free, outside, Piece.outside]

theorem free_join {sep : Buffer} (hsep : Free sep) :
    ∀ bs : List Buffer, Free (join sep bs) ↔ ∀ b ∈ bs, Free b
  | [] => by simp [join]
  | [b] => by simp [join]
  | b :: c :: bs => by
      rw [join, free_append, free_append, free_join hsep (c :: bs), List.forall_mem_cons]
      · simp [hsep]
      · simp

@[simp] theorem free_flatten (bs : List Buffer) : Free bs.flatten ↔ ∀ b ∈ bs, Free b := by
  induction bs with
  | nil => simp
  | cons b bs ih => rw [List.flatten_cons, free_append, ih, List.forall_mem_cons]

/-! ## Reading -/

/-- The bytes up to the first LF, that one included, and what is behind them. -/
def takeLine : Bytes → Option (Bytes × Bytes)
  | [] => none
  | c :: input =>
      if c = lf then some ([lf], input)
      else (takeLine input).map fun (line, rest) ↦ (c :: line, rest)

/-- The number in front of a closing brace, read backwards up to the opening one. -/
def announcement (front : Bytes) : Option ℕ :=
  let digits := front.takeWhile isAsciiDigit
  if digits ≠ [] ∧ (front.drop digits.length).head? = some braceOpen then
    some (ofDecimal digits.reverse)
  else none

/-- The length of the literal that a line ends by announcing. -/
def announced (line : Bytes) : Option ℕ :=
  match line.reverse with
  | a :: b :: c :: front =>
      if a = lf ∧ b = cr ∧ c = braceClose then announcement front else none
  | _ => none

/-- Lines up to the first that announces no literal, each literal taken whole. -/
def takeResponse : ℕ → Bytes → Option (Bytes × Bytes)
  | 0, _ => none
  | fuel + 1, input =>
      match takeLine input with
      | none => none
      | some (line, rest) =>
        match announced line with
        | none => some (line, rest)
        | some n =>
            if rest.length < n then none
            else (takeResponse fuel (rest.drop n)).map fun (response, rest') ↦
              (line ++ rest.take n ++ response, rest')

/-- One response and what is behind it, or `none` when more input is needed. -/
def readResponse (input : Bytes) : Option (Bytes × Bytes) := takeResponse (input.length + 1) input

theorem takeLine_append {line : Bytes} (h : lf ∉ line) (rest : Bytes) :
    takeLine (line ++ cr :: lf :: rest) = some (line ++ [cr, lf], rest) := by
  induction line with
  | nil => simp [takeLine]
  | cons c line ih =>
      rw [List.mem_cons, not_or] at h
      rw [List.cons_append, takeLine, if_neg (Ne.symm h.1), ih h.2]
      rfl

/-- A line that announces a literal is understood so, whatever stands before the announcement. -/
theorem announced_announce (front : Bytes) (n : ℕ) :
    announced (front ++ announce n) = some n := by
  have hrev : (front ++ announce n).reverse =
      lf :: cr :: braceClose :: ((decimal n).reverse ++ braceOpen :: front.reverse) := by
    simp [announce]
  have hdigits : (decimal n).reverse.takeWhile isAsciiDigit = (decimal n).reverse :=
    List.takeWhile_eq_self_iff.mpr fun ch h ↦
      isAsciiDigit_of_mem_decimal (List.mem_reverse.mp h)
  have htake : ((decimal n).reverse ++ braceOpen :: front.reverse).takeWhile isAsciiDigit =
      (decimal n).reverse := by
    rw [List.takeWhile_append, hdigits, if_pos rfl, List.takeWhile_cons_of_neg (by decide),
      List.append_nil]
  have hne : (decimal n).reverse ≠ [] := fun h ↦
    decimal_ne_nil n (List.reverse_eq_nil_iff.mp h)
  rw [announced, hrev]
  show (if _ then announcement _ else none) = _
  rw [if_pos ⟨rfl, rfl, rfl⟩, announcement, htake, if_pos ⟨hne, by simp⟩, List.reverse_reverse,
    ofDecimal_decimal]

/-- A line whose last byte is no closing brace announces nothing. -/
theorem announced_eq_none (front : Bytes) {c : UInt8} (hc : c ≠ braceClose) :
    announced (front ++ [c] ++ [cr, lf]) = none := by
  have hrev : (front ++ [c] ++ [cr, lf]).reverse = lf :: cr :: c :: front.reverse := by simp
  rw [announced, hrev]
  exact if_neg fun h ↦ hc h.2.2

/-- Reading a free buffer that ends in text.  The induction is over the pieces; `acc` is what the
client has of the current line when it comes to the next piece. -/
theorem takeResponse_bytes (front : Buffer) (last : Bytes) {c : UInt8} (hc : c ≠ braceClose)
    (hfront : Free front) (hlast : LineFree (last ++ [c])) (rest : Bytes) :
    ∀ (fuel : ℕ) (acc : Bytes), front.bytes.length < fuel → LineFree acc →
      takeResponse fuel (acc ++ front.bytes ++ (last ++ [c]) ++ [cr, lf] ++ rest) =
        some (acc ++ front.bytes ++ (last ++ [c]) ++ [cr, lf], rest) := by
  induction front with
  | nil =>
      intro fuel acc hfuel hacc
      obtain ⟨fuel, rfl⟩ := Nat.exists_eq_add_of_lt hfuel
      have hline : lf ∉ acc ++ (last ++ [c]) := (lineFree_append.mpr ⟨hacc, hlast⟩).2
      have htake := takeLine_append hline rest
      have hnone := announced_eq_none (acc ++ last) hc
      simp only [bytes_nil, List.append_assoc, List.cons_append, List.nil_append,
        List.length_nil, Nat.zero_add] at htake hnone ⊢
      simp only [takeResponse, htake, hnone]
  | cons p front ih =>
      rw [← List.singleton_append, free_append] at hfront
      obtain ⟨hp, hfront⟩ := hfront
      intro fuel acc hfuel hacc
      cases p with
      | text b =>
          have hb : LineFree b := free_text.mp hp
          have h := ih hfront fuel (acc ++ b)
            (lt_of_le_of_lt (by simp [bytes]) hfuel) (lineFree_append.mpr ⟨hacc, hb⟩)
          simpa [bytes, Piece.bytes] using h
      | literal payload =>
          have hlen : (bytes front).length + 1 < fuel := by
            refine lt_of_le_of_lt ?_ hfuel
            simp [bytes, Piece.bytes, announce]
            omega
          obtain ⟨fuel, rfl⟩ : ∃ k, fuel = k + 1 := ⟨fuel - 1, by omega⟩
          have hline : LineFree (acc ++ (braceOpen :: decimal payload.length ++ [braceClose])) := by
            have hopen : LineFree [braceOpen] := by decide
            have hclose : LineFree [braceClose] := by decide
            exact lineFree_append.mpr ⟨hacc, lineFree_append.mpr
              ⟨(lineFree_append (a := [braceOpen])).mpr ⟨hopen, lineFree_decimal _⟩, hclose⟩⟩
          have htake := takeLine_append hline.2
            (payload ++ (bytes front ++ (last ++ [c]) ++ [cr, lf] ++ rest))
          have hann := announced_announce acc payload.length
          have hih := ih hfront fuel [] (by omega) lineFree_nil
          simp only [bytes, List.flatMap_cons, Piece.bytes, announce, List.append_assoc,
            List.cons_append, List.nil_append] at htake hann hih ⊢
          rw [takeResponse, htake]
          simp only [hann]
          rw [if_neg (by simp), List.drop_left, List.take_left, hih]
          simp

/-- The last byte outside the literals, and of the whole buffer, is there and is no closing
brace. -/
def Sealed (b : Buffer) : Prop :=
  ∃ front last c, b = front ++ [.text (last ++ [c])] ∧ c ≠ braceClose

theorem Sealed.append {b : Buffer} (h : Sealed b) (a : Buffer) : Sealed (a ++ b) := by
  obtain ⟨front, last, c, rfl, hc⟩ := h
  exact ⟨a ++ front, last, c, (List.append_assoc ..).symm, hc⟩

/-- Outside the literals the buffer has no CR or LF but its end, and a client that reads lines and
literals takes it for one response, whatever is behind it. -/
structure OneResponse (b : Buffer) : Prop where
  free : ∃ body, b = body ++ crlf ∧ Free body
  read : ∀ rest, readResponse (b.bytes ++ rest) = some (b.bytes, rest)

/-- A line end after a buffer makes one response of it exactly if the buffer is free. -/
theorem oneResponse_iff {b : Buffer} (hb : Sealed b) : OneResponse (b ++ crlf) ↔ Free b := by
  constructor
  · rintro ⟨⟨body, hbody, hfree⟩, -⟩
    rwa [List.append_cancel_right hbody]
  · intro hfree
    refine ⟨⟨b, rfl, hfree⟩, fun rest ↦ ?_⟩
    obtain ⟨front, last, c, rfl, hc⟩ := hb
    rw [free_append, free_text] at hfree
    have h := takeResponse_bytes front last hc hfree.1 hfree.2 rest
      (bytes (front ++ [.text (last ++ [c])] ++ crlf) ++ rest).length.succ []
      (by simp [bytes]) lineFree_nil
    simpa [readResponse, bytes, crlf, Piece.bytes] using h

end Buffer

end ImapToJmap.Wire
