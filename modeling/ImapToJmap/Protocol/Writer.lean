import ImapToJmap.Protocol.Basic
import ImapToJmap.Protocol.Text
import ImapToJmap.Wire.Basic

/-!
# Writing responses

The functions of `protocol/mod.rs` that append to a response, as buffers in which the literals are
marked.  What the program writes itself is `fixed`, and its characters show that it ends no line;
what it was given is `quoted`, `raw` or `literal`.  Quoting escapes the quote and the
backslash and nothing else, so `free_quoted` is an equivalence: a quoted string ends a line
when the string does.
-/

namespace ImapToJmap

open Ascii Wire Wire.Buffer

/-- No CR and no LF. -/
def Plain (s : String) : Prop := LineFree (asBytes s)

instance (s : String) : Decidable (Plain s) := inferInstanceAs (Decidable (LineFree _))

/-- An ASCII byte occurs in the encoding of its own character only: every byte of a longer encoding
has its high bit set. -/
theorem mem_utf8EncodeChar {c : Char} {b : UInt8} (hb : b.toNat < 128) :
    b ∈ String.utf8EncodeChar c ↔ c.val.toNat = b.toNat := by
  have hmod : ∀ n : ℕ, n % 256 = b.toNat ↔ b = UInt8.ofNat n := by
    intro n
    rw [← UInt8.toNat_inj, UInt8.toNat_ofNat', eq_comm]
  simp only [String.utf8EncodeChar]
  split
  · rw [List.mem_singleton, ← hmod]
    omega
  · split
    · simp only [List.mem_cons, List.not_mem_nil, or_false, ← hmod]
      omega
    · split
      · simp only [List.mem_cons, List.not_mem_nil, or_false, ← hmod]
        omega
      · simp only [List.mem_cons, List.not_mem_nil, or_false, ← hmod]
        omega

theorem utf8EncodeChar_of_ascii {c : Char} (h : c.toNat < 128) :
    String.utf8EncodeChar c = [c.toNat.toUInt8] := if_pos (Nat.le_of_lt_succ h)

theorem mem_asBytes {s : String} {c : Char} {b : UInt8} (hb : b.toNat < 128)
    (hc : c.val.toNat = b.toNat) : b ∈ asBytes s ↔ c ∈ s.toList := by
  rw [asBytes_eq_flatMap, List.mem_flatMap]
  constructor
  · rintro ⟨d, hd, hmem⟩
    have hdc : d = c := by
      rw [mem_utf8EncodeChar hb, ← hc] at hmem
      exact Char.ext (UInt32.toNat_inj.mp hmem)
    exact hdc ▸ hd
  · intro h
    exact ⟨c, h, (mem_utf8EncodeChar hb).mpr hc⟩

/-- On characters. -/
theorem plain_iff {s : String} : Plain s ↔ '\r' ∉ s.toList ∧ '\n' ∉ s.toList := by
  rw [Plain, LineFree, mem_asBytes (c := '\r') (by decide) rfl,
    mem_asBytes (c := '\n') (by decide) rfl]

/-- Every one of the strings is on one line. -/
def AllPlain (l : List String) : Prop := ∀ s ∈ l, Plain s

instance (l : List String) : Decidable (AllPlain l) := inferInstanceAs (Decidable (∀ s ∈ l, _))

@[simp] theorem allPlain_nil : AllPlain [] := List.forall_mem_nil _

@[simp] theorem allPlain_cons {s : String} {l : List String} :
    AllPlain (s :: l) ↔ Plain s ∧ AllPlain l := List.forall_mem_cons

@[simp] theorem allPlain_append {a b : List String} :
    AllPlain (a ++ b) ↔ AllPlain a ∧ AllPlain b := List.forall_mem_append

@[simp] theorem allPlain_flatMap {α : Type} {l : List α} {f : α → List String} :
    AllPlain (l.flatMap f) ↔ ∀ a ∈ l, AllPlain (f a) := by
  simp only [AllPlain, List.mem_flatMap]
  constructor
  · intro h a ha s hs
    exact h s ⟨a, ha, hs⟩
  · rintro h s ⟨a, ha, hs⟩
    exact h a ha s hs

namespace Writer

/-- Text of the program's own. -/
def fixed (s : String) : Buffer := [.text (asBytes s)]

/-- A string as it is. -/
def raw (s : String) : Buffer := [.text (asBytes s)]

/-- A numeral. -/
def number (n : ℕ) : Buffer := [.text (decimal n)]

/-- `quoted_string` -/
def quoted (text : String) : Buffer :=
  fixed "\"" ++ [.text ((asBytes text).flatMap escape)] ++ fixed "\""

/-- `quoted_string_or_nil` -/
def quotedStringOrNil : Option String → Buffer
  | some text => quoted text
  | none => fixed "NIL"

/-- `literal_string` -/
def literal (text : String) : Buffer := [.literal (asBytes text)]

theorem bytes_quoted (text : String) : (quoted text).bytes = quotedString text := by
  have hquote : asBytes "\"" = [quote] := by decide +kernel
  simp [quoted, fixed, bytes, Piece.bytes, hquote, quotedString]

theorem bytes_literal (text : String) : (literal text).bytes = literalString text := by
  simp [literal, bytes, Piece.bytes, announce, literalString]

@[simp] theorem free_fixed {s : String} (h : '\r' ∉ s.toList ∧ '\n' ∉ s.toList) : Free (fixed s) :=
  free_text.mpr (plain_iff.mpr h)

@[simp] theorem free_raw (s : String) : Free (raw s) ↔ Plain s := free_text

@[simp] theorem free_number (n : ℕ) : Free (number n) := free_text.mpr (lineFree_decimal n)

@[simp] theorem free_literal' (s : String) : Free (literal s) := free_literal _

theorem lineFree_escape (b : Bytes) : LineFree (b.flatMap escape) ↔ LineFree b := by
  induction b with
  | nil => rfl
  | cons c b ih =>
      rw [List.flatMap_cons, lineFree_append, ih, lineFree_cons, escape]
      split
      · simp
      · simp

/-- Quoting does not stop a line from ending. -/
@[simp] theorem free_quoted (s : String) : Free (quoted s) ↔ Plain s := by
  rw [quoted, free_append, free_append, free_text, lineFree_escape]
  simp [Plain]

@[simp] theorem free_quotedStringOrNil (o : Option String) :
    Free (quotedStringOrNil o) ↔ AllPlain o.toList := by
  cases o with
  | none => simp [quotedStringOrNil]
  | some s => simp [quotedStringOrNil]

/-- A separator in the program's own words. -/
theorem free_join_fixed {s : String} (h : '\r' ∉ s.toList ∧ '\n' ∉ s.toList) (bs : List Buffer) :
    Free (join (fixed s) bs) ↔ ∀ b ∈ bs, Free b :=
  free_join (free_fixed h) bs

@[simp] theorem free_join_map {s : String} (h : '\r' ∉ s.toList ∧ '\n' ∉ s.toList) {α : Type}
    (l : List α) (f : α → Buffer) : Free (join (fixed s) (l.map f)) ↔ ∀ a ∈ l, Free (f a) := by
  rw [free_join_fixed h, List.forall_mem_map]

@[simp] theorem sealed_fixed {s : String}
    (hs : (asBytes s).getLast? = some parenClose ∨
    (asBytes s).getLast? = some quote) : Sealed (fixed s) := by
  obtain ⟨last, c, hlast, hc⟩ : ∃ last c, asBytes s = last ++ [c] ∧ c ≠ braceClose := by
    rcases hs with hs | hs
    · obtain ⟨last, hlast⟩ := List.getLast?_eq_some_iff.mp hs
      exact ⟨last, parenClose, hlast, by decide⟩
    · obtain ⟨last, hlast⟩ := List.getLast?_eq_some_iff.mp hs
      exact ⟨last, quote, hlast, by decide⟩
  exact ⟨[], last, c, by rw [fixed, hlast, List.nil_append], hc⟩

/-! ## Dates

The formats are those of the date library; the program relies on their being one line. -/

/-- `from_timestamp(…).to_rfc2822()` and `.format("%d-%b-%Y %H:%M:%S %z")`. -/
structure Dates where
  rfc2822 : ℤ → String
  internal : ℤ → String

structure Dates.Plain (dates : Dates) : Prop where
  rfc2822 : ∀ t, ImapToJmap.Plain (dates.rfc2822 t)
  internal : ∀ t, ImapToJmap.Plain (dates.internal t)

/-- The formats at the epoch. -/
def epochDates : Dates where
  rfc2822 _ := "Thu, 01 Jan 1970 00:00:00 +0000"
  internal _ := "01-Jan-1970 00:00:00 +0000"

theorem epochDates_plain : epochDates.Plain :=
  ⟨fun _ ↦ show ImapToJmap.Plain "Thu, 01 Jan 1970 00:00:00 +0000" by decide +kernel,
    fun _ ↦ show ImapToJmap.Plain "01-Jan-1970 00:00:00 +0000" by decide +kernel⟩

/-- `quoted_timestamp` -/
def quotedTimestamp (dates : Dates) (timestamp : ℤ) : Buffer :=
  fixed "\"" ++ raw (dates.internal timestamp) ++ fixed "\""

/-- `quoted_rfc2822` -/
def quotedRfc2822 (dates : Dates) (timestamp : ℤ) : Buffer :=
  fixed "\"" ++ raw (dates.rfc2822 timestamp) ++ fixed "\""

/-- `quoted_rfc2822_or_nil` -/
def quotedRfc2822OrNil (dates : Dates) : Option ℤ → Buffer
  | some timestamp => quotedRfc2822 dates timestamp
  | none => fixed "NIL"

theorem free_quotedTimestamp {dates : Dates} (h : dates.Plain) (t : ℤ) :
    Free (quotedTimestamp dates t) := by
  simp [quotedTimestamp, h.internal t]

theorem free_quotedRfc2822OrNil {dates : Dates} (h : dates.Plain) (t : Option ℤ) :
    Free (quotedRfc2822OrNil dates t) := by
  cases t with
  | none => simp [quotedRfc2822OrNil]
  | some t => simp [quotedRfc2822OrNil, quotedRfc2822, h.rfc2822 t]

end Writer

/-! ## Flags -/

open Writer

/-- `Flag::serialize` -/
def Flag.serialize : Flag → Buffer
  | seen => fixed "\\Seen"
  | draft => fixed "\\Draft"
  | flagged => fixed "\\Flagged"
  | answered => fixed "\\Answered"
  | recent => fixed "\\Recent"
  | important => fixed "\\Important"
  | phishing => fixed "$Phishing"
  | junk => fixed "$Junk"
  | notJunk => fixed "$NotJunk"
  | deleted => fixed "\\Deleted"
  | forwarded => fixed "$Forwarded"
  | mdnSent => fixed "$MDNSent"
  | keyword name => raw name

/-- The strings that a flag is written with. -/
def Flag.strings : Flag → List String
  | keyword name => [name]
  | _ => []

@[simp] theorem Flag.free_serialize (flag : Flag) :
    Free flag.serialize ↔ AllPlain flag.strings := by
  cases flag <;> simp [serialize, strings]

end ImapToJmap
