import Mathlib

/-!
# ASCII bytes

The byte predicates of Rust's `u8`, the decimal numerals of `to_string`, and how `parse` reads a
numeral back.
-/

namespace ImapToJmap

namespace Ascii

@[match_pattern, simp] abbrev lf : UInt8 := 10
@[match_pattern, simp] abbrev cr : UInt8 := 13
@[match_pattern, simp] abbrev space : UInt8 := 32
@[match_pattern, simp] abbrev quote : UInt8 := 34
@[match_pattern, simp] abbrev dollar : UInt8 := 36
@[match_pattern, simp] abbrev percent : UInt8 := 37
@[match_pattern, simp] abbrev parenOpen : UInt8 := 40
@[match_pattern, simp] abbrev parenClose : UInt8 := 41
@[match_pattern, simp] abbrev star : UInt8 := 42
@[match_pattern, simp] abbrev plus : UInt8 := 43
@[match_pattern, simp] abbrev comma : UInt8 := 44
@[match_pattern, simp] abbrev dot : UInt8 := 46
@[match_pattern, simp] abbrev slash : UInt8 := 47
@[match_pattern, simp] abbrev colon : UInt8 := 58
@[match_pattern, simp] abbrev lt : UInt8 := 60
@[match_pattern, simp] abbrev gt : UInt8 := 62
@[match_pattern, simp] abbrev bracketOpen : UInt8 := 91
@[match_pattern, simp] abbrev backslash : UInt8 := 92
@[match_pattern, simp] abbrev bracketClose : UInt8 := 93
@[match_pattern, simp] abbrev braceOpen : UInt8 := 123
@[match_pattern, simp] abbrev braceClose : UInt8 := 125

end Ascii

/-- `u8::is_ascii_whitespace`: space, tab, LF, form feed and CR. -/
def isAsciiWhitespace (ch : UInt8) : Bool :=
  ch == 32 || ch == 9 || ch == 10 || ch == 12 || ch == 13

/-- `u8::is_ascii_digit` -/
def isAsciiDigit (ch : UInt8) : Bool := 48 ≤ ch && ch ≤ 57

/-- `u8::is_ascii_alphanumeric` -/
def isAsciiAlphanumeric (ch : UInt8) : Bool :=
  isAsciiDigit ch || (65 ≤ ch && ch ≤ 90) || (97 ≤ ch && ch ≤ 122)

/-- `u8::to_ascii_uppercase` -/
def toAsciiUppercase (ch : UInt8) : UInt8 := if 97 ≤ ch && ch ≤ 122 then ch - 32 else ch

/-- `[u8]::eq_ignore_ascii_case` -/
def eqIgnoreAsciiCase (a b : List UInt8) : Bool := a.map toAsciiUppercase == b.map toAsciiUppercase

/-- `String::from_utf8_lossy` on ASCII bytes. -/
def asciiString (bytes : List UInt8) : String :=
  String.ofList (bytes.map fun b ↦ Char.ofNat b.toNat)

/-! ## Numerals -/

/-- `to_string` of an unsigned integer. -/
def decimal (n : ℕ) : List UInt8 :=
  if n = 0 then [48] else (Nat.digits 10 n).reverse.map fun d ↦ UInt8.ofNat (48 + d)

/-- The number that a string of digits denotes. -/
def ofDecimal (digits : List UInt8) : ℕ :=
  digits.foldl (fun acc d ↦ acc * 10 + (d.toNat - 48)) 0

/-- `str::parse::<u32>` on a non-empty string of digits. -/
def parseU32 (digits : List UInt8) : Option ℕ :=
  if ofDecimal digits < 2 ^ 32 then some (ofDecimal digits) else none

theorem decimal_ne_nil (n : ℕ) : decimal n ≠ [] := by
  unfold decimal
  split
  · simp
  · rename_i h
    simpa [Nat.digits_eq_nil_iff_eq_zero] using h

theorem isAsciiDigit_of_lt {d : ℕ} (h : d < 10) : isAsciiDigit (UInt8.ofNat (48 + d)) = true := by
  interval_cases d <;> decide

/-- A numeral is made of digits. -/
theorem isAsciiDigit_of_mem_decimal {n : ℕ} {ch : UInt8} (h : ch ∈ decimal n) :
    isAsciiDigit ch = true := by
  unfold decimal at h
  split at h
  · rw [List.mem_singleton.mp h]
    decide
  · obtain ⟨d, hd, rfl⟩ := List.mem_map.mp h
    exact isAsciiDigit_of_lt (Nat.digits_lt_base (by decide) (List.mem_reverse.mp hd))

theorem foldl_digits (l : List ℕ) (hl : ∀ d ∈ l, d < 10) :
    (l.reverse.map fun d ↦ UInt8.ofNat (48 + d)).foldl (fun acc d ↦ acc * 10 + (d.toNat - 48)) 0 =
      Nat.ofDigits 10 l := by
  induction l with
  | nil => rfl
  | cons d l ih =>
      have hd : d < 10 := hl d List.mem_cons_self
      have hbyte : (UInt8.ofNat (48 + d)).toNat - 48 = d := by
        rw [UInt8.toNat_ofNat', Nat.mod_eq_of_lt (by omega)]
        omega
      rw [List.reverse_cons, List.map_append, List.foldl_append,
        ih fun x hx ↦ hl x (List.mem_cons_of_mem _ hx), Nat.ofDigits_cons]
      simp only [List.map_cons, List.map_nil, List.foldl_cons, List.foldl_nil, hbyte]
      ring

/-- A numeral denotes its number. -/
@[simp] theorem ofDecimal_decimal (n : ℕ) : ofDecimal (decimal n) = n := by
  unfold ofDecimal decimal
  split
  · rename_i h
    rw [h]
    rfl
  · rw [foldl_digits _ fun d hd ↦ Nat.digits_lt_base (by decide) hd, Nat.ofDigits_digits]

theorem parseU32_decimal {n : ℕ} (h : n < 2 ^ 32) : parseU32 (decimal n) = some n := by
  rw [parseU32, ofDecimal_decimal, if_pos h]

theorem parseU32_decimal_eq_none {n : ℕ} (h : 2 ^ 32 ≤ n) : parseU32 (decimal n) = none := by
  rw [parseU32, ofDecimal_decimal, if_neg (by omega)]

/-! ## Classes of bytes -/

theorem not_whitespace_of_digit {ch : UInt8} (h : isAsciiDigit ch = true) :
    isAsciiWhitespace ch = false := by
  simp only [isAsciiDigit, Bool.and_eq_true, decide_eq_true_eq, UInt8.le_iff_toNat_le] at h
  simp only [isAsciiWhitespace, Bool.or_eq_false_iff, beq_eq_false_iff_ne, ne_eq,
    ← UInt8.toNat_inj]
  simp only [UInt8.reduceToNat] at h ⊢
  omega

theorem not_whitespace_of_alphanumeric {ch : UInt8} (h : isAsciiAlphanumeric ch = true) :
    isAsciiWhitespace ch = false := by
  simp only [isAsciiAlphanumeric, isAsciiDigit, Bool.or_eq_true, Bool.and_eq_true,
    decide_eq_true_eq, UInt8.le_iff_toNat_le] at h
  simp only [isAsciiWhitespace, Bool.or_eq_false_iff, beq_eq_false_iff_ne, ne_eq,
    ← UInt8.toNat_inj]
  simp only [UInt8.reduceToNat] at h ⊢
  omega

theorem alphanumeric_of_uppercase {ch : UInt8}
    (h : isAsciiAlphanumeric (toAsciiUppercase ch) = true) : isAsciiAlphanumeric ch = true := by
  unfold toAsciiUppercase at h
  split at h
  · rename_i hlower
    simp only [isAsciiAlphanumeric, hlower, Bool.or_true]
  · exact h

end ImapToJmap
