import ImapToJmap.Parser.FetchGrammar

/-!
# Partial fetches

A client may ask for some of the bytes of a section, from a start on and at most so many: `<0.100>`.
`parse_partial` reads two numbers of 32 bits, the second not zero, and `get_partial_bytes` adds them
in 32 bits before it compares the sum with the length.

`partial_iff`: the bytes are the ones that were asked for unless the sum wraps and there is a byte
at the start.  Then the end is before the start, and nothing is returned.
-/

namespace ImapToJmap.Fetch

open Mime (getPartialBytes Message)

variable {tokens rest : List Token} {start count : ℕ}

/-! ## What is read -/

theorem lt_of_parseNumber {width n : ℕ} {value : Bytes} (h : parseNumber width value = some n) :
    n < 2 ^ width := by
  unfold parseNumber at h
  dsimp only at h
  split at h
  · rename_i hnumber
    obtain rfl := Option.some.inj h
    exact hnumber.2.2
  · cases h

theorem lt_of_readNumber {width n : ℕ} {e : ParseError}
    (h : readNumber width e tokens = .ok (n, rest)) : n < 2 ^ width := by
  unfold readNumber at h
  split at h
  · cases h
  · split at h
    · rename_i hnumber
      cases h
      exact lt_of_parseNumber hnumber
    · cases h

/-- What `parse_partial` can return. -/
theorem readPartial_bounds (h : readPartial tokens = .ok (some (start, count), rest)) :
    start < 2 ^ 32 ∧ 0 < count ∧ count < 2 ^ 32 := by
  unfold readPartial at h
  split at h
  · obtain ⟨first, tokens₁, hfirst, h⟩ := goes_of_bind h
    obtain ⟨_, tokens₂, hdot, h⟩ := goes_of_bind h
    obtain ⟨last, tokens₃, hlast, h⟩ := goes_of_bind h
    dsimp only at h
    split at h
    · cases h
    · rename_i hne
      obtain ⟨_, tokens₄, hgt, h⟩ := goes_of_bind h
      cases h
      exact ⟨lt_of_readNumber hfirst, Nat.pos_of_ne_zero hne, lt_of_readNumber hlast⟩
  · cases h

/-- It can return all of this. -/
theorem readPartial_decimal (hstart : start < 2 ^ 32) (hpos : 0 < count) (hcount : count < 2 ^ 32) :
    readPartial [.lt, .argument (decimal start), .dot, .argument (decimal count), .gt] =
      .ok (some (start, count), []) := by
  have htext : PartialText [.lt, .argument (decimal start), .dot, .argument (decimal count), .gt]
      (some (start, count)) :=
    .present (parseNumber_decimal hstart) (parseNumber_decimal hcount) hpos
  have hread := htext.read (show ([] : List Token).head? ≠ some .lt from nofun)
  rwa [List.append_nil] at hread

/-! ## What is returned -/

/-- The bytes from the start on, at most so many. -/
def window (bytes : Bytes) (start count : ℕ) : Bytes := (bytes.drop start).take count

theorem window_eq_nil_iff {bytes : Bytes} (hcount : 0 < count) :
    window bytes start count = [] ↔ bytes.length ≤ start := by
  rw [window, List.take_eq_nil_iff, List.drop_eq_nil_iff]
  omega

/-- Where the sum does not wrap. -/
theorem getPartialBytes_of_lt {bytes : Bytes} (h : start + count < 2 ^ 32) :
    getPartialBytes bytes (some (start, count)) = window bytes start count := by
  rw [getPartialBytes, Nat.mod_eq_of_lt h]
  split
  · rw [List.drop_take, window]
    rcases le_total (start + count) bytes.length with hle | hle
    · rw [min_eq_left hle, Nat.add_sub_cancel_left]
    · rw [min_eq_right hle, List.take_of_length_le (by simp),
        List.take_of_length_le (by rw [List.length_drop]; omega)]
  · rename_i hlast
    rw [window, List.drop_eq_nil_of_le (by omega), List.take_nil]

/-- Where it wraps, the end is before the start. -/
theorem getPartialBytes_of_wraps {bytes : Bytes} (hstart : start < 2 ^ 32)
    (hcount : count < 2 ^ 32) (h : 2 ^ 32 ≤ start + count) :
    getPartialBytes bytes (some (start, count)) = [] := by
  have hsum : (start + count) % 2 ^ 32 = start + count - 2 ^ 32 := by omega
  have hbefore : ¬ start ≤ min ((start + count) % 2 ^ 32) bytes.length := by
    rw [hsum]
    omega
  rw [getPartialBytes]
  exact if_neg hbefore

/-- **A partial fetch returns the bytes that were asked for** if and only if the sum of its numbers
has 32 bits, or there is no byte at the start. -/
theorem partial_iff (bytes : Bytes)
    (h : readPartial tokens = .ok (some (start, count), rest)) :
    getPartialBytes bytes (some (start, count)) = window bytes start count ↔
      start + count < 2 ^ 32 ∨ bytes.length ≤ start := by
  obtain ⟨hstart, hpos, hcount⟩ := readPartial_bounds h
  rcases lt_or_ge (start + count) (2 ^ 32) with hsum | hsum
  · exact iff_of_true (getPartialBytes_of_lt hsum) (.inl hsum)
  · rw [getPartialBytes_of_wraps hstart hcount hsum, eq_comm, window_eq_nil_iff hpos]
    exact ⟨.inr, fun h ↦ h.resolve_left (by omega)⟩

/-- `<2.3>` of six bytes. -/
theorem partial_iff_six :
    getPartialBytes (asBytes "abcdef") (some (2, 3)) = window (asBytes "abcdef") 2 3 ↔
      2 + 3 < 2 ^ 32 ∨ (asBytes "abcdef").length ≤ 2 :=
  partial_iff _ (readPartial_decimal (by decide) (by decide) (by decide))

/-- `<1.4294967295>`: everything but the first byte, it should be. -/
theorem partial_wraps :
    readPartial [.lt, .argument (decimal 1), .dot, .argument (decimal 4294967295), .gt] =
        .ok (some (1, 4294967295), []) ∧
      getPartialBytes (asBytes "abc") (some (1, 4294967295)) = [] ∧
      window (asBytes "abc") 1 4294967295 = asBytes "bc" :=
  ⟨readPartial_decimal (by decide) (by decide) (by decide),
    getPartialBytes_of_wraps (by decide) (by decide) (by decide), by decide +kernel⟩

end ImapToJmap.Fetch
