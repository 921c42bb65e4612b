import ImapToJmap.Protocol.Shifted

/-!
# Names that are their own encoding

A mailbox name of printable ASCII without `&` is written as it is in modified UTF-7.  What is
written for any other name is not what it decodes to: only where the low 16 bits of its characters
are no UTF-16 does the decoder give up, and `utf7_maybe_decode` takes the text as it is
(`utf7MaybeDecode_encode_iff`).
-/

namespace ImapToJmap

namespace Utf7

/-- A character that is written as it is, and read so. -/
def IsVerbatim (ch : Char) : Prop := IsPrintable ch ∧ ch ≠ '&'

instance (ch : Char) : Decidable (IsVerbatim ch) := inferInstanceAs (Decidable (_ ∧ _))

/-- The low 16 bits of each character: `ch as u16`. -/
def codes (text : List Char) : List ℕ := text.map fun ch ↦ ch.toNat % 2 ^ 16

section

variable {ch : Char} {text chars : List Char} {units : List ℕ}

theorem IsVerbatim.code (h : IsVerbatim ch) : ch.toNat % 2 ^ 16 = ch.toNat ∧
    (0x20 ≤ ch.toNat ∧ ch.toNat < 0x7f) ∧ ch.toNat ≠ 0x26 := by
  obtain ⟨⟨hle, hlt⟩, hne⟩ := h
  exact ⟨Nat.mod_eq_of_lt (by omega), ⟨hle, hlt⟩, fun heq ↦ hne (Char.toNat_inj.mp heq)⟩

theorem fromUtf16_cons {unit : ℕ} (h : ¬IsHalf unit) :
    fromUtf16 (unit :: units) = (fromUtf16 units).map (Char.ofNat unit :: ·) := by
  conv_lhs => unfold fromUtf16
  rw [if_pos (by omega)]

theorem encodeFrom_verbatim (h : IsVerbatim ch) (u : ℕ) :
    encodeFrom false 0 u (ch :: text) = ch :: encodeFrom false 0 u text := by
  obtain ⟨hcode, hprintable, hne⟩ := h.code
  rw [encodeFrom]
  dsimp only
  rw [hcode, if_pos hprintable, if_neg hne]
  rfl

theorem fromUtf16_verbatim (h : IsVerbatim ch) :
    fromUtf16 (unitsOf ch ++ units) = (fromUtf16 units).map (ch :: ·) := by
  have hwide : ¬IsWide ch := by
    have := h.1.2
    omega
  rw [unitsOf_of_not_isWide hwide, List.singleton_append, fromUtf16_cons (not_isHalf ch),
    Char.ofNat_toNat]

/-- An ampersand, and a wide character whose low bits are one. -/
theorem encodeFrom_ampersand (h : ch.toNat % 2 ^ 16 = 0x26) (u : ℕ) :
    encodeFrom false 0 u (ch :: text) = '&' :: '-' :: encodeFrom false 0 u text := by
  rw [encodeFrom]
  dsimp only
  rw [h, if_pos (by decide), if_pos rfl]
  rfl

theorem fromUtf16_ampersand (h : ch.toNat % 2 ^ 16 = 0x26) :
    fromUtf16 (unitsOf ch ++ units) = (fromUtf16 units).map ('&' :: ·) := by
  have hunits : unitsOf ch = [0x26] := by
    unfold unitsOf
    dsimp only
    rw [h, if_pos (by decide), if_pos rfl]
  rw [hunits]
  exact fromUtf16_cons (by decide)

theorem head_encodeFrom_raw (h : 0x20 ≤ ch.toNat % 2 ^ 16 ∧ ch.toNat % 2 ^ 16 < 0x7f)
    (hne : ch.toNat % 2 ^ 16 ≠ 0x26) (u : ℕ) (text : List Char) :
    (encodeFrom false 0 u (ch :: text)).head? = some ch := by
  rw [encodeFrom]
  dsimp only
  rw [if_pos h, if_neg hne]
  rfl

theorem head_encodeFrom_shift (h : ¬(0x20 ≤ ch.toNat % 2 ^ 16 ∧ ch.toNat % 2 ^ 16 < 0x7f)) (u : ℕ)
    (text : List Char) : (encodeFrom false 0 u (ch :: text)).head? = some '&' := by
  rw [encodeFrom]
  dsimp only
  rw [if_neg h]
  rfl

/-- What comes back of any other character begins with one that is not printable, and that is not
the first of what is written. -/
theorem fromUtf16_other (h : ¬IsVerbatim ch) (hcode : ch.toNat % 2 ^ 16 ≠ 0x26)
    (hchars : fromUtf16 (unitsOf ch ++ units) = some chars) :
    ∃ c rest, chars = c :: rest ∧ ¬IsPrintable c ∧
      ∀ u text, (encodeFrom false 0 u (ch :: text)).head? ≠ some c := by
  by_cases hprintable : 0x20 ≤ ch.toNat % 2 ^ 16 ∧ ch.toNat % 2 ^ 16 < 0x7f
  · -- a wide character is written as it is, and its bytes are read one by one
    have hwide : IsWide ch := by
      by_contra hwide
      rw [Nat.mod_eq_of_lt (Nat.lt_of_not_le hwide)] at hprintable hcode
      exact h ⟨hprintable, fun hamp ↦ hcode (congrArg Char.toNat hamp)⟩
    obtain ⟨byte, bytes, hbytes⟩ :=
      List.exists_cons_of_ne_nil (String.utf8EncodeChar_ne_nil (c := ch))
    have hunits : unitsOf ch = byte.toNat :: bytes.map UInt8.toNat := by
      unfold unitsOf
      dsimp only
      rw [if_pos hprintable, if_neg hcode, hbytes, List.map_cons]
    have hbyte : 0x80 ≤ byte.toNat := by
      by_contra hlt
      have hmem : byte ∈ String.utf8EncodeChar ch := by
        rw [hbytes]
        exact List.mem_cons_self
      have hval : ch.toNat = byte.toNat := (mem_utf8EncodeChar (by omega)).mp hmem
      omega
    have hlt := byte.toNat_lt
    rw [hunits, List.cons_append, fromUtf16_cons (by omega)] at hchars
    obtain ⟨rest, -, rfl⟩ := Option.map_eq_some_iff.mp hchars
    have hval : (Char.ofNat byte.toNat).toNat = byte.toNat := toNat_ofNat (by omega)
    refine ⟨_, rest, rfl, fun hp ↦ ?_, fun u text ↦ ?_⟩
    · have := hp.2
      omega
    · rw [head_encodeFrom_raw hprintable hcode, ne_eq, Option.some_inj]
      intro heq
      rw [← heq] at hval
      omega
  · have hunits : unitsOf ch = [ch.toNat % 2 ^ 16] := if_neg hprintable
    rw [hunits, List.singleton_append] at hchars
    suffices hsuff : ∃ c rest, chars = c :: rest ∧ ¬IsPrintable c by
      obtain ⟨c, rest, hrest, hc⟩ := hsuff
      refine ⟨c, rest, hrest, hc, fun u text ↦ ?_⟩
      rw [head_encodeFrom_shift hprintable, ne_eq, Option.some_inj]
      rintro rfl
      exact hc (by decide)
    have hlt : ch.toNat % 2 ^ 16 < 2 ^ 16 := Nat.mod_lt _ (by decide)
    by_cases hhalf : IsHalf (ch.toNat % 2 ^ 16)
    · unfold fromUtf16 at hchars
      rw [if_neg (by omega)] at hchars
      split at hchars
      · rename_i low units
        split at hchars
        · obtain ⟨rest, -, rfl⟩ := Option.map_eq_some_iff.mp hchars
          refine ⟨_, rest, rfl, fun hp ↦ ?_⟩
          have hval := toNat_ofNat
            (n := 0x10000 + (ch.toNat % 2 ^ 16 - 0xD800) * 0x400 + (low - 0xDC00)) (by omega)
          have := hp.2
          omega
        · cases hchars
      · cases hchars
    · rw [fromUtf16_cons hhalf] at hchars
      obtain ⟨rest, -, rfl⟩ := Option.map_eq_some_iff.mp hchars
      have hval : (Char.ofNat (ch.toNat % 2 ^ 16)).toNat = ch.toNat % 2 ^ 16 :=
        toNat_ofNat (by omega)
      exact ⟨_, rest, rfl, fun hp ↦ hprintable (hval ▸ hp)⟩

/-- What an ampersand adds to the text is never made up for. -/
theorem fromUtf16_ne_dash (text : List Char) (u : ℕ) :
    fromUtf16 (text.flatMap unitsOf) ≠ some ('-' :: encodeFrom false 0 u text) := by
  induction text with
  | nil => exact fun h ↦ by cases h
  | cons ch text ih =>
      intro h
      rw [List.flatMap_cons] at h
      by_cases hverbatim : IsVerbatim ch
      · rw [fromUtf16_verbatim hverbatim, encodeFrom_verbatim hverbatim] at h
        obtain ⟨rest, hrest, heq⟩ := Option.map_eq_some_iff.mp h
        obtain ⟨rfl, rfl⟩ := List.cons.inj heq
        exact ih hrest
      by_cases hcode : ch.toNat % 2 ^ 16 = 0x26
      · rw [fromUtf16_ampersand hcode] at h
        obtain ⟨rest, -, heq⟩ := Option.map_eq_some_iff.mp h
        exact absurd (List.cons.inj heq).1 (by decide)
      · obtain ⟨c, rest, heq, hc, -⟩ := fromUtf16_other hverbatim hcode h
        rw [← (List.cons.inj heq).1] at hc
        exact hc (by decide)

/-- The text comes back as it is written only where each character is. -/
theorem fromUtf16_eq_encodeFrom_iff (text : List Char) (u : ℕ) :
    fromUtf16 (text.flatMap unitsOf) = some (encodeFrom false 0 u text) ↔
      ∀ ch ∈ text, IsVerbatim ch := by
  induction text with
  | nil => exact iff_of_true rfl nofun
  | cons ch text ih =>
      rw [List.flatMap_cons, List.forall_mem_cons]
      by_cases hverbatim : IsVerbatim ch
      · rw [fromUtf16_verbatim hverbatim, encodeFrom_verbatim hverbatim, Option.map_eq_some_iff,
          ← ih]
        constructor
        · rintro ⟨rest, hrest, heq⟩
          rw [← (List.cons.inj heq).2]
          exact ⟨hverbatim, hrest⟩
        · rintro ⟨-, h⟩
          exact ⟨_, h, rfl⟩
      · refine iff_of_false (fun h ↦ ?_) fun h ↦ hverbatim h.1
        by_cases hcode : ch.toNat % 2 ^ 16 = 0x26
        · rw [fromUtf16_ampersand hcode, encodeFrom_ampersand hcode] at h
          obtain ⟨rest, hrest, heq⟩ := Option.map_eq_some_iff.mp h
          rw [(List.cons.inj heq).2] at hrest
          exact fromUtf16_ne_dash text u hrest
        · obtain ⟨c, rest, heq, -, hhead⟩ := fromUtf16_other hverbatim hcode h
          exact hhead u text (by rw [heq, List.head?_cons])

/-! ## Text that does not decode -/

/-- The unit of a character, or the bytes of one that is written as it is. -/
theorem unitsOf_cases (ch : Char) : unitsOf ch = [ch.toNat % 2 ^ 16] ∨
    ¬IsHalf (ch.toNat % 2 ^ 16) ∧ unitsOf ch ≠ [] ∧ ∀ unit ∈ unitsOf ch, ¬IsHalf unit := by
  unfold unitsOf
  dsimp only
  split
  · rename_i hprintable
    split
    · rename_i hamp
      rw [hamp]
      exact .inl rfl
    · refine .inr ⟨by omega, ?_, fun unit hunit ↦ ?_⟩
      · exact fun h ↦ String.utf8EncodeChar_ne_nil (List.map_eq_nil_iff.mp h)
      · obtain ⟨byte, -, rfl⟩ := List.mem_map.mp hunit
        have := byte.toNat_lt
        omega
  · exact .inl rfl

theorem isSome_fromUtf16_append {units' : List ℕ} (h : ∀ unit ∈ units, ¬IsHalf unit) :
    (fromUtf16 (units ++ units')).isSome = (fromUtf16 units').isSome := by
  induction units with
  | nil => rfl
  | cons unit units ih =>
      obtain ⟨hunit, hunits⟩ := List.forall_mem_cons.mp h
      rw [List.cons_append, fromUtf16_cons hunit, Option.isSome_map, ih hunits]

/-- Half of a character, and what may be its other half. -/
theorem isSome_fromUtf16_half {unit : ℕ} (h : IsHalf unit) :
    (fromUtf16 (unit :: units)).isSome = true ↔
      ∃ low rest, units = low :: rest ∧ (unit < 0xDC00 ∧ 0xDC00 ≤ low ∧ low < 0xE000) ∧
        (fromUtf16 rest).isSome = true := by
  conv_lhs => unfold fromUtf16
  rw [if_neg (by omega)]
  cases units with
  | nil =>
      refine iff_of_false Bool.false_ne_true ?_
      rintro ⟨_, _, h, _⟩
      cases h
  | cons low rest =>
      dsimp only
      split
      · rename_i hpair
        rw [Option.isSome_map]
        constructor
        · intro hrest
          exact ⟨low, rest, rfl, hpair, hrest⟩
        · rintro ⟨_, _, heq, _, hrest⟩
          cases heq
          exact hrest
      · rename_i hpair
        refine iff_of_false Bool.false_ne_true ?_
        rintro ⟨_, _, heq, hpair', _⟩
        cases heq
        exact hpair hpair'

theorem isSome_fromUtf16_unitsOf_cons {ch : Char} (hhalf : ¬IsHalf (ch.toNat % 2 ^ 16))
    (ih : (fromUtf16 (text.flatMap unitsOf)).isSome = true ↔
      (fromUtf16 (codes text)).isSome = true) :
    (fromUtf16 ((ch :: text).flatMap unitsOf)).isSome = true ↔
      (fromUtf16 (codes (ch :: text))).isSome = true := by
  have hunits : ∀ unit ∈ unitsOf ch, ¬IsHalf unit := by
    rcases unitsOf_cases ch with h | h
    · rw [h]
      exact List.forall_mem_singleton.mpr hhalf
    · exact h.2.2
  rw [List.flatMap_cons, isSome_fromUtf16_append hunits, codes, List.map_cons, fromUtf16_cons hhalf,
    Option.isSome_map]
  exact ih

/-- What comes back is UTF-16 if the low bits of the characters are. -/
theorem isSome_fromUtf16_unitsOf (text : List Char) :
    (fromUtf16 (text.flatMap unitsOf)).isSome = true ↔ (fromUtf16 (codes text)).isSome = true := by
  induction text using List.twoStepInduction with
  | nil => rfl
  | singleton ch =>
      by_cases hhalf : IsHalf (ch.toNat % 2 ^ 16)
      · have hunits := (unitsOf_cases ch).resolve_right fun h ↦ h.1 hhalf
        rw [List.flatMap_singleton, hunits]
        rfl
      · exact isSome_fromUtf16_unitsOf_cons hhalf Iff.rfl
  | cons_cons ch next text ih ihnext =>
      by_cases hhalf : IsHalf (ch.toNat % 2 ^ 16)
      · have hunits := (unitsOf_cases ch).resolve_right fun h ↦ h.1 hhalf
        rw [List.flatMap_cons, List.flatMap_cons, hunits, List.singleton_append, codes,
          List.map_cons, List.map_cons, isSome_fromUtf16_half hhalf, isSome_fromUtf16_half hhalf]
        rcases unitsOf_cases next with hnext | ⟨hnext, hne, hnone⟩
        · rw [hnext, List.singleton_append]
          constructor
          · rintro ⟨low, rest, heq, hpair, hrest⟩
            obtain ⟨rfl, rfl⟩ := List.cons.inj heq
            exact ⟨_, _, rfl, hpair, ih.mp hrest⟩
          · rintro ⟨low, rest, heq, hpair, hrest⟩
            obtain ⟨rfl, rfl⟩ := List.cons.inj heq
            exact ⟨_, _, rfl, hpair, ih.mpr hrest⟩
        · -- the next character is no other half, as it is or in bytes
          obtain ⟨unit, units, hunits⟩ := List.exists_cons_of_ne_nil hne
          rw [hunits] at hnone ⊢
          have hunit := hnone unit List.mem_cons_self
          refine iff_of_false ?_ ?_
          · rintro ⟨low, rest, heq, hpair, -⟩
            obtain ⟨rfl, -⟩ := List.cons.inj heq
            omega
          · rintro ⟨low, rest, heq, hpair, -⟩
            obtain ⟨rfl, -⟩ := List.cons.inj heq
            omega
      · exact isSome_fromUtf16_unitsOf_cons hhalf (ihnext next)

end

end Utf7

open Utf7

/-- A mailbox name whose encoding is taken as it is. -/
theorem utf7MaybeDecode_encode_iff (mailboxName : String) :
    utf7MaybeDecode (utf7Encode mailboxName) false = utf7Encode mailboxName ↔
      (∀ ch ∈ mailboxName.toList, IsVerbatim ch) ∨ fromUtf16 (codes mailboxName.toList) = none := by
  have hback : fromUtf16 (mailboxName.toList.flatMap unitsOf) =
      some (encodeFrom false 0 0 mailboxName.toList) ↔ _ := fromUtf16_eq_encodeFrom_iff _ 0
  have hnone : fromUtf16 (mailboxName.toList.flatMap unitsOf) = none ↔
      fromUtf16 (codes mailboxName.toList) = none := by
    rw [← Option.not_isSome_iff_eq_none, ← Option.not_isSome_iff_eq_none]
    exact not_congr (isSome_fromUtf16_unitsOf _)
  rw [← hback, ← hnone, utf7MaybeDecode, if_neg Bool.false_ne_true, utf7Decode_utf7Encode]
  cases fromUtf16 (mailboxName.toList.flatMap unitsOf) with
  | none => exact iff_of_true rfl (.inr rfl)
  | some chars =>
      have hencode : utf7Encode mailboxName = String.ofList _ := rfl
      simp only [Option.map_some, Option.getD_some, Option.some_inj, reduceCtorEq, or_false]
      rw [hencode, String.ofList_inj]

end ImapToJmap
