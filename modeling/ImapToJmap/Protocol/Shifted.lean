import ImapToJmap.Protocol.Utf7

/-!
# Modified UTF-7 and back

What `utf7_decode` makes of what `utf7_encode` writes.  In a shifted run the decoder is behind the
encoder by the bits that are not written yet, and these are of one unit at most (`Behind`).

The decoder gets the units of `unitsOf` back, whatever the text is.  They are the UTF-16 of the text
exactly when each character fits into 16 bits: `ch_ as u16` leaves one unit of a character that
needs two (`decode_encode_iff`).
-/

namespace ImapToJmap

namespace Utf7

/-! ## Digits -/

section

variable {bits u held v n : ℕ} {rest : Bytes}

/-- The byte of a digit. -/
def digitByte (n : ℕ) : UInt8 := (digit n).toNat.toUInt8

theorem digitByte_spec (n : ℕ) : String.utf8EncodeChar (digit n) = [digitByte n] ∧
    digitByte n ≠ 45 ∧ rank (digitByte n) = some (n % 64) := by
  have h : ∀ k < 64, String.utf8EncodeChar (map.getD k 'A') = [(map.getD k 'A').toNat.toUInt8] ∧
      (map.getD k 'A').toNat.toUInt8 ≠ 45 ∧ rank (map.getD k 'A').toNat.toUInt8 = some k := by
    decide +kernel
  exact h _ (Nat.mod_lt _ (by decide))

theorem digits_sixteen (u : ℕ) : digits u 16 = ([digit (u / 2 ^ 10), digit (u / 2 ^ 4)], 4) := by
  rw [digits, if_pos (by decide), digits, if_pos (by decide), digits, if_neg (by decide)]

theorem digits_eighteen (u : ℕ) :
    digits u 18 = ([digit (u / 2 ^ 12), digit (u / 2 ^ 6), digit (u / 2 ^ 0)], 0) := by
  rw [digits, if_pos (by decide), digits, if_pos (by decide), digits, if_pos (by decide), digits,
    if_neg (by decide)]

theorem digits_twenty (u : ℕ) :
    digits u 20 = ([digit (u / 2 ^ 14), digit (u / 2 ^ 8), digit (u / 2 ^ 2)], 2) := by
  rw [digits, if_pos (by decide), digits, if_pos (by decide), digits, if_pos (by decide), digits,
    if_neg (by decide)]

/-- The accumulator of the decoder, with one more digit. -/
def shift (v n : ℕ) : ℕ := v * 2 ^ 6 % 2 ^ 32 + n % 64

theorem decodeFrom_digit (held v n : ℕ) (rest : Bytes) :
    decodeFrom true held v (digitByte n :: rest) =
      if 16 ≤ held + 6 then
        (decodeFrom true (held - 10) (shift v n) rest).map
          (shift v n / 2 ^ (held - 10) % 2 ^ 16 :: ·)
      else decodeFrom true (held + 6) (shift v n) rest := by
  obtain ⟨-, hdash, hrank⟩ := digitByte_spec n
  conv_lhs => unfold decodeFrom
  rw [if_pos rfl, if_neg hdash, hrank]
  rfl

theorem decodeFrom_held (h : held < 10) (v n : ℕ) (rest : Bytes) :
    decodeFrom true held v (digitByte n :: rest) =
      decodeFrom true (held + 6) (shift v n) rest := by
  rw [decodeFrom_digit, if_neg (by omega)]

theorem decodeFrom_unit (h : 10 ≤ held) (v n : ℕ) (rest : Bytes) :
    decodeFrom true held v (digitByte n :: rest) =
      (decodeFrom true (held - 10) (shift v n) rest).map
        (shift v n / 2 ^ (held - 10) % 2 ^ 16 :: ·) := by
  rw [decodeFrom_digit, if_pos (by omega)]

theorem decodeFrom_dash (held v : ℕ) (rest : Bytes) :
    decodeFrom true held v (45 :: rest) = decodeFrom false 0 0 rest := by
  conv_lhs => unfold decodeFrom
  rw [if_pos rfl, if_pos rfl]

end

/-- What is written, as bytes. -/
abbrev bytesOf (text : List Char) : Bytes := text.flatMap String.utf8EncodeChar

theorem bytesOf_digit (n : ℕ) (text : List Char) :
    bytesOf (digit n :: text) = digitByte n :: bytesOf text := by
  rw [bytesOf, List.flatMap_cons, (digitByte_spec n).1]
  rfl

/-! ## A shifted run -/

/-- The decoder is behind the encoder by `bits` of the unit `owed`. -/
inductive Behind (u v : ℕ) : (bits held : ℕ) → (owed : List ℕ) → Prop
  | none : Behind u v 0 0 []
  | two {code : ℕ} : code < 2 ^ 16 → u % 2 ^ 2 = code % 2 ^ 2 → v % 2 ^ 14 = code / 2 ^ 2 →
      Behind u v 2 14 [code]
  | four {code : ℕ} : code < 2 ^ 16 → u % 2 ^ 4 = code % 2 ^ 4 → v % 2 ^ 12 = code / 2 ^ 4 →
      Behind u v 4 12 [code]

section

variable {u v bits held code : ℕ} {owed : List ℕ}

/-- One more unit: what was owed is complete. -/
theorem Behind.unit (h : Behind u v bits held owed) (hcode : code < 2 ^ 16) (rest : Bytes) :
    ∃ v' held' units owed', owed ++ [code] = units ++ owed' ∧
      Behind (u * 2 ^ 16 % 2 ^ 32 + code) v'
        (digits (u * 2 ^ 16 % 2 ^ 32 + code) (bits + 16)).2 held' owed' ∧
      decodeFrom true held v
          (bytesOf (digits (u * 2 ^ 16 % 2 ^ 32 + code) (bits + 16)).1 ++ rest) =
        (decodeFrom true held' v' rest).map (units ++ ·) := by
  generalize hu : u * 2 ^ 16 % 2 ^ 32 + code = u'
  cases h with
  | none =>
      rw [digits_sixteen]
      refine ⟨shift (shift v (u' / 2 ^ 10)) (u' / 2 ^ 4), 12, [], [code], rfl,
        .four hcode ?_ ?_, ?_⟩
      · omega
      · simp only [shift]
        omega
      · rw [bytesOf_digit, bytesOf_digit, List.cons_append, List.cons_append,
          decodeFrom_held (by decide), decodeFrom_held (by decide)]
        exact Option.map_id'.symm
  | @two last hlast hlow hhigh =>
      have hfirst : shift v (u' / 2 ^ 12) / 2 ^ 4 % 2 ^ 16 = last := by
        simp only [shift]
        omega
      have hnext :
          shift (shift (shift v (u' / 2 ^ 12)) (u' / 2 ^ 6)) (u' / 2 ^ 0) / 2 ^ 0 % 2 ^ 16 =
          code := by
        simp only [shift]
        omega
      rw [digits_eighteen]
      refine ⟨shift (shift (shift v (u' / 2 ^ 12)) (u' / 2 ^ 6)) (u' / 2 ^ 0), 0, [last, code], [],
        rfl, .none, ?_⟩
      rw [bytesOf_digit, bytesOf_digit, bytesOf_digit, List.cons_append, List.cons_append,
        List.cons_append, decodeFrom_unit (by decide), decodeFrom_held (by decide),
        decodeFrom_unit (by decide), Option.map_map, hfirst, hnext]
      rfl
  | @four last hlast hlow hhigh =>
      have hfirst : shift v (u' / 2 ^ 14) / 2 ^ 2 % 2 ^ 16 = last := by
        simp only [shift]
        omega
      rw [digits_twenty]
      refine ⟨shift (shift (shift v (u' / 2 ^ 14)) (u' / 2 ^ 8)) (u' / 2 ^ 2), 14, [last], [code],
        rfl, .two hcode ?_ ?_, ?_⟩
      · omega
      · simp only [shift]
        omega
      · rw [bytesOf_digit, bytesOf_digit, bytesOf_digit, List.cons_append, List.cons_append,
          List.cons_append, decodeFrom_unit (by decide), decodeFrom_held (by decide),
          decodeFrom_held (by decide), hfirst]
        rfl

/-- The end of a run: the last digit has the bits that are missing. -/
theorem Behind.unshift (h : Behind u v bits held owed) (rest : Bytes) :
    decodeFrom true held v (bytesOf (unshift u bits) ++ rest) =
      (decodeFrom false 0 0 rest).map (owed ++ ·) := by
  have hdash : bytesOf ['-'] = [45] := by decide
  cases h with
  | none =>
      show decodeFrom true 0 v (bytesOf ['-'] ++ rest) = _
      rw [hdash, List.singleton_append, decodeFrom_dash]
      exact Option.map_id'.symm
  | @two last hlast hlow hhigh =>
      have hunit : shift v (u * 2 ^ (6 - 2)) / 2 ^ 4 % 2 ^ 16 = last := by
        simp only [shift]
        omega
      show decodeFrom true 14 v (bytesOf (digit (u * 2 ^ (6 - 2)) :: ['-']) ++ rest) = _
      rw [bytesOf_digit, hdash, List.cons_append, decodeFrom_unit (by decide), hunit,
        List.singleton_append, decodeFrom_dash]
      rfl
  | @four last hlast hlow hhigh =>
      have hunit : shift v (u * 2 ^ (6 - 4)) / 2 ^ 2 % 2 ^ 16 = last := by
        simp only [shift]
        omega
      show decodeFrom true 12 v (bytesOf (digit (u * 2 ^ (6 - 4)) :: ['-']) ++ rest) = _
      rw [bytesOf_digit, hdash, List.cons_append, decodeFrom_unit (by decide), hunit,
        List.singleton_append, decodeFrom_dash]
      rfl

end

/-! ## The units -/

/-- The units that come back for a character. -/
def unitsOf (ch : Char) : List ℕ :=
  let code := ch.toNat % 2 ^ 16
  if 0x20 ≤ code ∧ code < 0x7f then
    if code = 0x26 then [0x26] else (String.utf8EncodeChar ch).map UInt8.toNat
  else [code]

section

variable {held v : ℕ}

theorem decodeFrom_plain {text : Bytes} (h : 38 ∉ text) (v : ℕ) (rest : Bytes) :
    decodeFrom false 0 v (text ++ rest) =
      (decodeFrom false 0 v rest).map (text.map UInt8.toNat ++ ·) := by
  induction text with
  | nil => exact Option.map_id'.symm
  | cons ch text ih =>
      obtain ⟨hch, htext⟩ := not_or.mp (mt List.mem_cons.mpr h)
      rw [List.cons_append]
      conv_lhs => unfold decodeFrom
      rw [if_neg Bool.false_ne_true, if_neg (Ne.symm hch), ih htext, Option.map_map]
      rfl

theorem decodeFrom_ampersand (v : ℕ) (rest : Bytes) :
    decodeFrom false 0 v (38 :: 45 :: rest) = (decodeFrom false 0 v rest).map (38 :: ·) := by
  conv_lhs => unfold decodeFrom
  rw [if_neg Bool.false_ne_true, if_pos rfl]
  rfl

theorem decodeFrom_shifts (v n : ℕ) (rest : Bytes) :
    decodeFrom false 0 v (38 :: digitByte n :: rest) =
      decodeFrom true 0 v (digitByte n :: rest) := by
  obtain ⟨-, hdash, -⟩ := digitByte_spec n
  conv_lhs => unfold decodeFrom
  rw [if_neg Bool.false_ne_true, if_pos rfl]
  split
  · rename_i heq
    cases heq
  · rename_i heq
    exact absurd (List.cons.inj heq).1 hdash
  · rfl

/-- A character that is written as it is, or as `&-`. -/
theorem decodeFrom_raw {ch : Char} (h : 0x20 ≤ ch.toNat % 2 ^ 16 ∧ ch.toNat % 2 ^ 16 < 0x7f) (v : ℕ)
    (rest : Bytes) :
    decodeFrom false 0 v
        (bytesOf (if ch.toNat % 2 ^ 16 = 0x26 then ['&', '-'] else [ch]) ++ rest) =
      (decodeFrom false 0 v rest).map (unitsOf ch ++ ·) := by
  unfold unitsOf
  dsimp only
  rw [if_pos h]
  split
  · have hbytes : bytesOf ['&', '-'] = [38, 45] := by decide
    rw [hbytes]
    exact decodeFrom_ampersand v rest
  · rename_i hne
    have hamp : (38 : UInt8) ∉ String.utf8EncodeChar ch := by
      intro hmem
      have hval := (mem_utf8EncodeChar (by decide)).mp hmem
      have hcode : ch.toNat = 38 := hval
      rw [hcode] at hne
      exact hne rfl
    rw [bytesOf, List.flatMap_singleton]
    exact decodeFrom_plain hamp v rest

end

/-- **The decoder gets the units back**, in a shifted run with what it owes before them. -/
theorem decodeFrom_encodeFrom (text : List Char) :
    (∀ u v, decodeFrom false 0 v (bytesOf (encodeFrom false 0 u text)) =
      some (text.flatMap unitsOf)) ∧
    ∀ u v bits held owed, Behind u v bits held owed →
      decodeFrom true held v (bytesOf (encodeFrom true bits u text)) =
        some (owed ++ text.flatMap unitsOf) := by
  induction text with
  | nil =>
      refine ⟨fun u v ↦ ?_, fun u v bits held owed h ↦ ?_⟩
      · rw [encodeFrom, if_neg Bool.false_ne_true]
        rfl
      · have hend := h.unshift []
        rw [List.append_nil] at hend
        rw [encodeFrom, if_pos rfl, hend]
        rfl
  | cons ch text ih =>
      obtain ⟨hplain, hshifted⟩ := ih
      rw [List.flatMap_cons]
      by_cases hcode : 0x20 ≤ ch.toNat % 2 ^ 16 ∧ ch.toNat % 2 ^ 16 < 0x7f
      · refine ⟨fun u v ↦ ?_, fun u v bits held owed h ↦ ?_⟩
        · rw [encodeFrom]
          dsimp only
          rw [if_pos hcode, if_neg Bool.false_ne_true, if_neg Bool.false_ne_true, List.nil_append,
            bytesOf, List.flatMap_append, decodeFrom_raw hcode, hplain]
          rfl
        · rw [encodeFrom]
          dsimp only
          rw [if_pos hcode, if_pos rfl, if_pos rfl, List.append_assoc, bytesOf, List.flatMap_append,
            h.unshift, List.flatMap_append, decodeFrom_raw hcode, hplain]
          rfl
      · have hunits : unitsOf ch = [ch.toNat % 2 ^ 16] := if_neg hcode
        have hlt : ch.toNat % 2 ^ 16 < 2 ^ 16 := Nat.mod_lt _ (by decide)
        have hrun : ∀ u v bits held owed, Behind u v bits held owed →
            decodeFrom true held v (bytesOf
              ((digits (u * 2 ^ 16 % 2 ^ 32 + ch.toNat % 2 ^ 16) (bits + 16)).1 ++
                encodeFrom true (digits (u * 2 ^ 16 % 2 ^ 32 + ch.toNat % 2 ^ 16) (bits + 16)).2
                  (u * 2 ^ 16 % 2 ^ 32 + ch.toNat % 2 ^ 16) text)) =
              some (owed ++ (unitsOf ch ++ text.flatMap unitsOf)) := by
          intro u v bits held owed h
          obtain ⟨v', held', units, owed', howed, h', hstep⟩ :=
            h.unit hlt (bytesOf (encodeFrom true
              (digits (u * 2 ^ 16 % 2 ^ 32 + ch.toNat % 2 ^ 16) (bits + 16)).2
              (u * 2 ^ 16 % 2 ^ 32 + ch.toNat % 2 ^ 16) text))
          rw [bytesOf, List.flatMap_append, hstep, hshifted _ _ _ _ _ h', hunits,
            ← List.append_assoc owed, howed]
          simp
        refine ⟨fun u v ↦ ?_, fun u v bits held owed h ↦ ?_⟩
        · rw [encodeFrom]
          dsimp only
          rw [if_neg hcode, if_neg Bool.false_ne_true, List.append_assoc]
          have hfirst := hrun u v 0 0 [] .none
          rw [Nat.zero_add, digits_sixteen, List.cons_append, bytesOf_digit] at hfirst
          have hamp : ∀ l, bytesOf ('&' :: l) = 38 :: bytesOf l := fun _ ↦ rfl
          rw [Nat.zero_add, digits_sixteen, List.cons_append, List.nil_append, hamp,
            List.cons_append, bytesOf_digit, decodeFrom_shifts]
          exact hfirst
        · rw [encodeFrom]
          dsimp only
          rw [if_neg hcode, if_pos rfl, List.nil_append]
          exact hrun u v bits held owed h

/-! ## UTF-16 -/

/-- A unit that is half of a character. -/
abbrev IsHalf (unit : ℕ) : Prop := 0xD800 ≤ unit ∧ unit < 0xE000

/-- A character that needs two units. -/
abbrev IsWide (ch : Char) : Prop := 2 ^ 16 ≤ ch.toNat

theorem toNat_ofNat {n : ℕ} (h : n < 0xD800 ∨ 0xE000 ≤ n ∧ n < 0x110000) :
    (Char.ofNat n).toNat = n := by
  have hvalid : n.isValidChar := by
    unfold Nat.isValidChar
    omega
  rw [Char.ofNat, dif_pos hvalid]
  exact Char.toNat_ofNatAux hvalid

theorem not_isHalf (ch : Char) : ¬ IsHalf ch.toNat := by
  have hvalid : ch.toNat.isValidChar := ch.valid
  unfold Nat.isValidChar at hvalid
  omega

/-- Each wide character has two halves, and no other character has any. -/
theorem countP_of_fromUtf16 {units : List ℕ} {text : List Char}
    (hlt : ∀ unit ∈ units, unit < 2 ^ 16)
    (h : fromUtf16 units = some text) : units.countP (IsHalf ·) = 2 * text.countP (IsWide ·) := by
  fun_induction fromUtf16 units generalizing text with
  | case1 =>
      cases h
      rfl
  | case2 unit units hunit ih =>
      obtain ⟨hunit', hunits⟩ := List.forall_mem_cons.mp hlt
      obtain ⟨rest, hrest, rfl⟩ := Option.map_eq_some_iff.mp h
      have hch : (Char.ofNat unit).toNat = unit := toNat_ofNat (by omega)
      have hhalf : ¬ IsHalf unit := by omega
      have hwide : ¬ IsWide (Char.ofNat unit) := by omega
      simp only [List.countP_cons, decide_eq_true_eq, if_neg hhalf, if_neg hwide, ih hunits hrest,
        Nat.add_zero]
  | case3 unit hunit low units hpair ih =>
      obtain ⟨-, hlow⟩ := List.forall_mem_cons.mp hlt
      obtain ⟨-, hunits⟩ := List.forall_mem_cons.mp hlow
      obtain ⟨rest, hrest, rfl⟩ := Option.map_eq_some_iff.mp h
      have hch : (Char.ofNat (0x10000 + (unit - 0xD800) * 0x400 + (low - 0xDC00))).toNat =
          0x10000 + (unit - 0xD800) * 0x400 + (low - 0xDC00) := toNat_ofNat (by omega)
      have hfirst : IsHalf unit := by omega
      have hlast : IsHalf low := by omega
      have hwide : IsWide (Char.ofNat (0x10000 + (unit - 0xD800) * 0x400 + (low - 0xDC00))) := by
        omega
      simp only [List.countP_cons, decide_eq_true_eq, if_pos hfirst, if_pos hlast, if_pos hwide,
        ih hunits hrest]
      omega
  | case4 => cases h
  | case5 => cases h

theorem toNat_lt_of_mem_unitsOf {ch : Char} : ∀ unit ∈ unitsOf ch, unit < 2 ^ 16 := by
  unfold unitsOf
  intro unit hunit
  dsimp only at hunit
  split at hunit
  · split at hunit
    · rw [List.mem_singleton.mp hunit]
      decide
    · obtain ⟨byte, -, rfl⟩ := List.mem_map.mp hunit
      exact byte.toNat_lt.trans (by decide)
  · rw [List.mem_singleton.mp hunit]
    exact Nat.mod_lt _ (by decide)

/-- The unit of a character that is not wide is the character. -/
theorem unitsOf_of_not_isWide {ch : Char} (h : ¬ IsWide ch) : unitsOf ch = [ch.toNat] := by
  have hcode : ch.toNat % 2 ^ 16 = ch.toNat := Nat.mod_eq_of_lt (Nat.lt_of_not_le h)
  unfold unitsOf
  dsimp only
  rw [hcode]
  split
  · rename_i hprintable
    split
    · rename_i hamp
      rw [hamp]
    · have hlt : ch.toNat < 2 ^ 8 := by omega
      rw [utf8EncodeChar_of_ascii (by omega), List.map_singleton, Nat.toUInt8,
        UInt8.toNat_ofNat', Nat.mod_eq_of_lt hlt]
  · rfl

/-- Of a wide character there is one half at most. -/
theorem countP_unitsOf (ch : Char) : (unitsOf ch).countP (IsHalf ·) ≤ [ch].countP (IsWide ·) := by
  by_cases hwide : IsWide ch
  · have hone : [ch].countP (IsWide ·) = 1 := by
      simp only [List.countP_singleton, decide_eq_true hwide, if_true]
    rw [hone]
    unfold unitsOf
    dsimp only
    split
    · have hnone : ∀ unit < 2 ^ 8, ¬ decide (IsHalf unit) = true := by
        intro unit hunit hhalf
        have := of_decide_eq_true hhalf
        omega
      rw [List.countP_eq_zero.mpr]
      · exact Nat.zero_le _
      · intro unit hunit
        refine hnone unit ?_
        split at hunit
        · rw [List.mem_singleton.mp hunit]
          decide
        · obtain ⟨byte, -, rfl⟩ := List.mem_map.mp hunit
          exact byte.toNat_lt
    · exact List.countP_le_length
  · rw [unitsOf_of_not_isWide hwide, List.countP_eq_zero.mpr]
    · exact Nat.zero_le _
    · rintro unit hunit hhalf
      rw [List.mem_singleton.mp hunit] at hhalf
      exact not_isHalf ch (of_decide_eq_true hhalf)

theorem countP_flatMap_unitsOf (text : List Char) :
    (text.flatMap unitsOf).countP (IsHalf ·) ≤ text.countP (IsWide ·) := by
  induction text with
  | nil => exact le_rfl
  | cons ch text ih =>
      rw [List.flatMap_cons, List.countP_append, ← List.singleton_append, List.countP_append]
      exact Nat.add_le_add (countP_unitsOf ch) ih

/-- The units are the text exactly when none of its characters is wide. -/
theorem fromUtf16_flatMap_iff (text : List Char) :
    fromUtf16 (text.flatMap unitsOf) = some text ↔ ∀ ch ∈ text, ¬ IsWide ch := by
  constructor
  · intro h
    have hlt : ∀ unit ∈ text.flatMap unitsOf, unit < 2 ^ 16 := by
      intro unit hunit
      obtain ⟨ch, -, hunit⟩ := List.mem_flatMap.mp hunit
      exact toNat_lt_of_mem_unitsOf unit hunit
    have htwice := countP_of_fromUtf16 hlt h
    have honce := countP_flatMap_unitsOf text
    have hzero : text.countP (IsWide ·) = 0 := by omega
    intro ch hch hwide
    exact List.countP_eq_zero.mp hzero ch hch (decide_eq_true hwide)
  · intro h
    induction text with
    | nil => rfl
    | cons ch text ih =>
        obtain ⟨hch, htext⟩ := List.forall_mem_cons.mp h
        have hhalf : ch.toNat < 0xD800 ∨ 0xE000 ≤ ch.toNat := by
          have := not_isHalf ch
          omega
        rw [List.flatMap_cons, unitsOf_of_not_isWide hch, List.singleton_append]
        conv_lhs => unfold fromUtf16
        rw [if_pos hhalf, ih htext, Char.ofNat_toNat]
        rfl

end Utf7

open Utf7

/-- What comes back of a mailbox name. -/
theorem utf7Decode_utf7Encode (text : String) :
    utf7Decode (asBytes (utf7Encode text)) =
      (fromUtf16 (text.toList.flatMap unitsOf)).map String.ofList := by
  rw [utf7Decode, asBytes_eq_flatMap, utf7Encode, String.toList_ofList,
    (decodeFrom_encodeFrom text.toList).1 0 0, Option.bind_some]

/-- Printable ASCII. -/
def IsPrintable (ch : Char) : Prop := 0x20 ≤ ch.toNat ∧ ch.toNat < 0x7f

instance (ch : Char) : Decidable (IsPrintable ch) := inferInstanceAs (Decidable (_ ∧ _))

theorem isPrintable_digit (n : ℕ) : IsPrintable (digit n) := by
  have h : ∀ k < 64, IsPrintable (map.getD k 'A') := by decide +kernel
  exact h _ (Nat.mod_lt _ (by decide))

/-- A name of characters that are not wide is written in printable ASCII. -/
theorem isPrintable_utf7Encode {text : String} (h : ∀ ch ∈ text.toList, ¬ IsWide ch) :
    ∀ ch ∈ (utf7Encode text).toList, IsPrintable ch := by
  rw [utf7Encode, String.toList_ofList]
  refine forall_mem_encodeFrom isPrintable_digit (by decide) (by decide) ?_ false 0 0
  intro ch hch hcode
  have hlt := Nat.lt_of_not_le (h ch hch)
  rw [Nat.mod_eq_of_lt hlt] at hcode
  exact hcode

/-- **A mailbox name comes back, through printable ASCII, exactly when each of its characters fits
into 16 bits.** -/
theorem decode_encode_iff (text : String) :
    (utf7Decode (asBytes (utf7Encode text)) = some text ∧
        ∀ ch ∈ (utf7Encode text).toList, IsPrintable ch) ↔
      ∀ ch ∈ text.toList, ch.toNat < 2 ^ 16 := by
  have hback : utf7Decode (asBytes (utf7Encode text)) = some text ↔
      ∀ ch ∈ text.toList, ¬ IsWide ch := by
    rw [utf7Decode_utf7Encode, ← fromUtf16_flatMap_iff, Option.map_eq_some_iff]
    constructor
    · rintro ⟨chars, hchars, rfl⟩
      rw [String.toList_ofList] at hchars ⊢
      exact hchars
    · intro h
      exact ⟨text.toList, h, String.ofList_toList⟩
  simp only [← not_le]
  constructor
  · rintro ⟨h, -⟩
    exact hback.mp h
  · intro h
    exact ⟨hback.mpr h, isPrintable_utf7Encode h⟩

/-- `&9gA-` is not the smiley that it is written for. -/
theorem decode_encode_fails : utf7Decode (asBytes (utf7Encode "😀")) ≠ some "😀" := by
  have hencode : utf7Encode "😀" = "&9gA-" := by decide +kernel
  rw [hencode]
  decide +kernel

end ImapToJmap
