import ImapToJmap.Protocol.Utf7

/-!
# The accumulator of modified UTF-7

`utf7_encode` and `utf7_decode` once more, with their arithmetic checked: the bits that are pending
after a character, every amount that an accumulator is shifted by, what a shift to the left pushes
out, the differences, and the indices into the two tables.  A check that fails is a `Fault`.
`utf7_inRange` is that none does, for any text.

The encoder writes six bits at a time and takes in sixteen, so 0, 2 or 4 are left over; the decoder
takes in six and writes sixteen as soon as it has them.
-/

namespace ImapToJmap.Utf7

/-- What can go out of range. -/
inductive Fault where
  | /-- `bits`, after a character. -/
    bits
  | /-- An amount of 32 or more. -/
    shift
  | /-- A bit that is still to be written is shifted out. -/
    lost
  | /-- A difference below zero. -/
    underflow
  | /-- Past the end of a table. -/
    index
deriving DecidableEq

/-- The check is made before going on. -/
def check {α : Type} (condition : Bool) (fault : Fault) (next : Except Fault α) : Except Fault α :=
  if condition then next else .error fault

theorem check_of {α : Type} {condition : Bool} (h : condition = true) (fault : Fault)
    (next : Except Fault α) : check condition fault next = next := if_pos h

theorem ok_bind {α β : Type} (a : α) (f : α → Except Fault β) : (Except.ok a >>= f) = f a := rfl

/-- `u << amount` on 32 bits, of which the lowest `bits` are pending. -/
def shl (bits u amount : ℕ) : Except Fault ℕ :=
  check (amount < 32) .shift <| check (bits + amount ≤ 32) .lost <| .ok (u * 2 ^ amount % 2 ^ 32)

/-- `u >> amount` -/
def shr (u amount : ℕ) : Except Fault ℕ := check (amount < 32) .shift <| .ok (u / 2 ^ amount)

/-- `a - b` -/
def difference (a b : ℕ) : Except Fault ℕ := check (b ≤ a) .underflow <| .ok (a - b)

/-- `UTF_7_MAP[n & 0x3f]` -/
def digitAt (n : ℕ) : Except Fault Char :=
  match map[n % 64]? with
  | some ch => .ok ch
  | none => .error .index

/-- `UTF_7_RANK` -/
def ranks : List ℕ :=
  [255, 255, 255, 255, 255, 255, 255, 255, 255, 255, 255, 255, 255, 255, 255, 255, 255, 255, 255,
    255, 255, 255, 255, 255, 255, 255, 255, 255, 255, 255, 255, 255, 255, 255, 255, 255, 255, 255,
    255, 255, 255, 255, 255, 62, 63, 255, 255, 255, 52, 53, 54, 55, 56, 57, 58, 59, 60, 61, 255,
    255, 255, 255, 255, 255, 255, 0, 1, 2, 3, 4, 5, 6, 7, 8, 9, 10, 11, 12, 13, 14, 15, 16, 17, 18,
    19, 20, 21, 22, 23, 24, 25, 255, 255, 255, 255, 255, 255, 26, 27, 28, 29, 30, 31, 32, 33, 34,
    35, 36, 37, 38, 39, 40, 41, 42, 43, 44, 45, 46, 47, 48, 49, 50, 51, 255, 255, 255, 255, 255]

/-- `UTF_7_RANK.get(ch as usize)?`, for a byte that is no more than 127. -/
def rankAt (ch : UInt8) : Except Fault ℕ :=
  match ranks[ch.toNat]? with
  | some rank => .ok rank
  | none => .error .index

/-! ## The encoder -/

/-- `while bits >= 6` -/
def drain (u bits : ℕ) : Except Fault (List Char × ℕ) :=
  if 6 ≤ bits then do
    let amount ← difference bits 6
    let shifted ← shr u amount
    let ch ← digitAt shifted
    let rest ← drain u (bits - 6)
    .ok (ch :: rest.1, rest.2)
  else .ok ([], bits)
termination_by bits

/-- The end of a shifted run. -/
def flush (u bits : ℕ) : Except Fault (List Char) :=
  if 0 < bits then do
    let amount ← difference 6 bits
    let shifted ← shl bits u amount
    let ch ← digitAt shifted
    .ok [ch, '-']
  else .ok ['-']

/-- The bits that can be left over after a character. -/
abbrev LeftOver (bits : ℕ) : Prop := bits = 0 ∨ bits = 2 ∨ bits = 4

/-- The loop of `utf7_encode`. -/
def encodeChecked (shifted : Bool) (bits u : ℕ) (text : List Char) : Except Fault (List Char) :=
  check (LeftOver bits) .bits <|
    match text with
    | [] => if shifted then flush u bits else .ok []
    | ch :: text =>
        let code := ch.toNat % 2 ^ 16
        if 0x20 ≤ code ∧ code < 0x7f then do
          let last ← if shifted then flush u bits else .ok []
          let rest ← encodeChecked false (if shifted then 0 else bits) u text
          .ok (last ++ (if code = 0x26 then ['&', '-'] else [ch]) ++ rest)
        else do
          let high ← shl bits u 16
          let u := high + code
          let out ← drain u (bits + 16)
          let rest ← encodeChecked true out.2 u text
          .ok ((if shifted then [] else ['&']) ++ out.1 ++ rest)

theorem digitAt_eq (n : ℕ) : digitAt n = .ok (digit n) := by
  have hlt : n % 64 < map.length := Nat.mod_lt _ (by decide)
  rw [digitAt, digit, List.getElem?_eq_getElem hlt, List.getD_eq_getElem _ _ hlt]

theorem shl_eq {bits amount : ℕ} (h : bits + amount ≤ 32) (hamount : amount < 32) (u : ℕ) :
    shl bits u amount = .ok (u * 2 ^ amount % 2 ^ 32) := by
  rw [shl, check_of (decide_eq_true hamount), check_of (decide_eq_true h)]

theorem shr_eq {amount : ℕ} (h : amount < 32) (u : ℕ) : shr u amount = .ok (u / 2 ^ amount) :=
  check_of (decide_eq_true h) _ _

theorem difference_eq {a b : ℕ} (h : b ≤ a) : difference a b = .ok (a - b) :=
  check_of (decide_eq_true h) _ _

/-- Sixteen bits and the four at most that are left over are no more than the accumulator has. -/
theorem drain_eq {bits : ℕ} (h : bits ≤ 20) (u : ℕ) : drain u bits = .ok (digits u bits) := by
  fun_induction digits u bits with
  | case1 bits hbits ih =>
      have hamount : bits - 6 < 32 := by omega
      rw [drain, if_pos hbits, difference_eq hbits, ok_bind, shr_eq hamount, ok_bind,
        digitAt_eq, ok_bind, ih (by omega), ok_bind]
  | case2 bits hbits => rw [drain, if_neg hbits]

theorem LeftOver.lt {bits : ℕ} (h : LeftOver bits) : bits < 6 := by
  rcases h with rfl | rfl | rfl <;> decide

theorem flush_eq {bits : ℕ} (h : LeftOver bits) (u : ℕ) : flush u bits = .ok (unshift u bits) := by
  have hlt := h.lt
  rw [flush, unshift]
  split
  · rw [difference_eq hlt.le, ok_bind, shl_eq (by omega) (by omega), ok_bind,
      digitAt_eq, ok_bind]
    have hmod : u * 2 ^ (6 - bits) % 2 ^ 32 % 64 = u * 2 ^ (6 - bits) % 64 :=
      Nat.mod_mod_of_dvd _ (by norm_num)
    rw [digit, hmod]
    rfl
  · rfl

theorem leftOver_digits {bits : ℕ} (h : LeftOver bits) (u : ℕ) :
    LeftOver (digits u (bits + 16)).2 := by
  rcases h with rfl | rfl | rfl
  · right
    right
    simp [digits]
  · left
    simp [digits]
  · right
    left
    simp [digits]

/-- By induction on the text; before each character `LeftOver` holds of the bits. -/
theorem encodeChecked_eq (shifted : Bool) {bits : ℕ} (h : LeftOver bits) (u : ℕ)
    (text : List Char) :
    encodeChecked shifted bits u text = .ok (encodeFrom shifted bits u text) := by
  induction text generalizing shifted bits u with
  | nil =>
      rw [encodeChecked, check_of (decide_eq_true h), encodeFrom]
      split
      · exact flush_eq h u
      · rfl
  | cons ch text ih =>
      rw [encodeChecked, check_of (decide_eq_true h), encodeFrom]
      dsimp only
      split
      · have hbits : LeftOver (if shifted then 0 else bits) := by
          split
          · exact .inl rfl
          · exact h
        rw [ih false hbits]
        cases shifted with
        | true =>
            rw [if_pos rfl, flush_eq h, ok_bind, ok_bind]
            rfl
        | false => rfl
      · have hlt := h.lt
        rw [shl_eq (by omega) (by omega), ok_bind, drain_eq (by omega), ok_bind,
          ih true (leftOver_digits h _), ok_bind]

/-! ## The decoder -/

/-- The loop of `utf7_decode`. -/
def decodeChecked (shifted : Bool) (bits v : ℕ) : Bytes → Except Fault (Option (List ℕ))
  | [] => check (bits < 16) .bits <| .ok (some [])
  | ch :: text => check (bits < 16) .bits <|
      if shifted then
        if ch = 45 then decodeChecked false 0 0 text
        else if 127 < ch.toNat then .ok none
        else do
          let rank ← rankAt ch
          if rank = 255 then .ok none
          else do
            let high ← shl bits v 6
            let v := high + rank
            if 16 ≤ bits + 6 then do
              let amount ← difference (bits + 6) 16
              let unit ← shr v amount
              let rest ← decodeChecked true amount v text
              .ok (rest.map (unit % 2 ^ 16 :: ·))
            else decodeChecked true (bits + 6) v text
      else if ch = 38 then
        match text with
        | [] => .ok (some [38])
        | 45 :: text => do
            let rest ← decodeChecked false bits v text
            .ok (rest.map (38 :: ·))
        | text => decodeChecked true bits v text
      else do
        let rest ← decodeChecked false bits v text
        .ok (rest.map (ch.toNat :: ·))

/-- The table and the search in `UTF_7_MAP`. -/
theorem rankAt_eq {ch : UInt8} (h : ch.toNat ≤ 127) :
    ∃ n, rankAt ch = .ok n ∧ rank ch = if n = 255 then none else some n := by
  have hall : ∀ i < 128, ∃ n ∈ ranks[i]?, map.idxOf? (Char.ofNat i) =
      if n = 255 then none else some n := by decide +kernel
  obtain ⟨n, hn, hrank⟩ := hall ch.toNat (by omega)
  refine ⟨n, ?_, hrank⟩
  rw [rankAt, Option.mem_def.mp hn]

theorem rank_of_not_ascii {ch : UInt8} (h : 127 < ch.toNat) : rank ch = none := by
  have hall : ∀ i < 256, 127 < i → map.idxOf? (Char.ofNat i) = none := by decide +kernel
  exact hall ch.toNat ch.toNat_lt h

/-- A byte of a shifted run that stands for six bits. -/
theorem decodeChecked_digit {bits v n : ℕ} {ch : UInt8} {text : Bytes} (hdash : ¬ ch = 45)
    (hrank : rank ch = some n) (h : bits < 16) :
    decodeChecked true bits v (ch :: text) =
      if 16 ≤ bits + 6 then do
        let amount ← difference (bits + 6) 16
        let unit ← shr (v * 2 ^ 6 % 2 ^ 32 + n) amount
        let rest ← decodeChecked true amount (v * 2 ^ 6 % 2 ^ 32 + n) text
        .ok (rest.map (unit % 2 ^ 16 :: ·))
      else decodeChecked true (bits + 6) (v * 2 ^ 6 % 2 ^ 32 + n) text := by
  have hascii : ¬ 127 < ch.toNat := by
    intro hhigh
    rw [rank_of_not_ascii hhigh] at hrank
    cases hrank
  obtain ⟨n', hat, hn'⟩ := rankAt_eq (not_lt.mp hascii)
  rw [hrank] at hn'
  split at hn'
  · cases hn'
  · rename_i hne
    obtain rfl := Option.some.inj hn'
    conv_lhs => unfold decodeChecked
    rw [check_of (decide_eq_true h), if_pos rfl, if_neg hdash, if_neg hascii, hat, ok_bind,
      if_neg hne, shl_eq (by omega) (by omega), ok_bind]

/-- By induction on the text; before each byte there are fewer than sixteen bits. -/
theorem decodeChecked_eq (shifted : Bool) {bits : ℕ} (h : bits < 16) (v : ℕ) (text : Bytes) :
    decodeChecked shifted bits v text = .ok (decodeFrom shifted bits v text) := by
  fun_induction decodeFrom shifted bits v text with
  | case1 shifted bits v => exact check_of (decide_eq_true h) _ _
  | case2 bits v text ih =>
      unfold decodeChecked
      rw [check_of (decide_eq_true h), if_pos rfl, if_pos rfl]
      exact ih (by decide)
  | case3 bits v ch text hdash hrank =>
      unfold decodeChecked
      rw [check_of (decide_eq_true h), if_pos rfl, if_neg hdash]
      split
      · rfl
      · rename_i hascii
        obtain ⟨n, hat, hn⟩ := rankAt_eq (not_lt.mp hascii)
        rw [hrank] at hn
        rw [hat, ok_bind]
        split
        · rfl
        · rename_i hne
          rw [if_neg hne] at hn
          cases hn
  | case4 bits v ch text hdash n hrank v' hfull ih =>
      have hamount : bits + 6 - 16 = bits - 10 := by omega
      rw [decodeChecked_digit hdash hrank h, if_pos hfull, difference_eq hfull, ok_bind, hamount,
        shr_eq (by omega), ok_bind, ih (by omega), ok_bind]
  | case5 bits v ch text hdash n hrank v' hfull ih =>
      rw [decodeChecked_digit hdash hrank h, if_neg hfull]
      exact ih (by omega)
  | case6 shifted bits v hshifted =>
      unfold decodeChecked
      rw [check_of (decide_eq_true h), if_neg hshifted, if_pos rfl]
  | case7 shifted bits v hshifted text ih =>
      unfold decodeChecked
      rw [check_of (decide_eq_true h), if_neg hshifted, if_pos rfl]
      show (decodeChecked false bits v text >>= _) = _
      rw [ih h, ok_bind]
  | case8 shifted bits v hshifted text hnil hdash ih =>
      unfold decodeChecked
      rw [check_of (decide_eq_true h), if_neg hshifted, if_pos rfl]
      split
      · exact (hnil rfl).elim
      · exact (hdash _ rfl).elim
      · exact ih h
  | case9 shifted bits v ch text hshifted hamp ih =>
      unfold decodeChecked
      rw [check_of (decide_eq_true h), if_neg hshifted, if_neg hamp, ih h, ok_bind]

/-- **Nothing goes out of range**: with every check in it the encoder returns what it returns
without, for every text, and so does the decoder. -/
theorem utf7_inRange :
    (∀ text : String, (encodeChecked false 0 0 text.toList).map String.ofList =
      .ok (utf7Encode text)) ∧
    (∀ text : Bytes, (decodeChecked false 0 0 text).map
      (fun units ↦ (units.bind fromUtf16).map String.ofList) = .ok (utf7Decode text)) ∧
    map.length = 64 ∧ ranks.length = 128 := by
  refine ⟨fun text ↦ ?_, fun text ↦ ?_, rfl, rfl⟩
  · rw [encodeChecked_eq false (.inl rfl)]
    rfl
  · rw [decodeChecked_eq false (by decide)]
    rfl

end ImapToJmap.Utf7
