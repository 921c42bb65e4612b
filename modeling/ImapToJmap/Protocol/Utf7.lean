import ImapToJmap.Protocol.Writer

/-!
# Modified UTF-7

`core/utf7.rs`: the form in which an IMAP4rev1 client gets a mailbox name, and gives it.  A
character outside printable ASCII goes through a 32-bit accumulator six bits at a time, so whatever
the name holds, its encoding ends no line (`plain_utf7Encode`).  The decoder makes UTF-16 of the
bytes, one unit of each byte that is not shifted, and what it cannot decode is taken as it is.
-/

namespace ImapToJmap

namespace Utf7

/-- `UTF_7_MAP` -/
def map : List Char := "ABCDEFGHIJKLMNOPQRSTUVWXYZabcdefghijklmnopqrstuvwxyz0123456789+,".toList

/-- `UTF_7_MAP[(n & 0x3f) as usize]` -/
def digit (n : ℕ) : Char := map.getD (n % 64) 'A'

/-- The digits that `while bits >= 6` writes, and the bits that are left. -/
def digits (u : ℕ) (bits : ℕ) : List Char × ℕ :=
  if 6 ≤ bits then (digit (u / 2 ^ (bits - 6)) :: (digits u (bits - 6)).1, (digits u (bits - 6)).2)
  else ([], bits)
termination_by bits

/-- The end of a shifted run. -/
def unshift (u bits : ℕ) : List Char :=
  (if 0 < bits then [digit (u * 2 ^ (6 - bits))] else []) ++ ['-']

/-- The loop of `utf7_encode`. -/
def encodeFrom (shifted : Bool) (bits u : ℕ) : List Char → List Char
  | [] => if shifted then unshift u bits else []
  | ch :: text =>
      -- `ch_ as u16`
      let code := ch.toNat % 2 ^ 16
      if 0x20 ≤ code ∧ code < 0x7f then
        (if shifted then unshift u bits else []) ++
          (if code = 0x26 then ['&', '-'] else [ch]) ++
            encodeFrom false (if shifted then 0 else bits) u text
      else
        -- `u << 16` drops what does not fit
        let u := u * 2 ^ 16 % 2 ^ 32 + code
        (if shifted then [] else ['&']) ++ (digits u (bits + 16)).1 ++
          encodeFrom true (digits u (bits + 16)).2 u text

end Utf7

open Utf7

/-- `utf7_encode` -/
def utf7Encode (text : String) : String := String.ofList (encodeFrom false 0 0 text.toList)

example : utf7Encode "~peter/mail/台北/日本語" = "~peter/mail/&U,BTFw-/&ZeVnLIqe-" := by
  decide +kernel

namespace Utf7

/-- `UTF_7_RANK`; `none` where it is 255, or has nothing. -/
def rank (ch : UInt8) : Option ℕ := map.idxOf? (Char.ofNat ch.toNat)

/-- The loop of `utf7_decode`: the units of UTF-16. -/
def decodeFrom (shifted : Bool) (bits v : ℕ) : Bytes → Option (List ℕ)
  | [] => some []
  | ch :: text =>
      if shifted then
        if ch = 45 then decodeFrom false 0 0 text
        else
          match rank ch with
          | none => none
          | some rank =>
              -- `v << 6` drops what does not fit
              let v := v * 2 ^ 6 % 2 ^ 32 + rank
              if 16 ≤ bits + 6 then
                (decodeFrom true (bits - 10) v text).map (v / 2 ^ (bits - 10) % 2 ^ 16 :: ·)
              else decodeFrom true (bits + 6) v text
      else if ch = 38 then
        match text with
        | [] => some [38]
        | 45 :: text => (decodeFrom false bits v text).map (38 :: ·)
        | text => decodeFrom true bits v text
      else (decodeFrom false bits v text).map (ch.toNat :: ·)

/-- `String::from_utf16` -/
def fromUtf16 : List ℕ → Option (List Char)
  | [] => some []
  | unit :: units =>
      if unit < 0xD800 ∨ 0xE000 ≤ unit then (fromUtf16 units).map (Char.ofNat unit :: ·)
      else
        match units with
        | low :: units =>
            if unit < 0xDC00 ∧ 0xDC00 ≤ low ∧ low < 0xE000 then
              (fromUtf16 units).map
                (Char.ofNat (0x10000 + (unit - 0xD800) * 0x400 + (low - 0xDC00)) :: ·)
            else none
        | [] => none

end Utf7

/-- `utf7_decode` -/
def utf7Decode (text : Bytes) : Option String :=
  ((decodeFrom false 0 0 text).bind fromUtf16).map String.ofList

/-- `utf7_maybe_decode` -/
def utf7MaybeDecode (text : String) (isRev2 : Bool) : String :=
  if isRev2 then text else (utf7Decode (asBytes text)).getD text

example : utf7MaybeDecode "~peter/mail/&U,BTFw-/&ZeVnLIqe-" false = "~peter/mail/台北/日本語" := by
  decide +kernel

namespace Utf7

theorem forall_mem_digits {P : Char → Prop} (hdigit : ∀ n, P (digit n)) (u bits : ℕ) :
    ∀ ch ∈ (digits u bits).1, P ch := by
  fun_induction digits u bits with
  | case1 bits h ih => exact List.forall_mem_cons.mpr ⟨hdigit _, ih⟩
  | case2 bits h => exact nofun

theorem forall_mem_unshift {P : Char → Prop} (hdigit : ∀ n, P (digit n)) (hdash : P '-')
    (u bits : ℕ) :
    ∀ ch ∈ unshift u bits, P ch := by
  unfold unshift
  refine List.forall_mem_append.mpr ⟨?_, List.forall_mem_singleton.mpr hdash⟩
  split
  · exact List.forall_mem_singleton.mpr (hdigit _)
  · exact nofun

/-- What holds of the digits, of `&` and `-`, and of the characters that are written as they are,
holds of all that is written. -/
theorem forall_mem_encodeFrom {P : Char → Prop} (hdigit : ∀ n, P (digit n)) (hdash : P '-')
    (hamp : P '&') {text : List Char}
    (hraw : ∀ ch ∈ text, 0x20 ≤ ch.toNat % 2 ^ 16 ∧ ch.toNat % 2 ^ 16 < 0x7f → P ch)
    (shifted : Bool) (bits u : ℕ) : ∀ ch ∈ encodeFrom shifted bits u text, P ch := by
  induction text generalizing shifted bits u with
  | nil =>
      rw [encodeFrom]
      split
      · exact forall_mem_unshift hdigit hdash u bits
      · exact nofun
  | cons ch text ih =>
      obtain ⟨hch, htext⟩ := List.forall_mem_cons.mp hraw
      rw [encodeFrom]
      dsimp only
      split
      · rename_i hcode
        refine List.forall_mem_append.mpr ⟨List.forall_mem_append.mpr ⟨?_, ?_⟩, ih htext _ _ _⟩
        · split
          · exact forall_mem_unshift hdigit hdash u bits
          · exact nofun
        · split
          · exact List.forall_mem_cons.mpr ⟨hamp, List.forall_mem_singleton.mpr hdash⟩
          · exact List.forall_mem_singleton.mpr (hch hcode)
      · refine List.forall_mem_append.mpr
          ⟨List.forall_mem_append.mpr ⟨?_, forall_mem_digits hdigit _ _⟩, ih htext _ _ _⟩
        split
        · exact nofun
        · exact List.forall_mem_singleton.mpr hamp

end Utf7

theorem digit_ne (n : ℕ) : digit n ≠ '\r' ∧ digit n ≠ '\n' := by
  have h : ∀ k < 64, map.getD k 'A' ≠ '\r' ∧ map.getD k 'A' ≠ '\n' := by decide +kernel
  exact h _ (Nat.mod_lt _ (by decide))

/-- The encoding of a mailbox name ends no line. -/
@[simp] theorem plain_utf7Encode (text : String) : Plain (utf7Encode text) := by
  rw [plain_iff, utf7Encode, String.toList_ofList]
  have hne : ∀ ch ∈ encodeFrom false 0 0 text.toList, ch ≠ '\r' ∧ ch ≠ '\n' := by
    refine forall_mem_encodeFrom digit_ne (by decide) (by decide) ?_ false 0 0
    -- a character whose code, cut to 16 bits, is printable is no line end
    rintro ch - hcode
    constructor
    · rintro rfl
      exact absurd hcode (by decide)
    · rintro rfl
      exact absurd hcode (by decide)
  exact ⟨fun hmem ↦ (hne _ hmem).1 rfl, fun hmem ↦ (hne _ hmem).2 rfl⟩

end ImapToJmap
