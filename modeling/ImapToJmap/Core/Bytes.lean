import Mathlib

/-!
# Byte strings

What the database sees of the program's values.  A Rust `String` is its UTF-8 bytes, which is what
Lean's `String` is as well, so `asBytes` is `as_bytes` and `fromUtf8` is `String::from_utf8`; the
round trip is `fromUtf8_asBytes`.  Integers are stored big-endian (`to_be_bytes`), and the one
fact about that encoding which the program relies on is `compare_toBeBytes`: at a fixed width the
lexicographic order of the bytes is the numeric order, so a scan of UID keys is a scan in UID
order.
-/

namespace ImapToJmap

/-- `Vec<u8>`. -/
abbrev Bytes := List UInt8

/-- `str::as_bytes`. -/
def asBytes (s : String) : Bytes := s.toByteArray.data.toList

/-- `String::from_utf8`, with `none` for the error. -/
def fromUtf8 (b : Bytes) : Option String := String.fromUTF8? ⟨b.toArray⟩

@[simp] theorem fromUtf8_asBytes (s : String) : fromUtf8 (asBytes s) = some s := by
  have h : (⟨(asBytes s).toArray⟩ : ByteArray) = s.toByteArray := by
    simp [asBytes]
  rw [fromUtf8, h, String.fromUTF8?, dif_pos s.isValidUTF8]
  rfl

theorem asBytes_of_fromUtf8 {b : Bytes} {s : String} (h : fromUtf8 b = some s) :
    asBytes s = b := by
  rw [fromUtf8, String.fromUTF8?] at h
  split at h
  · obtain rfl := Option.some.inj h
    simp [asBytes, String.fromUTF8]
  · cases h

theorem asBytes_injective : Function.Injective asBytes := fun s t h ↦ by
  have hs := fromUtf8_asBytes s
  rw [h, fromUtf8_asBytes] at hs
  exact (Option.some.inj hs).symm

@[simp] theorem asBytes_inj {s t : String} : asBytes s = asBytes t ↔ s = t :=
  asBytes_injective.eq_iff

/-- The bytes of a string are those of its characters. -/
theorem asBytes_eq_flatMap (s : String) : asBytes s = s.toList.flatMap String.utf8EncodeChar := by
  have h : s.toByteArray = s.toList.utf8Encode := by
    rw [← String.toByteArray_ofList, String.ofList_toList]
  rw [asBytes, h, List.utf8Encode]
  simp

/-! ## Big-endian integers -/

/-- The `w` bytes of `n`, most significant first; what does not fit is cut off, as `as` does. -/
def toBeBytes : ℕ → ℕ → Bytes
  | 0, _ => []
  | w + 1, n => UInt8.ofNat (n / 256 ^ w) :: toBeBytes w n

/-- The integer a big-endian byte string denotes. -/
def fromBeBytes (b : Bytes) : ℕ := b.foldl (fun acc x ↦ acc * 256 + x.toNat) 0

/-- `u32::from_be_bytes(bytes.try_into()?)`: only four bytes are a `u32`. -/
def u32FromBe (b : Bytes) : Option ℕ := if b.length = 4 then some (fromBeBytes b) else none

@[simp] theorem length_toBeBytes (w n : ℕ) : (toBeBytes w n).length = w := by
  induction w with
  | zero => rfl
  | succ w ih => simp [toBeBytes, ih]

theorem foldl_toBeBytes (w n acc : ℕ) :
    (toBeBytes w n).foldl (fun acc x ↦ acc * 256 + x.toNat) acc =
      acc * 256 ^ w + n % 256 ^ w := by
  induction w generalizing acc with
  | zero => simp [toBeBytes, Nat.mod_one]
  | succ w ih =>
      have hmod : n % 256 ^ (w + 1) = n / 256 ^ w % 256 * 256 ^ w + n % 256 ^ w := by
        rw [pow_succ, Nat.mod_mul, Nat.mul_comm, Nat.add_comm]
      simp only [toBeBytes, List.foldl_cons, ih, UInt8.toNat_ofNat', Nat.reducePow, hmod]
      ring

/-- The first byte weighs most. -/
theorem le_fromBeBytes_cons (x : UInt8) (l : Bytes) :
    x.toNat * 256 ^ l.length ≤ fromBeBytes (x :: l) := by
  have hfold : ∀ (l : Bytes) (acc : ℕ),
      acc * 256 ^ l.length ≤ l.foldl (fun acc x ↦ acc * 256 + x.toNat) acc := by
    intro l
    induction l with
    | nil => simp
    | cons y l ih =>
        intro acc
        calc acc * 256 ^ (y :: l).length = acc * 256 * 256 ^ l.length := by
              rw [List.length_cons, pow_succ]; ring
          _ ≤ (acc * 256 + y.toNat) * 256 ^ l.length := by gcongr; omega
          _ ≤ _ := ih _
  simpa [fromBeBytes] using hfold l x.toNat

/-- Decoding what was encoded gives the value back, up to the bits that were cut off. -/
@[simp] theorem fromBeBytes_toBeBytes (w n : ℕ) :
    fromBeBytes (toBeBytes w n) = n % 256 ^ w := by
  simpa [fromBeBytes] using foldl_toBeBytes w n 0

@[simp] theorem u32FromBe_toBeBytes (n : ℕ) :
    u32FromBe (toBeBytes 4 n) = some (n % 2 ^ 32) := by
  simp [u32FromBe]

theorem toBeBytes_inj {w m n : ℕ} (hm : m < 256 ^ w) (hn : n < 256 ^ w) :
    toBeBytes w m = toBeBytes w n ↔ m = n := by
  refine ⟨fun h ↦ ?_, fun h ↦ h ▸ rfl⟩
  have h' := congrArg fromBeBytes h
  rwa [fromBeBytes_toBeBytes, fromBeBytes_toBeBytes, Nat.mod_eq_of_lt hm,
    Nat.mod_eq_of_lt hn] at h'

theorem toBeBytes_mod (w n : ℕ) : toBeBytes w (n % 256 ^ w) = toBeBytes w n := by
  induction w generalizing n with
  | zero => rfl
  | succ w ih =>
      have htail : toBeBytes w (n % 256 ^ (w + 1)) = toBeBytes w n := by
        rw [← ih (n % 256 ^ (w + 1)), ← ih n,
          Nat.mod_mod_of_dvd n (pow_dvd_pow 256 (Nat.le_succ w))]
      have hhead : n % 256 ^ (w + 1) / 256 ^ w = n / 256 ^ w % 256 := by
        rw [pow_succ, Nat.mod_mul_right_div_self]
      rw [toBeBytes, toBeBytes, htail, hhead]
      congr 1
      exact UInt8.toNat_inj.mp (by simp)

theorem fromBeBytes_cons (x : UInt8) (l : Bytes) :
    fromBeBytes (x :: l) = x.toNat * 256 ^ l.length + fromBeBytes l := by
  have hfold : ∀ (l : Bytes) (acc : ℕ), l.foldl (fun acc x ↦ acc * 256 + x.toNat) acc =
      acc * 256 ^ l.length + fromBeBytes l := by
    intro l
    induction l with
    | nil => simp [fromBeBytes]
    | cons y l ih =>
        intro acc
        rw [fromBeBytes, List.foldl_cons, List.foldl_cons, ih, ih, List.length_cons, pow_succ]
        ring
  rw [fromBeBytes, List.foldl_cons, hfold, Nat.zero_mul, Nat.zero_add]

theorem fromBeBytes_lt (b : Bytes) : fromBeBytes b < 256 ^ b.length := by
  induction b with
  | nil => simp [fromBeBytes]
  | cons x l ih =>
      have hx := x.toNat_lt
      rw [fromBeBytes_cons, List.length_cons, pow_succ]
      calc x.toNat * 256 ^ l.length + fromBeBytes l
          < x.toNat * 256 ^ l.length + 256 ^ l.length := by omega
        _ = (x.toNat + 1) * 256 ^ l.length := by ring
        _ ≤ 256 * 256 ^ l.length := by gcongr; omega
        _ = 256 ^ l.length * 256 := Nat.mul_comm _ _

/-- Bytes are those of the number they denote. -/
theorem toBeBytes_fromBeBytes (b : Bytes) : toBeBytes b.length (fromBeBytes b) = b := by
  induction b with
  | nil => rfl
  | cons x l ih =>
      have hlt := fromBeBytes_lt l
      have hpos : 0 < 256 ^ l.length := by positivity
      have hhead : (x.toNat * 256 ^ l.length + fromBeBytes l) / 256 ^ l.length = x.toNat := by
        rw [Nat.mul_comm, Nat.mul_add_div hpos, Nat.div_eq_of_lt hlt, Nat.add_zero]
      have htail : toBeBytes l.length (x.toNat * 256 ^ l.length + fromBeBytes l) = l := by
        rw [← toBeBytes_mod, Nat.mul_comm, Nat.mul_add_mod, Nat.mod_eq_of_lt hlt, ih]
      rw [fromBeBytes_cons, List.length_cons, toBeBytes, hhead, htail, UInt8.ofNat_toNat]

/-- Comparing two-digit numbers is comparing the leading digits first. -/
theorem compare_mul_add {p a b c d : ℕ} (hc : c < p) (hd : d < p) :
    compare (a * p + c) (b * p + d) = (compare a b).then (compare c d) := by
  rcases lt_trichotomy a b with h | rfl | h
  · have hlt : a * p + c < b * p + d := by nlinarith
    rw [compare_lt_iff_lt.mpr hlt, compare_lt_iff_lt.mpr h]
    rfl
  · rw [compare_eq_iff_eq.mpr rfl, Ordering.then]
    rcases lt_trichotomy c d with h' | rfl | h'
    · rw [compare_lt_iff_lt.mpr h', compare_lt_iff_lt.mpr (by omega)]
    · rw [compare_eq_iff_eq.mpr rfl, compare_eq_iff_eq.mpr rfl]
    · rw [compare_gt_iff_gt.mpr h', compare_gt_iff_gt.mpr (by omega)]
  · have hlt : b * p + d < a * p + c := by nlinarith
    rw [compare_gt_iff_gt.mpr hlt, compare_gt_iff_gt.mpr h]
    rfl

theorem compare_uInt8 (a b : UInt8) : compare a b = compare a.toNat b.toNat := by
  simp only [compare, compareOfLessAndEq, UInt8.lt_iff_toNat_lt, ← UInt8.toNat_inj]

/-- At a fixed width, byte order is numeric order. -/
theorem compare_toBeBytes (w m n : ℕ) :
    compare (toBeBytes w m) (toBeBytes w n) = compare (m % 256 ^ w) (n % 256 ^ w) := by
  induction w with
  | zero => simp [toBeBytes, Nat.mod_one]
  | succ w ih =>
      have hmod : ∀ k, k % 256 ^ (w + 1) = k / 256 ^ w % 256 * 256 ^ w + k % 256 ^ w :=
        fun k ↦ by rw [pow_succ, Nat.mod_mul, Nat.mul_comm, Nat.add_comm]
      have hpos : 0 < 256 ^ w := Nat.pow_pos (by decide)
      rw [hmod m, hmod n, compare_mul_add (Nat.mod_lt _ hpos) (Nat.mod_lt _ hpos), ← ih,
        toBeBytes, toBeBytes, List.compare_cons_cons, compare_uInt8]
      simp

end ImapToJmap
