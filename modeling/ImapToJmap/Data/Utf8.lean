import Mathlib

/-!
# Lossy UTF-8

A decoder for bytes that may not be UTF-8.  What no character begins with, and the beginning of a
character that the next byte does not go on with, each becomes a U+FFFD; the byte after such a
beginning is read afresh.

`lossy_eq_self_iff`: what is returned is the same bytes if and only if they are UTF-8.
`flatMap_lossy_iff`: pieces may be decoded on their own if and only if none ends inside a character.
-/

namespace ImapToJmap.Utf8

/-! ## The decoder -/

/-- The least and the greatest byte allowed at a place. -/
abbrev Range := ℕ × ℕ

def Range.Has (range : Range) (byte : UInt8) : Prop :=
  range.1 ≤ byte.toNat ∧ byte.toNat ≤ range.2

instance (range : Range) (byte : UInt8) : Decidable (range.Has byte) :=
  inferInstanceAs (Decidable (_ ∧ _))

/-- Any byte that is not the first of a character. -/
def tail : Range := (0x80, 0xBF)

/-- What may follow the first byte of a character; `none` if no character begins with it. -/
def following (byte : UInt8) : Option (List Range) :=
  let n := byte.toNat
  if n ≤ 0x7F then some []
  else if 0xC2 ≤ n ∧ n ≤ 0xDF then some [tail]
  else if n = 0xE0 then some [(0xA0, 0xBF), tail]
  else if n = 0xED then some [(0x80, 0x9F), tail]
  else if 0xE1 ≤ n ∧ n ≤ 0xEF then some [tail, tail]
  else if n = 0xF0 then some [(0x90, 0xBF), tail, tail]
  else if 0xF1 ≤ n ∧ n ≤ 0xF3 then some [tail, tail, tail]
  else if n = 0xF4 then some [(0x80, 0x8F), tail, tail]
  else none

/-- Where the decoder stands: between characters, or inside one with what has been read of it. -/
inductive State where
  | start
  | within (seen : List UInt8) (next : Range) (rest : List Range)

/-- U+FFFD -/
def replacement : List UInt8 := [0xEF, 0xBF, 0xBD]

/-- The first byte of a character: the state after it, and what is decoded. -/
def first (byte : UInt8) : State × List UInt8 :=
  match following byte with
  | none => (.start, replacement)
  | some [] => (.start, [byte])
  | some (next :: rest) => (.within [byte] next rest, [])

/-- A byte inside a character. -/
def proceed (seen : List UInt8) (byte : UInt8) : List Range → State × List UInt8
  | [] => (.start, seen ++ [byte])
  | next :: rest => (.within (seen ++ [byte]) next rest, [])

namespace State

/-- The byte goes on with the character. -/
def Takes : State → UInt8 → Prop
  | start, _ => False
  | within _ next _, byte => next.Has byte

/-- What becomes of a character when the bytes end. -/
def finish : State → List UInt8
  | start => []
  | within _ _ _ => replacement

def step : State → UInt8 → State × List UInt8
  | start, byte => first byte
  | within seen next rest, byte =>
      if next.Has byte then proceed seen byte rest
      else ((first byte).1, replacement ++ (first byte).2)

/-- The state after some bytes. -/
def after (σ : State) (bytes : List UInt8) : State := bytes.foldl (fun σ byte ↦ (σ.step byte).1) σ

end State

open State

/-- Bytes decoded from a state on. -/
def lossyFrom : State → List UInt8 → List UInt8
  | σ, [] => σ.finish
  | σ, byte :: bytes => (σ.step byte).2 ++ lossyFrom (σ.step byte).1 bytes

/-- Bytes decoded. -/
def lossy (bytes : List UInt8) : List UInt8 := lossyFrom .start bytes

/-- The first of the bytes goes on with a character that the bytes before end in. -/
def Torn (before bytes : List UInt8) : Prop :=
  ∃ byte ∈ bytes.head?, (after .start before).Takes byte

instance (σ : State) (byte : UInt8) : Decidable (σ.Takes byte) :=
  match σ with
  | .start => inferInstanceAs (Decidable False)
  | .within _ next _ => inferInstanceAs (Decidable (next.Has byte))

instance (before bytes : List UInt8) : Decidable (Torn before bytes) :=
  inferInstanceAs (Decidable (∃ byte ∈ bytes.head?, (after .start before).Takes byte))

@[simp] theorem lossy_nil : lossy [] = [] := rfl

@[simp] theorem after_nil (σ : State) : after σ [] = σ := rfl

theorem after_cons (σ : State) (byte : UInt8) (bytes : List UInt8) :
    after σ (byte :: bytes) = after (σ.step byte).1 bytes := rfl

theorem after_append (σ : State) (a b : List UInt8) : after σ (a ++ b) = after (after σ a) b :=
  List.foldl_append

@[simp] theorem not_torn_nil_left {bytes : List UInt8} : ¬Torn [] bytes := by
  rintro ⟨byte, _, h⟩
  exact h

@[simp] theorem not_torn_nil_right {before : List UInt8} : ¬Torn before [] := by
  rintro ⟨byte, h, _⟩
  cases h

/-! ## Cuts -/

section

variable {σ : State} {byte : UInt8} {a b bytes : List UInt8} {pieces : List (List UInt8)}

/-- A character has four bytes at most, and none but its first could be the first of another. -/
def State.Bounded : State → Prop
  | start => True
  | within seen next rest =>
      seen.length + rest.length < 4 ∧ ∀ range ∈ next :: rest, 0x80 ≤ range.1 ∧ range.2 ≤ 0xBF

theorem step_within {seen : List UInt8} {next : Range} {rest : List Range} (h : next.Has byte) :
    (within seen next rest).step byte = proceed seen byte rest := if_pos h

/-- A byte that does not go on with the character is read afresh. -/
theorem step_of_not_takes (h : ¬σ.Takes byte) :
    σ.step byte = ((first byte).1, σ.finish ++ (first byte).2) := by
  cases σ with
  | start => rfl
  | within seen next rest => exact if_neg h

theorem lossyFrom_of_not_takes (h : ¬σ.Takes byte) :
    lossyFrom σ (byte :: bytes) = σ.finish ++ lossy (byte :: bytes) := by
  rw [lossyFrom, step_of_not_takes h, List.append_assoc]
  rfl

theorem bounded_first (byte : UInt8) : (first byte).1.Bounded := by
  unfold first following
  dsimp only
  split_ifs <;> simp [State.Bounded, tail]

theorem State.Bounded.step (h : σ.Bounded) (byte : UInt8) : (σ.step byte).1.Bounded := by
  by_cases htakes : σ.Takes byte
  · cases σ with
    | start => exact htakes.elim
    | within seen next rest =>
        rw [step_within htakes]
        cases rest with
        | nil => trivial
        | cons range rest =>
            obtain ⟨hlength, hranges⟩ := h
            refine ⟨?_, fun r hr ↦ hranges r (List.mem_cons_of_mem _ hr)⟩
            simp only [List.length_append, List.length_cons, List.length_nil] at hlength ⊢
            omega
  · rw [step_of_not_takes htakes]
    exact bounded_first byte

theorem bounded_after (h : σ.Bounded) (bytes : List UInt8) : (after σ bytes).Bounded := by
  induction bytes generalizing σ with
  | nil => exact h
  | cons byte bytes ih => exact ih (h.step byte)

/-- What goes on with a character begins none. -/
theorem lossy_of_takes (h : σ.Bounded) (htakes : σ.Takes byte) :
    lossy (byte :: bytes) = replacement ++ lossy bytes := by
  have hfirst : first byte = (.start, replacement) := by
    cases σ with
    | start => exact htakes.elim
    | within seen next rest =>
        obtain ⟨hlow, hhigh⟩ := h.2 next List.mem_cons_self
        obtain ⟨hle, hge⟩ := htakes
        have hnone : following byte = none := by
          unfold following
          dsimp only
          split_ifs <;> first | rfl | omega
        rw [first, hnone]
  rw [lossy, lossyFrom, State.step, hfirst]
  rfl

theorem length_proceed_le {seen : List UInt8} {rest : List Range} (byte : UInt8)
    (h : seen.length + rest.length < 4) :
    (proceed seen byte rest).2.length + (proceed seen byte rest).1.finish.length ≤ 4 := by
  cases rest with
  | nil =>
      simp only [proceed, State.finish, List.length_append, List.length_cons,
        List.length_nil] at h ⊢
      omega
  | cons range rest => exact Nat.le_succ 3

/-- A byte that goes on with the character is lost to it afresh: this is longer. -/
theorem length_lossyFrom_lt (h : σ.Bounded) (htakes : σ.Takes byte)
    (hle : (lossyFrom (σ.step byte).1 bytes).length ≤
      (σ.step byte).1.finish.length + (lossy bytes).length) :
    (lossyFrom σ (byte :: bytes)).length < σ.finish.length + (lossy (byte :: bytes)).length := by
  rw [lossyFrom, lossy_of_takes h htakes]
  cases σ with
  | start => exact htakes.elim
  | within seen next rest =>
      have hproceed := length_proceed_le byte h.1
      have hfinish : (within seen next rest).finish.length = 3 := rfl
      have hreplacement : replacement.length = 3 := rfl
      rw [step_within htakes] at hle ⊢
      rw [List.length_append, List.length_append, hfinish, hreplacement]
      omega

theorem length_lossyFrom_le (h : σ.Bounded) (bytes : List UInt8) :
    (lossyFrom σ bytes).length ≤ σ.finish.length + (lossy bytes).length := by
  induction bytes generalizing σ with
  | nil => exact Nat.le_refl _
  | cons byte bytes ih =>
      by_cases htakes : σ.Takes byte
      · exact (length_lossyFrom_lt h htakes (ih (h.step byte))).le
      · rw [lossyFrom_of_not_takes htakes, List.length_append]

/-- Something is decoded of what is read, or it is still kept. -/
theorem step_ne (σ : State) (byte : UInt8) : (σ.step byte).2 ≠ [] ∨ (σ.step byte).1 ≠ .start := by
  have hfirst : (first byte).2 ≠ [] ∨ (first byte).1 ≠ .start := by
    unfold first
    split
    · exact .inl (List.cons_ne_nil _ _)
    · exact .inl (List.cons_ne_nil _ _)
    · exact .inr State.noConfusion
  by_cases htakes : σ.Takes byte
  · cases σ with
    | start => exact hfirst
    | within seen next rest =>
        rw [step_within htakes]
        cases rest with
        | nil => exact .inl (List.append_ne_nil_of_right_ne_nil _ (List.cons_ne_nil _ _))
        | cons range rest => exact .inr State.noConfusion
  · rw [step_of_not_takes htakes]
    exact hfirst.imp_left fun h ↦ List.append_ne_nil_of_right_ne_nil _ h

theorem lossyFrom_ne_nil (h : bytes ≠ [] ∨ σ ≠ .start) : lossyFrom σ bytes ≠ [] := by
  induction bytes generalizing σ with
  | nil =>
      cases σ with
      | start => exact absurd rfl (h.resolve_left fun hne ↦ hne rfl)
      | within seen next rest => exact List.cons_ne_nil _ _
  | cons byte bytes ih =>
      rcases step_ne σ byte with hout | hstate
      · exact List.append_ne_nil_of_left_ne_nil hout _
      · exact List.append_ne_nil_of_right_ne_nil _ (ih (.inr hstate))

theorem lossy_ne_nil (h : bytes ≠ []) : lossy bytes ≠ [] := lossyFrom_ne_nil (.inl h)

/-- What is decoded of some bytes before the next are read. -/
def decoded : State → List UInt8 → List UInt8
  | _, [] => []
  | σ, byte :: bytes => (σ.step byte).2 ++ decoded (σ.step byte).1 bytes

theorem lossyFrom_append (σ : State) (a b : List UInt8) :
    lossyFrom σ (a ++ b) = decoded σ a ++ lossyFrom (after σ a) b := by
  induction a generalizing σ with
  | nil => rfl
  | cons byte a ih =>
      rw [List.cons_append, lossyFrom, ih, decoded, List.append_assoc]
      rfl

theorem lossy_append_eq (a b : List UInt8) :
    lossy (a ++ b) = decoded .start a ++ lossyFrom (after .start a) b := lossyFrom_append _ a b

theorem lossy_eq (a : List UInt8) : lossy a = decoded .start a ++ (after .start a).finish := by
  have h := lossy_append_eq a []
  rwa [List.append_nil] at h

theorem lossy_append (h : ¬Torn a b) : lossy (a ++ b) = lossy a ++ lossy b := by
  rw [lossy_append_eq, lossy_eq a, List.append_assoc]
  cases b with
  | nil => rw [lossy_nil, List.append_nil, lossyFrom]
  | cons byte b =>
      have htakes : ¬(after .start a).Takes byte := fun ht ↦ h ⟨byte, rfl, ht⟩
      rw [lossyFrom_of_not_takes htakes]

theorem length_lossy_append_lt (h : Torn a b) :
    (lossy (a ++ b)).length < (lossy a ++ lossy b).length := by
  obtain ⟨byte, hbyte, htakes⟩ := h
  obtain ⟨b, rfl⟩ := List.head?_eq_some_iff.mp hbyte
  have hbounded : (after .start a).Bounded := bounded_after (by trivial) a
  have hlt := length_lossyFrom_lt hbounded htakes (length_lossyFrom_le (hbounded.step byte) b)
  rw [lossy_append_eq, lossy_eq a, List.append_assoc, List.length_append, List.length_append,
    List.length_append]
  exact Nat.add_lt_add_left hlt _

/-- The bytes before a cut do not matter for what comes after it. -/
theorem after_append_of_not_torn (h : ¬Torn a (b ++ bytes)) (hb : b ≠ []) :
    after .start (a ++ b) = after .start b := by
  obtain ⟨byte, b, rfl⟩ := List.exists_cons_of_ne_nil hb
  have htakes : ¬(after .start a).Takes byte := fun ht ↦ h ⟨byte, rfl, ht⟩
  rw [after_append, after_cons, after_cons, step_of_not_takes htakes]
  rfl

theorem torn_append_iff (h : ¬Torn a (b ++ bytes)) : Torn (a ++ b) bytes ↔ Torn b bytes := by
  rcases eq_or_ne b [] with rfl | hb
  · rw [List.append_nil]
    exact iff_of_false h not_torn_nil_left
  · rw [Torn, Torn, after_append_of_not_torn h hb]

theorem length_lossy_flatten_le (pieces : List (List UInt8)) :
    (lossy pieces.flatten).length ≤ (pieces.flatMap lossy).length := by
  induction pieces with
  | nil => exact Nat.le_refl _
  | cons a pieces ih =>
      have h : (lossy (a ++ pieces.flatten)).length ≤ (lossy a ++ lossy pieces.flatten).length := by
        by_cases htorn : Torn a pieces.flatten
        · exact (length_lossy_append_lt htorn).le
        · exact (congrArg List.length (lossy_append htorn)).le
      rw [List.length_append] at h
      rw [List.flatten_cons, List.flatMap_cons, List.length_append]
      exact h.trans (Nat.add_le_add_left ih _)

/-- **Pieces may be decoded on their own** if and only if none of them ends inside a character that
goes on in the next. -/
theorem flatMap_lossy_iff : pieces.flatMap lossy = lossy pieces.flatten ↔
    ∀ l r, pieces = l ++ r → ¬Torn l.flatten r.flatten := by
  induction pieces with
  | nil =>
      refine iff_of_true rfl fun l r h ↦ ?_
      obtain ⟨rfl, rfl⟩ := List.append_eq_nil_iff.mp h.symm
      exact not_torn_nil_left
  | cons a pieces ih =>
      rw [List.flatMap_cons, List.flatten_cons]
      constructor
      · intro h l r hlr
        have hcut : ¬Torn a pieces.flatten := by
          intro htorn
          have hlt := length_lossy_append_lt htorn
          rw [← h, List.length_append, List.length_append] at hlt
          exact Nat.not_lt.mpr (length_lossy_flatten_le pieces) (Nat.lt_of_add_lt_add_left hlt)
        rw [lossy_append hcut, List.append_right_inj] at h
        rcases List.cons_eq_append_iff.mp hlr with ⟨rfl, rfl⟩ | ⟨l, rfl, rfl⟩
        · exact not_torn_nil_left
        · rw [List.flatten_append] at hcut
          rw [List.flatten_cons, torn_append_iff hcut]
          exact ih.mp h l r rfl
      · intro h
        have hcut : ¬Torn a pieces.flatten := by
          simpa using h [a] pieces rfl
        rw [lossy_append hcut, List.append_right_inj]
        refine ih.mpr fun l r hlr ↦ ?_
        subst hlr
        rw [List.flatten_append] at hcut
        have htorn := h (a :: l) r rfl
        rwa [List.flatten_cons, torn_append_iff hcut] at htorn

end

/-! ## Characters -/

/-- The bytes of one character. -/
def IsCharacter : List UInt8 → Prop
  | [] => False
  | byte :: bytes => ∃ ranges, following byte = some ranges ∧ List.Forall₂ Range.Has ranges bytes

theorem has_tail_iff {byte : UInt8} :
    tail.Has byte ↔ 0x80 ≤ byte.toNat ∧ byte.toNat ≤ 0xBF := Iff.rfl

theorem exists_val {n : ℕ} (h : n < 0xD800 ∨ 0xDFFF < n ∧ n < 0x110000) :
    ∃ c : Char, c.val.toNat = n := by
  have hn : n < 2 ^ 32 := by omega
  refine ⟨⟨UInt32.ofNat n, ?_⟩, UInt32.toNat_ofNat_of_lt' hn⟩
  rw [UInt32.isValidChar, UInt32.toNat_ofNat_of_lt' hn]
  exact h

theorem valid_val (c : Char) :
    c.val.toNat < 0xD800 ∨ 0xDFFF < c.val.toNat ∧ c.val.toNat < 0x110000 :=
  c.valid

theorem ofNat_eq {n : ℕ} {b : UInt8} (h : n = b.toNat) : UInt8.ofNat n = b := by
  rw [h, UInt8.ofNat_toNat]

/-- The bytes of a character are what the ranges allow. -/
theorem isCharacter_utf8EncodeChar (c : Char) : IsCharacter (String.utf8EncodeChar c) := by
  have hvalid := valid_val c
  unfold String.utf8EncodeChar
  dsimp only
  generalize c.val.toNat = v at hvalid ⊢
  have htail (n : ℕ) : tail.Has (UInt8.ofNat (n % 64 + 128)) := by
    rw [Range.Has, UInt8.toNat_ofNat']
    exact ⟨by rw [tail]; omega, by rw [tail]; omega⟩
  split_ifs with h1 h2 h3
  · have hn : (UInt8.ofNat v).toNat = v :=
      UInt8.toNat_ofNat_of_lt' (Nat.lt_of_le_of_lt h1 (by decide))
    exact ⟨[], by rw [following, hn]; exact if_pos h1, .nil⟩
  · have hn : (UInt8.ofNat (v / 64 % 32 + 192)).toNat = v / 64 + 192 := by
      rw [UInt8.toNat_ofNat']
      omega
    refine ⟨[tail], ?_, .cons (htail _) .nil⟩
    rw [following, hn, if_neg (by omega), if_pos (by omega)]
  · have hn : (UInt8.ofNat (v / 4096 % 16 + 224)).toNat = v / 4096 + 224 := by
      rw [UInt8.toNat_ofNat']
      omega
    have hm : (UInt8.ofNat (v / 64 % 64 + 128)).toNat = v / 64 % 64 + 128 := by
      rw [UInt8.toNat_ofNat']
      omega
    by_cases hlow : v / 4096 = 0
    · refine ⟨[(0xA0, 0xBF), tail], ?_, .cons ?_ (.cons (htail _) .nil)⟩
      · rw [following, hn, hlow]
        rfl
      · rw [Range.Has, hm]
        omega
    by_cases hsurrogate : v / 4096 = 13
    · refine ⟨[(0x80, 0x9F), tail], ?_, .cons ?_ (.cons (htail _) .nil)⟩
      · rw [following, hn, hsurrogate]
        rfl
      · rw [Range.Has, hm]
        omega
    · refine ⟨[tail, tail], ?_, .cons (htail _) (.cons (htail _) .nil)⟩
      rw [following, hn, if_neg (by omega), if_neg (by omega), if_neg (by omega), if_neg (by omega),
        if_pos (by omega)]
  · have hn : (UInt8.ofNat (v / 262144 % 8 + 240)).toNat = v / 262144 + 240 := by
      rw [UInt8.toNat_ofNat']
      omega
    have hm : (UInt8.ofNat (v / 4096 % 64 + 128)).toNat = v / 4096 % 64 + 128 := by
      rw [UInt8.toNat_ofNat']
      omega
    by_cases hlow : v / 262144 = 0
    · refine ⟨[(0x90, 0xBF), tail, tail], ?_, .cons ?_ (.cons (htail _) (.cons (htail _) .nil))⟩
      · rw [following, hn, hlow]
        rfl
      · rw [Range.Has, hm]
        omega
    by_cases hhigh : v / 262144 = 4
    · refine ⟨[(0x80, 0x8F), tail, tail], ?_, .cons ?_ (.cons (htail _) (.cons (htail _) .nil))⟩
      · rw [following, hn, hhigh]
        rfl
      · rw [Range.Has, hm]
        omega
    · refine ⟨[tail, tail, tail], ?_, .cons (htail _) (.cons (htail _) (.cons (htail _) .nil))⟩
      rw [following, hn, if_neg (by omega), if_neg (by omega), if_neg (by omega), if_neg (by omega),
        if_neg (by omega), if_neg (by omega), if_pos (by omega)]

section

variable {a b c d : UInt8}

theorem exists_one (ha : a.toNat ≤ 0x7F) : ∃ c, String.utf8EncodeChar c = [a] := by
  obtain ⟨c, hc⟩ := exists_val (n := a.toNat) (by omega)
  refine ⟨c, ?_⟩
  rw [String.utf8EncodeChar, hc, if_pos ha, ofNat_eq rfl]

theorem exists_two (ha : 0xC2 ≤ a.toNat ∧ a.toNat ≤ 0xDF) (hb : tail.Has b) :
    ∃ c, String.utf8EncodeChar c = [a, b] := by
  obtain ⟨hb, hb'⟩ : 0x80 ≤ b.toNat ∧ b.toNat ≤ 0xBF := hb
  obtain ⟨c, hc⟩ := exists_val (n := (a.toNat - 0xC0) * 64 + (b.toNat - 0x80)) (by omega)
  refine ⟨c, ?_⟩
  rw [String.utf8EncodeChar, hc, if_neg (by omega), if_pos (by omega), ofNat_eq (b := a) (by omega),
    ofNat_eq (b := b) (by omega)]

/-- Neither what has a shorter encoding nor a surrogate. -/
theorem exists_three (ha : 0xE0 ≤ a.toNat ∧ a.toNat ≤ 0xEF) (hb : tail.Has b) (hc : tail.Has c)
    (hlow : a.toNat = 0xE0 → 0xA0 ≤ b.toNat) (hsurrogate : a.toNat = 0xED → b.toNat ≤ 0x9F) :
    ∃ c', String.utf8EncodeChar c' = [a, b, c] := by
  obtain ⟨hb, hb'⟩ : 0x80 ≤ b.toNat ∧ b.toNat ≤ 0xBF := hb
  obtain ⟨hc, hc'⟩ : 0x80 ≤ c.toNat ∧ c.toNat ≤ 0xBF := hc
  obtain ⟨c', hval⟩ := exists_val
    (n := (a.toNat - 0xE0) * 4096 + (b.toNat - 0x80) * 64 + (c.toNat - 0x80)) (by omega)
  refine ⟨c', ?_⟩
  rw [String.utf8EncodeChar, hval, if_neg (by omega), if_neg (by omega), if_pos (by omega),
    ofNat_eq (b := a) (by omega), ofNat_eq (b := b) (by omega), ofNat_eq (b := c) (by omega)]

theorem exists_four (ha : 0xF0 ≤ a.toNat ∧ a.toNat ≤ 0xF4) (hb : tail.Has b) (hc : tail.Has c)
    (hd : tail.Has d) (hlow : a.toNat = 0xF0 → 0x90 ≤ b.toNat)
    (hhigh : a.toNat = 0xF4 → b.toNat ≤ 0x8F) :
    ∃ c', String.utf8EncodeChar c' = [a, b, c, d] := by
  obtain ⟨hb, hb'⟩ : 0x80 ≤ b.toNat ∧ b.toNat ≤ 0xBF := hb
  obtain ⟨hc, hc'⟩ : 0x80 ≤ c.toNat ∧ c.toNat ≤ 0xBF := hc
  obtain ⟨hd, hd'⟩ : 0x80 ≤ d.toNat ∧ d.toNat ≤ 0xBF := hd
  obtain ⟨c', hval⟩ := exists_val (n := (a.toNat - 0xF0) * 262144 + (b.toNat - 0x80) * 4096 +
    (c.toNat - 0x80) * 64 + (d.toNat - 0x80)) (by omega)
  refine ⟨c', ?_⟩
  rw [String.utf8EncodeChar, hval, if_neg (by omega), if_neg (by omega), if_neg (by omega),
    ofNat_eq (b := a) (by omega), ofNat_eq (b := b) (by omega), ofNat_eq (b := c) (by omega),
    ofNat_eq (b := d) (by omega)]

end

/-- What the ranges allow is a character. -/
theorem IsCharacter.exists {bytes : List UInt8} (h : IsCharacter bytes) :
    ∃ c : Char, String.utf8EncodeChar c = bytes := by
  cases bytes with
  | nil => exact h.elim
  | cons byte bytes =>
      obtain ⟨ranges, hranges, hbytes⟩ := h
      unfold following at hranges
      dsimp only at hranges
      -- One case for each row of `following`.
      split_ifs at hranges with h1 h2 h3 h4 h5 h6 h7 h8 <;> cases hranges <;>
        simp only [List.forall₂_cons_left_iff, List.forall₂_nil_left_iff] at hbytes
      · subst hbytes
        exact exists_one h1
      · obtain ⟨b, _, hb, rfl, rfl⟩ := hbytes
        exact exists_two h2 hb
      · obtain ⟨b, _, ⟨hlow, hhigh⟩, ⟨c, _, hc, rfl, rfl⟩, rfl⟩ := hbytes
        have hb : tail.Has b := has_tail_iff.mpr ⟨by omega, hhigh⟩
        exact exists_three (by omega) hb hc (fun _ ↦ hlow) (by omega)
      · obtain ⟨b, _, ⟨hlow, hhigh⟩, ⟨c, _, hc, rfl, rfl⟩, rfl⟩ := hbytes
        have hb : tail.Has b := has_tail_iff.mpr ⟨hlow, by omega⟩
        exact exists_three (by omega) hb hc (by omega) (fun _ ↦ hhigh)
      · obtain ⟨b, _, hb, ⟨c, _, hc, rfl, rfl⟩, rfl⟩ := hbytes
        exact exists_three (by omega) hb hc (by omega) (by omega)
      · obtain ⟨b, _, ⟨hlow, hhigh⟩, ⟨c, _, hc, ⟨d, _, hd, rfl, rfl⟩, rfl⟩, rfl⟩ := hbytes
        have hb : tail.Has b := has_tail_iff.mpr ⟨by omega, hhigh⟩
        exact exists_four (by omega) hb hc hd (fun _ ↦ hlow) (by omega)
      · obtain ⟨b, _, hb, ⟨c, _, hc, ⟨d, _, hd, rfl, rfl⟩, rfl⟩, rfl⟩ := hbytes
        exact exists_four (by omega) hb hc hd (by omega) (by omega)
      · obtain ⟨b, _, ⟨hlow, hhigh⟩, ⟨c, _, hc, ⟨d, _, hd, rfl, rfl⟩, rfl⟩, rfl⟩ := hbytes
        have hb : tail.Has b := has_tail_iff.mpr ⟨hlow, by omega⟩
        exact exists_four (by omega) hb hc hd (by omega) (fun _ ↦ hhigh)

/-- The bytes of some characters. -/
def IsUtf8 (bytes : List UInt8) : Prop := ∃ cs : List Char, cs.flatMap String.utf8EncodeChar = bytes

theorem IsUtf8.nil : IsUtf8 [] := ⟨[], rfl⟩

theorem IsCharacter.isUtf8 {bytes : List UInt8} (h : IsCharacter bytes) : IsUtf8 bytes := by
  obtain ⟨c, hc⟩ := h.exists
  exact ⟨[c], by rw [List.flatMap_singleton, hc]⟩

theorem IsUtf8.append {a b : List UInt8} (ha : IsUtf8 a) (hb : IsUtf8 b) : IsUtf8 (a ++ b) := by
  obtain ⟨cs, rfl⟩ := ha
  obtain ⟨ds, rfl⟩ := hb
  exact ⟨cs ++ ds, List.flatMap_append⟩

theorem isUtf8_replacement : IsUtf8 replacement := ⟨['\uFFFD'], rfl⟩

/-! ### Characters are kept -/

theorem lossyFrom_within {seen bs bytes : List UInt8} {next : Range} {rest : List Range}
    (h : List.Forall₂ Range.Has (next :: rest) bs) :
    lossyFrom (.within seen next rest) (bs ++ bytes) = seen ++ bs ++ lossy bytes := by
  induction rest generalizing seen next bs with
  | nil =>
      simp only [List.forall₂_cons_left_iff, List.forall₂_nil_left_iff] at h
      obtain ⟨b, _, hb, rfl, rfl⟩ := h
      rw [List.cons_append, lossyFrom, State.step, if_pos hb]
      rfl
  | cons range rest ih =>
      obtain ⟨b, bs, hb, hbs, rfl⟩ := List.forall₂_cons_left_iff.mp h
      rw [List.cons_append, lossyFrom, State.step, if_pos hb, proceed, ih hbs]
      simp

theorem lossy_character {bs bytes : List UInt8} (h : IsCharacter bs) :
    lossy (bs ++ bytes) = bs ++ lossy bytes := by
  cases bs with
  | nil => exact h.elim
  | cons byte bs =>
      obtain ⟨ranges, hranges, hbs⟩ := h
      rw [List.cons_append, lossy, lossyFrom, State.step, first, hranges]
      cases ranges with
      | nil =>
          obtain rfl := List.forall₂_nil_left_iff.mp hbs
          rfl
      | cons next rest => exact lossyFrom_within hbs

theorem lossy_of_isUtf8 {bytes : List UInt8} (h : IsUtf8 bytes) : lossy bytes = bytes := by
  obtain ⟨cs, rfl⟩ := h
  induction cs with
  | nil => rfl
  | cons c cs ih => rw [List.flatMap_cons, lossy_character (isCharacter_utf8EncodeChar c), ih]

/-! ### What is decoded is UTF-8 -/

/-- What may still come makes a character of what has been read. -/
def State.Sound : State → Prop
  | start => True
  | within seen next rest =>
      ∀ bs, List.Forall₂ Range.Has (next :: rest) bs → IsCharacter (seen ++ bs)

theorem sound_first (byte : UInt8) : (first byte).1.Sound ∧ IsUtf8 (first byte).2 := by
  unfold first
  split
  · exact ⟨trivial, isUtf8_replacement⟩
  · rename_i hbyte
    exact ⟨trivial, IsCharacter.isUtf8 ⟨[], hbyte, .nil⟩⟩
  · rename_i next rest hbyte
    exact ⟨fun bs hbs ↦ ⟨next :: rest, hbyte, hbs⟩, .nil⟩

theorem isUtf8_finish {σ : State} : IsUtf8 σ.finish := by
  cases σ with
  | start => exact .nil
  | within seen next rest => exact isUtf8_replacement

theorem State.Sound.step {σ : State} (h : σ.Sound) (byte : UInt8) :
    (σ.step byte).1.Sound ∧ IsUtf8 (σ.step byte).2 := by
  by_cases htakes : σ.Takes byte
  · cases σ with
    | start => exact htakes.elim
    | within seen next rest =>
        rw [step_within htakes]
        cases rest with
        | nil => exact ⟨trivial, (h [byte] (.cons htakes .nil)).isUtf8⟩
        | cons range rest =>
            refine ⟨fun bs hbs ↦ ?_, .nil⟩
            rw [List.append_assoc]
            exact h (byte :: bs) (.cons htakes hbs)
  · rw [step_of_not_takes htakes]
    obtain ⟨hsound, hutf8⟩ := sound_first byte
    exact ⟨hsound, isUtf8_finish.append hutf8⟩

theorem isUtf8_lossyFrom {σ : State} (h : σ.Sound) (bytes : List UInt8) :
    IsUtf8 (lossyFrom σ bytes) := by
  induction bytes generalizing σ with
  | nil => exact isUtf8_finish
  | cons byte bytes ih =>
      obtain ⟨hsound, hutf8⟩ := h.step byte
      exact hutf8.append (ih hsound)

/-- **Bytes are kept** if and only if they are UTF-8. -/
theorem lossy_eq_self_iff {bytes : List UInt8} : lossy bytes = bytes ↔ IsUtf8 bytes := by
  constructor
  · intro h
    rw [← h]
    exact isUtf8_lossyFrom (show State.start.Sound from trivial) bytes
  · exact lossy_of_isUtf8

end ImapToJmap.Utf8
