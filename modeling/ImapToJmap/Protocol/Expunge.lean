import ImapToJmap.Protocol.Client
import ImapToJmap.Protocol.Numbers

/-!
# EXPUNGE responses as bytes

`protocol/expunge.rs`.  The numbers of the messages that are gone are written one line each, every
number less the messages gone before it; with QRESYNC one VANISHED says all of the UIDs.

A client reads the lines (`readExpunge`) and deletes the message that has the number then
(`replay`).  `replay_serializeTo` is that what is left are the messages that are not gone.
-/

namespace ImapToJmap.Expunge

open Ascii

/-! ## The writer -/

/-- `* n EXPUNGE` -/
def expungeLine (n : ℕ) : Bytes := asBytes "* " ++ (decimal n ++ asBytes " EXPUNGE\r\n")

/-- `expunge::Vanished::serialize` -/
def serializeVanished (earlier : Bool) (ids : List ℕ) : Bytes :=
  asBytes (if earlier then "* VANISHED (EARLIER) " else "* VANISHED ") ++
    (serializeSequence ids ++ asBytes "\r\n")

/-- `expunge::Response::serialize_to` -/
def serializeTo (isQresync : Bool) (ids : List ℕ) : Bytes :=
  if !isQresync then
    ids.zipIdx.flatMap fun (id, numDeletions) ↦ expungeLine (id - numDeletions % 2 ^ 32)
  else serializeVanished false ids

example : fromUtf8 (serializeTo false [3, 4, 7, 9, 11]) =
    some "* 3 EXPUNGE\r\n* 3 EXPUNGE\r\n* 5 EXPUNGE\r\n* 6 EXPUNGE\r\n* 7 EXPUNGE\r\n" := by
  decide +kernel

/-- The lines are those of `expungeResponse`: the count of the lines does not wrap before there are
`2 ^ 32` of them. -/
theorem serializeTo_lines {ids : List ℕ} (h : ids.length ≤ 2 ^ 32) :
    ∃ numbers : List ℕ, expungeResponse false ids = numbers.map .expunge ∧
      serializeTo false ids = numbers.flatMap expungeLine := by
  refine ⟨ids.zipIdx.map fun x ↦ x.1 - x.2, ?_, ?_⟩
  · rw [List.map_map]
    rfl
  · rw [List.flatMap_map]
    refine List.flatMap_congr fun x hx ↦ ?_
    have hlt := List.snd_lt_of_mem_zipIdx hx
    have hmod : x.2 % 2 ^ 32 = x.2 := Nat.mod_eq_of_lt (by omega)
    rw [← congrArg (fun n ↦ expungeLine (x.1 - n)) hmod]

/-! ## The client -/

/-- The number on the first line, and the bytes after it. -/
def readExpunge (bytes : Bytes) : Option (ℕ × Bytes) :=
  if asBytes "* " <+: bytes then
    let digits := (bytes.drop 2).takeWhile isAsciiDigit
    let rest := (bytes.drop 2).dropWhile isAsciiDigit
    if digits ≠ [] ∧ asBytes " EXPUNGE\r\n" <+: rest then some (ofDecimal digits, rest.drop 10)
    else none
  else none

/-- What is behind the number on a line. -/
theorem expungeWord_eq : asBytes " EXPUNGE\r\n" = space :: asBytes "EXPUNGE\r\n" := by
  decide +kernel

theorem readExpunge_line (n : ℕ) (bytes : Bytes) :
    readExpunge (expungeLine n ++ bytes) = some (n, bytes) := by
  have hdrop : (expungeLine n ++ bytes).drop 2 =
      decimal n ++ (asBytes " EXPUNGE\r\n" ++ bytes) := by
    rw [expungeLine, List.append_assoc, List.append_assoc]
    exact List.drop_left' (by decide +kernel)
  have hspace : isAsciiDigit space = false := by decide
  have hdigits : ∀ ch ∈ decimal n, isAsciiDigit ch = true := fun ch ↦ isAsciiDigit_of_mem_decimal
  have htake : (decimal n ++ (asBytes " EXPUNGE\r\n" ++ bytes)).takeWhile isAsciiDigit =
      decimal n := by
    rw [List.takeWhile_append_of_pos hdigits, expungeWord_eq, List.cons_append,
      List.takeWhile_cons_of_neg (by simp [hspace]), List.append_nil]
  have hrest : (decimal n ++ (asBytes " EXPUNGE\r\n" ++ bytes)).dropWhile isAsciiDigit =
      asBytes " EXPUNGE\r\n" ++ bytes := by
    rw [List.dropWhile_append_of_pos hdigits, expungeWord_eq, List.cons_append,
      List.dropWhile_cons_of_neg (by simp [hspace])]
  have hstar : asBytes "* " <+: expungeLine n ++ bytes := by
    rw [expungeLine, List.append_assoc]
    exact List.prefix_append _ _
  rw [readExpunge, if_pos hstar, hdrop, htake, hrest]
  rw [if_pos ⟨decimal_ne_nil n, List.prefix_append _ _⟩, ofDecimal_decimal,
    List.drop_left' (by decide +kernel)]

theorem length_readExpunge {bytes rest : Bytes} {n : ℕ} (h : readExpunge bytes = some (n, rest)) :
    rest.length < bytes.length := by
  unfold readExpunge at h
  split at h
  · rename_i hstar
    dsimp only at h
    split at h
    · obtain ⟨-, rfl⟩ := Prod.mk.inj (Option.some.inj h)
      have htwo : (asBytes "* ").length = 2 := by decide +kernel
      have hle := hstar.length_le
      have hsub := ((bytes.drop 2).dropWhile_suffix isAsciiDigit).length_le
      rw [List.length_drop] at hsub ⊢
      omega
    · cases h
  · cases h

variable {X : Type}

/-- The lines one after the other: each deletes the element at the number on it, and there has to be
one. -/
def replay (bytes : Bytes) (l : List X) : Option (List X) :=
  if bytes = [] then some l
  else
    match h : readExpunge bytes with
    | none => none
    | some (n, rest) => if 0 < n ∧ n ≤ l.length then replay rest (l.eraseIdx (n - 1)) else none
termination_by bytes.length
decreasing_by exact length_readExpunge h

theorem replay_nil (l : List X) : replay [] l = some l := by rw [replay, if_pos rfl]

theorem replay_line {n : ℕ} {l : List X} (hpos : 0 < n) (hle : n ≤ l.length) (bytes : Bytes) :
    replay (expungeLine n ++ bytes) l = replay bytes (l.eraseIdx (n - 1)) := by
  have hne : expungeLine n ++ bytes ≠ [] := by
    intro hnil
    have hread := readExpunge_line n bytes
    rw [hnil] at hread
    cases hread
  rw [replay, if_neg hne]
  split
  · rename_i hread
    rw [readExpunge_line] at hread
    cases hread
  · rename_i n' rest hread
    rw [readExpunge_line] at hread
    obtain ⟨rfl, rfl⟩ := Prod.mk.inj (Option.some.inj hread)
    rw [if_pos ⟨hpos, hle⟩]

/-- The elements of a list that are not at the positions, which are counted from `m + 1`. -/
def remaining (m : ℕ) (positions : List ℕ) (l : List X) : List X :=
  ((l.zipIdx (m + 1)).filter fun x ↦ x.2 ∉ positions).map Prod.fst

theorem remaining_nil (m : ℕ) (l : List X) : remaining m [] l = l := by
  have hfilter : ((l.zipIdx (m + 1)).filter fun x ↦ x.2 ∉ ([] : List ℕ)) = l.zipIdx (m + 1) :=
    List.filter_eq_self.mpr (by simp)
  rw [remaining, hfilter, List.zipIdx_map_fst]

/-- Up to the first position the elements stay, and those behind it are a list of their own. -/
theorem remaining_cons {m p : ℕ} {positions : List ℕ} {before after : List X} {x : X}
    (hp : m + before.length + 1 = p) (hgt : ∀ p' ∈ positions, p < p') :
    remaining m (p :: positions) (before ++ x :: after) =
      before ++ remaining p positions after := by
  have hbefore : ((before.zipIdx (m + 1)).filter fun y ↦ y.2 ∉ p :: positions) =
      before.zipIdx (m + 1) := by
    refine List.filter_eq_self.mpr fun y hy ↦ decide_eq_true ?_
    have hlt := (List.mem_zipIdx hy).2.1
    rintro (_ | ⟨_, hmem⟩)
    · omega
    · have := hgt _ hmem
      omega
  have hafter : ((after.zipIdx (p + 1)).filter fun y ↦ y.2 ∉ p :: positions) =
      (after.zipIdx (p + 1)).filter fun y ↦ y.2 ∉ positions := by
    refine List.filter_congr fun y hy ↦ ?_
    have hne : y.2 ≠ p := by
      have := (List.mem_zipIdx hy).1
      omega
    simp only [List.mem_cons, hne, false_or]
  have hidx : m + 1 + before.length = p := by omega
  rw [remaining, List.zipIdx_append, List.filter_append, hbefore, List.map_append,
    List.zipIdx_map_fst, List.zipIdx_cons, hidx, List.filter_cons_of_neg (by simp), hafter,
    remaining]

/-- The element at a position, between the ones before and after it. -/
theorem exists_append_cons {l : List X} {i : ℕ} (h : i < l.length) :
    ∃ before x after, l = before ++ x :: after ∧ before.length = i :=
  ⟨l.take i, l[i], l.drop (i + 1), by simp, by simp [h.le]⟩

/-- By induction on the positions.  `kept` is what is left of the first `m` elements, from which as
many are gone as there were lines. -/
theorem replay_lines {positions : List ℕ} (hinc : positions.Pairwise (· < ·))
    (hsmall : ∀ p ∈ positions, p < 2 ^ 32) (kept l : List X) {m numDeletions : ℕ}
    (hm : kept.length + numDeletions = m) (hgt : ∀ p ∈ positions, m < p)
    (hle : ∀ p ∈ positions, p ≤ m + l.length) :
    replay ((positions.zipIdx numDeletions).flatMap fun x ↦ expungeLine (x.1 - x.2 % 2 ^ 32))
      (kept ++ l) = some (kept ++ remaining m positions l) := by
  induction positions generalizing kept l m numDeletions with
  | nil => rw [List.zipIdx_nil, List.flatMap_nil, replay_nil, remaining_nil]
  | cons p positions ih =>
      obtain ⟨hgt', hinc⟩ := List.pairwise_cons.mp hinc
      obtain ⟨hp, hgt⟩ := List.forall_mem_cons.mp hgt
      obtain ⟨hlep, hle⟩ := List.forall_mem_cons.mp hle
      obtain ⟨hsmallp, hsmall⟩ := List.forall_mem_cons.mp hsmall
      obtain ⟨before, x, after, rfl, hlen⟩ :=
        exists_append_cons (show p - m - 1 < l.length by omega)
      -- the count of the lines is less than the position, so that nothing wraps
      have hmod : numDeletions % 2 ^ 32 = numDeletions := Nat.mod_eq_of_lt (by omega)
      have herase : (kept ++ (before ++ x :: after)).eraseIdx (p - numDeletions - 1) =
          (kept ++ before) ++ after := by
        rw [← List.append_assoc, List.eraseIdx_append_of_length_le
          (by rw [List.length_append]; omega)]
        have hidx : p - numDeletions - 1 - (kept ++ before).length = 0 := by
          rw [List.length_append]
          omega
        rw [hidx, List.eraseIdx_cons_zero]
      rw [List.length_append, List.length_cons] at hlep hle
      rw [List.zipIdx_cons, List.flatMap_cons, hmod, replay_line (by omega)
        (by simp only [List.length_append, List.length_cons]; omega), herase,
        ih hinc hsmall (kept ++ before) after (m := p) (by rw [List.length_append]; omega) hgt'
          (fun p' hp' ↦ by have := hle p' hp'; omega),
        remaining_cons (by omega) hgt', List.append_assoc]

/-- **The EXPUNGE lines take out the messages that are gone**, whatever the list is: each line has
the number of a message of what the lines before it have left, and in the end the elements that are
not at the positions are left, in their order. -/
theorem replay_serializeTo {positions : List ℕ} {l : List X}
    (hinc : positions.Pairwise (· < ·)) (hpos : ∀ p ∈ positions, 0 < p ∧ p ≤ l.length)
    (hsmall : ∀ p ∈ positions, p < 2 ^ 32) :
    replay (serializeTo false positions) l = some (remaining 0 positions l) :=
  replay_lines hinc hsmall [] l rfl (fun p hp ↦ (hpos p hp).1)
    (fun p hp ↦ (Nat.zero_add _).symm ▸ (hpos p hp).2)

theorem replay_serializeTo_three :
    replay (serializeTo false [3, 4, 7]) "abcdefg".toList = some "abef".toList := by
  have hremaining : remaining 0 [3, 4, 7] "abcdefg".toList = "abef".toList := by decide
  rw [← hremaining]
  exact replay_serializeTo (by decide) (by decide) (by decide)

end ImapToJmap.Expunge
