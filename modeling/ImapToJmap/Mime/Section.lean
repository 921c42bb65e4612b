import ImapToJmap.Core.Bytes
import ImapToJmap.Mime.Structure

/-!
# Sections of a message

`body_section`, `binary` and `binary_size` of `commands/fetch.rs`: each walks along the numbers of a
section on its own.  Only `body_section` lets a part that is no multipart be its own part 1, when
that is all of the section or when the part is a message; and every walk takes the number 0 for 1.

`samePart_iff`: the sections for which `body_section` and `binary` go to the same part, and to none
for a 0, are those along multiparts with positive numbers (`Straight`) and those that lead nowhere
(`Leads`).
-/

namespace ImapToJmap.Mime

/-- `fetch::Section` -/
inductive Section where
  | part (num : ℕ)
  | header
  | headerFields (not : Bool) (fields : List String)
  | text
  | mime
deriving DecidableEq

/-- `get_partial_bytes`; the sum has 32 bits. -/
def getPartialBytes (bytes : Bytes) : Option (ℕ × ℕ) → Bytes
  | none => bytes
  | some (start, count) =>
      let last := min ((start + count) % 2 ^ 32) bytes.length
      if start ≤ last then (bytes.take last).drop start else []

/-- A part, with the message that it is in. -/
structure Located where
  message : Message
  part : MessagePart Message

def Message.located (message : Message) : Located := ⟨message, message.getRootPart⟩

/-- A message part is entered when the section goes on. -/
def enter {α : Type} (message : Message) (part : MessagePart Message) (rest : List α) : Located :=
  match part.body, rest with
  | .message nested, _ :: _ => nested.located
  | _, _ => ⟨message, part⟩

/-! ## BODY -/

/-- The part with a number; `none` if there is none. -/
def nextPart (sectionsSingle : Bool) (l : Located) (num : ℕ) : Option (MessagePart Message) :=
  match l.part.getSubParts with
  | some subPartIds => subPartIds[num - 1]?.bind fun pos ↦ l.message.parts[pos]?
  | none => if num = 1 ∧ (sectionsSingle || l.part.isMessage) then some l.part else none

/-- The loop of `body_section`: where it ends, and the section there that is no part number. -/
def walkSections (sectionsSingle : Bool) : Located → List Section →
    Option (Located × Option Section)
  | l, [] => some (l, none)
  | l, .part num :: rest =>
      match nextPart sectionsSingle l num with
      | some part => walkSections sectionsSingle (enter l.message part rest) rest
      | none => none
  | l, other :: _ => some (l, some other)

/-- The headers that are asked for, and an empty line. -/
def headerBytes (l : Located) (takes : Header → Bool) : Bytes :=
  ((l.part.headers.filter takes).flatMap fun header ↦
    asBytes header.name ++ asBytes ":" ++
      (l.message.rawRange header.offsetStart header.offsetEnd).getD []) ++ asBytes "\r\n"

/-- The bytes that `Message::body_section` makes a string of. -/
def Message.bodySection (message : Message) (sections : List Section) (range : Option (ℕ × ℕ)) :
    Option Bytes :=
  let root := message.getRootPart
  if sections = [] then
    (message.rawRange root.offsetHeader root.offsetEnd).map (getPartialBytes · range)
  else
    match walkSections (sections.length == 1) message.located sections with
    | none => none
    | some (l, some .header) =>
        (l.message.rawRange l.part.offsetHeader l.part.offsetBody).map (getPartialBytes · range)
    | some (l, some (.headerFields not fields)) =>
        some (getPartialBytes (headerBytes l fun header ↦
          fields.any (fun f ↦ eqIgnoreAsciiCase (asBytes header.name) (asBytes f)) != not) range)
    | some (l, some .mime) => some (getPartialBytes (headerBytes l Header.isMimeHeader) range)
    | some (l, _) =>
        (l.message.rawRange l.part.offsetBody l.part.offsetEnd).map (getPartialBytes · range)

/-! ## BINARY -/

/-- The loop of `binary`, and of `binary_size`. -/
def walkNumbers : Located → List ℕ → Option Located
  | l, [] => some l
  | l, num :: rest =>
      match l.part.getSubParts.bind fun p ↦ p[num - 1]?.bind fun pos ↦ l.message.parts[pos]? with
      | some part => walkNumbers (enter l.message part rest) rest
      | none => none

inductive BodyContents where
  | text (bytes : Bytes)
  | bytes (bytes : Bytes)

/-- `Message::binary`; an encoding problem is an error. -/
def Message.binary (message : Message) (sections : List ℕ) (range : Option (ℕ × ℕ)) :
    Except Unit (Option BodyContents) :=
  match walkNumbers message.located sections with
  | none => .ok none
  | some l =>
      if l.part.isEncodingProblem then .error ()
      else .ok (match l.part.body with
        | .text text | .html text => some (.text (getPartialBytes (asBytes text) range))
        | .binary bytes | .inlineBinary bytes => some (.bytes (getPartialBytes bytes range))
        | .message nested =>
            let root := nested.getRootPart
            some (.bytes (getPartialBytes
              ((nested.rawRange root.offsetHeader root.offsetEnd).getD []) range))
        | .multipart _ => none)

/-- `Message::binary_size` -/
def Message.binarySize (message : Message) (sections : List ℕ) : Option ℕ :=
  (walkNumbers message.located sections).map fun l ↦
    match l.part.body with
    | .text text | .html text => (asBytes text).length
    | .binary bytes | .inlineBinary bytes => bytes.length
    | .message nested => nested.getRootPart.offsetEnd - nested.getRootPart.offsetHeader
    | .multipart _ => 0

/-! ## Both walks -/

/-- Where BODY goes for a list of numbers. -/
def Message.sectionPart (message : Message) (nums : List ℕ) : Option Located :=
  (walkSections (nums.length == 1) message.located (nums.map Section.part)).map Prod.fst

/-- Where BINARY goes. -/
def Message.binaryPart (message : Message) (nums : List ℕ) : Option Located :=
  walkNumbers message.located nums

/-- Both go to the same part, and neither to any for a 0. -/
def SamePart (message : Message) (nums : List ℕ) : Prop :=
  message.sectionPart nums = message.binaryPart nums ∧
    (0 ∈ nums → message.sectionPart nums = none ∧ message.binaryPart nums = none)

/-- The numbers lead along multiparts, each to the child of that number. -/
inductive Straight : Located → List ℕ → Prop
  | nil {l : Located} : Straight l []
  | child {l : Located} {num pos : ℕ} {rest ids : List ℕ} {part : MessagePart Message} : 0 < num →
      l.part.getSubParts = some ids → ids[num - 1]? = some pos → l.message.parts[pos]? = some part →
      Straight (enter l.message part rest) rest → Straight l (num :: rest)

/-- The numbers lead somewhere, with 0 for the first child, and with 1 for a part that is no
multipart if it is a message or if no other number is asked for. -/
inductive Leads (sectionsSingle : Bool) : Located → List ℕ → Prop
  | nil {l : Located} : Leads sectionsSingle l []
  | child {l : Located} {num pos : ℕ} {rest ids : List ℕ} {part : MessagePart Message} :
      l.part.getSubParts = some ids → ids[num - 1]? = some pos → l.message.parts[pos]? = some part →
      Leads sectionsSingle (enter l.message part rest) rest → Leads sectionsSingle l (num :: rest)
  | stay {l : Located} {rest : List ℕ} : l.part.getSubParts = none →
      (sectionsSingle || l.part.isMessage) = true →
      Leads sectionsSingle (enter l.message l.part rest) rest → Leads sectionsSingle l (1 :: rest)

section

variable {sectionsSingle : Bool} {l l' : Located} {nums : List ℕ}

theorem enter_map {α β : Type} (f : α → β) (message : Message) (part : MessagePart Message)
    (rest : List α) : enter message part (rest.map f) = enter message part rest := by
  unfold enter
  cases part.body with
  | message nested =>
      cases rest with
      | nil => rfl
      | cons a rest => rfl
  | text _ | html _ | binary _ | inlineBinary _ | multipart _ => rfl

/-- Where BINARY goes BODY goes too. -/
theorem walkSections_of_walkNumbers (h : walkNumbers l nums = some l') :
    walkSections sectionsSingle l (nums.map Section.part) = some (l', none) := by
  induction nums generalizing l with
  | nil =>
      obtain rfl := Option.some.inj h
      rfl
  | cons num rest ih =>
      rw [walkNumbers] at h
      rw [List.map_cons, walkSections, nextPart]
      cases hids : l.part.getSubParts with
      | none =>
          rw [hids] at h
          cases h
      | some ids =>
          rw [hids] at h
          simp only [Option.bind_some] at h
          simp only
          cases hpart : ids[num - 1]?.bind fun pos ↦ l.message.parts[pos]? with
          | none =>
              rw [hpart] at h
              cases h
          | some part =>
              rw [hpart] at h
              simp only [enter_map]
              exact ih h

theorem walkNumbers_of_straight (h : Straight l nums) : ∃ l', walkNumbers l nums = some l' := by
  induction h with
  | nil => exact ⟨_, rfl⟩
  | child _ hids hpos hpart _ ih =>
      obtain ⟨l', hl'⟩ := ih
      refine ⟨l', ?_⟩
      rw [walkNumbers, hids]
      simp only [Option.bind_some, hpos, hpart]
      exact hl'

theorem Straight.pos (h : Straight l nums) : 0 ∉ nums := by
  induction h with
  | nil => exact List.not_mem_nil
  | child hnum _ _ _ _ ih =>
      intro hmem
      rcases List.mem_cons.mp hmem with rfl | hmem
      · exact Nat.lt_irrefl 0 hnum
      · exact ih hmem

/-- BINARY goes along multiparts. -/
theorem straight_of_walkNumbers (h : walkNumbers l nums = some l') (hpos : 0 ∉ nums) :
    Straight l nums := by
  induction nums generalizing l with
  | nil => exact .nil
  | cons num rest ih =>
      rw [walkNumbers] at h
      split at h
      · rename_i part hpart
        obtain ⟨ids, hids, hpart⟩ := Option.bind_eq_some_iff.mp hpart
        obtain ⟨pos, hget, hpart⟩ := Option.bind_eq_some_iff.mp hpart
        obtain ⟨hnum, hrest⟩ := not_or.mp (mt List.mem_cons.mpr hpos)
        exact .child (Nat.pos_of_ne_zero (Ne.symm hnum)) hids hget hpart (ih h hrest)
      · cases h

/-- BODY goes somewhere exactly if the numbers lead there. -/
theorem isSome_walkSections_iff :
    (walkSections sectionsSingle l (nums.map Section.part)).isSome = true ↔
      Leads sectionsSingle l nums := by
  induction nums generalizing l with
  | nil => exact ⟨fun _ ↦ .nil, fun _ ↦ rfl⟩
  | cons num rest ih =>
      rw [List.map_cons, walkSections]
      cases hnext : nextPart sectionsSingle l num with
      | none =>
          refine ⟨fun h ↦ (by cases h), fun h ↦ ?_⟩
          rw [nextPart] at hnext
          cases h with
          | child hids hpos hpart _ => simp [hids, hpos, hpart] at hnext
          | stay hids hstay _ => simp [hids, hstay] at hnext
      | some part =>
          simp only [enter_map]
          rw [ih]
          constructor
          · intro h
            rw [nextPart] at hnext
            split at hnext
            · rename_i ids hids
              obtain ⟨pos, hpos, hpart⟩ := Option.bind_eq_some_iff.mp hnext
              exact .child hids hpos hpart h
            · rename_i hids
              split at hnext
              · rename_i hstay
                obtain rfl := Option.some.inj hnext
                rw [hstay.1]
                exact .stay hids hstay.2 h
              · cases hnext
          · intro h
            rw [nextPart] at hnext
            cases h with
            | child hids hpos hpart h =>
                rw [hids] at hnext
                simp only [hpos, hpart, Option.bind_some, Option.some.injEq] at hnext
                rwa [← hnext]
            | stay hids hstay h =>
                rw [hids] at hnext
                simp only [hstay, and_self, if_true, Option.some.injEq] at hnext
                rwa [← hnext]

end

/-- **BODY and BINARY go to the same part** exactly for the numbers that lead along multiparts, and
for those that lead nowhere. -/
theorem samePart_iff {message : Message} {nums : List ℕ} : SamePart message nums ↔
    Straight message.located nums ∨ ¬Leads (nums.length == 1) message.located nums := by
  rw [← isSome_walkSections_iff]
  have hsection : ∀ l, message.binaryPart nums = some l → message.sectionPart nums = some l := by
    intro l hl
    rw [Message.sectionPart, walkSections_of_walkNumbers hl]
    rfl
  constructor
  · rintro ⟨hsame, hzero⟩
    cases hbinary : message.binaryPart nums with
    | none =>
        rw [hbinary, Message.sectionPart] at hsame
        right
        rw [Option.map_eq_none_iff.mp hsame]
        exact Bool.false_ne_true
    | some l =>
        left
        refine straight_of_walkNumbers hbinary fun hmem ↦ ?_
        rw [(hzero hmem).2] at hbinary
        cases hbinary
  · rintro (hstraight | hnowhere)
    · obtain ⟨l, hl⟩ := walkNumbers_of_straight hstraight
      exact ⟨(hsection l hl).trans hl.symm, fun hmem ↦ absurd hmem hstraight.pos⟩
    · have hnone : message.sectionPart nums = none := by
        rw [Message.sectionPart, Option.not_isSome_iff_eq_none.mp hnowhere]
        rfl
      have hbinary : message.binaryPart nums = none := by
        cases hbinary : message.binaryPart nums with
        | none => rfl
        | some l =>
            rw [hsection l hbinary] at hnone
            cases hnone
      exact ⟨hnone.trans hbinary.symm, fun _ ↦ ⟨hnone, hbinary⟩⟩

/-- A message with no other part than its text. -/
def single : Message := .mk [] noHeaders (plainPart (.text "a")) []

/-- The text of a message without parts is its part 1 for BODY only; and 0 is taken for 1. -/
theorem samePart_differs : ¬SamePart single [1] ∧ ¬SamePart attached [0] := by
  constructor
  · rintro ⟨hsame, -⟩
    have hsome := congrArg Option.isSome hsame
    exact Bool.noConfusion hsome
  · rintro ⟨-, hzero⟩
    have hsome := congrArg Option.isSome (hzero List.mem_cons_self).2
    exact Bool.noConfusion hsome

end ImapToJmap.Mime
