import ImapToJmap.Mime.Section

/-!
# The sizes of parts

`binary_size` is what a client allocates for the octets of `binary`.  Each finds its part by a walk
of its own and takes the size in its own way: of a nested message one returns a range of the raw
message, and the other the difference of two offsets.

`octets_of_binary`: the size is that of the contents, if the offsets lie within the raw message.
`binarySize_iff`: a path has a size exactly if its numbers designate a part (`Designates`), but for
two kinds of paths.  A 0 is taken for 1, and a body that is no multipart is not taken for its part
1.
-/

namespace ImapToJmap.Mime

/-- The offsets of the root lie within the raw message, and so it is with the messages inside. -/
inductive Message.WithinRaw : Message → Prop
  | mk {message : Message} : message.getRootPart.offsetHeader ≤ message.getRootPart.offsetEnd →
      message.getRootPart.offsetEnd ≤ message.rawMessage.length →
        (∀ part ∈ message.parts, ∀ nested, part.body = .message nested → nested.WithinRaw) →
          message.WithinRaw

/-- The octets of contents.  `from_utf8_lossy` leaves UTF-8 as it is; `none` where it would put
something else. -/
def BodyContents.octets : BodyContents → Option Bytes
  | .text octets => (fromUtf8 octets).map asBytes
  | .bytes octets => some octets

/-! ## Part numbers -/

/-- The part with a number, counted in a multipart or at the root of a message: the children have
numbers from 1 on, and a body that is no multipart is the only part. -/
inductive Numbered (l : Located) : ℕ → MessagePart Message → Prop
  | child {ids : List ℕ} {num pos : ℕ} {part : MessagePart Message} : 0 < num →
      l.part.getSubParts = some ids → ids[num - 1]? = some pos → l.message.parts[pos]? = some part →
      Numbered l num part
  | only : l.part.getSubParts = none → Numbered l 1 l.part

/-- The parts inside a part are counted in it if it is a multipart, and at the root of a nested
message. -/
inductive Inside (message : Message) (part : MessagePart Message) : Located → Prop
  | multipart {ids : List ℕ} : part.getSubParts = some ids → Inside message part ⟨message, part⟩
  | nested {nested : Message} : part.body = .message nested → Inside message part nested.located

/-- The numbers of a part, counted from here. -/
inductive PartPath : Located → List ℕ → Prop
  | last {l : Located} {num : ℕ} {part : MessagePart Message} : Numbered l num part →
      PartPath l [num]
  | inside {l l' : Located} {num : ℕ} {part : MessagePart Message} {rest : List ℕ} :
      Numbered l num part → Inside l.message part l' → PartPath l' rest → PartPath l (num :: rest)

/-- The path designates a part of the message; without numbers, all of it. -/
def Message.Designates (message : Message) (nums : List ℕ) : Prop :=
  nums = [] ∨ PartPath message.located nums

/-- BINARY.SIZE as it is promised: the size of the contents, and none exactly for a path that
designates no part, for which there are no contents either. -/
def Message.Sized (message : Message) (nums : List ℕ) : Prop :=
  (∀ contents, message.binary nums none = .ok (some contents) →
    ∃ octets, contents.octets = some octets ∧ message.binarySize nums = some octets.length) ∧
  (message.binarySize nums = none ↔ ¬ message.Designates nums) ∧
  (¬ message.Designates nums → message.binary nums none = .ok none)

/-- There is a 0 in the path, and with 1 for it the numbers lead along multiparts. -/
def Message.ZeroLeads (message : Message) (nums : List ℕ) : Prop :=
  0 ∈ nums ∧ Straight message.located (nums.map (max 1))

/-- A part is designated, and somewhere on the way to it a 1 stands for a body that is no
multipart. -/
inductive ThroughOnly : Located → List ℕ → Prop
  | here {l : Located} {rest : List ℕ} : l.part.getSubParts = none →
      (rest = [] ∨ ∃ l', Inside l.message l.part l' ∧ PartPath l' rest) → ThroughOnly l (1 :: rest)
  | inside {l l' : Located} {num : ℕ} {part : MessagePart Message} {rest : List ℕ} :
      Numbered l num part → Inside l.message part l' → ThroughOnly l' rest →
      ThroughOnly l (num :: rest)

section

variable {message : Message} {l l' : Located} {nums : List ℕ}

theorem Numbered.pos {num : ℕ} {part : MessagePart Message} (h : Numbered l num part) :
    0 < num := by
  cases h with
  | child hpos => exact hpos
  | only => exact Nat.one_pos

theorem PartPath.ne_nil (h : PartPath l nums) : nums ≠ [] := by
  cases h <;> exact List.cons_ne_nil _ _

theorem PartPath.pos (h : PartPath l nums) : 0 ∉ nums := by
  induction h with
  | last hnum =>
      intro hmem
      exact absurd (List.mem_singleton.mp hmem) hnum.pos.ne
  | inside hnum _ _ ih =>
      intro hmem
      rcases List.mem_cons.mp hmem with hzero | hmem
      · exact hnum.pos.ne hzero
      · exact ih hmem

theorem ThroughOnly.partPath (h : ThroughOnly l nums) : PartPath l nums := by
  induction h with
  | here hleaf hrest =>
      rcases hrest with rfl | ⟨l', hinside, hrest⟩
      · exact .last (.only hleaf)
      · exact .inside (.only hleaf) hinside hrest
  | inside hnum hinside _ ih => exact .inside hnum hinside ih

section Enter

variable {part : MessagePart Message} {nested : Message} {num : ℕ} {rest : List ℕ}

theorem enter_nested (hbody : part.body = .message nested) :
    enter message part (num :: rest) = nested.located := by
  unfold enter
  rw [hbody]

theorem enter_of_not_message (hbody : ∀ nested, part.body ≠ .message nested) :
    enter message part rest = ⟨message, part⟩ := by
  unfold enter
  split
  · rename_i nested _ _ hnested
    exact absurd hnested (hbody nested)
  · rfl

/-- Where the code counts on is where the parts inside are counted. -/
theorem Inside.enter_eq (h : Inside message part l') (hrest : rest ≠ []) :
    enter message part rest = l' := by
  obtain ⟨num, rest, rfl⟩ := List.exists_cons_of_ne_nil hrest
  cases h with
  | nested hbody => exact enter_nested hbody
  | multipart hids =>
      refine enter_of_not_message fun nested hbody ↦ ?_
      rw [MessagePart.getSubParts, hbody] at hids
      cases hids

end Enter

/-- Numbers that lead along multiparts are those of a part. -/
theorem Straight.partPath (h : Straight l nums) (hne : nums ≠ []) : PartPath l nums := by
  induction h with
  | nil => exact absurd rfl hne
  | @child l num pos rest ids part hnum hids hpos hpart hrest ih =>
      have hnumbered : Numbered l num part := .child hnum hids hpos hpart
      cases rest with
      | nil => exact .last hnumbered
      | cons next rest =>
          have hpath := ih (List.cons_ne_nil next rest)
          by_cases hmessage : ∃ nested, part.body = .message nested
          · obtain ⟨nested, hbody⟩ := hmessage
            rw [enter_nested hbody] at hpath
            exact .inside hnumbered (.nested hbody) hpath
          · rw [enter_of_not_message (not_exists.mp hmessage)] at hrest hpath
            cases hrest with
            | child _ hinner _ _ _ => exact .inside hnumbered (.multipart hinner) hpath

/-- The numbers of a part lead along multiparts, but for a body that is its own part 1. -/
theorem PartPath.straight_or_throughOnly (h : PartPath l nums) :
    Straight l nums ∨ ThroughOnly l nums := by
  induction h with
  | last hnum =>
      cases hnum with
      | child hnum hids hpos hpart => exact .inl (.child hnum hids hpos hpart .nil)
      | only hleaf => exact .inr (.here hleaf (.inl rfl))
  | inside hnum hinside hrest ih =>
      rcases ih with hstraight | honly
      · cases hnum with
        | child hnum hids hpos hpart =>
            rw [← hinside.enter_eq hrest.ne_nil] at hstraight
            exact .inl (.child hnum hids hpos hpart hstraight)
        | only hleaf => exact .inr (.here hleaf (.inr ⟨_, hinside, hrest⟩))
      · exact .inr (.inside hnum hinside honly)

theorem ThroughOnly.not_straight (h : ThroughOnly l nums) : ¬ Straight l nums := by
  induction h with
  | here hleaf _ =>
      intro hstraight
      cases hstraight with
      | child _ hids _ _ _ =>
          rw [hleaf] at hids
          cases hids
  | inside hnum hinside honly ih =>
      intro hstraight
      cases hstraight with
      | child _ hids hpos hpart hrest =>
          cases hnum with
          | only hleaf =>
              rw [hleaf] at hids
              cases hids
          | child _ hids' hpos' hpart' =>
              obtain rfl := Option.some.inj (hids.symm.trans hids')
              obtain rfl := Option.some.inj (hpos.symm.trans hpos')
              obtain rfl := Option.some.inj (hpart.symm.trans hpart')
              rw [hinside.enter_eq honly.partPath.ne_nil] at hrest
              exact ih hrest

/-! ## Where the walk leads -/

theorem walkNumbers_map_max (l : Located) (nums : List ℕ) :
    walkNumbers l (nums.map (max 1)) = walkNumbers l nums := by
  induction nums generalizing l with
  | nil => rfl
  | cons num nums ih =>
      have hpred : max 1 num - 1 = num - 1 := by omega
      rw [List.map_cons, walkNumbers, walkNumbers, hpred]
      simp only [enter_map, ih]

/-- The code goes along multiparts, with 1 for 0. -/
theorem isSome_walkNumbers_iff :
    (walkNumbers l nums).isSome = true ↔ Straight l (nums.map (max 1)) := by
  rw [← walkNumbers_map_max]
  constructor
  · intro h
    obtain ⟨l, hl⟩ := Option.isSome_iff_exists.mp h
    refine straight_of_walkNumbers hl fun hmem ↦ ?_
    obtain ⟨num, -, hnum⟩ := List.mem_map.mp hmem
    omega
  · intro h
    obtain ⟨l, hl⟩ := walkNumbers_of_straight h
    rw [hl]
    rfl

theorem map_max_of_pos (h : 0 ∉ nums) : nums.map (max 1) = nums := by
  refine (List.map_congr_left fun num hnum ↦ ?_).trans (List.map_id nums)
  have hpos : num ≠ 0 := fun hzero ↦ h (hzero ▸ hnum)
  exact max_eq_right (Nat.pos_of_ne_zero hpos)

/-- The code goes to some part exactly for the paths that designate one, but for the two kinds. -/
theorem walks_iff_designates_iff :
    ((walkNumbers message.located nums).isSome = true ↔ message.Designates nums) ↔
      ¬ message.ZeroLeads nums ∧ ¬ ThroughOnly message.located nums := by
  rw [isSome_walkNumbers_iff]
  constructor
  · intro h
    constructor
    · rintro ⟨hzero, hstraight⟩
      rcases h.mp hstraight with rfl | hpath
      · cases hzero
      · exact hpath.pos hzero
    · intro honly
      have hpath := honly.partPath
      have hstraight := h.mpr (.inr hpath)
      rw [map_max_of_pos hpath.pos] at hstraight
      exact honly.not_straight hstraight
  · rintro ⟨hzero, honly⟩
    constructor
    · intro hstraight
      have hpos : 0 ∉ nums := fun hmem ↦ hzero ⟨hmem, hstraight⟩
      rw [map_max_of_pos hpos] at hstraight
      by_cases hnil : nums = []
      · exact .inl hnil
      · exact .inr (hstraight.partPath hnil)
    · rintro (rfl | hpath)
      · exact .nil
      · rw [map_max_of_pos hpath.pos]
        exact hpath.straight_or_throughOnly.resolve_right honly

/-! ## The walk stays within the message -/

/-- A part of a message within its raw bytes. -/
def Located.WithinRaw (l : Located) : Prop := l.message.WithinRaw ∧ l.part ∈ l.message.parts

theorem Message.WithinRaw.located (h : message.WithinRaw) : message.located.WithinRaw := by
  refine ⟨h, ?_⟩
  cases message
  exact List.mem_cons_self

theorem Message.WithinRaw.nested {part : MessagePart Message} {nested : Message}
    (h : message.WithinRaw) (hpart : part ∈ message.parts) (hbody : part.body = .message nested) :
    nested.WithinRaw := by
  cases h with
  | mk _ _ hnested => exact hnested part hpart nested hbody

theorem Message.WithinRaw.enter {part : MessagePart Message} (h : message.WithinRaw)
    (hpart : part ∈ message.parts) (rest : List ℕ) : (enter message part rest).WithinRaw := by
  unfold Mime.enter
  split
  · rename_i nested _ _ hbody
    exact (h.nested hpart hbody).located
  · exact ⟨h, hpart⟩

theorem Located.WithinRaw.walk (h : l.WithinRaw) (hwalk : walkNumbers l nums = some l') :
    l'.WithinRaw := by
  induction nums generalizing l with
  | nil =>
      obtain rfl := Option.some.inj hwalk
      exact h
  | cons num nums ih =>
      rw [walkNumbers] at hwalk
      split at hwalk
      · rename_i part hpart
        obtain ⟨ids, -, hpart⟩ := Option.bind_eq_some_iff.mp hpart
        obtain ⟨pos, -, hpart⟩ := Option.bind_eq_some_iff.mp hpart
        exact ih (h.1.enter (List.mem_of_getElem? hpart) nums) hwalk
      · cases hwalk

/-- The raw bytes of a nested message are as many as its offsets say. -/
theorem Message.WithinRaw.rawRange (h : message.WithinRaw) :
    ∃ octets, message.rawRange message.getRootPart.offsetHeader message.getRootPart.offsetEnd =
        some octets ∧
      octets.length = message.getRootPart.offsetEnd - message.getRootPart.offsetHeader := by
  cases h with
  | mk hstart hend _ =>
      refine ⟨_, if_pos ⟨hstart, hend⟩, ?_⟩
      rw [List.length_drop, List.length_take, min_eq_left hend]

/-- **The size is that of the contents.** -/
theorem octets_of_binary (h : message.WithinRaw) {contents : BodyContents}
    (hcontents : message.binary nums none = .ok (some contents)) :
    ∃ octets, contents.octets = some octets ∧ message.binarySize nums = some octets.length := by
  cases hwalk : walkNumbers message.located nums with
  | none => simp [Message.binary, hwalk] at hcontents
  | some l =>
      have hl := h.located.walk hwalk
      rw [Message.binary, hwalk] at hcontents
      rw [Message.binarySize, hwalk, Option.map_some]
      dsimp only at hcontents
      split at hcontents
      · cases hcontents
      · cases hbody : l.part.body with
        | text text | html text =>
            rw [hbody] at hcontents
            obtain rfl := Option.some.inj (Except.ok.inj hcontents)
            refine ⟨asBytes text, ?_, rfl⟩
            show (fromUtf8 (asBytes text)).map asBytes = _
            rw [fromUtf8_asBytes]
            rfl
        | binary octets | inlineBinary octets =>
            rw [hbody] at hcontents
            obtain rfl := Option.some.inj (Except.ok.inj hcontents)
            exact ⟨octets, rfl, rfl⟩
        | message nested =>
            obtain ⟨octets, hrange, hlength⟩ := (hl.1.nested hl.2 hbody).rawRange
            rw [hbody] at hcontents
            obtain rfl := Option.some.inj (Except.ok.inj hcontents)
            refine ⟨octets, ?_, congrArg some hlength.symm⟩
            show some ((nested.rawRange _ _).getD []) = _
            rw [hrange]
            rfl
        | multipart ids =>
            rw [hbody] at hcontents
            cases Except.ok.inj hcontents

/-- A part has a size exactly if the code goes to it. -/
theorem binarySize_eq_none_iff :
    message.binarySize nums = none ↔ ¬ (walkNumbers message.located nums).isSome = true := by
  rw [Message.binarySize, Option.map_eq_none_iff, Option.not_isSome_iff_eq_none]

/-- **BINARY.SIZE keeps its promise** exactly for the paths without a 0 that leads on, and without a
1 for a body that is no multipart. -/
theorem binarySize_iff (h : message.WithinRaw) (nums : List ℕ) : message.Sized nums ↔
    ¬ message.ZeroLeads nums ∧ ¬ ThroughOnly message.located nums := by
  rw [← walks_iff_designates_iff, Message.Sized, binarySize_eq_none_iff, not_iff_not]
  constructor
  · rintro ⟨-, hsize, -⟩
    exact hsize
  · intro hwalks
    refine ⟨fun contents ↦ octets_of_binary h, hwalks, ?_⟩
    intro hnowhere
    rw [Message.binary, Option.not_isSome_iff_eq_none.mp (mt hwalks.mp hnowhere)]

end

/-- The message that is the second part of the other, and the first part of that. -/
theorem binarySize_iff_forwarding : forwarding.Sized [2, 1] ↔
    ¬ forwarding.ZeroLeads [2, 1] ∧ ¬ ThroughOnly forwarding.located [2, 1] := by
  have hattached : attached.WithinRaw := by
    refine .mk le_rfl le_rfl fun part hpart nested hbody ↦ ?_
    simp only [attached, Message.parts, List.mem_cons, List.not_mem_nil, or_false] at hpart
    rcases hpart with rfl | rfl | rfl <;> cases hbody
  refine binarySize_iff (.mk le_rfl le_rfl fun part hpart nested hbody ↦ ?_) [2, 1]
  simp only [forwarding, Message.parts, List.mem_cons, List.not_mem_nil, or_false] at hpart
  rcases hpart with rfl | rfl | rfl | rfl
  · cases hbody
  · cases hbody
  · cases hbody
    exact hattached
  · cases hbody

/-- A message that is no multipart. -/
def letter : Message := .mk (asBytes "S: a\r\n\r\nhello") noHeaders
  { plainPart (.text "hello") with offsetBody := 8, offsetEnd := 13 } []

/-- The same text as the only part of a multipart. -/
def wrapped : Message :=
  .mk (asBytes "Content-Type: multipart/mixed; boundary=b\r\n\r\n--b\r\n\r\nhello\r\n--b--\r\n")
    noHeaders { plainPart (.multipart [1]) with offsetBody := 45, offsetEnd := 66 }
    [{ plainPart (.text "hello") with offsetHeader := 50, offsetBody := 52, offsetEnd := 57 }]

/-- The text of a message without parts is its part 1, but has no size; and the part 0 of a
multipart, which is not there, has the size of the first. -/
theorem not_sized : (letter.WithinRaw ∧ ¬ letter.Sized [1]) ∧
    (wrapped.WithinRaw ∧ ¬ wrapped.Sized [0]) := by
  refine ⟨⟨.mk (by decide) (by decide +kernel) ?_, ?_⟩,
    ⟨.mk (by decide) (by decide +kernel) ?_, ?_⟩⟩
  · intro part hpart nested hbody
    obtain rfl := List.mem_singleton.mp hpart
    cases hbody
  · rintro ⟨-, hsize, -⟩
    exact hsize.mp rfl (.inr (.last (.only rfl)))
  · intro part hpart nested hbody
    simp only [wrapped, Message.parts, List.mem_cons, List.not_mem_nil, or_false] at hpart
    rcases hpart with rfl | rfl <;> cases hbody
  · rintro ⟨-, hsize, -⟩
    have hnowhere : ¬ wrapped.Designates [0] := by
      rintro (hnil | hpath)
      · cases hnil
      · exact hpath.pos List.mem_cons_self
    have hnone := hsize.mpr hnowhere
    exact Bool.noConfusion (congrArg Option.isSome hnone)

end ImapToJmap.Mime
