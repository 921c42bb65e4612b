import ImapToJmap.Commands.Partial
import ImapToJmap.Data.Utf8
import ImapToJmap.Mime.Section

/-!
# Sections fetched in windows

A client may fetch a section in windows, `<0.100>`, `<100.100>` and so on.  `body_section` cuts a
window out of the bytes and then makes a string of it with `String::from_utf8_lossy`, so that a
character which a window ends inside is lost to both of them.

`chunked_iff`: the windows are the section together, and the section is the bytes of the message, if
and only if no window starts inside a character, no sum wraps, and the section is UTF-8 where it is
the bytes of the message.
-/

namespace ImapToJmap.Mime

open Fetch (window window_eq_nil_iff getPartialBytes_of_lt getPartialBytes_of_wraps)
open Utf8 (lossy Torn IsUtf8)

/-! ## The octets of a section -/

/-- `String::from_utf8`, and `String::from_utf8_lossy` if that fails. -/
def fromUtf8OrLossy (headers : Bytes) : Bytes :=
  match fromUtf8 headers with
  | some s => asBytes s
  | none => lossy headers

/-- Headers that are UTF-8 would come out of the other the same. -/
theorem fromUtf8OrLossy_eq (headers : Bytes) : fromUtf8OrLossy headers = lossy headers := by
  unfold fromUtf8OrLossy
  split
  · rename_i s hs
    rw [← asBytes_of_fromUtf8 hs]
    exact (Utf8.lossy_of_isUtf8 ⟨s.toList, (asBytes_eq_flatMap s).symm⟩).symm
  · rfl

/-- The section is headers put together; any other is bytes of the message. -/
def Section.IsBuilt : Section → Prop
  | headerFields _ _ | mime => True
  | _ => False

/-- What FETCH returns of a section: the string that is made of the bytes.  Headers that are not cut
go through `fromUtf8OrLossy` instead. -/
def Message.contents (message : Message) (sections : List Section) (range : Option (ℕ × ℕ)) :
    Option Bytes :=
  (message.bodySection sections range).map lossy

/-- The bytes of the message between the offsets of the part that a section is about. -/
def Message.octets (message : Message) (sections : List Section) : Option Bytes :=
  let root := message.getRootPart
  if sections = [] then message.rawRange root.offsetHeader root.offsetEnd
  else
    match walkSections (sections.length == 1) message.located sections with
    | none => none
    | some (l, some .header) => l.message.rawRange l.part.offsetHeader l.part.offsetBody
    | some (l, _) => l.message.rawRange l.part.offsetBody l.part.offsetEnd

/-- Windows one after the other, to the end of a section at least. -/
inductive Tiles (length : ℕ) : ℕ → List (ℕ × ℕ) → Prop
  | done {start : ℕ} : length ≤ start → Tiles length start []
  | next {start count : ℕ} {rest : List (ℕ × ℕ)} : start < 2 ^ 32 → 0 < count → count < 2 ^ 32 →
      Tiles length (start + count) rest → Tiles length start ((start, count) :: rest)

/-- The windows are the section together, and the section is the bytes of the message unless it is
headers put together. -/
def Message.Chunked (message : Message) (sections : List Section) (windows : List (ℕ × ℕ)) : Prop :=
  (windows.mapM fun w ↦ message.contents sections (some w)).map List.flatten =
      message.contents sections none ∧
    ((∀ s ∈ sections, ¬s.IsBuilt) → message.contents sections none = message.octets sections)

/-- No sum wraps where there is a byte at the start. -/
def Fits (bytes : Bytes) (windows : List (ℕ × ℕ)) : Prop :=
  ∀ w ∈ windows, w.1 + w.2 < 2 ^ 32 ∨ bytes.length ≤ w.1

/-- No window starts inside a character. -/
def Untorn (bytes : Bytes) (windows : List (ℕ × ℕ)) : Prop :=
  ∀ w ∈ windows, ¬Torn (bytes.take w.1) (bytes.drop w.1)

section

variable {message : Message} {sections : List Section} {bytes : Bytes} {windows : List (ℕ × ℕ)}
  {start count : ℕ}

/-- A window is cut out of all of the bytes. -/
theorem bodySection_eq (range : Option (ℕ × ℕ)) : message.bodySection sections range =
    (message.bodySection sections none).map (getPartialBytes · range) := by
  unfold Message.bodySection
  dsimp only
  split
  · rw [Option.map_map]
    rfl
  · split
    · rfl
    · rw [Option.map_map]
      rfl
    · rfl
    · rfl
    · rw [Option.map_map]
      rfl

theorem mem_of_walkSections {sectionsSingle : Bool} {l l' : Located} {stop : Section}
    (h : walkSections sectionsSingle l sections = some (l', some stop)) : stop ∈ sections := by
  induction sections generalizing l with
  | nil => cases h
  | cons first rest ih =>
      cases first with
      | part num =>
          rw [walkSections] at h
          split at h
          · exact List.mem_cons_of_mem _ (ih h)
          · cases h
      | header | headerFields _ _ | text | mime =>
          cases h
          exact List.mem_cons_self

/-- Without a window, and without headers put together, the bytes are those of the message. -/
theorem bodySection_eq_octets (h : ∀ s ∈ sections, ¬s.IsBuilt) :
    message.bodySection sections none = message.octets sections := by
  have hmap (bytes : Option Bytes) : bytes.map (getPartialBytes · none) = bytes := Option.map_id'
  unfold Message.bodySection Message.octets
  dsimp only
  split
  · exact hmap _
  · cases hwalk : walkSections (sections.length == 1) message.located sections with
    | none => rfl
    | some r =>
        obtain ⟨l, stop⟩ := r
        cases stop with
        | none => exact hmap _
        | some stop =>
            have hstop := h stop (mem_of_walkSections hwalk)
            cases stop with
            | headerFields _ _ | mime => exact absurd trivial hstop
            | header | text | part _ => exact hmap _

/-! ## Windows -/

theorem Tiles.flatMap_window (h : Tiles bytes.length start windows) :
    (windows.flatMap fun w ↦ window bytes w.1 w.2) = bytes.drop start := by
  induction h with
  | done hle => exact (List.drop_eq_nil_of_le hle).symm
  | next _ _ _ _ ih =>
      rw [List.flatMap_cons, ih, window, ← List.drop_drop, List.take_append_drop]

/-- The windows before one are what stands before its start. -/
theorem Tiles.split {w : ℕ × ℕ} {before after : List (ℕ × ℕ)}
    (h : Tiles bytes.length start (before ++ w :: after)) : start ≤ w.1 ∧
      (before.flatMap fun w ↦ window bytes w.1 w.2) = (bytes.drop start).take (w.1 - start) ∧
      Tiles bytes.length w.1 (w :: after) := by
  induction before generalizing start with
  | nil =>
      cases h with
      | next hstart hpos hcount h =>
          refine ⟨Nat.le_refl _, ?_, .next hstart hpos hcount h⟩
          rw [Nat.sub_self, List.take_zero, List.flatMap_nil]
  | cons first before ih =>
      cases h with
      | @next _ count _ hstart hpos hcount h =>
          obtain ⟨hle, hbefore, htiles⟩ := ih h
          have hsum : w.1 - start = count + (w.1 - (start + count)) := by omega
          refine ⟨Nat.le_of_add_right_le hle, ?_, htiles⟩
          rw [List.flatMap_cons, hbefore, window, hsum, List.take_add, List.drop_drop]

theorem Tiles.mem {w : ℕ × ℕ} (h : Tiles bytes.length start windows) (hw : w ∈ windows) :
    w.1 < 2 ^ 32 ∧ 0 < w.2 ∧ w.2 < 2 ^ 32 := by
  obtain ⟨before, after, rfl⟩ := List.append_of_mem hw
  obtain ⟨first, count⟩ := w
  cases h.split.2.2 with
  | next hstart hpos hcount _ => exact ⟨hstart, hpos, hcount⟩

theorem untorn_iff (h : Tiles bytes.length 0 windows) : Untorn bytes windows ↔
    ∀ l r, (windows.map fun w ↦ window bytes w.1 w.2) = l ++ r → ¬Torn l.flatten r.flatten := by
  constructor
  · intro huntorn l r hlr
    obtain ⟨before, after, rfl, rfl, rfl⟩ := List.map_eq_append_iff.mp hlr
    cases after with
    | nil => exact Utf8.not_torn_nil_right
    | cons w after =>
        obtain ⟨_, hbefore, htiles⟩ := h.split
        have hafter := htiles.flatMap_window
        rw [List.flatMap_def] at hbefore hafter
        rw [hbefore, hafter]
        exact huntorn w (List.mem_append_right _ List.mem_cons_self)
  · intro hcuts w hw
    obtain ⟨before, after, rfl⟩ := List.append_of_mem hw
    obtain ⟨_, hbefore, htiles⟩ := h.split
    have hafter := htiles.flatMap_window
    rw [List.flatMap_def] at hbefore hafter
    have hcut := hcuts _ _ List.map_append
    rwa [hbefore, hafter] at hcut

/-- Windows decoded on their own. -/
theorem flatMap_window_iff (h : Tiles bytes.length 0 windows) :
    (windows.flatMap fun w ↦ lossy (window bytes w.1 w.2)) = lossy bytes ↔
      Untorn bytes windows := by
  have hflatten : (windows.map fun w ↦ window bytes w.1 w.2).flatten = bytes := by
    rw [← List.flatMap_def, h.flatMap_window, List.drop_zero]
  have hpieces : (windows.map fun w ↦ window bytes w.1 w.2).flatMap lossy = lossy _ ↔ _ :=
    Utf8.flatMap_lossy_iff
  rw [hflatten, List.flatMap_map] at hpieces
  exact hpieces.trans (untorn_iff h).symm

/-- What is returned for a window: its bytes, or nothing. -/
theorem getPartialBytes_eq_ite {w : ℕ × ℕ} (hstart : w.1 < 2 ^ 32) (hcount : w.2 < 2 ^ 32) :
    getPartialBytes bytes (some w) =
      if w.1 + w.2 < 2 ^ 32 then window bytes w.1 w.2 else [] := by
  split
  · rename_i hlt
    exact getPartialBytes_of_lt hlt
  · rename_i hge
    exact getPartialBytes_of_wraps hstart hcount (Nat.not_lt.mp hge)

/-- Every window is returned. -/
theorem flatMap_getPartialBytes (h : Tiles bytes.length start windows)
    (hfits : Fits bytes windows) :
    (windows.flatMap fun w ↦ lossy (getPartialBytes bytes (some w))) =
      windows.flatMap fun w ↦ lossy (window bytes w.1 w.2) := by
  refine List.flatMap_congr fun w hw ↦ ?_
  obtain ⟨hstart, hpos, hcount⟩ := h.mem hw
  rw [getPartialBytes_eq_ite hstart hcount]
  split
  · rfl
  · rename_i hge
    rw [(window_eq_nil_iff hpos).mpr ((hfits w hw).resolve_left hge)]

/-- Some window is not. -/
theorem length_flatMap_lt (h : Tiles bytes.length start windows) (hfits : ¬Fits bytes windows) :
    (windows.flatMap fun w ↦ lossy (getPartialBytes bytes (some w))).length <
      (windows.flatMap fun w ↦ lossy (window bytes w.1 w.2)).length := by
  obtain ⟨w, hw, hwraps⟩ : ∃ w ∈ windows, ¬(w.1 + w.2 < 2 ^ 32 ∨ bytes.length ≤ w.1) := by
    simpa [Fits] using hfits
  rw [List.length_flatMap, List.length_flatMap]
  refine List.sum_lt_sum _ _ (fun v hv ↦ ?_) ⟨w, hw, ?_⟩
  · obtain ⟨hstart, _, hcount⟩ := h.mem hv
    rw [getPartialBytes_eq_ite hstart hcount]
    split
    · exact Nat.le_refl _
    · exact Nat.zero_le _
  · obtain ⟨hstart, hpos, hcount⟩ := h.mem hw
    rw [getPartialBytes_eq_ite hstart hcount, if_neg fun hlt ↦ hwraps (.inl hlt)]
    refine List.length_pos_of_ne_nil (Utf8.lossy_ne_nil fun hnil ↦ ?_)
    exact hwraps (.inr ((window_eq_nil_iff hpos).mp hnil))

/-! ## What is returned -/

theorem mapM_contents (h : message.bodySection sections none = some bytes) :
    (windows.mapM fun w ↦ message.contents sections (some w)) =
      some (windows.map fun w ↦ lossy (getPartialBytes bytes (some w))) := by
  have hwindow : (fun w ↦ message.contents sections (some w)) = fun w ↦
      pure (lossy (getPartialBytes bytes (some w))) := by
    funext w
    rw [Message.contents, bodySection_eq, h]
    rfl
  rw [hwindow, List.mapM_pure]
  rfl

theorem chunked_iff_lossy (h : message.bodySection sections none = some bytes) :
    message.Chunked sections windows ↔
      (windows.flatMap fun w ↦ lossy (getPartialBytes bytes (some w))) = lossy bytes ∧
        ((∀ s ∈ sections, ¬s.IsBuilt) → IsUtf8 bytes) := by
  have hcontents : message.contents sections none = some (lossy bytes) := by
    rw [Message.contents, h]
    rfl
  rw [Message.Chunked, mapM_contents h, hcontents, Option.map_some, Option.some_inj,
    ← List.flatMap_def]
  refine and_congr_right fun _ ↦ forall_congr' fun hraw ↦ ?_
  rw [← bodySection_eq_octets hraw, h, Option.some_inj]
  exact Utf8.lossy_eq_self_iff

end

/-- **The windows are the section**, and the section is the bytes of the message, if no window
starts inside a character, no sum wraps, and the bytes are UTF-8 unless they are headers put
together; and only then, but that what is lost to a sum that wraps may be as much as torn
characters have added. -/
theorem chunked_iff {message : Message} {sections : List Section} {bytes : Bytes}
    {windows : List (ℕ × ℕ)} (h : message.bodySection sections none = some bytes)
    (htiles : Tiles bytes.length 0 windows) :
    (Fits bytes windows ∧ Untorn bytes windows ∧ ((∀ s ∈ sections, ¬s.IsBuilt) → IsUtf8 bytes) →
        message.Chunked sections windows) ∧
      (message.Chunked sections windows → Fits bytes windows ∨ Untorn bytes windows →
        Fits bytes windows ∧ Untorn bytes windows ∧
          ((∀ s ∈ sections, ¬s.IsBuilt) → IsUtf8 bytes)) := by
  rw [chunked_iff_lossy h]
  constructor
  · rintro ⟨hfits, huntorn, hutf8⟩
    exact ⟨(flatMap_getPartialBytes htiles hfits).trans ((flatMap_window_iff htiles).mpr huntorn),
      hutf8⟩
  · rintro ⟨heq, hutf8⟩ hone
    have hfits : Fits bytes windows := by
      by_contra hfits
      have hlt := length_flatMap_lt htiles hfits
      rw [heq, (flatMap_window_iff htiles).mpr (hone.resolve_left hfits)] at hlt
      exact Nat.lt_irrefl _ hlt
    refine ⟨hfits, (flatMap_window_iff htiles).mp ?_, hutf8⟩
    exact (flatMap_getPartialBytes htiles hfits).symm.trans heq

/-- A message whose text is a letter and a euro sign. -/
def euro : Message := .mk (asBytes "S:a\r\n\r\nb€") noHeaders
  { plainPart (.text "b€") with
    headers := [⟨"S", false, 2, 5⟩]
    offsetBody := 7
    offsetEnd := 11 } []

/-- A window for each. -/
theorem chunked_iff_euro : euro.Chunked [.text] [(0, 1), (1, 3)] := by
  have hbody : euro.bodySection [.text] none = some (asBytes "b€") := by decide +kernel
  have htiles : Tiles (asBytes "b€").length 0 [(0, 1), (1, 3)] :=
    .next (by decide) (by decide) (by decide)
      (.next (by decide) (by decide) (by decide) (.done (by decide +kernel)))
  refine (chunked_iff hbody htiles).1 ⟨?_, ?_, fun _ ↦ ⟨_, (asBytes_eq_flatMap "b€").symm⟩⟩
  · unfold Fits
    decide +kernel
  · unfold Untorn
    decide +kernel

/-- A U+FFFD that is torn, and the rest of it lost to a sum that wraps. -/
example : ([(0, 1), (1, 4294967295)].flatMap fun w ↦
    lossy (getPartialBytes Utf8.replacement (some w))) = lossy Utf8.replacement := by
  decide +kernel

/-- A window that ends inside the euro sign. -/
theorem chunked_torn : ¬euro.Chunked [.text] [(0, 2), (2, 2)] := by
  rintro ⟨h, _⟩
  revert h
  decide +kernel

end ImapToJmap.Mime
