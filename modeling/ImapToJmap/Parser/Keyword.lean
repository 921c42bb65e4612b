import ImapToJmap.Parser.SearchKey
import ImapToJmap.Protocol.Writer

/-!
# Flags and keywords

A flag on its way to the server and back: `Flag::parse_imap` reads it, `to_jmap` makes a keyword of
it, and `parse_jmap` a flag of the keyword, which `serialize` writes for the client.

`parse_jmap` knows twelve keywords, in any case, and of another one without a `$` it keeps letters
and digits only.  Six of the twelve mean nothing to `parse_imap`: a client that writes `$seen` gets
the keyword, not the flag, and `parse_jmap` does not tell them apart (`Misread`).
-/

namespace ImapToJmap

open Ascii

/-- `str::to_ascii_lowercase` -/
def toAsciiLowercase (text : String) : String := String.ofList (text.toList.map Char.toLower)

namespace Flag

/-- The keywords of `Flag::parse_jmap`. -/
def jmapKeywords : List (String × Flag) :=
  [("$seen", seen), ("$draft", draft), ("$flagged", flagged), ("$answered", answered),
    ("$recent", recent), ("$important", important), ("$phishing", phishing), ("$junk", junk),
    ("$notjunk", notJunk), ("$deleted", deleted), ("$forwarded", forwarded), ("$mdnsent", mdnSent)]

/-- What becomes of a keyword without a `$`. -/
def replaceOthers (value : String) : String :=
  String.ofList (value.toList.map fun c ↦ if c.isAlphanum then c else '_')

/-- `Flag::parse_jmap` -/
def parseJmap (value : String) : Flag :=
  if value.toList.head? = some '$' then
    match jmapKeywords.find? fun e ↦ toAsciiLowercase value == e.1 with
    | some e => e.2
    | none => keyword value
  else keyword (replaceOthers value)

/-- What a client parses of the text that it gets for a flag it has set. -/
def returned (flag : Flag) : Option Flag := parseImap (parseJmap flag.toJmap).serialize.bytes

/-- A keyword without a `$` is of letters, digits and `_` afterwards. -/
def replaced : Flag → Flag
  | keyword name =>
      if name.toList.head? = some '$' then keyword name else keyword (replaceOthers name)
  | flag => flag

/-- A keyword that is taken for a flag when it comes back. -/
def Misread : Flag → Prop
  | keyword name =>
      toAsciiLowercase name ∈ ["$seen", "$draft", "$flagged", "$answered", "$recent", "$deleted"]
  | _ => False

instance : ∀ flag, Decidable (Misread flag)
  | keyword name => inferInstanceAs (Decidable (toAsciiLowercase name ∈
      ["$seen", "$draft", "$flagged", "$answered", "$recent", "$deleted"]))
  | seen | draft | flagged | answered | recent | important | phishing | junk | notJunk | deleted |
    forwarded | mdnSent => .isFalse id

end Flag

/-! ## Cases -/

theorem map_toAsciiUppercase_toLower (c : Char) :
    (String.utf8EncodeChar c.toLower).map toAsciiUppercase =
      (String.utf8EncodeChar c).map toAsciiUppercase := by
  have hascii : ∀ n < 128, (String.utf8EncodeChar (Char.ofNat n).toLower).map toAsciiUppercase =
      (String.utf8EncodeChar (Char.ofNat n)).map toAsciiUppercase := by
    decide
  by_cases hc : c.toNat < 128
  · have h := hascii c.toNat hc
    rw [Char.ofNat_toNat] at h
    exact h
  · have hlower : c.toLower = c := by
      refine dif_neg fun h ↦ hc ?_
      have hle : c.toNat ≤ 'Z'.toNat := h.2
      exact hle.trans_lt (by decide)
    rw [hlower]

/-- Names that are the same in small letters are the same in any. -/
theorem eqIgnoreAsciiCase_of_toAsciiLowercase {s t : String}
    (h : toAsciiLowercase s = toAsciiLowercase t) :
    eqIgnoreAsciiCase (asBytes s) (asBytes t) = true := by
  have hupper (s : String) : (asBytes (toAsciiLowercase s)).map toAsciiUppercase =
      (asBytes s).map toAsciiUppercase := by
    rw [asBytes_eq_flatMap, asBytes_eq_flatMap, toAsciiLowercase, String.toList_ofList,
      List.flatMap_map, List.map_flatMap, List.map_flatMap]
    exact List.flatMap_congr fun c _ ↦ map_toAsciiUppercase_toLower c
  rw [eqIgnoreAsciiCase, beq_iff_eq, ← hupper s, h, hupper t]

namespace Flag

section

variable {value value' : Bytes} {name : String} {flag flag' : Flag}

/-- The flags with a name of their own come back. Their keywords are in small letters. -/
theorem jmapKeywords_named : ∀ e ∈ jmapKeywords,
    e.2.returned = some e.2 ∧ e.2.replaced = e.2 ∧ toAsciiLowercase e.1 = e.1 := by
  decide

theorem mem_jmapKeywords (flag : Flag) :
    (∃ name, flag = keyword name) ∨ (flag.toJmap, flag) ∈ jmapKeywords := by
  cases flag with
  | keyword name => exact .inl ⟨name, rfl⟩
  | _ => exact .inr (by decide)

/-- The names of `parse_imap`, by the first byte. -/
def imapNames : Option UInt8 → List (String × Flag)
  | some 92 => [("\\Seen", .seen), ("\\Answered", .answered), ("\\Flagged", .flagged),
      ("\\Deleted", .deleted), ("\\Draft", .draft), ("\\Recent", .recent),
      ("\\Important", .important)]
  | some 36 => [("$Forwarded", .forwarded), ("$MDNSent", .mdnSent), ("$Junk", .junk),
      ("$NotJunk", .notJunk), ("$Phishing", .phishing), ("$Important", .important)]
  | _ => []

theorem parseImap_eq (value : Bytes) : parseImap value =
    if value = [] then none
    else
      match (imapNames value.head?).find? fun e ↦ eqIgnoreAsciiCase value (asBytes e.1) with
      | some e => some e.2
      | none => (fromUtf8 value).map .keyword := rfl

theorem ne_keyword_of_mem_imapNames {first : Option UInt8} {e : String × Flag}
    (h : e ∈ imapNames first) (name : String) : e.2 ≠ keyword name := by
  unfold imapNames at h
  split at h
  · simp only [List.mem_cons, List.not_mem_nil, or_false] at h
    rcases h with rfl | rfl | rfl | rfl | rfl | rfl | rfl <;> nofun
  · simp only [List.mem_cons, List.not_mem_nil, or_false] at h
    rcases h with rfl | rfl | rfl | rfl | rfl | rfl <;> nofun
  · cases h

theorem jmapKeywords_unique :
    ∀ e ∈ jmapKeywords, ∀ e' ∈ jmapKeywords, e.1 = e'.1 → e.2 = e'.2 := by
  decide

/-- A keyword is text that is none of the names. -/
theorem parseImap_eq_keyword_iff : parseImap value = some (keyword name) ↔
    value ≠ [] ∧ value = asBytes name ∧
      ∀ e ∈ imapNames value.head?, eqIgnoreAsciiCase value (asBytes e.1) = false := by
  rw [parseImap_eq]
  split
  · rename_i hnil
    exact ⟨nofun, fun h ↦ absurd hnil h.1⟩
  · rename_i hne
    have htext : fromUtf8 value = some name ↔ value = asBytes name := by
      constructor
      · exact fun h ↦ (asBytes_of_fromUtf8 h).symm
      · rintro rfl
        exact fromUtf8_asBytes name
    split
    · rename_i e hfind
      have hmem := List.mem_of_find?_eq_some hfind
      have htrue := List.find?_some hfind
      constructor
      · intro h
        exact absurd (Option.some.inj h) (ne_keyword_of_mem_imapNames hmem name)
      · rintro ⟨-, -, hnone⟩
        rw [hnone e hmem] at htrue
        cases htrue
    · rename_i hfind
      rw [List.find?_eq_none] at hfind
      simp only [Bool.not_eq_true] at hfind
      rw [Option.map_eq_some_iff]
      constructor
      · rintro ⟨text, htext', heq⟩
        obtain rfl := keyword.inj heq
        exact ⟨hne, htext.mp htext', hfind⟩
      · rintro ⟨-, hvalue, -⟩
        exact ⟨name, htext.mpr hvalue, rfl⟩

/-- Each keyword of `parse_jmap` is misread, or a name of `parse_imap`. -/
theorem jmapKeywords_cases : ∀ e ∈ jmapKeywords,
    e.1 ∈ ["$seen", "$draft", "$flagged", "$answered", "$recent", "$deleted"] ∨
      ∃ e' ∈ imapNames (some 36), toAsciiLowercase e'.1 = e.1 ∧
        ((asBytes e'.1).map toAsciiUppercase).head? = some 36 := by
  decide

theorem head?_of_toAsciiUppercase (h : (value.map toAsciiUppercase).head? = some 36) :
    value.head? = some 36 := by
  have hbyte : ∀ n < 256, toAsciiUppercase (UInt8.ofNat n) = 36 → UInt8.ofNat n = 36 := by
    decide +kernel
  cases value with
  | nil => cases h
  | cons ch value =>
      have hch := hbyte ch.toNat ch.toNat_lt
      rw [UInt8.ofNat_toNat] at hch
      exact congrArg some (hch (Option.some.inj h))

/-- A keyword that has been read is none of those of `parse_jmap`, if it is not misread. -/
theorem notMem_jmapKeywords (h : parseImap value = some (keyword name))
    (hread : ¬ (keyword name).Misread) : ∀ e ∈ jmapKeywords, toAsciiLowercase name ≠ e.1 := by
  obtain ⟨-, rfl, hnames⟩ := parseImap_eq_keyword_iff.mp h
  intro e he heq
  rcases jmapKeywords_cases e he with hmis | ⟨e', he', hlower, hfirst⟩
  · rw [← heq] at hmis
    exact hread hmis
  · have hsame := eqIgnoreAsciiCase_of_toAsciiLowercase (heq.trans hlower.symm)
    have hhead : (asBytes name).head? = some 36 := by
      refine head?_of_toAsciiUppercase ?_
      rw [beq_iff_eq.mp hsame]
      exact hfirst
    rw [hhead] at hnames
    rw [hnames e' he'] at hsame
    cases hsame

/-- Letters, digits and `_` are read as a keyword. -/
theorem parseImap_replaceOthers (hne : name ≠ "") :
    parseImap (asBytes (replaceOthers name)) = some (keyword (replaceOthers name)) := by
  have hchars : ∀ c ∈ (replaceOthers name).toList, c ≠ '\\' ∧ c ≠ '$' := by
    rw [replaceOthers, String.toList_ofList]
    intro c hc
    obtain ⟨d, -, rfl⟩ := List.mem_map.mp hc
    split
    · rename_i hd
      constructor
      · rintro rfl
        cases hd
      · rintro rfl
        cases hd
    · decide
  have hfirst : imapNames (asBytes (replaceOthers name)).head? = [] := by
    unfold imapNames
    split
    · rename_i hhead
      have hmem := (mem_asBytes (c := '\\') (by decide) rfl).mp (List.mem_of_mem_head? hhead)
      exact absurd rfl (hchars _ hmem).1
    · rename_i hhead
      have hmem := (mem_asBytes (c := '$') (by decide) rfl).mp (List.mem_of_mem_head? hhead)
      exact absurd rfl (hchars _ hmem).2
    · rfl
  refine parseImap_eq_keyword_iff.mpr ⟨?_, rfl, ?_⟩
  · intro hnil
    have hempty : replaceOthers name = "" := asBytes_inj.mp hnil
    have hlist : (replaceOthers name).toList = [] := by rw [hempty]; rfl
    rw [replaceOthers, String.toList_ofList, List.map_eq_nil_iff] at hlist
    exact hne (String.toList_inj.mp hlist)
  · rw [hfirst]
    exact nofun

theorem returned_keyword (h : parseImap value = some (keyword name))
    (hread : ¬ (keyword name).Misread) : (keyword name).returned =
      some (keyword name).replaced := by
  obtain ⟨hne, heq, -⟩ := parseImap_eq_keyword_iff.mp h
  show parseImap (parseJmap name).serialize.bytes = _
  unfold parseJmap replaced
  dsimp only
  split
  · have hnone : jmapKeywords.find? (fun e ↦ toAsciiLowercase name == e.1) = none := by
      rw [List.find?_eq_none]
      intro e he htrue
      exact notMem_jmapKeywords h hread e he (beq_iff_eq.mp htrue)
    rw [hnone]
    show parseImap ([Wire.Piece.text (asBytes name)].flatMap Wire.Piece.bytes) = _
    rw [List.flatMap_singleton, Wire.Piece.bytes, ← heq]
    exact h
  · show parseImap ([Wire.Piece.text (asBytes (replaceOthers name))].flatMap Wire.Piece.bytes) = _
    rw [List.flatMap_singleton, Wire.Piece.bytes]
    refine parseImap_replaceOthers ?_
    rintro rfl
    exact hne heq

/-- **A flag comes back**, with the characters of a keyword replaced that `parse_jmap` does not
keep, and two flags that are set are two keywords. -/
theorem returned_of_parseImap (h : parseImap value = some flag) (h' : parseImap value' = some flag')
    (hread : ¬ flag.Misread) (hread' : ¬ flag'.Misread) :
    flag.returned = some flag.replaced ∧ (flag ≠ flag' → flag.toJmap ≠ flag'.toJmap) := by
  constructor
  · rcases mem_jmapKeywords flag with ⟨name, rfl⟩ | hflag
    · exact returned_keyword h hread
    · obtain ⟨hreturned, hreplaced, -⟩ := jmapKeywords_named _ hflag
      rw [hreturned, hreplaced]
  · refine mt fun heq ↦ ?_
    rcases mem_jmapKeywords flag with ⟨name, rfl⟩ | hflag
    · rcases mem_jmapKeywords flag' with ⟨name', rfl⟩ | hflag'
      · exact congrArg keyword heq
      · obtain ⟨-, -, hlower⟩ := jmapKeywords_named _ hflag'
        rw [← heq] at hflag' hlower
        exact absurd hlower (notMem_jmapKeywords h hread _ hflag')
    · rcases mem_jmapKeywords flag' with ⟨name', rfl⟩ | hflag'
      · obtain ⟨-, -, hlower⟩ := jmapKeywords_named _ hflag
        rw [heq] at hflag hlower
        exact absurd hlower (notMem_jmapKeywords h' hread' _ hflag)
      · rw [heq] at hflag
        exact jmapKeywords_unique _ hflag _ hflag' rfl

/-- `my-Label` comes back as `my_Label`, and `$Label` as it is. -/
theorem returned_of_parseImap_labels :
    (keyword "my-Label").returned = some (keyword "my_Label") ∧
      (keyword "my-Label" ≠ keyword "$Label" → (keyword "my-Label").toJmap ≠ "$Label") :=
  have hread : parseImap (asBytes "my-Label") = some (keyword "my-Label") ∧
      parseImap (asBytes "$Label") = some (keyword "$Label") ∧
      ¬ (keyword "my-Label").Misread ∧ ¬ (keyword "$Label").Misread := by
    decide
  returned_of_parseImap hread.1 hread.2.1 hread.2.2.1 hread.2.2.2

/-- A label with a hyphen is another one when it comes back, and what a client writes as `$seen` is
the flag then. -/
theorem returned_differs :
    parseImap (asBytes "my-label") = some (keyword "my-label") ∧
      (keyword "my-label").returned ≠ some (keyword "my-label") ∧
    parseImap (asBytes "$seen") = some (keyword "$seen") ∧
      (keyword "$seen").toJmap = seen.toJmap := by
  decide

end

end Flag

end ImapToJmap
