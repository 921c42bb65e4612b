import ImapToJmap.Core.Bytes
import ImapToJmap.Data.Ascii
import ImapToJmap.Data.Glob

/-!
# The patterns of LIST

`matches_pattern` of `commands/list.rs`.  It goes along a pattern once.  The text behind a wildcard
is looked for from where the name has been read to, and taken where it is first found; a partial
match that fails is given up together with the byte on which it fails.  A wildcard with no text of
its own decides at once.

`Clean` is when none of this matters: no occurrence of a text begins within a partial match, `%`
passes no `/`, and a wildcard that decides has nothing but wildcards behind it.
`matchesPattern_iff` is that the code agrees with the globs where this holds of the patterns in
front of which none matches.
-/

namespace ImapToJmap

open Ascii

/-- `ch == b'%' || ch == b'*'` -/
def isWildcard (ch : UInt8) : Bool := ch == percent || ch == Ascii.star

/-! ## The code -/

/-- How the search for the text behind a wildcard ends. -/
inductive Scan where
  | /-- The name is used up. -/
    missing
  | /-- The text is found, and this is left of the name. -/
    found (name : Bytes)
  | /-- The text is all of the rest of the pattern, and is found at the end of the name. -/
    atEnd
deriving DecidableEq

/-- The loop over the name; the number is `match_count`. -/
def scan (matchBytes : Bytes) (patternEof : Bool) : ℕ → Bytes → Scan
  | _, [] => .missing
  | matchCount, ch :: name =>
      if matchBytes[matchCount]? = some ch then
        if matchCount + 1 = matchBytes.length then
          if !patternEof then .found name
          else if name.isEmpty then .atEnd
          else scan matchBytes patternEof 0 name
        else scan matchBytes patternEof (matchCount + 1) name
      else scan matchBytes patternEof 0 name

theorem length_dropWhile_lt {p : Bytes} (ch : UInt8) (f : UInt8 → Bool) :
    (p.dropWhile f).length < (ch :: p).length :=
  Nat.lt_succ_of_le (List.dropWhile_sublist f).length_le

/-- One round of `'outer`: a pattern, and a name that has been read up to where the pattern has. -/
def matchesFrom : Bytes → Bytes → Bool
  | [], name => name.isEmpty
  | ch :: pattern, name =>
      if isWildcard ch then
        let matchBytes := pattern.takeWhile fun ch ↦ !isWildcard ch
        let rest := pattern.dropWhile fun ch ↦ !isWildcard ch
        if matchBytes ≠ [] then
          match scan matchBytes rest.isEmpty 0 name with
          | .missing => false
          | .atEnd => true
          | .found name => matchesFrom rest name
        else ch == Ascii.star || !name.any (· == slash)
      else
        match name with
        | [] => false
        | mch :: name => mch == ch && matchesFrom pattern name
termination_by pattern => pattern.length
decreasing_by
  · exact length_dropWhile_lt ch _
  · simp

/-- `matches_pattern` -/
def matchesPattern (patterns : List String) (mailboxName : String) : Bool :=
  patterns.isEmpty || patterns.any fun pattern ↦ matchesFrom (asBytes pattern) (asBytes mailboxName)

/-! ## What patterns mean -/

/-- A byte of a pattern. -/
def globPart (ch : UInt8) : GlobPart UInt8 :=
  if ch = Ascii.star then .any else if ch = percent then .within else .item ch

/-- The name matches the pattern. -/
def GlobMatches (pattern name : Bytes) : Prop :=
  GlobPart.Matches slash (pattern.map globPart) name

/-- The name up to here has the text only begun and broken off in it, over and over, each time
together with the byte that breaks it off; and, where the pattern ends with the text, all of the
text too. -/
inductive Passed (text : Bytes) (patternEof : Bool) : Bytes → Prop
  | nil : Passed text patternEof []
  | broken {n : ℕ} {ch : UInt8} {s : Bytes} : n < text.length → text[n]? ≠ some ch →
      Passed text patternEof s → Passed text patternEof (text.take n ++ ch :: s)
  | whole {s : Bytes} : patternEof = true → Passed text patternEof s →
      Passed text patternEof (text ++ s)

/-- No occurrence of the text leaves more of the name than this. -/
def FirstOccurrence (text name rest : Bytes) : Prop :=
  ∀ s t, name = s ++ text ++ t → t.length ≤ rest.length

/-- The next wildcard is a `%` that decides over a name with a `/` in it. -/
def DecidesWithin (pattern name : Bytes) : Prop :=
  pattern.head? = some percent ∧ (∀ ch ∈ pattern[1]?, isWildcard ch = true) ∧ slash ∈ name

/-- Going along the pattern, the code goes wrong nowhere. -/
def Clean : Bytes → Bytes → Prop
  | [], _ => True
  | ch :: pattern, name =>
      if isWildcard ch then
        let text := pattern.takeWhile fun ch ↦ !isWildcard ch
        let rest := pattern.dropWhile fun ch ↦ !isWildcard ch
        if text = [] then
          (∀ ch ∈ rest, isWildcard ch = true) ∧
            (ch = percent → slash ∈ name → ∀ ch ∈ rest, ch = percent)
        else if rest = [] then
          ∀ s, name = s ++ text → Passed text true s ∧ (ch = percent → slash ∉ s)
        else
          ∀ s name', name = s ++ text ++ name' → FirstOccurrence text name name' →
            Passed text false s ∧ (ch = percent → slash ∉ s) ∧ Clean rest name' ∧
              (DecidesWithin rest name' → ∀ s t, name = s ++ text ++ t → t = name')
      else
        match name with
        | [] => True
        | mch :: name => mch = ch → Clean pattern name
termination_by pattern => pattern.length
decreasing_by
  · exact length_dropWhile_lt ch _
  · simp

/-! ## The search -/

section Search

variable {text : Bytes} {patternEof : Bool} {n : ℕ} {name rest : Bytes}

theorem take_append_of_getElem? {ch : UInt8} (h : text[n]? = some ch) :
    text.take n ++ [ch] = text.take (n + 1) := by
  rw [List.take_add_one, h, Option.toList_some]

/-- What is found is there, and the search has not begun before the partial match. -/
theorem scan_found (hn : n ≤ text.length) (h : scan text patternEof n name = .found rest) :
    ∃ s, text.take n ++ name = s ++ text ++ rest := by
  induction name generalizing n with
  | nil => cases h
  | cons ch name ih =>
      have hrestart : scan text patternEof 0 name = .found rest →
          ∃ s, text.take n ++ ch :: name = s ++ text ++ rest := by
        intro hscan
        obtain ⟨s, hs⟩ := ih (Nat.zero_le _) hscan
        have hname : name = s ++ text ++ rest := hs
        exact ⟨text.take n ++ ch :: s, by rw [hname]; simp⟩
      rw [scan] at h
      split at h
      · next hget =>
          have htake := take_append_of_getElem? hget
          have happend : text.take n ++ ch :: name = text.take (n + 1) ++ name := by
            rw [← htake, List.append_assoc, List.singleton_append]
          split at h
          · next hlen =>
              split at h
              · obtain rfl := Scan.found.inj h
                refine ⟨[], ?_⟩
                rw [happend, hlen, List.take_length, List.nil_append]
              · split at h
                · cases h
                · exact hrestart h
          · have hlt := (List.getElem?_eq_some_iff.mp hget).1
            rw [happend]
            exact ih hlt h
      · exact hrestart h

theorem scan_atEnd (hn : n ≤ text.length) (h : scan text patternEof n name = .atEnd) :
    ∃ s, text.take n ++ name = s ++ text := by
  induction name generalizing n with
  | nil => cases h
  | cons ch name ih =>
      have hrestart : scan text patternEof 0 name = .atEnd →
          ∃ s, text.take n ++ ch :: name = s ++ text := by
        intro hscan
        obtain ⟨s, hs⟩ := ih (Nat.zero_le _) hscan
        have hname : name = s ++ text := hs
        exact ⟨text.take n ++ ch :: s, by rw [hname]; simp⟩
      rw [scan] at h
      split at h
      · next hget =>
          have htake := take_append_of_getElem? hget
          have happend : text.take n ++ ch :: name = text.take (n + 1) ++ name := by
            rw [← htake, List.append_assoc, List.singleton_append]
          split at h
          · next hlen =>
              split at h
              · cases h
              · split at h
                · next hempty =>
                    refine ⟨[], ?_⟩
                    rw [happend, hlen, List.take_length, List.isEmpty_iff.mp hempty]
                    simp
                · exact hrestart h
          · have hlt := (List.getElem?_eq_some_iff.mp hget).1
            rw [happend]
            exact ih hlt h
      · exact hrestart h

/-- Only a text behind which the pattern goes on is found within the name. -/
theorem scan_eof (h : scan text patternEof n name = .found rest) : patternEof = false := by
  induction name generalizing n with
  | nil => cases h
  | cons ch name ih =>
      rw [scan] at h
      split at h
      · split at h
        · split at h
          · next hnot => simpa using hnot
          · split at h
            · cases h
            · exact ih h
        · exact ih h
      · exact ih h

theorem scan_not_eof (h : scan text patternEof n name = .atEnd) : patternEof = true := by
  induction name generalizing n with
  | nil => cases h
  | cons ch name ih =>
      rw [scan] at h
      split at h
      · split at h
        · split at h
          · cases h
          · next hnot => simpa using hnot
        · exact ih h
      · exact ih h

/-- The search goes on where a match is in progress. -/
theorem scan_take (hn : n < text.length) (u : Bytes) :
    scan text patternEof 0 (text.take n ++ u) = scan text patternEof n u := by
  induction n generalizing u with
  | zero => rfl
  | succ n ih =>
      have hget : text[n]? = some (text.get ⟨n, by omega⟩) := List.getElem?_eq_getElem _
      have hlen : n + 1 ≠ text.length := by omega
      rw [← take_append_of_getElem? hget, List.append_assoc, List.singleton_append,
        ih (by omega), scan,
        if_pos hget, if_neg hlen]

theorem scan_text (htext : text ≠ []) (u : Bytes) : scan text patternEof 0 (text ++ u) =
    if !patternEof then .found u else if u.isEmpty then .atEnd else scan text patternEof 0 u := by
  obtain ⟨n, hn⟩ := Nat.exists_eq_add_of_lt (List.length_pos_iff.mpr htext)
  have hlen : n + 1 = text.length := by omega
  have hget : text[n]? = some (text.get ⟨n, by omega⟩) := List.getElem?_eq_getElem _
  have hsplit : text ++ u = text.take n ++ (text.get ⟨n, by omega⟩) :: u := by
    conv_lhs => rw [← List.take_length (l := text), ← hlen, ← take_append_of_getElem? hget]
    rw [List.append_assoc, List.singleton_append]
  rw [hsplit, scan_take (by omega), scan, if_pos hget, if_pos hlen]

/-- What is passed is read without a trace. -/
theorem scan_passed (htext : text ≠ []) {s u : Bytes} (h : Passed text patternEof s) (hu : u ≠ []) :
    scan text patternEof 0 (s ++ u) = scan text patternEof 0 u := by
  induction h with
  | nil => rfl
  | broken hn hne hs ih =>
      rw [List.append_assoc, List.cons_append, scan_take hn, scan, if_neg hne]
      exact ih
  | @whole s heof hs ih =>
      have hne : (s ++ u).isEmpty = false := by simp [hu]
      rw [List.append_assoc, scan_text htext, hne, heof]
      rw [heof] at ih
      exact ih

theorem exists_firstOccurrence {s t : Bytes} (h : name = s ++ text ++ t) :
    ∃ s t, name = s ++ text ++ t ∧ FirstOccurrence text name t := by
  induction hn : s.length using Nat.strong_induction_on generalizing s t with
  | _ n ih =>
      by_cases hfirst : FirstOccurrence text name t
      · exact ⟨s, t, h, hfirst⟩
      · simp only [FirstOccurrence, not_forall, not_le] at hfirst
        obtain ⟨s', t', h', hlt⟩ := hfirst
        have hlen := congrArg List.length (h.symm.trans h')
        simp only [List.length_append] at hlen
        exact ih s'.length (by omega) h' rfl

end Search

/-! ## The parts of a pattern -/

section Parts

variable {ch : UInt8} {pattern : Bytes}

theorem isWild_globPart (h : isWildcard ch = true) : (globPart ch).IsWild := by
  unfold globPart
  split
  · trivial
  · next hstar =>
      have hpercent : ch = percent := by
        simpa [isWildcard, hstar] using h
      rw [if_pos hpercent]
      trivial

theorem globPart_of_not_wildcard (h : isWildcard ch = false) : globPart ch = .item ch := by
  have hne : ch ≠ percent ∧ ch ≠ Ascii.star := by simpa [isWildcard] using h
  rw [globPart, if_neg hne.2, if_neg hne.1]

theorem globPart_eq_within : globPart ch = .within ↔ ch = percent := by
  unfold globPart
  split
  · next h => simp [h]
  · split
    · next h => simp [h]
    · next h => simp [h]

/-- A pattern is the text in front of its first wildcard, and the rest. -/
theorem globParts_eq (pattern : Bytes) : pattern.map globPart =
    (pattern.takeWhile fun ch ↦ !isWildcard ch).map .item ++
      (pattern.dropWhile fun ch ↦ !isWildcard ch).map globPart := by
  have htext : (pattern.takeWhile fun ch ↦ !isWildcard ch).map globPart =
      (pattern.takeWhile fun ch ↦ !isWildcard ch).map .item := by
    refine List.map_congr_left fun x hx ↦ globPart_of_not_wildcard ?_
    simpa using List.mem_takeWhile_imp hx
  rw [← htext, ← List.map_append, List.takeWhile_append_dropWhile]

/-- A pattern that begins with a wildcard, and the text behind that. -/
theorem globMatches_wildcard (h : isWildcard ch = true) {name : Bytes} :
    GlobMatches (ch :: pattern) name ↔ ∃ s t,
      name = s ++ (pattern.takeWhile fun ch ↦ !isWildcard ch) ++ t ∧
      (ch = percent → slash ∉ s) ∧ GlobMatches (pattern.dropWhile fun ch ↦ !isWildcard ch) t := by
  rw [GlobMatches, List.map_cons, globParts_eq]
  constructor
  · intro hmatch
    obtain ⟨s, t', rfl, hs, hrest⟩ := GlobPart.matches_wild (isWild_globPart h) hmatch
    obtain ⟨t, rfl, ht⟩ := GlobPart.matches_items.mp hrest
    refine ⟨s, t, (List.append_assoc _ _ _).symm, fun hc ↦ hs (globPart_eq_within.mpr hc), ht⟩
  · rintro ⟨s, t, rfl, hs, ht⟩
    rw [List.append_assoc]
    refine GlobPart.matches_wild_append (isWild_globPart h)
      (fun hc ↦ hs (globPart_eq_within.mp hc)) ?_
    exact GlobPart.matches_items.mpr ⟨t, rfl, ht⟩

/-- The rest of a pattern begins with a wildcard. -/
theorem head?_dropWhile {x : UInt8}
    (h : (pattern.dropWhile fun ch ↦ !isWildcard ch).head? = some x) : isWildcard x = true := by
  have hnot := List.head?_dropWhile_not (fun ch ↦ !isWildcard ch) pattern
  rw [h] at hnot
  simpa using hnot

end Parts

/-! ## Agreement -/

section Agreement

variable {ch : UInt8} {pattern name : Bytes}

section Wildcard

variable {text rest : Bytes} (hwild : isWildcard ch = true)
  (htext : (pattern.takeWhile fun ch ↦ !isWildcard ch) = text)
  (hrest : (pattern.dropWhile fun ch ↦ !isWildcard ch) = rest) (hne : text ≠ [])
  (hclean : Clean (ch :: pattern) name)

include hwild htext hrest hclean in
theorem clean_decides (hnil : text = []) : (∀ ch ∈ rest, isWildcard ch = true) ∧
    (ch = percent → slash ∈ name → ∀ ch ∈ rest, ch = percent) := by
  rw [Clean.eq_def] at hclean
  simpa only [if_pos hwild, htext, hrest, if_pos hnil] using hclean

include hwild htext hrest hne hclean in
theorem clean_ends (hnil : rest = []) :
    ∀ s, name = s ++ text → Passed text true s ∧ (ch = percent → slash ∉ s) := by
  rw [Clean.eq_def] at hclean
  simpa only [if_pos hwild, htext, hrest, if_neg hne, if_pos hnil] using hclean

include hwild htext hrest hne hclean in
theorem clean_goesOn (hcons : rest ≠ []) :
    ∀ s name', name = s ++ text ++ name' → FirstOccurrence text name name' →
      Passed text false s ∧ (ch = percent → slash ∉ s) ∧ Clean rest name' ∧
        (DecidesWithin rest name' → ∀ s t, name = s ++ text ++ t → t = name') := by
  rw [Clean.eq_def] at hclean
  simpa only [if_pos hwild, htext, hrest, if_neg hne, if_neg hcons] using hclean

include hwild htext hrest hne hclean in
/-- The search is not thrown off: a text that is not found is not there. -/
theorem clean_missing (hscan : scan text rest.isEmpty 0 name = .missing) :
    if rest = [] then ¬ text <:+ name else ¬ text <:+: name := by
  split
  · next hnil =>
      rintro ⟨s, rfl⟩
      obtain ⟨hpassed, -⟩ := clean_ends hwild htext hrest hne hclean hnil s rfl
      have hend : scan text true 0 (text ++ []) = .atEnd := scan_text hne []
      rw [List.append_nil] at hend
      rw [hnil, List.isEmpty_nil, scan_passed hne hpassed hne, hend] at hscan
      cases hscan
  · next hcons =>
      rintro ⟨s, t, h⟩
      obtain ⟨s', t', h', hfirst⟩ := exists_firstOccurrence h.symm
      obtain ⟨hpassed, -⟩ := clean_goesOn hwild htext hrest hne hclean hcons s' t' h' hfirst
      have heof : rest.isEmpty = false := by simpa using hcons
      rw [heof, h', List.append_assoc, scan_passed hne hpassed (by simp [hne]),
        scan_text hne] at hscan
      cases hscan

include hwild htext hrest hne hclean in
/-- The search is not thrown off: a text that is found is found where it first occurs. -/
theorem clean_found {name' : Bytes} (hscan : scan text rest.isEmpty 0 name = .found name') :
    ∃ s, name = s ++ text ++ name' ∧ FirstOccurrence text name name' ∧ (ch = percent → slash ∉ s) ∧
      Clean rest name' ∧ (DecidesWithin rest name' → ∀ s t, name = s ++ text ++ t → t = name') := by
  have heof := scan_eof hscan
  have hcons : rest ≠ [] := by simpa using heof
  obtain ⟨s, hs⟩ := scan_found (Nat.zero_le _) hscan
  have hname : name = s ++ text ++ name' := hs
  obtain ⟨s₀, t₀, h₀, hfirst⟩ := exists_firstOccurrence hname
  obtain ⟨hpassed, hrest₀⟩ := clean_goesOn hwild htext hrest hne hclean hcons s₀ t₀ h₀ hfirst
  rw [heof, h₀, List.append_assoc, scan_passed hne hpassed (by simp [hne]), scan_text hne] at hscan
  obtain rfl := Scan.found.inj hscan
  exact ⟨s₀, h₀, hfirst, hrest₀⟩

end Wildcard

theorem eq_nil_of_takeWhile (h : (pattern.takeWhile fun ch ↦ !isWildcard ch) = []) :
    (pattern.dropWhile fun ch ↦ !isWildcard ch) = pattern := by
  conv_rhs => rw [← List.takeWhile_append_dropWhile (p := fun ch ↦ !isWildcard ch) (l := pattern),
    h]
  rfl

/-- Wildcards match a name that the first of them may pass. -/
theorem globMatches_wildcards (h : isWildcard ch = true)
    (hrest : ∀ x ∈ pattern, isWildcard x = true)
    (hname : ch = percent → slash ∉ name) : GlobMatches (ch :: pattern) name := by
  rw [GlobMatches, List.map_cons, ← List.append_nil name]
  refine GlobPart.matches_wild_append (isWild_globPart h) ?_ (GlobPart.matches_empty ?_)
  · intro hc
    exact hname (globPart_eq_within.mp hc)
  · intro x hx
    obtain ⟨y, hy, rfl⟩ := List.mem_map.mp hx
    exact isWild_globPart (hrest y hy)

/-- `%` and nothing else matches no name with a `/` in it. -/
theorem not_globMatches_percent (hrest : ∀ x ∈ pattern, x = percent) (hname : slash ∈ name) :
    ¬ GlobMatches pattern name := by
  intro hmatch
  refine GlobPart.notMem_of_matches_within ?_ hmatch hname
  intro x hx
  obtain ⟨y, hy, rfl⟩ := List.mem_map.mp hx
  exact globPart_eq_within.mpr (hrest y hy)

theorem globMatches_item (h : ¬ isWildcard ch = true) :
    GlobMatches (ch :: pattern) name ↔ ∃ t, name = ch :: t ∧ GlobMatches pattern t := by
  rw [GlobMatches, List.map_cons, globPart_of_not_wildcard (by simpa using h)]
  exact GlobPart.matches_item

/-- What the code accepts the glob matches. -/
theorem globMatches_of_matchesFrom (hclean : Clean pattern name)
    (h : matchesFrom pattern name = true) :
    GlobMatches pattern name := by
  fun_induction matchesFrom pattern name with
  | case1 name =>
      rw [List.isEmpty_iff.mp h]
      exact .nil
  | case2 => cases h
  | case3 ch pattern name hwild text rest htext hscan =>
      obtain ⟨s, hs⟩ := scan_atEnd (Nat.zero_le _) hscan
      have hname : name = s ++ text := hs
      have hrest : rest = [] := List.isEmpty_iff.mp (scan_not_eof hscan)
      obtain ⟨-, hwithin⟩ := clean_ends hwild rfl rfl htext hclean hrest s hname
      refine (globMatches_wildcard hwild).mpr ⟨s, [], ?_, hwithin, ?_⟩
      · rw [List.append_nil]
        exact hname
      · show GlobMatches rest []
        rw [hrest]
        exact .nil
  | case4 ch pattern name hwild text rest htext name' hscan ih =>
      obtain ⟨s, hname, -, hwithin, hrest, -⟩ := clean_found hwild rfl rfl htext hclean hscan
      exact (globMatches_wildcard hwild).mpr ⟨s, name', hname, hwithin, ih hrest h⟩
  | case5 ch pattern name hwild text htext =>
      have htext' : text = [] := by simpa using htext
      obtain ⟨hrest, -⟩ := clean_decides hwild rfl (eq_nil_of_takeWhile htext') hclean htext'
      refine globMatches_wildcards hwild hrest ?_
      rintro rfl hslash
      have hno : ∀ x ∈ name, ¬ x = slash := by simpa using h
      exact hno slash hslash rfl
  | case6 => cases h
  | case7 ch pattern hwild mch name ih =>
      obtain ⟨hch, hmatch⟩ : mch = ch ∧ matchesFrom pattern name = true := by simpa using h
      rw [Clean.eq_def] at hclean
      simp only [if_neg hwild] at hclean
      exact (globMatches_item hwild).mpr ⟨name, by rw [hch], ih (hclean hch) hmatch⟩

/-- What the code does not accept the glob does not match; nor does it match what is left of the
name further on, unless a `%` has decided. -/
theorem not_globMatches_of_matchesFrom (hclean : Clean pattern name)
    (h : matchesFrom pattern name = false) : ¬ GlobMatches pattern name ∧
      ((∃ x, pattern.head? = some x ∧ isWildcard x = true) → ¬ DecidesWithin pattern name →
        ∀ t, t <:+ name → ¬ GlobMatches pattern t) := by
  fun_induction matchesFrom pattern name with
  | case1 name =>
      refine ⟨?_, by simp⟩
      intro hmatch
      rw [GlobPart.matches_nil.mp hmatch] at h
      cases h
  | case2 ch pattern name hwild text rest htext hscan =>
      have hnone : if rest = [] then ¬ text <:+ name else ¬ text <:+: name :=
        clean_missing hwild rfl rfl htext hclean hscan
      have hall : ∀ t, t <:+ name → ¬ GlobMatches (ch :: pattern) t := by
        rintro t ⟨r, rfl⟩ hmatch
        obtain ⟨s, u, rfl, -, hu⟩ := (globMatches_wildcard hwild).mp hmatch
        have hu' : GlobMatches rest u := hu
        split at hnone
        · next hrest =>
            rw [hrest] at hu'
            obtain rfl := GlobPart.matches_nil.mp hu'
            exact hnone ⟨r ++ s, by simp [text]⟩
        · exact hnone ⟨r ++ s, u, by simp [text]⟩
      exact ⟨hall name (List.suffix_refl name), fun _ _ ↦ hall⟩
  | case3 => cases h
  | case4 ch pattern name hwild text rest htext name' hscan ih =>
      obtain ⟨s₀, hname, hfirst, -, hrest, honce⟩ := clean_found hwild rfl rfl htext hclean hscan
      obtain ⟨hno, hlater⟩ := ih hrest h
      have hhead : ∃ x, rest.head? = some x ∧ isWildcard x = true := by
        have hne : rest ≠ [] := by simpa using scan_eof hscan
        obtain ⟨x, l, hx⟩ := List.exists_cons_of_ne_nil hne
        have hx' : rest.head? = some x := by rw [hx, List.head?_cons]
        exact ⟨x, hx', head?_dropWhile hx'⟩
      have hall : ∀ t, t <:+ name → ¬ GlobMatches (ch :: pattern) t := by
        rintro t ⟨r, ht⟩ hmatch
        obtain ⟨s, u, rfl, -, hu⟩ := (globMatches_wildcard hwild).mp hmatch
        have hname' : name = r ++ s ++ text ++ u := by rw [← ht]; simp [text]
        by_cases hdecides : DecidesWithin rest name'
        · obtain rfl := honce hdecides _ u hname'
          exact hno hu
        · refine hlater hhead hdecides u ?_ hu
          refine List.suffix_of_suffix_length_le ⟨r ++ s ++ text, hname'.symm⟩ ⟨s₀ ++ text,
            hname.symm⟩ ?_
          exact hfirst _ u hname'
      exact ⟨hall name (List.suffix_refl name), fun _ _ ↦ hall⟩
  | case5 ch pattern name hwild text htext =>
      have htext' : text = [] := by simpa using htext
      obtain ⟨hstar, hslash⟩ : ch ≠ Ascii.star ∧ slash ∈ name := by simpa using h
      have hpercent : ch = percent := by simpa [isWildcard, hstar] using hwild
      obtain ⟨hwilds, hpercents⟩ := clean_decides hwild rfl
        (eq_nil_of_takeWhile htext') hclean htext'
      have hrest := hpercents hpercent hslash
      refine ⟨not_globMatches_percent ?_ hslash, ?_⟩
      · rintro x (_ | ⟨_, hx⟩)
        · exact hpercent
        · exact hrest x hx
      · -- the `%` has decided
        intro _ hdecides
        refine absurd ⟨by rw [hpercent]; rfl, ?_, hslash⟩ hdecides
        intro x hx
        exact hwilds x (List.mem_of_getElem? hx)
  | case6 ch pattern hwild =>
      refine ⟨?_, ?_⟩
      · intro hmatch
        obtain ⟨t, ht, -⟩ := (globMatches_item hwild).mp hmatch
        cases ht
      · rintro ⟨x, hx, hx'⟩
        obtain rfl : ch = x := by simpa using hx
        exact absurd hx' hwild
  | case7 ch pattern hwild mch name ih =>
      rw [Clean.eq_def] at hclean
      simp only [if_neg hwild] at hclean
      refine ⟨?_, ?_⟩
      · intro hmatch
        obtain ⟨t, ht, hmatch'⟩ := (globMatches_item hwild).mp hmatch
        obtain ⟨rfl, rfl⟩ := List.cons.inj ht
        exact (ih (hclean rfl) (by simpa using h)).1 hmatch'
      · rintro ⟨x, hx, hx'⟩
        obtain rfl : ch = x := by simpa using hx
        exact absurd hx' hwild

theorem matchesFrom_iff (hclean : Clean pattern name) :
    matchesFrom pattern name = true ↔ GlobMatches pattern name := by
  constructor
  · exact globMatches_of_matchesFrom hclean
  · intro hmatch
    by_contra hno
    exact (not_globMatches_of_matchesFrom hclean (by simpa using hno)).1 hmatch

end Agreement

/-- No pattern in front of this one matches the name, so that the code comes to it. -/
def ComesTo (patterns : List String) (mailboxName : String) (pattern : String) : Prop :=
  ∃ before after, patterns = before ++ pattern :: after ∧
    ∀ earlier ∈ before, ¬ GlobMatches (asBytes earlier) (asBytes mailboxName)

section ComesTo

variable {patterns : List String} {mailboxName pattern first : String}

theorem comesTo_head : ComesTo (first :: patterns) mailboxName first :=
  ⟨[], patterns, rfl, by simp⟩

theorem ComesTo.tail (hfirst : ¬ GlobMatches (asBytes first) (asBytes mailboxName))
    (h : ComesTo patterns mailboxName pattern) :
    ComesTo (first :: patterns) mailboxName pattern := by
  obtain ⟨before, after, rfl, hbefore⟩ := h
  refine ⟨first :: before, after, rfl, ?_⟩
  rintro earlier (_ | ⟨_, hmem⟩)
  · exact hfirst
  · exact hbefore earlier hmem

/-- Some pattern is accepted iff some pattern matches: up to the first that matches all are judged
right, and behind that one none is looked at. -/
theorem any_matchesFrom_iff (hclean : ∀ pattern, ComesTo patterns mailboxName pattern →
      Clean (asBytes pattern) (asBytes mailboxName)) :
    (patterns.any fun pattern ↦ matchesFrom (asBytes pattern) (asBytes mailboxName)) = true ↔
      ∃ pattern ∈ patterns, GlobMatches (asBytes pattern) (asBytes mailboxName) := by
  induction patterns with
  | nil => simp
  | cons first patterns ih =>
      have hfirst := matchesFrom_iff (hclean first comesTo_head)
      rw [List.any_cons, Bool.or_eq_true, hfirst, List.exists_mem_cons_iff]
      by_cases hmatch : GlobMatches (asBytes first) (asBytes mailboxName)
      · exact iff_of_true (.inl hmatch) (.inl hmatch)
      · refine or_congr_right (ih ?_)
        intro pattern hcomes
        exact hclean pattern (hcomes.tail hmatch)

end ComesTo

/-- Where `Clean` holds of each pattern the code comes to, `matches_pattern` says whether there is
no pattern or some pattern matches the name. -/
theorem matchesPattern_iff (patterns : List String) (mailboxName : String)
    (hclean : ∀ pattern, ComesTo patterns mailboxName pattern →
      Clean (asBytes pattern) (asBytes mailboxName)) :
    matchesPattern patterns mailboxName = true ↔
      patterns = [] ∨ ∃ pattern ∈ patterns, GlobMatches (asBytes pattern)
        (asBytes mailboxName) := by
  rw [matchesPattern, Bool.or_eq_true, List.isEmpty_iff]
  exact or_congr_right (any_matchesFrom_iff hclean)

/-- `*ab` overlooks the `ab` of `aab`, but is not come to. -/
theorem matchesPattern_iff_aab :
    (∀ pattern, ComesTo ["*b", "*ab"] "aab" pattern → Clean (asBytes pattern) (asBytes "aab")) ∧
      (matchesPattern ["*b", "*ab"] "aab" = true ↔ ["*b", "*ab"] = [] ∨
        ∃ pattern ∈ ["*b", "*ab"], GlobMatches (asBytes pattern) (asBytes "aab")) := by
  have hpattern : asBytes "*b" = [42, 98] := by decide
  have hname : asBytes "aab" = [97, 97, 98] := by decide
  have hfirst : GlobMatches (asBytes "*b") (asBytes "aab") := by
    have hparts : (asBytes "*b").map globPart = [.any, .item 98] := by decide
    rw [GlobMatches, hparts, hname]
    exact .any [97, 97] (.item .nil)
  have hclean : ∀ pattern, ComesTo ["*b", "*ab"] "aab" pattern →
      Clean (asBytes pattern) (asBytes "aab") := by
    rintro pattern ⟨before, after, hsplit, hbefore⟩
    cases before with
    | cons earlier before =>
        obtain rfl := (List.cons.inj hsplit).1
        exact absurd hfirst (hbefore _ List.mem_cons_self)
    | nil =>
        obtain rfl := (List.cons.inj hsplit).1
        rw [hpattern, hname, Clean.eq_def]
        have htext : ([98] : Bytes).takeWhile (fun ch ↦ !isWildcard ch) = [98] := by decide
        have hrest : ([98] : Bytes).dropWhile (fun ch ↦ !isWildcard ch) = [] := by decide
        have hstar : isWildcard 42 = true := by decide
        simp only [if_pos hstar, htext, hrest]
        intro s hs
        obtain rfl : [97, 97] = s := (List.append_left_inj [98]).mp hs
        have hpassed : Passed [98] true [97] :=
          .broken (n := 0) (by decide) (by decide) .nil
        exact ⟨.broken (n := 0) (by decide) (by decide) hpassed, by decide⟩
  exact ⟨hclean, matchesPattern_iff ["*b", "*ab"] "aab" hclean⟩

/-- The `a` on which the match of `ab` fails is the first byte of the text that is looked for. -/
theorem matchesPattern_overlooks : ¬ (matchesPattern ["*ab"] "aab" = true ↔
    ["*ab"] = [] ∨ ∃ pattern ∈ ["*ab"], GlobMatches (asBytes pattern) (asBytes "aab")) := by
  have hcode : matchesPattern ["*ab"] "aab" = false := by decide +kernel
  have hglob : GlobMatches (asBytes "*ab") (asBytes "aab") := by
    have hpattern : (asBytes "*ab").map globPart = [.any, .item 97, .item 98] := by decide +kernel
    have hname : asBytes "aab" = [97] ++ [97, 98] := by decide +kernel
    rw [GlobMatches, hpattern, hname]
    exact .any [97] (.item (.item .nil))
  intro h
  have hmatches := h.mpr (.inr ⟨"*ab", List.mem_singleton_self _, hglob⟩)
  rw [hcode] at hmatches
  cases hmatches

end ImapToJmap
