import Mathlib

/-!
# Mailbox names

A mailbox name is the path of the mailbox, its parts joined by `/`.  The functions on strings that
the commands use on names are here in terms of the characters: `str::starts_with`,
`str::strip_prefix`, `str::trim`, `str::split('/')` and `[_]::join("/")`.

`Below` is the order the names are put in by their paths: `Below p n` says that `n` starts with `p`
followed by `/`.
-/

namespace ImapToJmap

/-- `str::starts_with` -/
def startsWith (s p : String) : Bool := p.toList.isPrefixOf s.toList

/-- `str::strip_prefix` -/
def stripPrefix? (s p : String) : Option String :=
  if startsWith s p then some (String.ofList (s.toList.drop p.toList.length)) else none

/-- `str::strip_suffix` -/
def stripSuffix? (s p : String) : Option String :=
  if p.toList.isSuffixOf s.toList then
    some (String.ofList (s.toList.take (s.toList.length - p.toList.length)))
  else none

/-- `char::is_whitespace` -/
def isWhitespace (c : Char) : Bool :=
  let n := c.toNat
  (9 ≤ n && n ≤ 13) || n == 32 || n == 133 || n == 160 || n == 5760 || (8192 ≤ n && n ≤ 8202) ||
    n == 8232 || n == 8233 || n == 8239 || n == 8287 || n == 12288

/-- `str::trim` -/
def trim (s : String) : String :=
  String.ofList ((s.toList.dropWhile isWhitespace).reverse.dropWhile isWhitespace).reverse

/-- `str::split('/')` -/
def splitPath (s : String) : List String := (s.toList.splitOn '/').map String.ofList

/-- `[_]::join("/")` -/
def joinPath (path : List String) : String :=
  String.ofList (['/'].intercalate (path.map String.toList))

/-- The second name is a path that goes on from the first. -/
def Below (p n : String) : Prop := startsWith n (p ++ "/") = true

instance (p n : String) : Decidable (Below p n) :=
  inferInstanceAs (Decidable (startsWith n (p ++ "/") = true))

theorem startsWith_iff {s p : String} : startsWith s p = true ↔ ∃ t, s = p ++ t := by
  rw [startsWith, List.isPrefixOf_iff_prefix]
  constructor
  · rintro ⟨t, ht⟩
    exact ⟨String.ofList t, String.toList_injective (by simp [← ht])⟩
  · rintro ⟨t, rfl⟩
    exact ⟨t.toList, by simp⟩

theorem stripPrefix?_eq_some {s p t : String} : stripPrefix? s p = some t ↔ s = p ++ t := by
  rw [stripPrefix?]
  constructor
  · intro h
    split at h
    · rename_i hs
      obtain ⟨t', rfl⟩ := startsWith_iff.mp hs
      rw [← Option.some.inj h]
      simp
    · cases h
  · rintro rfl
    rw [if_pos (startsWith_iff.mpr ⟨t, rfl⟩)]
    simp

theorem stripPrefix?_eq_none {s p : String} :
    stripPrefix? s p = none ↔ startsWith s p = false := by
  rw [stripPrefix?]
  split <;> simp_all

theorem below_iff {p n : String} : Below p n ↔ ∃ t, n = p ++ "/" ++ t := startsWith_iff

/-! ## Paths -/

/-- A part of a path. -/
def SlashFree (x : String) : Prop := '/' ∉ x.toList

instance (x : String) : Decidable (SlashFree x) := inferInstanceAs (Decidable ('/' ∉ x.toList))

@[simp] theorem joinPath_singleton (x : String) : joinPath [x] = x := by
  simp [joinPath]

theorem joinPath_append_singleton {path : List String} (h : path ≠ []) (x : String) :
    joinPath (path ++ [x]) = joinPath path ++ "/" ++ x := by
  apply String.toList_injective
  have hmap : path.map String.toList ≠ [] := by simpa using h
  simp only [joinPath, List.map_append, List.map_cons, List.map_nil, String.toList_ofList,
    String.toList_append]
  induction path with
  | nil => exact absurd rfl h
  | cons y path ih =>
      cases path with
      | nil => simp [List.intercalate_cons_cons]
      | cons z path =>
          have := ih (by simp) (by simp)
          simp only [List.map_cons, List.cons_append, List.intercalate_cons_cons] at this ⊢
          simp [this]

@[simp] theorem joinPath_splitPath (s : String) : joinPath (splitPath s) = s := by
  apply String.toList_injective
  simp [joinPath, splitPath, Function.comp_def, List.intercalate_splitOn]

@[simp] theorem splitPath_ne_nil (s : String) : splitPath s ≠ [] := by
  simp [splitPath]

theorem splitPath_append (q : String) {x : String} (hx : SlashFree x) :
    splitPath (q ++ "/" ++ x) = splitPath q ++ [x] := by
  have hsplit : x.toList.splitOn '/' = [x.toList] := List.splitOn_eq_singleton hx
  simp [splitPath, List.splitOn_append_cons_self, hsplit]

theorem slashFree_of_mem_splitPath {s x : String} (h : x ∈ splitPath s) : SlashFree x := by
  have hlist : ∀ (l : List Char), ∀ y ∈ l.splitOn '/', '/' ∉ y := by
    intro l
    induction l with
    | nil => simp
    | cons c l ih =>
        intro y hy
        rw [List.splitOn_cons_eq_if_modifyHead] at hy
        split at hy
        · rcases List.mem_cons.mp hy with rfl | hy
          · simp
          · exact ih y hy
        · rename_i hc
          obtain ⟨first, rest, hsplit⟩ := List.exists_cons_of_ne_nil (List.splitOn_ne_nil '/' l)
          rw [hsplit] at hy ih
          rcases List.mem_cons.mp hy with rfl | hy
          · rw [List.mem_cons, not_or]
            exact ⟨fun h ↦ hc (by simp [← h]), ih first List.mem_cons_self⟩
          · exact ih y (List.mem_cons_of_mem _ hy)
  obtain ⟨y, hy, rfl⟩ := List.mem_map.mp h
  rw [SlashFree, String.toList_ofList]
  exact hlist _ y hy

/-- A name with a separator has a last part. -/
theorem exists_child_of_slash {n : String} (h : '/' ∈ n.toList) :
    ∃ q x, SlashFree x ∧ n = q ++ "/" ++ x := by
  have hlast : n = joinPath ((splitPath n).dropLast ++
    [(splitPath n).getLast (splitPath_ne_nil n)]) := by
    rw [List.dropLast_append_getLast, joinPath_splitPath]
  have hx : SlashFree ((splitPath n).getLast (splitPath_ne_nil n)) :=
    slashFree_of_mem_splitPath (List.getLast_mem _)
  by_cases hnil : (splitPath n).dropLast = []
  · rw [hnil, List.nil_append, joinPath_singleton] at hlast
    rw [hlast] at h
    exact absurd h hx
  · rw [joinPath_append_singleton hnil] at hlast
    exact ⟨_, _, hx, hlast⟩

/-- The path of the parent, as RENAME computes it. -/
def parentPath (n : String) : String := joinPath (splitPath n).dropLast

theorem parentPath_append (q : String) {x : String} (hx : SlashFree x) :
    parentPath (q ++ "/" ++ x) = q := by
  rw [parentPath, splitPath_append q hx, List.dropLast_concat, joinPath_splitPath]

/-! ## Below -/

theorem below_append (p t : String) : Below p (p ++ "/" ++ t) := below_iff.mpr ⟨t, rfl⟩

theorem Below.append {p n : String} (h : Below p n) (t : String) : Below p (n ++ t) := by
  obtain ⟨s, rfl⟩ := below_iff.mp h
  exact below_iff.mpr ⟨s ++ t, by simp [String.append_assoc]⟩

theorem Below.trans {p q n : String} (hpq : Below p q) (hqn : Below q n) : Below p n := by
  obtain ⟨t, rfl⟩ := below_iff.mp hqn
  rw [String.append_assoc]
  exact hpq.append _

theorem Below.length_lt {p n : String} (h : Below p n) : p.length < n.length := by
  obtain ⟨t, rfl⟩ := below_iff.mp h
  simp only [String.length_append]
  have : "/".length = 1 := rfl
  omega

theorem Below.ne {p n : String} (h : Below p n) : p ≠ n := by
  rintro rfl
  exact lt_irrefl _ h.length_lt

theorem below_irrefl (p : String) : ¬ Below p p := fun h ↦ lt_irrefl _ h.length_lt

/-- Two names above a third are the same, or one is below the other. -/
theorem below_append_cases {m q t : String} (h : Below m (q ++ "/" ++ t)) :
    m = q ∨ Below m q ∨ Below q m := by
  obtain ⟨s, hs⟩ := below_iff.mp h
  have hlist : q.toList ++ '/' :: t.toList = m.toList ++ '/' :: s.toList := by
    have := congrArg String.toList hs
    simpa using this
  rcases List.append_eq_append_iff.mp hlist with ⟨a, hm, ha⟩ | ⟨a, hq, ha⟩
  · cases a with
    | nil => exact .inl (String.toList_injective (by simpa using hm))
    | cons c a =>
        obtain ⟨rfl, -⟩ := List.cons.inj ha
        refine .inr (.inr (below_iff.mpr ⟨String.ofList a, String.toList_injective ?_⟩))
        simpa using hm
  · cases a with
    | nil => exact .inl (String.toList_injective (by simpa using hq.symm))
    | cons c a =>
        obtain ⟨rfl, -⟩ := List.cons.inj ha
        refine .inr (.inl (below_iff.mpr ⟨String.ofList a, String.toList_injective ?_⟩))
        simpa using hq

/-- What is above a child is its parent, or above that. -/
theorem below_child_iff {m q x : String} (hx : SlashFree x) :
    Below m (q ++ "/" ++ x) ↔ m = q ∨ Below m q := by
  constructor
  · intro h
    rcases below_append_cases h with h' | h' | h'
    · exact .inl h'
    · exact .inr h'
    · -- a name between the parent and its child would put a separator into the last part
      obtain ⟨s, rfl⟩ := below_iff.mp h'
      obtain ⟨t, ht⟩ := below_iff.mp h
      have : x = s ++ "/" ++ t := by
        apply String.toList_injective
        have := congrArg String.toList ht
        simpa using this
      rw [this] at hx
      simp [SlashFree] at hx
  · rintro (rfl | h)
    · exact below_append m x
    · exact (h.trans (below_append q x))

theorem not_below_slashFree {m x : String} (hx : SlashFree x) : ¬ Below m x := by
  rintro h
  obtain ⟨t, rfl⟩ := below_iff.mp h
  simp [SlashFree] at hx

theorem child_inj {q q' x y : String} (hx : SlashFree x) (hy : SlashFree y)
    (h : q ++ "/" ++ x = q' ++ "/" ++ y) : q = q' ∧ x = y := by
  have hsplit := congrArg splitPath h
  rw [splitPath_append q hx, splitPath_append q' hy] at hsplit
  obtain ⟨hq, hxy⟩ := List.append_inj' hsplit rfl
  exact ⟨by rw [← joinPath_splitPath q, hq, joinPath_splitPath], List.singleton_inj.mp hxy⟩

theorem below_append_append_iff {p s t : String} :
    Below (p ++ "/" ++ s) (p ++ "/" ++ t) ↔ Below s t := by
  rw [below_iff, below_iff]
  refine exists_congr fun r ↦ ?_
  constructor
  · intro h
    apply String.toList_injective
    have := congrArg String.toList h
    simpa using this
  · rintro rfl
    simp [String.append_assoc]

end ImapToJmap
