import ImapToJmap.Parser.KeyGrammar
import ImapToJmap.Parser.Phrases

/-!
# Search keys and their grammar

The grammar of the search keys of IMAP, over tokens: a key with its arguments, a list of keys in
parentheses, OR with two keys, NOT with one.  The parser follows it (`Understood`) but for the
following, all of which it accepts:

* a list, an OR or a NOT that the command ends in: what stands before it is forgotten;
* a `)` that ends an OR or a NOT, and the empty list `()`;
* a parenthesis in the place of an argument;
* BEFORE, which it takes for ALL, without a date.
-/

namespace ImapToJmap

open Ascii Search
open Jmap (Operator)

/-! ## The grammar -/

/-- `search-key`, with its keys in order. -/
inductive SearchKey (K : KeyGrammar) : List Token → List Filter → Prop
  | key {value : Bytes} {args : List Token} {filter : Filter} : K value args filter →
      SearchKey K (.argument value :: args) [filter]
  | list {parts : List (List Token × List Filter)} : parts ≠ [] →
      (∀ part ∈ parts, SearchKey K part.1 part.2) →
        SearchKey K (.parenthesisOpen :: (parts.flatMap Prod.fst ++ [.parenthesisClose]))
          (parts.flatMap Prod.snd)
  | or {value : Bytes} {tokens tokens' : List Token} {keys keys' : List Filter} :
      eqIgnoreAsciiCase value (asBytes "OR") = true → SearchKey K tokens keys →
        SearchKey K tokens' keys' → SearchKey K (.argument value :: (tokens ++ tokens'))
          (keys ++ keys')
  | not {value : Bytes} {tokens : List Token} {keys : List Filter} :
      eqIgnoreAsciiCase value (asBytes "NOT") = true → SearchKey K tokens keys →
        SearchKey K (.argument value :: tokens) keys

/-- A sequence of search keys. -/
def SearchKeys (K : KeyGrammar) (tokens : List Token) (keys : List Filter) : Prop :=
  ∃ parts : List (List Token × List Filter), (∀ part ∈ parts, SearchKey K part.1 part.2) ∧
    tokens = parts.flatMap Prod.fst ∧ keys = parts.flatMap Prod.snd

/-- BEFORE, with its date. -/
inductive BeforeKey (r : ArgumentReader) : KeyGrammar
  | before {value : Bytes} {token : Token} {date : ℤ} :
      eqIgnoreAsciiCase value (asBytes "BEFORE") = true → token.IsArgument →
        r.parseDate token.unwrapBytes = some date → BeforeKey r value [token] (.before date)

/-- The keys of IMAP. -/
def ImapKey (r : ArgumentReader) : KeyGrammar :=
  fun value args filter ↦ LeafKey r value args filter ∨ BeforeKey r value args filter

section Grammar

variable {r : ArgumentReader} {K K' : KeyGrammar} {tokens : List Token} {keys : List Filter}

theorem SearchKey.mono (h : SearchKey K tokens keys)
    (hK : ∀ value args filter, filter ∈ keys → K value args filter → K' value args filter) :
    SearchKey K' tokens keys := by
  induction h with
  | key hkey => exact .key (hK _ _ _ (by simp) hkey)
  | list hne _ ih =>
      refine .list hne fun part hpart ↦ ih part hpart fun value args filter hfilter ↦ ?_
      exact hK value args filter (List.mem_flatMap.mpr ⟨part, hpart, hfilter⟩)
  | or hor _ _ ih ih' =>
      refine .or hor (ih fun value args filter hfilter ↦ ?_)
        (ih' fun value args filter hfilter ↦ ?_)
      · exact hK value args filter (List.mem_append_left _ hfilter)
      · exact hK value args filter (List.mem_append_right _ hfilter)
  | not hnot _ ih => exact .not hnot (ih hK)

theorem SearchKeys.mono (h : SearchKeys K tokens keys)
    (hK : ∀ value args filter, filter ∈ keys → K value args filter → K' value args filter) :
    SearchKeys K' tokens keys := by
  obtain ⟨parts, hparts, rfl, rfl⟩ := h
  refine ⟨parts, fun part hpart ↦ (hparts part hpart).mono fun value args filter hfilter ↦
    ?_, rfl, rfl⟩
  exact hK value args filter (List.mem_flatMap.mpr ⟨part, hpart, hfilter⟩)

/-- The symbols of a sequence, from those of its parts. -/
theorem lexes_parts {parts : List (List Token × List Filter)}
    (h : ∀ part ∈ parts, ∃ q, Lexes r part.1 q ∧ Phrase q ∧ keysOf q = part.2) :
    ∃ phrases : List (List Symbol), Lexes r (parts.flatMap Prod.fst) phrases.flatten ∧
      (∀ q ∈ phrases, Phrase q) ∧ keysOf phrases.flatten = parts.flatMap Prod.snd := by
  induction parts with
  | nil => exact ⟨[], .nil, by simp, rfl⟩
  | cons part parts ih =>
      obtain ⟨q, hlexes, hphrase, hkeys⟩ := h part List.mem_cons_self
      obtain ⟨phrases, hlexes', hphrases, hkeys'⟩ :=
        ih fun part' hpart' ↦ h part' (List.mem_cons_of_mem _ hpart')
      refine ⟨q :: phrases, hlexes.append hlexes', List.forall_mem_cons.mpr ⟨hphrase, hphrases⟩, ?_⟩
      rw [List.flatten_cons, keysOf_append, hkeys, hkeys', List.flatMap_cons]

/-- The symbols of a search key. -/
theorem SearchKey.lexes (h : SearchKey (LeafKey r) tokens keys) :
    ∃ symbols, Lexes r tokens symbols ∧ Phrase symbols ∧ keysOf symbols = keys := by
  induction h with
  | @key value args filter hkey =>
      have hread : readSymbol r (.argument value) args = .ok (.filter filter, []) := by
        rw [readSymbol, hkey.name.1.1, hkey.name.1.2, hkey.read]
        rfl
      refine ⟨_, .cons hread .nil, .filter filter, ?_⟩
      rw [keysOf_filter, (isKey_readKey value args filter [] hkey.read).leaves]
      rfl
  | @list parts _ _ ih =>
      obtain ⟨phrases, hlexes, hphrases, hkeys⟩ := lexes_parts ih
      refine ⟨_, .cons rfl (hlexes.append (.cons rfl .nil)), .list hphrases, ?_⟩
      simp [hkeys]
  | or hor _ _ ih ih' =>
      obtain ⟨q, hlexes, hphrase, hkeys⟩ := ih
      obtain ⟨q', hlexes', hphrase', hkeys'⟩ := ih'
      refine ⟨_, .cons ?_ (hlexes.append hlexes'), .or hphrase hphrase', ?_⟩
      · rw [readSymbol, if_pos hor]
      · simp [hkeys, hkeys']
  | @not value tokens keys hnot _ ih =>
      obtain ⟨q, hlexes, hphrase, hkeys⟩ := ih
      refine ⟨_, .cons ?_ hlexes, .not hphrase, ?_⟩
      · have hne : eqIgnoreAsciiCase value (asBytes "OR") = false :=
          (eqIgnoreAsciiCase_congr hnot _).trans (by decide)
        rw [readSymbol, hne, hnot]
        rfl
      · simp [hkeys]

/-- The symbols of a sequence of search keys. -/
theorem SearchKeys.lexes (h : SearchKeys (LeafKey r) tokens keys) :
    ∃ symbols, Lexes r tokens symbols ∧ Phrases symbols ∧ keysOf symbols = keys := by
  obtain ⟨parts, hparts, rfl, rfl⟩ := h
  obtain ⟨phrases, hlexes, hphrases, hkeys⟩ := lexes_parts fun part hpart ↦
    (hparts part hpart).lexes
  exact ⟨phrases.flatten, hlexes, ⟨phrases, hphrases, rfl⟩, hkeys⟩

/-- What the keys of tokens can be. -/
theorem Lexes.forall_keys {P : Filter → Prop} {symbols : List Symbol} (h : Lexes r tokens symbols)
    (hP : ∀ value, Returns P (readKey r value)) : ∀ filter ∈ keysOf symbols, P filter := by
  induction h with
  | nil => simp
  | @cons token tokens rest symbol symbols hread _ ih =>
      have hone : ∀ filter ∈ keysOf [symbol], P filter := by
        cases symbol with
        | filter filter =>
            cases token with
            | argument value =>
                rw [readSymbol] at hread
                split at hread
                · cases hread
                · split at hread
                  · cases hread
                  · cases hkey : readKey r value tokens with
                    | error e =>
                        rw [hkey] at hread
                        cases hread
                    | ok found =>
                        rw [hkey] at hread
                        cases hread
                        have hleaves := (isKey_readKey value tokens found.1 found.2 hkey).leaves
                        rw [keysOf_filter, hleaves]
                        simpa using hP value tokens found.1 found.2 hkey
            | _ => cases hread
        | _ => simp
      rw [← List.singleton_append, keysOf_append]
      exact List.forall_mem_append.mpr ⟨hone, ih⟩

/-- The parentheses of a search key are closed. -/
theorem SearchKey.count (h : SearchKey K tokens keys)
    (hK : ∀ value args filter, K value args filter → ∀ token ∈ args, token.IsArgument) :
    tokens.count .parenthesisOpen = tokens.count .parenthesisClose := by
  induction h with
  | @key value args filter hkey =>
      have hopen : .parenthesisOpen ∉ args := fun h ↦ (hK _ _ _ hkey _ h).1 rfl
      have hclose : .parenthesisClose ∉ args := fun h ↦ (hK _ _ _ hkey _ h).2 rfl
      simp [List.count_eq_zero.mpr hopen, List.count_eq_zero.mpr hclose]
  | @list parts _ _ ih =>
      have hparts : (parts.flatMap Prod.fst).count .parenthesisOpen =
          (parts.flatMap Prod.fst).count .parenthesisClose := by
        rw [List.count_flatMap, List.count_flatMap]
        exact congrArg List.sum (List.map_congr_left ih)
      simp [hparts]
  | or _ _ _ ih ih' => simp [ih, ih']
  | not _ _ ih => simp [ih]

theorem SearchKeys.count (h : SearchKeys K tokens keys)
    (hK : ∀ value args filter, K value args filter → ∀ token ∈ args, token.IsArgument) :
    tokens.count .parenthesisOpen = tokens.count .parenthesisClose := by
  obtain ⟨parts, hparts, rfl, rfl⟩ := h
  rw [List.count_flatMap, List.count_flatMap]
  exact congrArg List.sum (List.map_congr_left fun part hpart ↦ (hparts part hpart).count hK)

theorem ImapKey.arguments {value : Bytes} {args : List Token} {filter : Filter}
    (h : ImapKey r value args filter) : ∀ token ∈ args, token.IsArgument := by
  obtain h | ⟨_, htoken, _⟩ := h
  · exact h.arguments
  · simpa using htoken

end Grammar

/-! ## The parser and the grammar -/

/-- What is accepted is a sequence of search keys, and the filters have each of its keys once. -/
def ReadsKeys (r : ArgumentReader) (tokens : List Token) : Prop :=
  ∀ filters, parseFilters r tokens = .ok filters →
    ∃ keys, SearchKeys (ImapKey r) tokens keys ∧ (Filter.leavesOf filters).Perm keys

/-- A sequence of search keys without BEFORE. -/
def Understood (r : ArgumentReader) (tokens : List Token) : Prop :=
  ∃ keys, SearchKeys (LeafKey r) tokens keys

/-- A key cannot be read with the tokens behind it, a `)` stands where nothing is open, or more than
eleven lists are open at once. -/
def Unreadable (r : ArgumentReader) (tokens : List Token) : Prop :=
  ∀ symbols, Lexes r tokens symbols → Stray symbols ∨ TooDeep symbols

section Parse

variable {r : ArgumentReader} {tokens : List Token} {filters : List Filter}

theorem exists_run_of_parse (h : parseFilters r tokens = .ok filters) :
    ∃ p, FilterParser.loop r {} tokens = .ok p ∧ p.filters = filters := by
  rw [parseFilters] at h
  cases hloop : FilterParser.loop r {} tokens with
  | error e =>
      rw [hloop] at h
      cases h
  | ok p =>
      rw [hloop] at h
      exact ⟨p, rfl, Except.ok.inj h⟩

/-- **When the parser fails.** -/
theorem parse_error_iff : (∃ e, parseFilters r tokens = .error e) ↔ Unreadable r tokens := by
  constructor
  · rintro ⟨e, h⟩ symbols hlexes
    rw [parseFilters, FilterParser.loop_of_lexes hlexes] at h
    cases hrun : FilterParser.run {} symbols with
    | error e' => exact (run_error_iff symbols).mp ⟨e', hrun⟩
    | ok p => simp [hrun, Except.map] at h
  · intro h
    cases hparse : parseFilters r tokens with
    | error e => exact ⟨e, rfl⟩
    | ok filters =>
        obtain ⟨p, hloop, -⟩ := exists_run_of_parse hparse
        obtain ⟨symbols, hlexes⟩ := FilterParser.lexes_of_loop hloop
        obtain ⟨e, herror⟩ := (run_error_iff symbols).mpr (h symbols hlexes)
        rw [FilterParser.loop_of_lexes hlexes, herror] at hloop
        cases hloop

/-- Every filter has been read as a key. -/
theorem ne_before_of_parse (h : parseFilters r tokens = .ok filters) :
    ∀ filter ∈ Filter.leavesOf filters, ∀ date, filter ≠ .before date := by
  obtain ⟨p, hloop, rfl⟩ := exists_run_of_parse h
  obtain ⟨symbols, hlexes⟩ := FilterParser.lexes_of_loop hloop
  rw [FilterParser.loop_of_lexes hlexes] at hloop
  intro filter hfilter
  refine hlexes.forall_keys ne_before_readKey filter ?_
  have hkeys : p.keys = keysOf symbols := FilterParser.keys_run hloop
  rw [← hkeys, FilterParser.keys]
  exact List.mem_append_right _ hfilter

/-- The keys of a sequence of search keys. -/
theorem leavesOf_parse {keys : List Filter} (hkeys : SearchKeys (LeafKey r) tokens keys)
    (h : parseFilters r tokens = .ok filters) : Filter.leavesOf filters = keys := by
  obtain ⟨p, hloop, rfl⟩ := exists_run_of_parse h
  obtain ⟨symbols, hlexes, hphrases, rfl⟩ := hkeys.lexes
  rw [FilterParser.loop_of_lexes hlexes] at hloop
  have hkept : p.keys = keysOf symbols := FilterParser.keys_run hloop
  obtain ⟨filters, rfl⟩ := hphrases.run shape_initial rfl hloop
  exact hkept

/-- **Exactly these tokens are read as they are meant**: sequences of search keys without BEFORE,
and the tokens that the parser refuses. -/
theorem readsKeys_iff (r : ArgumentReader) (tokens : List Token) :
    ReadsKeys r tokens ↔ Understood r tokens ∨ Unreadable r tokens := by
  constructor
  · intro h
    cases hparse : parseFilters r tokens with
    | error e => exact .inr (parse_error_iff.mp ⟨e, hparse⟩)
    | ok filters =>
        obtain ⟨keys, hkeys, hperm⟩ := h filters hparse
        refine .inl ⟨keys, hkeys.mono fun value args filter hfilter hkey ↦ ?_⟩
        obtain hkey | ⟨_, _, _⟩ := hkey
        · exact hkey
        · exact absurd rfl (ne_before_of_parse hparse _ (hperm.mem_iff.mpr hfilter) _)
  · rintro (⟨keys, hkeys⟩ | hrefused) filters hparse
    · refine ⟨keys, hkeys.mono fun _ _ _ _ hkey ↦ .inl hkey, ?_⟩
      rw [leavesOf_parse hkeys hparse]
    · obtain ⟨e, herror⟩ := parse_error_iff.mpr hrefused
      rw [herror] at hparse
      cases hparse

/-- `DELETED (SEEN` is read as SEEN. -/
theorem readsKeys_unclosed : ¬ ReadsKeys ⟨none, fun _ ↦ none⟩
    [.argument (asBytes "DELETED"), .parenthesisOpen, .argument (asBytes "SEEN")] := by
  intro h
  have hlexes : Lexes ⟨none, fun _ ↦ none⟩
      [.argument (asBytes "DELETED"), .parenthesisOpen, .argument (asBytes "SEEN")]
      [.filter .deleted, .parenthesisOpen, .filter .seen] :=
    .cons rfl (.cons rfl (.cons rfl .nil))
  have hparse : parseFilters ⟨none, fun _ ↦ none⟩
      [.argument (asBytes "DELETED"), .parenthesisOpen, .argument (asBytes "SEEN")] =
        .ok [.seen] := by
    rw [parseFilters, FilterParser.loop_of_lexes hlexes]
    rfl
  obtain ⟨keys, hkeys, -⟩ := h _ hparse
  have hcount := hkeys.count fun _ _ _ ↦ ImapKey.arguments
  exact absurd hcount (by decide)

end Parse

end ImapToJmap
