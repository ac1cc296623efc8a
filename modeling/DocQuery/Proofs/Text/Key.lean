import DocQuery.Proofs.Nesting.Key

namespace DocQuery

/-! # The grammar of keys

A key may start with an ordinal; the columns, with bars between them, reach to a word character
behind which no other comes, or to a bracket at the end. A text is read as a key exactly if it is
written this way, and the key is then the only one it is the text of. Where nothing is read, the
text behind the ordinal has neither a word character nor a bracket at its end.

* `splitColumns_eq_nil_iff`: which texts have no columns.
* `grammatical_of_parse`: what is read as a key is written like one.
* `Grammatical.parse_text`: what is written like a key is read as that key.
-/

namespace Key

/-- The text is a run of digits, perhaps empty, with a colon and `rest` behind it. -/
def IsNumbered (text digits rest : List Char) : Prop :=
  text = digits ++ ':' :: rest ∧ ∀ d ∈ digits, d.isDigit = true

/-- What is left of a text behind its ordinal: all of it, if it has none. -/
inductive Remains (text : List Char) : List Char → Prop where
  | numbered {digits rest : List Char} (h : IsNumbered text digits rest) : Remains text rest
  | unnumbered (h : ∀ digits rest, ¬IsNumbered text digits rest) : Remains text text

/-- The key is one that the grammar admits. -/
structure Grammatical (key : Key) : Prop where
  digits : ∀ digits, key.ordinal = some digits → ∀ d ∈ digits.toList, d.isDigit = true
  /-- Without an ordinal the key does not look as if it had one. -/
  unnumbered : key.ordinal = none → ∀ digits rest, ¬IsNumbered key.text.toList digits rest
  plain : ∀ column ∈ key.columns, '|' ∉ column.toList
  ends : Ends ("|".intercalate key.columns).toList key.operator.toList

variable {text : String} {key : Key}

/-! ## Ordinals -/

theorem takeOrdinal_of_unnumbered {cs : List Char} (h : ∀ digits rest, ¬IsNumbered cs digits rest) :
    takeOrdinal cs = (none, cs) := by
  rcases hordinal : takeOrdinal cs with ⟨_ | digits, rest⟩
  · rw [(takeOrdinal_eq_none_iff.1 hordinal).1]
  · exact absurd (takeOrdinal_eq_some_iff.1 hordinal) (h digits rest)

theorem unnumbered_of_takeOrdinal {cs rest : List Char} (h : takeOrdinal cs = (none, rest)) :
    ∀ digits rest, ¬IsNumbered cs digits rest := by
  intro digits rest' hnumbered
  rw [takeOrdinal_eq_some_iff.2 hnumbered] at h
  cases h

/-- What is left is what is read on. -/
theorem remains_iff (cs rest : List Char) : Remains cs rest ↔ rest = (takeOrdinal cs).2 := by
  constructor
  · intro h
    cases h with
    | numbered h => rw [takeOrdinal_eq_some_iff.2 h]
    | unnumbered h => rw [takeOrdinal_of_unnumbered h]
  · rintro rfl
    rcases hordinal : takeOrdinal cs with ⟨_ | digits, rest⟩
    · rw [(takeOrdinal_eq_none_iff.1 hordinal).1]
      exact .unnumbered (unnumbered_of_takeOrdinal hordinal)
    · exact .numbered (takeOrdinal_eq_some_iff.1 hordinal)

/-! ## Texts that are no keys -/

/-- There are no columns in a text without word characters, unless it ends with a bracket. -/
theorem splitColumns_eq_nil_iff (rest : List Char) : (splitColumns rest).1 = [] ↔
    (∀ c ∈ rest, isWordChar c = false) ∧ rest.getLast? ≠ some ']' := by
  rcases splitAtLastWord_spec rest with ⟨hword, hother⟩
  have happend := splitAtLastWord_append rest
  constructor
  · intro hnil
    -- a bracket at the end would make the whole text the columns
    have hunbracketed : (splitAtLastWord rest).2.getLast? ≠ some ']' := by
      intro hbracket
      rw [splitColumns, if_pos hbracket] at hnil
      subst hnil
      cases hbracket
    rw [splitColumns, if_neg hunbracketed] at hnil
    rw [hnil, List.nil_append] at happend
    rw [happend] at hother hunbracketed
    exact ⟨hother, hunbracketed⟩
  · rintro ⟨hnone, hunbracketed⟩
    have hnil : (splitAtLastWord rest).1 = [] := by
      by_contra hne
      rcases Option.ne_none_iff_exists'.1 (mt List.getLast?_eq_none_iff.1 hne) with ⟨c, hlast⟩
      have hmem : c ∈ rest := by
        rw [← happend]
        exact List.mem_append_left _ (List.mem_of_getLast? hlast)
      have hc := hword c hlast
      rw [hnone c hmem] at hc
      cases hc
    rw [hnil, List.nil_append] at happend
    rw [splitColumns, happend, if_neg hunbracketed, hnil]

theorem parse_eq_none_iff (text : String) : parse text = none ↔
    (∀ c ∈ (takeOrdinal text.toList).2, isWordChar c = false) ∧
      (takeOrdinal text.toList).2.getLast? ≠ some ']' := by
  rw [← splitColumns_eq_nil_iff, parse_eq]
  simp [List.isEmpty_iff]

/-! ## Keys and their texts -/

/-- The key that is read is grammatical. -/
theorem grammatical_of_parse (h : parse text = some key) : key.Grammatical := by
  have hplain := (columns_of_parse h).2
  have htext := text_of_parse h
  rcases parse_eq_some_iff.1 h with ⟨ordinal, columns, operator, hordinal, hends, rfl⟩
  -- the ordinal's digits, a text without an ordinal, columns without bars, and their end
  refine ⟨?_, ?_, fun column hcolumn hbar => ?_, ?_⟩
  · rintro digits hdigits
    rcases Option.map_eq_some_iff.1 hdigits with ⟨run, rfl, rfl⟩
    rw [String.toList_ofList]
    exact (takeOrdinal_eq_some_iff.1 hordinal).2
  · intro hnone
    rw [Option.map_eq_none_iff.1 hnone] at hordinal
    rw [htext]
    exact unnumbered_of_takeOrdinal hordinal
  · simpa using hplain column hcolumn '|' hbar
  · simpa [String.toList_intercalate, Function.comp_def, List.intercalate_splitOn] using hends

/-- A grammatical key has columns. -/
theorem Grammatical.columns_ne_nil (h : key.Grammatical) : key.columns ≠ [] := by
  intro hnil
  rcases h.ends.exists_last with ⟨c, hlast, -⟩
  rw [hnil] at hlast
  cases hlast

/-- A grammatical key is read off its text. -/
theorem Grammatical.parse_text (h : key.Grammatical) : parse key.text = some key := by
  have hcolumns : ("|".intercalate key.columns).toList.splitOn '|' =
      key.columns.map String.toList := by
    rw [String.toList_intercalate]
    refine List.splitOn_intercalate '|' ?_ (by simpa using h.columns_ne_nil)
    intro piece hpiece hbar
    rcases List.mem_map.1 hpiece with ⟨column, hcolumn, rfl⟩
    exact h.plain column hcolumn hbar
  refine parse_eq_some_iff.2 ⟨key.ordinal.map String.toList, ("|".intercalate key.columns).toList,
    key.operator.toList, ?_, h.ends, ?_⟩
  · -- a key without an ordinal must not be taken for one with an ordinal
    cases hordinal : key.ordinal with
    | none =>
      rw [takeOrdinal_of_unnumbered (h.unnumbered hordinal)]
      simp [text, hordinal]
    | some digits =>
      exact takeOrdinal_eq_some_iff.2 ⟨by simp [text, hordinal], h.digits digits hordinal⟩
  · rw [hcolumns]
    simp [Function.comp_def]

/-- A text is read as the key whose text it is, if there is a grammatical one. Otherwise the text
behind the ordinal has no word character and does not end with a bracket. -/
theorem parse_iff_grammatical (text : String) :
    (∃ rest, (∀ other, Remains text.toList other ↔ other = rest) ∧
      (parse text = none ↔ (∀ c ∈ rest, isWordChar c = false) ∧ rest.getLast? ≠ some ']')) ∧
    ∀ key : Key, parse text = some key ↔ key.text = text ∧ key.Grammatical := by
  refine ⟨⟨(takeOrdinal text.toList).2, remains_iff _, parse_eq_none_iff text⟩, fun key => ?_⟩
  constructor
  · exact fun h => ⟨text_of_parse h, grammatical_of_parse h⟩
  · rintro ⟨rfl, h⟩
    exact h.parse_text

/-- Columns that are digits do not start with an ordinal, but make one with a colon behind them. -/
theorem digits_read_as_ordinal :
    (∀ column ∈ ["12"], '|' ∉ column.toList) ∧
      Ends ("|".intercalate ["12"]).toList ":".toList ∧
      (∀ digits rest, ¬IsNumbered ("|".intercalate ["12"]).toList digits rest) ∧
      parse (Key.text ⟨none, ["12"], ":"⟩) = none := by
  refine ⟨by decide +kernel, .word (c := '2') (by decide +kernel) (by decide +kernel) ?_ (by decide),
    ?_, by decide +kernel⟩
  · intro d hd
    rw [List.mem_singleton.1 hd]
    decide +kernel
  · exact @unnumbered_of_takeOrdinal _ ['1', '2'] (by decide +kernel)

end Key

end DocQuery
