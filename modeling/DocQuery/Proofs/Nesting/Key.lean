import DocQuery.Key
import DocQuery.Proofs.Text.Split

namespace DocQuery

/-! # Keys below a path

A key is written back from its parts. Where a path is put in front of each of its columns, it is
read as the same ordinal and operator with longer columns.

* `parse_eq_some_iff`: what a key is read as, part by part.
* `isPath_iff`: which texts are read as a single path.
-/

namespace Key

/-- The key as it is written. -/
def text (key : Key) : String :=
  (match key.ordinal with
    | some digits => digits ++ ":"
    | none => "") ++ "|".intercalate key.columns ++ key.operator

/-- A column below a path. -/
def below (path column : String) : String := path ++ "." ++ column

/-- The key with the path in front of each column. -/
def under (path : String) (key : Key) : Key :=
  { key with columns := key.columns.map (below path) }

/-- The written key with the path in front of each column. -/
def prefixed (path text : String) : String :=
  match parse text with
  | some key => (key.under path).text
  | none => text

/-- The path is one that relations can be joined over: with the operator of joins behind it, it is a
key of this one column. -/
def IsPath (path : String) : Prop := parse (path ++ "=>") = some ⟨none, [path], "=>"⟩

instance (path : String) : Decidable (IsPath path) :=
  inferInstanceAs (Decidable (parse (path ++ "=>") = some ⟨none, [path], "=>"⟩))

/-! ## Reading -/

/-- The columns of a key end here, and what follows is its operator. -/
inductive Ends : List Char → List Char → Prop where
  | word {columns operator : List Char} {c : Char} (last : columns.getLast? = some c)
      (word : isWordChar c = true) (other : ∀ d ∈ operator, isWordChar d = false)
      (unbracketed : operator.getLast? ≠ some ']') : Ends columns operator
  | bracket {columns : List Char} (last : columns.getLast? = some ']') : Ends columns []

theorem isWordChar_bracket : isWordChar ']' = false := by decide +kernel

theorem isWordChar_bar : isWordChar '|' = false := by decide +kernel

/-- The columns of a key do not end with a bar. -/
theorem Ends.exists_last {columns operator : List Char} (h : Ends columns operator) :
    ∃ c, columns.getLast? = some c ∧ c ≠ '|' := by
  cases h with
  | @word _ c last word other unbracketed =>
    refine ⟨c, last, ?_⟩
    rintro rfl
    rw [isWordChar_bar] at word
    cases word
  | bracket last => exact ⟨']', last, by decide⟩

/-- Where columns end depends on their last character alone. -/
theorem Ends.congr {columns columns' operator : List Char} (h : Ends columns operator)
    (hlast : columns'.getLast? = columns.getLast?) : Ends columns' operator := by
  cases h with
  | word last word other unbracketed => exact .word (hlast.trans last) word other unbracketed
  | bracket last => exact .bracket (hlast.trans last)

theorem splitAtLastWord_of_word {columns operator : List Char} {c : Char}
    (last : columns.getLast? = some c) (word : isWordChar c = true)
    (other : ∀ d ∈ operator, isWordChar d = false) :
    splitAtLastWord (columns ++ operator) = (columns, operator) := by
  have hrun : ∀ d ∈ operator.reverse, (!isWordChar d) = true := by
    intro d hd
    rw [other d (List.mem_reverse.1 hd)]
    rfl
  have hrest : ∀ d, columns.reverse.head? = some d → (!isWordChar d) = false := by
    intro d hd
    rw [List.head?_reverse, last] at hd
    cases hd
    rw [word]
    rfl
  rcases takeWhile_run hrun hrest with ⟨htake, hdrop⟩
  -- the text is split from its end, where the operator is the longest run without a word character
  simp only [splitAtLastWord, List.reverse_append, htake, hdrop, List.reverse_reverse]

/-- The part in front of the last word character is empty or ends with a word character, and no word
character follows. -/
theorem splitAtLastWord_spec (cs : List Char) :
    (∀ c, (splitAtLastWord cs).1.getLast? = some c → isWordChar c = true) ∧
      ∀ d ∈ (splitAtLastWord cs).2, isWordChar d = false := by
  constructor
  · intro c hc
    have hhead : (cs.reverse.dropWhile fun c => !isWordChar c).head? = some c := by
      rwa [splitAtLastWord, List.getLast?_reverse] at hc
    simpa using head?_dropWhile hhead
  · intro d hd
    rw [splitAtLastWord, List.mem_reverse] at hd
    simpa using List.mem_takeWhile_imp hd

/-- The columns and the operator of the text behind the ordinal. -/
def splitColumns (rest : List Char) : List Char × List Char :=
  if (splitAtLastWord rest).2.getLast? = some ']' then (rest, []) else splitAtLastWord rest

theorem parse_eq (key : String) : parse key =
    if (splitColumns (takeOrdinal key.toList).2).1.isEmpty then none
    else some ⟨(takeOrdinal key.toList).1.map String.ofList,
      ((splitColumns (takeOrdinal key.toList).2).1.splitOn '|').map String.ofList,
      String.ofList (splitColumns (takeOrdinal key.toList).2).2⟩ := rfl

/-- The columns of a key are not empty exactly where they end with a word character or a bracket. -/
theorem splitColumns_eq_iff {rest columns operator : List Char} :
    splitColumns rest = (columns, operator) ∧ columns ≠ [] ↔
      columns ++ operator = rest ∧ Ends columns operator := by
  constructor
  · rintro ⟨h, hne⟩
    rcases splitAtLastWord_spec rest with ⟨hword, hother⟩
    have happend := splitAtLastWord_append rest
    unfold splitColumns at h
    split at h
    · rename_i hbracket
      cases h
      refine ⟨List.append_nil _, .bracket ?_⟩
      -- the text ends as its operator does
      rw [← happend, List.getLast?_append, hbracket]
      rfl
    · rename_i hunbracketed
      rw [h] at hword hother happend hunbracketed
      rcases Option.ne_none_iff_exists'.1 (mt List.getLast?_eq_none_iff.1 hne) with ⟨c, hc⟩
      exact ⟨happend, .word hc (hword c hc) hother hunbracketed⟩
  · rintro ⟨rfl, h⟩
    cases h with
    | word last word other unbracketed =>
      have hsplit := splitAtLastWord_of_word last word other
      refine ⟨?_, ?_⟩
      · rw [splitColumns, hsplit, if_neg unbracketed]
      · rintro rfl
        cases last
    | bracket last =>
      have hne : columns ≠ [] := by
        rintro rfl
        cases last
      refine ⟨?_, hne⟩
      -- a bracket is no word character, so it ends the operator
      have happend := splitAtLastWord_append columns
      have hbracket : (splitAtLastWord columns).2.getLast? = some ']' := by
        rw [← happend, List.getLast?_append] at last
        cases hoperator : (splitAtLastWord columns).2.getLast? with
        | some d =>
          rw [hoperator] at last
          exact last
        | none =>
          rw [hoperator, Option.none_or] at last
          have hword := (splitAtLastWord_spec columns).1 ']' last
          rw [isWordChar_bracket] at hword
          cases hword
      rw [List.append_nil, splitColumns, if_pos hbracket]

/-- What the parts of a read key are. -/
theorem parse_eq_some_iff {text : String} {key : Key} : parse text = some key ↔
    ∃ ordinal columns operator, takeOrdinal text.toList = (ordinal, columns ++ operator) ∧
      Ends columns operator ∧ key = ⟨ordinal.map String.ofList,
        (columns.splitOn '|').map String.ofList, String.ofList operator⟩ := by
  rw [parse_eq]
  rcases takeOrdinal text.toList with ⟨ordinal, rest⟩
  rcases hsplit : splitColumns rest with ⟨columns, operator⟩
  simp only
  constructor
  · intro h
    split at h
    · cases h
    · rename_i hne
      have hends := splitColumns_eq_iff.1 ⟨hsplit, fun hnil => hne (List.isEmpty_iff.2 hnil)⟩
      refine ⟨ordinal, columns, operator, by rw [hends.1], hends.2, ?_⟩
      exact (Option.some.inj h).symm
  · rintro ⟨ordinal', columns', operator', heq, hends, rfl⟩
    cases heq
    rcases splitColumns_eq_iff.2 ⟨rfl, hends⟩ with ⟨hsplit', hne⟩
    rw [hsplit] at hsplit'
    cases hsplit'
    rw [if_neg fun hempty => hne (List.isEmpty_iff.1 hempty)]

/-! ## Ordinals -/

theorem takeOrdinal_eq_some_iff {text digits rest : List Char} :
    takeOrdinal text = (some digits, rest) ↔
      text = digits ++ ':' :: rest ∧ ∀ d ∈ digits, d.isDigit = true := by
  constructor
  · intro h
    unfold takeOrdinal at h
    split at h
    · rename_i rest' hdrop
      cases h
      refine ⟨?_, fun d hd => List.mem_takeWhile_imp hd⟩
      rw [← hdrop, List.takeWhile_append_dropWhile]
    · cases h
  · rintro ⟨rfl, hdigits⟩
    -- a colon is no digit, so the run of digits ends there
    have hcolon : ∀ c, (':' :: rest).head? = some c → c.isDigit = false := by
      intro c hc
      cases hc
      decide
    rcases takeWhile_run hdigits hcolon with ⟨htake, hdrop⟩
    simp only [takeOrdinal, hdrop, htake]

theorem takeOrdinal_eq_none_iff {text rest : List Char} :
    takeOrdinal text = (none, rest) ↔
      rest = text ∧ (text.dropWhile Char.isDigit).head? ≠ some ':' := by
  unfold takeOrdinal
  split
  · rename_i rest' hdrop
    simp [hdrop]
  · rename_i hdrop
    constructor
    · intro h
      cases h
      refine ⟨rfl, fun hhead => ?_⟩
      rcases List.head?_eq_some_iff.1 hhead with ⟨tail, htail⟩
      exact hdrop tail htail
    · rintro ⟨rfl, _⟩
      rfl

/-! ## Writing -/

theorem toList_text (key : Key) : key.text.toList =
    (match key.ordinal with
      | some digits => digits.toList ++ [':']
      | none => []) ++ ['|'].intercalate (key.columns.map String.toList) ++ key.operator.toList := by
  unfold text
  cases key.ordinal <;> simp [String.toList_intercalate]

/-- A key is written back from its parts. -/
theorem text_of_parse {text : String} {key : Key} (h : parse text = some key) : key.text = text := by
  rcases parse_eq_some_iff.1 h with ⟨ordinal, columns, operator, hordinal, hends, rfl⟩
  rw [← String.toList_inj, toList_text]
  have hcolumns : ((columns.splitOn '|').map String.ofList).map String.toList =
      columns.splitOn '|' := by
    simp [Function.comp_def]
  simp only [hcolumns, List.intercalate_splitOn, String.toList_ofList]
  cases ordinal with
  | none => simpa using (takeOrdinal_eq_none_iff.1 hordinal).1
  | some digits => simp [(takeOrdinal_eq_some_iff.1 hordinal).1]

/-- The columns of a read key have no bars, and there is one at least. -/
theorem columns_of_parse {text : String} {key : Key} (h : parse text = some key) :
    key.columns ≠ [] ∧ ∀ column ∈ key.columns, ∀ c ∈ column.toList, (c == '|') = false := by
  rcases parse_eq_some_iff.1 h with ⟨ordinal, columns, operator, hordinal, hends, rfl⟩
  constructor
  · intro hnil
    exact List.splitOn_ne_nil _ _ (List.map_eq_nil_iff.1 hnil)
  · intro column hcolumn
    rcases List.mem_map.1 hcolumn with ⟨piece, hpiece, rfl⟩
    rw [String.toList_ofList]
    exact forall_not_of_mem_splitOnP hpiece

/-! ## Below a path -/

/-- Putting texts in front of the pieces leaves the last character. -/
theorem getLast?_intercalate_below (front : List Char) {pieces : List (List Char)} {c : Char}
    (hc : c ≠ '|') (h : (['|'].intercalate pieces).getLast? = some c) :
    (['|'].intercalate (pieces.map (front ++ '.' :: ·))).getLast? = some c := by
  induction pieces with
  | nil => cases h
  | cons piece more ih =>
    cases more with
    | nil =>
      rw [List.map_singleton, List.intercalate_singleton]
      rw [List.intercalate_singleton] at h
      simp [List.getLast?_append, List.getLast?_cons, h]
    | cons next more =>
      rw [List.map_cons, List.map_cons, List.intercalate_cons_cons]
      rw [List.intercalate_cons_cons] at h
      -- the last character is no bar, so it is that of the rest
      have hrest : (['|'].intercalate (next :: more)).getLast? = some c := by
        rw [List.append_assoc, List.singleton_append, List.getLast?_append, List.getLast?_cons] at h
        cases hlast : (['|'].intercalate (next :: more)).getLast? with
        | none =>
          rw [hlast] at h
          exact absurd (Option.some.inj h).symm hc
        | some d =>
          rw [hlast] at h
          exact h
      have hmore := ih hrest
      rw [List.map_cons] at hmore
      rw [List.getLast?_append, hmore]
      rfl

/-- The first column of a key with a path in front starts with the path. -/
theorem exists_intercalate_below (front : List Char) {pieces : List (List Char)} (hne : pieces ≠ []) :
    ∃ more, ['|'].intercalate (pieces.map (front ++ '.' :: ·)) = front ++ '.' :: more := by
  cases pieces with
  | nil => exact absurd rfl hne
  | cons piece more =>
    cases more with
    | nil => exact ⟨piece, by rw [List.map_singleton, List.intercalate_singleton]⟩
    | cons next more =>
      refine ⟨piece ++ '|' :: ['|'].intercalate ((next :: more).map (front ++ '.' :: ·)), ?_⟩
      rw [List.map_cons, List.map_cons, List.intercalate_cons_cons]
      simp

/-- Whether a text starts with an ordinal is settled by its first part, if a character that is no
digit and no colon follows it. -/
theorem head?_dropWhile_isDigit {front rest rest' : List Char} {c d : Char}
    (hd : d.isDigit = false) (hcolon : d ≠ ':')
    (h : ((front ++ c :: rest).dropWhile Char.isDigit).head? ≠ some ':') :
    ((front ++ d :: rest').dropWhile Char.isDigit).head? ≠ some ':' := by
  rw [List.dropWhile_append] at h ⊢
  cases hfront : front.dropWhile Char.isDigit with
  | nil => simp [hd, hcolon]
  | cons first more =>
    rw [hfront] at h
    simpa using h

/-- A text is such a path exactly if it has no bars, no ordinal is read off it, and it ends with a
word character. -/
theorem isPath_iff {path : String} : IsPath path ↔ (∀ c ∈ path.toList, (c == '|') = false) ∧
    ((path.toList ++ ['=', '>']).dropWhile Char.isDigit).head? ≠ some ':' ∧
    ∃ c, path.toList.getLast? = some c ∧ isWordChar c = true := by
  have htext : (path ++ "=>").toList = path.toList ++ ['=', '>'] := by simp
  constructor
  · intro h
    have hbars := (columns_of_parse h).2 path (List.mem_singleton_self _)
    rcases parse_eq_some_iff.1 h with ⟨ordinal, columns, operator, hordinal, hends, hkey⟩
    rw [Key.mk.injEq] at hkey
    rcases hkey with ⟨hnone, _, hoperator⟩
    have hnone : ordinal = none := by simpa using hnone.symm
    have hoperator : operator = ['=', '>'] := by
      have hlist : "=>".toList = (String.ofList operator).toList := congrArg String.toList hoperator
      exact (hlist.trans String.toList_ofList).symm
    subst hnone hoperator
    rw [takeOrdinal_eq_none_iff, htext] at hordinal
    have hcolumns : columns = path.toList := List.append_cancel_right hordinal.1
    subst hcolumns
    refine ⟨hbars, hordinal.2, ?_⟩
    cases hends with
    | word last word _ _ => exact ⟨_, last, word⟩
  · -- without a bar there is one column, and the operator is too short to hold another word
    rintro ⟨hbars, hordinal, c, last, word⟩
    have hother : ∀ d ∈ ['=', '>'], isWordChar d = false := by
      intro d hd
      rw [List.mem_cons, List.mem_singleton] at hd
      rcases hd with rfl | rfl
      · decide +kernel
      · decide +kernel
    refine parse_eq_some_iff.2 ⟨none, path.toList, ['=', '>'], ?_, ?_, ?_⟩
    · rw [takeOrdinal_eq_none_iff, htext]
      exact ⟨rfl, hordinal⟩
    · exact .word last word hother (by decide)
    · simp [List.splitOn_eq_singleton_of_beq_eq_false hbars]

/-- With a path in front of each column, a key is read as it was, with longer columns. -/
theorem parse_under {path text : String} {key : Key} (hpath : IsPath path)
    (h : parse text = some key) : parse (key.under path).text = some (key.under path) := by
  rcases isPath_iff.1 hpath with ⟨hbars, hordinalPath, _⟩
  have hplain := columns_of_parse h
  rcases parse_eq_some_iff.1 h with ⟨ordinal, columns, operator, hordinal, hends, rfl⟩
  -- the columns with the path in front, as characters
  have hpieces : ((columns.splitOn '|').map String.ofList).map (fun column =>
      (below path column).toList) = (columns.splitOn '|').map (path.toList ++ '.' :: ·) := by
    simp [below, Function.comp_def]
  have hsplit : (['|'].intercalate ((columns.splitOn '|').map (path.toList ++ '.' :: ·))).splitOn '|' =
      (columns.splitOn '|').map (path.toList ++ '.' :: ·) := by
    refine splitOnP_intercalate (by decide) (by simp [List.splitOn_ne_nil]) ?_
    intro piece hpiece d hd
    rcases List.mem_map.1 hpiece with ⟨column, hcolumn, rfl⟩
    rcases List.mem_append.1 hd with hd | hd
    · exact hbars d hd
    · rcases List.mem_cons.1 hd with rfl | hd
      · decide
      · exact forall_not_of_mem_splitOnP hcolumn d hd
  have hends' : Ends (['|'].intercalate ((columns.splitOn '|').map
      (path.toList ++ '.' :: ·))) operator := by
    rcases hends.exists_last with ⟨c, hlast, hc⟩
    refine hends.congr ?_
    rw [hlast]
    refine getLast?_intercalate_below path.toList hc ?_
    rw [List.intercalate_splitOn, hlast]
  refine parse_eq_some_iff.2 ⟨ordinal, _, operator, ?_, hends', ?_⟩
  · rw [toList_text]
    simp only [under, List.map_map, Function.comp_def, String.toList_ofList]
    rw [List.map_map, Function.comp_def] at hpieces
    rw [hpieces]
    cases ordinal with
    | some digits =>
      refine takeOrdinal_eq_some_iff.2 ⟨by simp, (takeOrdinal_eq_some_iff.1 hordinal).2⟩
    | none =>
      refine takeOrdinal_eq_none_iff.2 ⟨by simp, ?_⟩
      -- the text starts with the path, behind which a point comes
      rcases exists_intercalate_below path.toList (List.splitOn_ne_nil '|' columns) with
          ⟨more, hmore⟩
      rw [hmore]
      simpa using head?_dropWhile_isDigit (by decide) (by decide) hordinalPath
  · simp only [under, hsplit, Key.mk.injEq, true_and, and_true, List.map_map]
    refine List.map_congr_left fun piece _ => ?_
    rw [← String.toList_inj]
    simp [below]

/-- The key in front of whose columns a path is put. -/
theorem parse_prefixed {path text : String} {key : Key} (hpath : IsPath path)
    (h : parse text = some key) : parse (prefixed path text) = some (key.under path) := by
  rw [prefixed, h]
  exact parse_under hpath h

end Key

end DocQuery
