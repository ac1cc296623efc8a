import DocQuery.Proofs.Positional.Place

namespace DocQuery

namespace PositionalQuery

/-! # Both styles say what the plan says

A positional statement is read back, mark by mark, and filled with its values. Both styles give the
statement of the plan with the values inlined.

* `toPositional_readBack`: both styles, read back mark by mark, give the statement with its values
  inlined.
-/

/-- The marks of a piece whose parameter is placed behind `first name` values. -/
def Piece.marks (first : String → Nat) : Piece → List Mark :=
  Piece.write .char fun name value => listedMarks (List.range' (first name + 1) value.elements.length)

/-- A piece with its values inlined. -/
def Piece.items : Piece → List Item :=
  Piece.write .char fun _ value => listedItems value.elements

section Read

variable {bindings : List (String × Operand)} {text : List Char}

theorem isDigit_eq_false {c : Char} (h : isWordChar c = false) : c.isDigit = false := by
  cases hdigit : c.isDigit with
  | false => rfl
  | true =>
    have hword : isWordChar c = true :=
      isWordChar_of_isAlphanum (by simp [Char.isAlphanum, hdigit])
    rw [h] at hword
    cases hword

/-- Marks start with a dollar sign, if there are any. -/
theorem head?_marks {placed count : Nat} {rest : List Char} {c : Char}
    (h : ((marks .dollar placed count).toList ++ rest).head? = some c) :
    c = '$' ∨ count = 0 ∧ rest.head? = some c := by
  cases count with
  | zero => exact .inr ⟨rfl, h⟩
  | succ count =>
    left
    -- a list of values that is not empty starts with a mark
    have hmarks : ∃ more, (marks .dollar placed (count + 1)).toList = '$' :: more := by
      rw [marks_dollar, List.range'_succ]
      cases List.range' (placed + 1 + 1) count with
      | nil => exact ⟨(toString (placed + 1)).toList, by simp⟩
      | cons k indices =>
        rw [List.map_cons, List.map_cons, String.toList_intercalate, List.map_cons, List.map_cons,
          List.intercalate_cons_cons, String.toList_append, List.append_assoc, List.append_assoc]
        exact ⟨_, rfl⟩
    rcases hmarks with ⟨more, hmore⟩
    rw [hmore] at h
    simpa using h.symm

/-- Where the text starts with no word character, the placed pieces start with no digit. -/
theorem head?_placed (first : String → Nat)
    (hhead : ∀ c, text.head? = some c → isWordChar c = false) :
    ∀ c, ((pieces bindings text).flatMap (Piece.dollarText first)).head? = some c →
      c.isDigit = false := by
  fun_induction pieces bindings text with
  | case1 => simp
  -- an empty list leaves no mark, so what stands first is what follows the name
  | case2 rest value hvalue ih =>
    intro c hc
    rcases head?_marks hc with rfl | ⟨_, hc⟩
    · decide
    · exact ih (fun c hc => head?_dropWhile hc) c hc
  | case3 rest hnone ih =>
    rintro c ⟨⟩
    decide
  | case4 c rest hc ih =>
    rintro c ⟨⟩
    exact isDigit_eq_false (hhead c rfl)

/-- Every mark of the placed pieces is read back: what follows a parameter starts with no word
character, so with no digit. -/
theorem readMarks_placed (first : String → Nat) (hplain : ∀ c ∈ text, c ≠ '$') :
    readMarks ((pieces bindings text).flatMap (Piece.dollarText first))
      = (pieces bindings text).flatMap (Piece.marks first) := by
  fun_induction pieces bindings text with
  | case1 => rfl
  | case2 rest value hvalue ih =>
    have hrest := ih fun c hc =>
      hplain c (List.mem_cons_of_mem _ ((List.dropWhile_suffix _).mem hc))
    -- no digit follows the marks, so the last index ends where it was written
    have hbehind : ∀ c, ((pieces bindings (rest.dropWhile isWordChar)).flatMap
        (Piece.dollarText first)).head? = some c → c.isDigit = false :=
      head?_placed first fun c hc => head?_dropWhile hc
    have hparameter := readMarks_list hbehind
      (List.range' (first (nameAt rest) + 1) value.elements.length)
    rw [← marks_dollar, hrest] at hparameter
    exact hparameter
  | case3 rest hnone ih =>
    have hrest := ih fun c hc => hplain c (List.mem_cons_of_mem _ hc)
    exact (readMarks_cons (by decide) _).trans (congrArg _ hrest)
  | case4 c rest hc ih =>
    have hrest := ih fun c hc => hplain c (List.mem_cons_of_mem _ hc)
    exact (readMarks_cons (hplain c List.mem_cons_self) _).trans (congrArg _ hrest)

theorem index_mem_listedMarks {k : Nat} : ∀ {indices : List Nat},
    Mark.index k ∈ listedMarks indices ↔ k ∈ indices
  | [] => by simp [listedMarks]
  | [j] => by simp [listedMarks]
  | j :: next :: indices => by
    have ih : Mark.index k ∈ listedMarks (next :: indices) ↔ k ∈ next :: indices :=
      index_mem_listedMarks
    rw [listedMarks_cons_cons]
    simp [ih]

/-- The indices in the placed pieces are those of their parameters. -/
theorem index_mem_marks {ps : List Piece} {first : String → Nat} {k : Nat} :
    Mark.index k ∈ ps.flatMap (Piece.marks first) ↔
      ∃ name value, Piece.parameter name value ∈ ps ∧ first name < k ∧
        k ≤ first name + value.elements.length := by
  rw [List.mem_flatMap]
  constructor
  · -- only parameters are written with marks
    rintro ⟨piece, hpiece, hk⟩
    cases piece with
    | char c => simp [Piece.marks, Piece.write] at hk
    | parameter name value =>
      have hrange := List.mem_range'_1.1 (index_mem_listedMarks.1 hk)
      exact ⟨name, value, hpiece, by omega, by omega⟩
  · rintro ⟨name, value, hpiece, hlt, hle⟩
    exact ⟨_, hpiece, index_mem_listedMarks.2 (List.mem_range'_1.2 ⟨by omega, by omega⟩)⟩

end Read

section Fill

variable {ps : List Piece} {values : List Operand}

/-- The marks are filled with the values of their parameters where these lie at their starts. -/
theorem map_fillMark_marks {first : String → Nat}
    (hlie : ∀ name value, Piece.parameter name value ∈ ps →
      value.elements <+: values.drop (first name)) :
    (ps.flatMap (Piece.marks first)).map (fillMark values) = (ps.flatMap Piece.items).map some := by
  have heach : ∀ piece ∈ ps, (piece.marks first).map (fillMark values) = piece.items.map some := by
    intro piece hpiece
    cases piece with
    | char c => rfl
    | parameter name value => exact map_fillMark_listedMarks _ _ (hlie name value hpiece)
  rw [List.map_flatMap, List.map_flatMap, List.flatMap_def, List.flatMap_def,
    List.map_congr_left heach]

theorem marks_question_elements (placed : Nat) (elements : List Operand) :
    marks .question placed elements.length = ", ".intercalate (elements.map fun _ => "?") := by
  rw [marks_question, List.map_const']

theorem count_marks_question (placed : Nat) : ∀ count : Nat,
    (marks .question placed count).toList.count '?' = count
  | 0 => rfl
  | 1 => by simp [marks]
  | count + 2 => by
    have ih := count_marks_question placed (count + 1)
    rw [marks_question, String.toList_intercalate, List.replicate_succ, List.map_cons] at ih ⊢
    rw [List.replicate_succ, List.map_cons, List.intercalate_cons_cons, List.append_assoc,
      List.count_append, List.count_append, ih]
    have hmark : "?".toList.count '?' = 1 := by decide
    have hcomma : ", ".toList.count '?' = 0 := by decide
    omega

theorem fillQuestions_cons {c : Char} (hc : c ≠ '?') (values : List Operand) (text : List Char) :
    fillQuestions values (c :: text) = some (.char c) :: fillQuestions values text := by
  simp [fillQuestions, hc]

/-- The question marks are filled with the values in their order. -/
theorem fillQuestions_placed {bindings : List (String × Operand)} {text : List Char}
    (hplain : ∀ c ∈ text, c ≠ '?') :
    fillQuestions ((pieces bindings text).flatMap Piece.values)
        ((pieces bindings text).flatMap Piece.questionText)
      = ((pieces bindings text).flatMap Piece.items).map some := by
  fun_induction pieces bindings text with
  | case1 => rfl
  | case2 rest value hvalue ih =>
    have hrest := ih fun c hc =>
      hplain c (List.mem_cons_of_mem _ ((List.dropWhile_suffix _).mem hc))
    have hparameter := fillQuestions_list
      ((pieces bindings (rest.dropWhile isWordChar)).flatMap Piece.values)
      ((pieces bindings (rest.dropWhile isWordChar)).flatMap Piece.questionText) value.elements
    rw [← marks_question_elements 0, hrest, ← List.map_append] at hparameter
    exact hparameter
  | case3 rest hnone ih =>
    have hrest := ih fun c hc => hplain c (List.mem_cons_of_mem _ hc)
    exact (fillQuestions_cons (by decide) _ _).trans (congrArg _ hrest)
  | case4 c rest hc ih =>
    have hrest := ih fun c hc => hplain c (List.mem_cons_of_mem _ hc)
    exact (fillQuestions_cons (hplain c List.mem_cons_self) _ _).trans (congrArg _ hrest)

/-- There are as many question marks as values. -/
theorem count_placed {bindings : List (String × Operand)} {text : List Char}
    (hplain : ∀ c ∈ text, c ≠ '?') :
    ((pieces bindings text).flatMap Piece.questionText).count '?'
      = ((pieces bindings text).flatMap Piece.values).length := by
  fun_induction pieces bindings text with
  | case1 => rfl
  | case2 rest value hvalue ih =>
    have hrest := ih fun c hc =>
      hplain c (List.mem_cons_of_mem _ ((List.dropWhile_suffix _).mem hc))
    have hcount := count_marks_question 0 value.elements.length
    simp only [List.flatMap_cons, List.count_append, List.length_append, hrest]
    exact congrArg (· + _) hcount
  | case3 rest hnone ih =>
    have hrest := ih fun c hc => hplain c (List.mem_cons_of_mem _ hc)
    simp only [List.flatMap_cons, List.count_append, List.length_append, hrest]
    rfl
  | case4 c rest hc ih =>
    have hrest := ih fun c hc => hplain c (List.mem_cons_of_mem _ hc)
    have hc : [c].count '?' = 0 := by simp [hplain c List.mem_cons_self]
    simp only [List.flatMap_cons, List.count_append, List.length_append, hrest]
    exact congrArg (· + _) hc

end Fill

/-- A plan whose two positional statements say what it says. -/
structure ReadBack (p : Plan) : Prop where
  /-- Every mark `$k` stands for the `k`-th value. -/
  dollar : (readMarks (p.toPositional .dollar).sql.toList).map
    (fillMark (p.toPositional .dollar).values) = p.inlined.map some
  /-- Every question mark stands for the next value. -/
  question : fillQuestions (p.toPositional .question).values (p.toPositional .question).sql.toList
    = p.inlined.map some
  /-- No index is out of range, and none is left out. -/
  indices : ∀ k, Mark.index k ∈ readMarks (p.toPositional .dollar).sql.toList ↔
    1 ≤ k ∧ k ≤ (p.toPositional .dollar).values.length
  /-- No value is left over. -/
  count : (p.toPositional .question).sql.toList.count '?' = (p.toPositional .question).values.length
  /-- All but the parameters is copied, and a parameter has the same marks wherever it occurs. -/
  dollarText : ∃ first : String → Nat, (p.toPositional .dollar).sql.toList
    = substitute id (fun name => (p.binding? name).map fun value =>
        (marks .dollar (first name) value.elements.length).toList) p.toSql.toList
  /-- All but the parameters is copied. -/
  questionText : (p.toPositional .question).sql.toList
    = substitute id (fun name => (p.binding? name).map fun value =>
        (", ".intercalate (List.replicate value.elements.length "?")).toList) p.toSql.toList

section Plans

variable (p : Plan)

/-- The statement in dollar style, with the placement of its pieces. -/
theorem exists_placement_toPositional : ∃ first : String → Nat,
    Placement (pieces p.bindings p.toSql.toList) [] (fun _ => none)
      (place .dollar 0 [] (pieces p.bindings p.toSql.toList)) first ∧
    (p.toPositional .dollar).sql.toList
      = (pieces p.bindings p.toSql.toList).flatMap (Piece.dollarText first) ∧
    (p.toPositional .dollar).values
      = (place .dollar 0 [] (pieces p.bindings p.toSql.toList)).2 := by
  rcases exists_placement (pieces p.bindings p.toSql.toList) [] _ _ (fun _ => of_mem_pieces)
    Placed.empty with ⟨first, hfirst⟩
  refine ⟨first, hfirst, ?_, rfl⟩
  rw [← hfirst.text]
  exact String.toList_join

/-- The statement with question marks. -/
theorem toPositional_question :
    (p.toPositional .question).sql.toList
      = (pieces p.bindings p.toSql.toList).flatMap Piece.questionText ∧
    (p.toPositional .question).values = (pieces p.bindings p.toSql.toList).flatMap Piece.values := by
  rcases place_question 0 (pieces p.bindings p.toSql.toList) with ⟨htexts, hvalues⟩
  exact ⟨String.toList_join.trans htexts, hvalues⟩

/-- A positional statement has all parameters substituted, each by as many marks as it has values. -/
theorem exists_marks (style : PlaceholderStyle) : ∃ first : String → Nat,
    (p.toPositional style).sql.toList
      = substitute id (fun name => (p.binding? name).map fun value =>
          (marks style (first name) value.elements.length).toList) p.toSql.toList := by
  cases style with
  | dollar =>
    rcases exists_placement_toPositional p with ⟨first, _, hdollar, _⟩
    refine ⟨first, ?_⟩
    rw [hdollar]
    exact (substitute_eq_flatMap id _ _).symm
  | question =>
    refine ⟨fun _ => 0, ?_⟩
    rw [(toPositional_question p).1]
    exact (substitute_eq_flatMap id _ _).symm

/-- The values returned are those of parameters. -/
theorem mem_values {style : PlaceholderStyle} {v : Operand} (h : v ∈ (p.toPositional style).values) :
    ∃ name value, p.binding? name = some value ∧ v ∈ value.elements := by
  rcases mem_place h with ⟨name, value, hmem, hv⟩
  exact ⟨name, value, of_mem_pieces hmem, hv⟩

theorem inlined_eq_flatMap :
    p.inlined = (pieces p.bindings p.toSql.toList).flatMap Piece.items :=
  substitute_eq_flatMap Item.char (fun _ value => listedItems value.elements) _

end Plans

/-- Both positional statements of a plan say what the plan says, if its text has no marks of its
own. -/
theorem toPositional_readBack (p : Plan) (hplain : ∀ c ∈ p.toSql.toList, c ≠ '$' ∧ c ≠ '?') :
    ReadBack p := by
  rcases exists_placement_toPositional p with ⟨first, hplacement, hdollar, hvalues⟩
  rcases toPositional_question p with ⟨hquestion, hvalues'⟩
  have hread : readMarks ((pieces p.bindings p.toSql.toList).flatMap (Piece.dollarText first))
      = (pieces p.bindings p.toSql.toList).flatMap (Piece.marks first) :=
    readMarks_placed first fun c hc => (hplain c hc).1
  -- filled indices, filled question marks, the indices used, their number, and the text around both
  refine ⟨?_, ?_, ?_, ?_, ⟨first, ?_⟩, ?_⟩
  · rw [hdollar, hread, hvalues, inlined_eq_flatMap]
    exact map_fillMark_marks fun name value hmem => hplacement.lie name value hmem
  · rw [hquestion, hvalues', inlined_eq_flatMap]
    exact fillQuestions_placed fun c hc => (hplain c hc).2
  · intro k
    rw [hdollar, hread, hvalues, index_mem_marks]
    constructor
    · rintro ⟨name, value, hmem, hlt, hle⟩
      have hlie := (hplacement.lie name value hmem).length_le
      rw [List.nil_append, List.length_drop] at hlie
      omega
    · rintro ⟨hpos, hle⟩
      -- an index in use belongs to a value, and that value to a parameter that is written
      rcases hplacement.used (k - 1) (Nat.zero_le _) (by rw [List.nil_append]; omega)
        with ⟨name, value, hmem, hstart, hend⟩
      exact ⟨name, value, hmem, by omega, by omega⟩
  · rw [hquestion, hvalues']
    exact count_placed fun c hc => (hplain c hc).2
  · rw [hdollar]
    exact (substitute_eq_flatMap id _ _).symm
  · rw [hquestion]
    simp only [← marks_question 0]
    exact (substitute_eq_flatMap id (fun _ value => _) _).symm

/-- A plan with a cast, a parameter used twice, a list, an empty list, and a name that goes on. -/
def mixedPlan : Plan where
  model := "Person"
  baseTable := "people"
  source := "people"
  select := ["people.*"]
  joins := []
  predicate := .node .and []
  whereClause := some "code::text = :p1 OR id IN (:p2) OR :p1 = ':p10' OR id IN (:p3)"
  bindings := [("p1", .text "a"), ("p2", .list [.int 1, .int 2]), ("p3", .list []), ("p1", .null)]
  order := []
  limit := none
  offset := none
  includes := .node []

theorem readBack_mixedPlan :
    (∀ c ∈ mixedPlan.toSql.toList, c ≠ '$' ∧ c ≠ '?') ∧ ReadBack mixedPlan ∧
      (mixedPlan.toPositional .dollar).sql = "SELECT people.* FROM people WHERE "
        ++ "code::text = $1 OR id IN ($2, $3) OR $1 = ':p10' OR id IN ()" ∧
      (mixedPlan.toPositional .question).sql = "SELECT people.* FROM people WHERE "
        ++ "code::text = ? OR id IN (?, ?) OR ? = ':p10' OR id IN ()" := by
  have hall : (mixedPlan.toSql.toList.all fun c => c != '$' && c != '?') = true := by decide +kernel
  have hplain : ∀ c ∈ mixedPlan.toSql.toList, c ≠ '$' ∧ c ≠ '?' := by
    intro c hc
    have hchar := List.all_eq_true.1 hall c hc
    simpa using hchar
  exact ⟨hplain, toPositional_readBack mixedPlan hplain, by decide +kernel, by decide +kernel⟩

end PositionalQuery

end DocQuery
