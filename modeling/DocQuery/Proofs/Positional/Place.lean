import DocQuery.Proofs.Positional.Inline

namespace DocQuery

namespace PositionalQuery

/-! # Placing values

The scanner cuts a statement into the occurrences of parameters and the text between them, which is
what substituting the parameters does. Placing the pieces keeps, for every parameter, the index of
its first value among those returned.

* `exists_placement`: every parameter has a first index, at which its values lie among those
  returned.
-/

/-- What a piece is written as. -/
def Piece.write {β : Type} (copy : Char → β) (parameter : String → Operand → List β) : Piece → List β
  | .char c => [copy c]
  | .parameter name value => parameter name value

/-- A piece of a statement whose parameters have the given values. -/
def Piece.Of (bindings : List (String × Operand)) : Piece → Prop
  | .char _ => True
  | .parameter name value => bindings.lookup name = some value

section Pieces

variable {β : Type} {bindings : List (String × Operand)}

/-- The scanner substitutes parameters. -/
theorem substitute_eq_flatMap (copy : Char → β) (parameter : String → Operand → List β)
    (text : List Char) :
    substitute copy (fun name => (bindings.lookup name).map (parameter name)) text
      = (pieces bindings text).flatMap (Piece.write copy parameter) := by
  -- the cases are those of the scanner: the end, a known name, an unknown one, any other character
  fun_induction pieces bindings text with
  | case1 => rfl
  | case2 rest value hvalue ih =>
    rw [substitute_name (by rw [hvalue]; rfl), ih]
    rfl
  | case3 rest hnone ih =>
    rw [substitute_other (by rw [hnone]; rfl), ih]
    rfl
  | case4 c rest hc ih =>
    rw [substitute_cons hc, ih]
    rfl

theorem of_mem_pieces {piece : Piece} {text : List Char} (h : piece ∈ pieces bindings text) :
    piece.Of bindings := by
  fun_induction pieces bindings text with
  | case1 => simp at h
  | case2 rest value hvalue ih =>
    rcases List.mem_cons.1 h with rfl | h
    · exact hvalue
    · exact ih h
  | case3 rest hnone ih =>
    rcases List.mem_cons.1 h with rfl | h
    · trivial
    · exact ih h
  | case4 c rest hc ih =>
    rcases List.mem_cons.1 h with rfl | h
    · trivial
    · exact ih h

/-- The text of a piece with its parameter placed behind `first name` values. -/
def Piece.dollarText (first : String → Nat) : Piece → List Char :=
  Piece.write id fun name value => (marks .dollar (first name) value.elements.length).toList

/-- The text of a piece with a question mark for each value. -/
def Piece.questionText : Piece → List Char :=
  Piece.write id fun _ value => (marks .question 0 value.elements.length).toList

/-- The values that a piece stands for. -/
def Piece.values : Piece → List Operand
  | .char _ => []
  | .parameter _ value => value.elements

end Pieces

/-- Placing only returns values of parameters. -/
theorem mem_place {style : PlaceholderStyle} {v : Operand} : ∀ {ps : List Piece} {placed : Nat}
    {known : List (String × String)}, v ∈ (place style placed known ps).2 →
      ∃ name value, Piece.parameter name value ∈ ps ∧ v ∈ value.elements
  | [], _, _, h => by
    cases h
  | .char c :: ps, _, _, h => by
    have hrest : v ∈ (place style _ _ ps).2 := h
    rcases mem_place hrest with ⟨name, value, hmem, hv⟩
    exact ⟨name, value, List.mem_cons_of_mem _ hmem, hv⟩
  | .parameter name value :: ps, placed, known, h => by
    have hrest : ∀ {placed known}, v ∈ (place style placed known ps).2 →
        ∃ other value', Piece.parameter other value' ∈ Piece.parameter name value :: ps ∧
          v ∈ value'.elements := by
      intro placed known h
      rcases mem_place h with ⟨other, value', hmem, hv⟩
      exact ⟨other, value', List.mem_cons_of_mem _ hmem, hv⟩
    rw [place] at h
    -- a parameter that was placed before adds no values
    split at h
    · exact hrest h
    · rcases List.mem_append.1 h with h | h
      · exact ⟨name, value, List.mem_cons_self, h⟩
      · exact hrest h

/-! ## Question marks -/

theorem marks_question (placed count : Nat) :
    marks .question placed count = ", ".intercalate (List.replicate count "?") := by
  simp [marks, List.map_const']

/-- Each occurrence has values of its own. -/
theorem place_question (placed : Nat) : ∀ ps : List Piece,
    ((place .question placed [] ps).1.flatMap String.toList = ps.flatMap Piece.questionText) ∧
      (place .question placed [] ps).2 = ps.flatMap Piece.values
  | [] => ⟨rfl, rfl⟩
  | .char c :: ps => by
    rcases place_question placed ps with ⟨htexts, hvalues⟩
    simp [place, htexts, hvalues, Piece.questionText, Piece.write, Piece.values]
  | .parameter name value :: ps => by
    rcases place_question (placed + value.elements.length) ps with ⟨htexts, hvalues⟩
    simp [place, htexts, hvalues, Piece.questionText, Piece.write, Piece.values, marks_question]

/-! ## Dollar marks -/

theorem marks_dollar (placed count : Nat) :
    (marks .dollar placed count)
      = ", ".intercalate ((List.range' (placed + 1) count).map fun k => "$" ++ toString k) := by
  simp [marks, List.range'_eq_map_range, Function.comp_def, Nat.add_right_comm]

/-- What has been placed: `start` holds the number of values in front of each parameter that has
marks, which are `known`, and its values lie there. -/
structure Placed (bindings : List (String × Operand)) (values : List Operand)
    (start : String → Option Nat) (known : List (String × String)) : Prop where
  /-- A known parameter has the marks that belong to its start. -/
  known_eq : ∀ name value, bindings.lookup name = some value →
    known.lookup name = (start name).map fun k => marks .dollar k value.elements.length
  /-- The values of a known parameter lie at its start. -/
  lie : ∀ name value k, bindings.lookup name = some value → start name = some k →
    value.elements <+: values.drop k

section Dollar

variable {bindings : List (String × Operand)} {values : List Operand} {start : String → Option Nat}
  {known : List (String × String)}

theorem Placed.empty : Placed bindings [] (fun _ => none) [] where
  known_eq := by simp
  lie := by simp

/-- Values behind those placed change nothing. -/
theorem prefix_drop_append {elements values : List Operand} {k : Nat} (h : elements <+: values.drop k)
    (more : List Operand) : elements <+: (values ++ more).drop k := by
  rw [List.drop_append]
  exact h.trans (List.prefix_append _ _)

/-- A parameter without marks gets them behind all others. -/
theorem Placed.place (h : Placed bindings values start known) {name : String} {value : Operand}
    (hvalue : bindings.lookup name = some value) :
    Placed bindings (values ++ value.elements)
      (fun other => if other = name then some values.length else start other)
      ((name, marks .dollar values.length value.elements.length) :: known) where
  known_eq := by
    intro other value' hvalue'
    by_cases hother : other = name
    · subst hother
      rw [hvalue] at hvalue'
      cases hvalue'
      simp
    · -- the values of other parameters stay where they are
      have hknown := h.known_eq other value' hvalue'
      have hne : (other == name) = false := by simpa using hother
      simp [List.lookup_cons, hne, hother, hknown]
  lie := by
    intro other value' k hvalue' hk
    by_cases hother : other = name
    · subst hother
      rw [hvalue] at hvalue'
      cases hvalue'
      have hk : values.length = k := by simpa using hk
      subst hk
      simp
    · have hk : start other = some k := by simpa [hother] using hk
      exact prefix_drop_append (h.lie other value' k hvalue' hk) _

/-- Placing pieces in dollar style: every parameter has one start, at which its values lie, and
every value returned belongs to a parameter. -/
structure Placement (ps : List Piece) (before : List Operand) (start : String → Option Nat)
    (out : List String × List Operand) (first : String → Nat) : Prop where
  /-- What had marks keeps them. -/
  keeps : ∀ name k, start name = some k → first name = k
  text : out.1.flatMap String.toList = ps.flatMap (Piece.dollarText first)
  lie : ∀ name value, Piece.parameter name value ∈ ps →
    value.elements <+: (before ++ out.2).drop (first name)
  /-- No value is returned in vain. -/
  used : ∀ j, before.length ≤ j → j < (before ++ out.2).length →
    ∃ name value, Piece.parameter name value ∈ ps ∧ first name ≤ j ∧
      j < first name + value.elements.length

section Step

variable {ps : List Piece} {before : List Operand} {first : String → Nat} {name : String}
  {value : Operand}

/-- A character is copied. -/
theorem Placement.char (h : Placement ps before start (place .dollar before.length known ps) first)
    (c : Char) : Placement (.char c :: ps) before start
      (place .dollar before.length known (.char c :: ps)) first where
  keeps := h.keeps
  text := by simp [PositionalQuery.place, h.text, Piece.dollarText, Piece.write]
  lie := by
    intro name value hmem
    exact h.lie name value (by simpa using hmem)
  used := by
    intro j hj hlt
    rcases h.used j hj hlt with ⟨name, value, hmem, hle, hend⟩
    exact ⟨name, value, List.mem_cons_of_mem _ hmem, hle, hend⟩

/-- A parameter that has marks is written with them, and no value is added. -/
theorem Placement.again (h : Placement ps before start (place .dollar before.length known ps) first)
    (hplaced : Placed bindings before start known) (hvalue : bindings.lookup name = some value)
    {k : Nat} (hstart : start name = some k) : Placement (.parameter name value :: ps) before start
      (place .dollar before.length known (.parameter name value :: ps)) first := by
  have hfirst := h.keeps name k hstart
  have hknown := hplaced.known_eq name value hvalue
  rw [hstart] at hknown
  have hplace : place .dollar before.length known (.parameter name value :: ps)
      = (marks .dollar k value.elements.length :: (place .dollar before.length known ps).1,
        (place .dollar before.length known ps).2) := by
    simp [PositionalQuery.place, hknown]
  rw [hplace]
  -- the parameter is written with the marks that it had, and returns nothing more
  refine ⟨h.keeps, ?_, ?_, ?_⟩
  · simp [h.text, Piece.dollarText, Piece.write, hfirst]
  · intro other value' hmem
    rcases List.mem_cons.1 hmem with heq | hmem
    · cases heq
      rw [hfirst]
      exact prefix_drop_append (hplaced.lie name value k hvalue hstart) _
    · exact h.lie other value' hmem
  · intro j hj hlt
    rcases h.used j hj hlt with ⟨other, value', hmem, hle, hend⟩
    exact ⟨other, value', List.mem_cons_of_mem _ hmem, hle, hend⟩

/-- A parameter without marks gets those behind all values so far. -/
theorem Placement.fresh (hplaced : Placed bindings before start known)
    (hvalue : bindings.lookup name = some value) (hstart : start name = none)
    (h : Placement ps (before ++ value.elements)
      (fun other => if other = name then some before.length else start other)
      (place .dollar (before ++ value.elements).length
        ((name, marks .dollar before.length value.elements.length) :: known) ps) first) :
    Placement (.parameter name value :: ps) before start
      (place .dollar before.length known (.parameter name value :: ps)) first := by
  have hfirst : first name = before.length := h.keeps name _ (by simp)
  have hknown := hplaced.known_eq name value hvalue
  rw [hstart] at hknown
  rw [List.length_append] at h
  simp only [PositionalQuery.place, hknown, Option.map_none, if_true]
  refine ⟨?_, ?_, ?_, ?_⟩
  · intro other k hk
    have hne : other ≠ name := by
      rintro rfl
      simp [hstart] at hk
    exact h.keeps other k (by simpa [hne] using hk)
  · simp [h.text, Piece.dollarText, Piece.write, hfirst]
  · intro other value' hmem
    rw [← List.append_assoc]
    rcases List.mem_cons.1 hmem with heq | hmem
    · cases heq
      simp [hfirst]
    · exact h.lie other value' hmem
  · intro j hj hlt
    rw [← List.append_assoc] at hlt
    -- an index is one of the new values, or one that the rest uses
    by_cases hnew : j < before.length + value.elements.length
    · exact ⟨name, value, List.mem_cons_self, by omega, by omega⟩
    · rcases h.used j (by simp; omega) hlt with ⟨other, value', hmem, hle, hend⟩
      exact ⟨other, value', List.mem_cons_of_mem _ hmem, hle, hend⟩

end Step

theorem exists_placement : ∀ (ps : List Piece) (before : List Operand) (start : String → Option Nat)
    (known : List (String × String)), (∀ piece ∈ ps, piece.Of bindings) →
      Placed bindings before start known →
        ∃ first, Placement ps before start (place .dollar before.length known ps) first
  | [], before, start, known, _, h => by
    refine ⟨fun name => (start name).getD 0, ?_, rfl, by simp, ?_⟩
    · intro name k hk
      simp [hk]
    · intro j hj hlt
      simp only [place, List.append_nil] at hlt
      omega
  | .char c :: ps, before, start, known, hps, h => by
    rcases exists_placement ps before start known
      (fun piece hpiece => hps piece (List.mem_cons_of_mem _ hpiece)) h with ⟨first, hfirst⟩
    exact ⟨first, hfirst.char c⟩
  | .parameter name value :: ps, before, start, known, hps, h => by
    have hvalue : bindings.lookup name = some value := hps _ List.mem_cons_self
    have hrest : ∀ piece ∈ ps, piece.Of bindings :=
      fun piece hpiece => hps piece (List.mem_cons_of_mem _ hpiece)
    -- a parameter is placed where it occurs first, and looked up from then on
    cases hstart : start name with
    | some k =>
      rcases exists_placement ps before start known hrest h with ⟨first, hfirst⟩
      exact ⟨first, hfirst.again h hvalue hstart⟩
    | none =>
      rcases exists_placement ps (before ++ value.elements) _ _ hrest (h.place hvalue)
        with ⟨first, hfirst⟩
      exact ⟨first, .fresh h hvalue hstart hfirst⟩

end Dollar

end PositionalQuery

end DocQuery
