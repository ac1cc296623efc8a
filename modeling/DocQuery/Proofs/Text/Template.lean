import DocQuery.Proofs.Parameters.Lists

namespace DocQuery

/-! # Filling templates

A template is cut at its places, the first one first, and the arguments stand between the pieces.
`Filling` is the loop that does so: it writes what stands in front of the next place and an argument
for the place, and goes on behind it. What has been written is not looked at again, so an argument
may hold anything.

* `cut_iff`: the pieces are those of the only way to cut a template at its places.
* `Ends.eq_result`: the loop ends with the pieces and the arguments in turn.
* `render_in_order`: so each test of a compiled query is filled by position.
-/

namespace Template

variable {text front back : List Char} {pieces : List (List Char)}

/-- What stands for an argument. -/
def place : List Char := ['%', 's']

/-- The text is cut at the first of its places. -/
structure FirstPlace (text front back : List Char) : Prop where
  text_eq : text = front ++ place ++ back
  first : ∀ before behind, text = before ++ place ++ behind → front.length ≤ before.length

/-- The pieces of a text that is cut at its places from left to right. -/
inductive Cut : List Char → List (List Char) → Prop where
  | whole {text : List Char} (unplaced : ¬ place <:+: text) : Cut text [text]
  | place {text front back : List Char} {more : List (List Char)} (first : FirstPlace text front back)
      (rest : Cut back more) : Cut text (front :: more)

/-- Each piece but the last is followed by an argument. -/
def interleave (pieces args : List (List Char)) : List Char :=
  (List.zipWith (· ++ ·) pieces (args ++ [[]])).flatten

/-! ## Cutting -/

/-- A character in front of a place that does not begin one moves the place on. -/
theorem FirstPlace.cons {c : Char} (h : FirstPlace text front back) (hplace : ¬ place <+: c :: text) :
    FirstPlace (c :: text) (c :: front) back where
  text_eq := congrArg (c :: ·) h.text_eq
  first := by
    intro before behind heq
    cases before with
    | nil => exact absurd ⟨behind, heq.symm⟩ hplace
    | cons d before =>
      have hrest : text = before ++ place ++ behind := (List.cons.inj heq).2
      exact Nat.succ_le_succ (h.first before behind hrest)

/-- Another pair of characters is no place. -/
theorem not_prefix_of_ne {c : Char} (h : ∀ rest, c = '%' → text = 's' :: rest → False) :
    ¬ place <+: c :: text := by
  rintro ⟨rest, heq⟩
  obtain ⟨hc, htext⟩ := List.cons.inj heq
  exact h rest hc.symm htext.symm

/-- A text is cut into its pieces. -/
theorem cut_pieces (text : List Char) : Cut text (Template.pieces text) := by
  fun_induction Template.pieces text with
  | case1 => exact .whole (by decide)
  | case2 rest ih => exact .place ⟨rfl, fun _ _ _ => Nat.zero_le _⟩ ih
  | case3 c rest _ hnil => exact absurd hnil (pieces_ne_nil rest)
  | case4 c rest hother piece more hpieces ih =>
    rw [hpieces] at ih
    have hplace := not_prefix_of_ne fun rest' hc hrest => hother rest' hc hrest
    cases ih with
    | whole unplaced =>
      refine .whole fun hinfix => ?_
      rcases List.infix_cons_iff.1 hinfix with hprefix | hinfix
      · exact hplace hprefix
      · exact unplaced hinfix
    | place first further => exact .place (first.cons hplace) further

/-- The first place of a text is in one position only. -/
theorem FirstPlace.unique {front' back' : List Char} (h : FirstPlace text front back)
    (h' : FirstPlace text front' back') : front = front' ∧ back = back' := by
  have hlength : front.length = front'.length :=
    Nat.le_antisymm (h.first front' back' h'.text_eq) (h'.first front back h.text_eq)
  have heq := h.text_eq.symm.trans h'.text_eq
  rw [List.append_assoc, List.append_assoc] at heq
  obtain ⟨hfront, hback⟩ := List.append_inj heq hlength
  exact ⟨hfront, (List.append_right_inj place).1 hback⟩

/-- A text with a first place has a place. -/
theorem FirstPlace.isInfix (h : FirstPlace text front back) : place <:+: text :=
  ⟨front, back, h.text_eq.symm⟩

/-- There is one way only to cut a text. -/
theorem Cut.unique {pieces' : List (List Char)} (h : Cut text pieces) (h' : Cut text pieces') :
    pieces = pieces' := by
  induction h generalizing pieces' with
  | whole unplaced =>
    cases h' with
    | whole => rfl
    | place first => exact absurd first.isInfix unplaced
  | place first _ ih =>
    cases h' with
    | whole unplaced => exact absurd first.isInfix unplaced
    | place first' rest' =>
      obtain ⟨rfl, rfl⟩ := first.unique first'
      rw [ih rest']

/-- A template is cut in one way. -/
theorem cut_iff : Cut text pieces ↔ pieces = Template.pieces text :=
  ⟨fun h => h.unique (cut_pieces text), fun h => h ▸ cut_pieces text⟩

/-- At its first place a text falls into its first piece and the rest. -/
theorem FirstPlace.pieces_eq (h : FirstPlace text front back) :
    Template.pieces text = front :: Template.pieces back :=
  (cut_iff.1 (.place h (cut_pieces back))).symm

/-- A template without places is one piece. -/
theorem pieces_of_unplaced (h : ¬ place <:+: text) : Template.pieces text = [text] :=
  (cut_iff.1 (.whole h)).symm

/-! ## The loop -/

/-- How far the filling of a template has come. -/
structure Filling where
  written : List Char
  /-- What has not been looked at of the template. -/
  rest : List Char
  /-- The arguments that have not been used. -/
  args : List (List Char)

namespace Filling

variable {f g : Filling} {n : Nat}

/-- In one round a place is found, what stands in front of it is written, then an argument. A place
for which there is no argument left is written itself. -/
inductive Round : Filling → Filling → Prop where
  | intro {written rest front back : List Char} {args : List (List Char)}
      (first : FirstPlace rest front back) :
      Round ⟨written, rest, args⟩ ⟨written ++ front ++ args.headD Template.place, back, args.tail⟩

/-- After so many rounds there are no more places, and all that remains is written. -/
inductive Ends : Filling → Nat → List Char → Prop where
  | done {f : Filling} (unplaced : ¬ Template.place <:+: f.rest) : Ends f 0 (f.written ++ f.rest)
  | round {f g : Filling} {n : Nat} {text : List Char} (round : f.Round g) (further : g.Ends n text) :
      Ends f (n + 1) text

/-- What the filling comes to. -/
def result (f : Filling) : List Char := f.written ++ fill (Template.pieces f.rest) f.args

/-- A round does not change what the filling comes to, and uses up one piece. -/
theorem Round.result_eq (h : f.Round g) : g.result = f.result ∧
    (Template.pieces f.rest).length = (Template.pieces g.rest).length + 1 := by
  obtain @⟨written, rest, front, back, args, first⟩ := h
  refine ⟨?_, congrArg List.length first.pieces_eq⟩
  obtain ⟨next, more, hback⟩ := List.exists_cons_of_ne_nil (pieces_ne_nil back)
  simp only [result, first.pieces_eq, hback]
  cases args with
  | nil => simp [fill, Template.place]
  | cons arg args => simp [fill]

/-- The loop ends, after a round for each place. -/
theorem exists_ends {rest : List Char} {pieces : List (List Char)} (h : Cut rest pieces)
    (written : List Char) (args : List (List Char)) :
    ∃ n text, Ends ⟨written, rest, args⟩ n text ∧ pieces.length = n + 1 := by
  induction h generalizing written args with
  | whole unplaced => exact ⟨0, _, .done unplaced, rfl⟩
  | @place rest front back more first _ ih =>
    obtain ⟨n, text, hends, hlength⟩ := ih (written ++ front ++ args.headD Template.place) args.tail
    exact ⟨n + 1, text, .round (.intro first) hends, congrArg (· + 1) hlength⟩

/-- The loop has one round for each place, and comes to the filled template. -/
theorem Ends.eq_result {text : List Char} (h : f.Ends n text) :
    (Template.pieces f.rest).length = n + 1 ∧ text = f.result := by
  induction h with
  | done unplaced =>
    rw [result, pieces_of_unplaced unplaced]
    exact ⟨rfl, rfl⟩
  | round round _ ih =>
    obtain ⟨hresult, hpieces⟩ := round.result_eq
    rw [hpieces, ih.1, ih.2, hresult]
    exact ⟨rfl, rfl⟩

/-- The loop ends if there is an argument for each place, and then with one text. -/
theorem ends_iff {text : List Char} :
    f.Ends n text ↔ (Template.pieces f.rest).length = n + 1 ∧ text = f.result := by
  constructor
  · exact Ends.eq_result
  · rintro ⟨hlength, rfl⟩
    obtain ⟨m, text, hends, -⟩ := exists_ends (cut_pieces f.rest) f.written f.args
    obtain ⟨hm, rfl⟩ := hends.eq_result
    obtain rfl : m = n := Nat.succ.inj (hm.symm.trans hlength)
    exact hends

end Filling

/-! ## Where the arguments stand -/

/-- With an argument for each place, the filled template is the pieces with the arguments between. -/
theorem fill_eq_interleave {args : List (List Char)} (h : args.length + 1 = pieces.length) :
    fill pieces args = interleave pieces args := by
  induction pieces generalizing args with
  | nil => cases h
  | cons piece more ih =>
    cases more with
    | nil =>
      obtain rfl : args = [] := List.length_eq_zero_iff.1 (Nat.succ.inj h)
      simp [fill, interleave]
    | cons next more =>
      cases args with
      | nil => cases h
      | cons arg args =>
        rw [fill, ih (Nat.succ.inj h)]
        · simp [interleave]
        · exact List.cons_ne_nil next more

/-- Where an argument begins: behind all pieces and arguments in front of it, of which only the
lengths matter. -/
def argumentStart (pieces args : List Nat) (i : Nat) : Nat :=
  (pieces.take (i + 1)).foldr (· + ·) 0 + (args.take i).foldr (· + ·) 0

/-- The text has each argument in the position that the lengths of the pieces and arguments give. -/
def Positions (pieces args : List (List Char)) (text : List Char) : Prop :=
  ∀ i (h : i < args.length), ∃ before behind, text = before ++ args[i] ++ behind ∧
    before.length = argumentStart (pieces.map List.length) (args.map List.length) i

/-- The arguments stand between the pieces, each behind all in front of it. -/
theorem positions_interleave {args : List (List Char)} (h : args.length + 1 = pieces.length) :
    Positions pieces args (interleave pieces args) := by
  induction args generalizing pieces with
  | nil =>
    intro i hi
    cases hi
  | cons arg args ih =>
    cases pieces with
    | nil => cases h
    | cons piece more =>
      have hmore := ih (Nat.succ.inj h)
      have hcons : interleave (piece :: more) (arg :: args) =
          piece ++ arg ++ interleave more args := by
        simp [interleave]
      intro i hi
      -- the first argument stands behind the first piece, the others further on by that piece and
      -- argument
      cases i with
      | zero => exact ⟨piece, interleave more args, hcons, by simp [argumentStart]⟩
      | succ i =>
        obtain ⟨before, behind, htext, hlength⟩ := hmore i (Nat.lt_of_succ_lt_succ hi)
        refine ⟨piece ++ arg ++ before, behind, ?_, ?_⟩
        · rw [hcons, htext, List.getElem_cons_succ]
          simp only [List.append_assoc]
        · simp only [List.length_append, hlength, argumentStart, List.map_cons, List.take_succ_cons,
            List.foldr_cons]
          omega

/-- Arguments of the same lengths can be told apart by the text. -/
theorem Positions.unique {args args' : List (List Char)} {text : List Char}
    (h : Positions pieces args text) (h' : Positions pieces args' text)
    (hlengths : args.map List.length = args'.map List.length) : args = args' := by
  have hcount : args.length = args'.length := by
    simpa using congrArg List.length hlengths
  refine List.ext_getElem hcount fun i hi hi' => ?_
  obtain ⟨before, behind, htext, hbefore⟩ := h i hi
  obtain ⟨before', behind', htext', hbefore'⟩ := h' i hi'
  rw [← hlengths] at hbefore'
  have harg : args[i].length = args'[i].length := by
    simpa [hi, hi'] using congrArg (·[i]?) hlengths
  have heq := htext.symm.trans htext'
  rw [List.append_assoc, List.append_assoc] at heq
  exact (List.append_inj (List.append_inj heq (hbefore.trans hbefore'.symm)).2 harg).1

/-- The text is the template with the arguments in its places. -/
def Filled (template : List Char) (args : List (List Char)) (text : List Char) : Prop :=
  ∃ pieces, Cut template pieces ∧ args.length + 1 = pieces.length ∧
    text = interleave pieces args ∧ Positions pieces args text

/-- A filled text tells its arguments, given their lengths. -/
theorem Filled.unique {template text : List Char} {args args' : List (List Char)}
    (h : Filled template args text) (h' : Filled template args' text)
    (hlengths : args.map List.length = args'.map List.length) : args = args' := by
  obtain ⟨pieces, hcut, -, -, hpositions⟩ := h
  obtain ⟨pieces', hcut', -, -, hpositions'⟩ := h'
  obtain rfl := hcut.unique hcut'
  exact hpositions.unique hpositions' hlengths

/-- A rendered template is its pieces with the arguments between them. -/
theorem toList_render (template : String) (args : List String)
    (h : args.length + 1 = (Template.pieces template.toList).length) :
    (render template args).toList =
      interleave (Template.pieces template.toList) (args.map String.toList) := by
  rw [render, String.toList_ofList, fill_eq_interleave (by rwa [List.length_map])]

end Template

/-! ## Tests -/

open Template

/-- The template of a form that tests rows, and how many columns and parameters one test has. -/
def Form.test? : Form → Option (String × Nat × Nat)
  | .comparison template _ => some (template, 1, 1)
  | .presence template => some (template, 1, 0)
  | .membership template => some (template, 1, 1)
  | .range template => some (template, 1, 2)
  | .overlap template => some (template, 2, 2)
  | _ => none

/-- The templates of the grammar have a place for each column and parameter. -/
theorem Rule.places_of_mem : ∀ rule ∈ Rule.table, ∀ test ∈ rule.form.test?,
    test.2.1 + test.2.2 + 1 = (Template.pieces test.1.toList).length := by
  decide +kernel

namespace Test

/-- The texts that stand in the places of a test's template. -/
def arguments (quoted : Bool) (columns : List QualifiedColumn) (params : List String) :
    List (List Char) :=
  columns.map (fun c => (c.toSql quoted).toList) ++ params.map fun param => (placeholder param).toList

/-- A test with a column or parameter for each place of its template has them there. -/
theorem filled_toFragment {template : String} {columns : List QualifiedColumn} {params : List String}
    (h : columns.length + params.length + 1 = (Template.pieces template.toList).length)
    (quoted : Bool) :
    Filled template.toList (arguments quoted columns params)
      ((Test.template template columns params).toFragment quoted).sql.toList := by
  have hargs : (arguments quoted columns params).length + 1 =
      (Template.pieces template.toList).length := by
    simpa [arguments] using h
  have htext : ((Test.template template columns params).toFragment quoted).sql.toList =
      interleave (Template.pieces template.toList) (arguments quoted columns params) := by
    rw [toFragment, toList_render]
    · simp [arguments, Function.comp_def]
    · simpa using h
  refine ⟨_, cut_pieces _, hargs, htext, ?_⟩
  rw [htext]
  exact positions_interleave hargs

end Test

namespace Statement

/-- The tests of a statement are those of its derived tables and its own. -/
theorem tests_eq (st : Statement) : st.tests = joinTests st.joins ++ st.predicate.leaves := by
  cases st
  rw [tests]

/-- A test of the joins is one of a derived table. -/
theorem exists_of_mem_joinTests {t : Test} {joins : List (Join Statement)} (h : t ∈ joinTests joins) :
    ∃ tableAlias inner, .derived tableAlias inner ∈ joins ∧ t ∈ inner.tests := by
  induction joins with
  | nil => cases h
  | cons join joins ih =>
    rw [joinTests, List.mem_append] at h
    rcases h with h | h
    · cases join with
      | derived tableAlias inner => exact ⟨tableAlias, inner, List.mem_cons_self, h⟩
      | table | derivedText => cases h
    · obtain ⟨tableAlias, inner, hjoin, ht⟩ := ih h
      exact ⟨tableAlias, inner, List.mem_cons_of_mem _ hjoin, ht⟩

/-- All tests of a sound statement are sound, those of derived tables too. -/
theorem Sound.of_mem_tests {p : Char → Prop} {st : Statement} {t : Test} (h : st.Sound p)
    (ht : t ∈ st.tests) : t.Sound p := by
  induction h with
  | intro _ _ _ _ tests _ _ _ _ ih =>
    rw [tests_eq, List.mem_append] at ht
    rcases ht with ht | ht
    · obtain ⟨tableAlias, inner, hjoin, hinner⟩ := exists_of_mem_joinTests ht
      exact ih tableAlias inner hjoin hinner
    · exact tests t ht

end Statement

namespace Template

/-- A template is cut at its places in one way, and filling it puts the arguments between the
pieces, in a loop with one round for each argument. So the text of a test has the columns and
placeholders in positions that their lengths decide, whatever they hold, and of given lengths only
one choice of them makes the text. This covers every rule, and every test of a query that compiles
has what its template takes. -/
theorem render_in_order :
    (∀ template : String, ∃! pieces, Cut template.toList pieces) ∧
      (∀ (template : String) (pieces : List (List Char)) (args : List String),
        Cut template.toList pieces → args.length + 1 = pieces.length →
        (render template args).toList = interleave pieces (args.map String.toList) ∧
        ∀ n text, Filling.Ends ⟨[], template.toList, args.map String.toList⟩ n text ↔
          n = args.length ∧ text = interleave pieces (args.map String.toList)) ∧
      (∀ rule ∈ Rule.table, ∀ template columns params quoted,
        rule.form.test? = some (template, List.length columns, List.length params) →
        Filled template.toList (Test.arguments quoted columns params)
          ((Test.template template columns params).toFragment quoted).sql.toList ∧
        ∀ columns' params',
          (Test.arguments quoted columns' params').map List.length =
            (Test.arguments quoted columns params).map List.length →
          ((Test.template template columns' params').toFragment quoted).sql =
            ((Test.template template columns params).toFragment quoted).sql →
          Test.arguments quoted columns' params' = Test.arguments quoted columns params) ∧
      ∀ (s : Schema) model query config root conditions done plan,
        Query.Compiles s model query config root conditions done plan →
        ∀ t ∈ done.finish.tests, ∃ template columns params,
          t = Test.template template columns params ∧
          Filled template.toList (Test.arguments config.quoteIdentifiers columns params)
            (t.toFragment config.quoteIdentifiers).sql.toList := by
  refine ⟨?_, ?_, ?_, ?_⟩
  · intro template
    exact ⟨_, cut_pieces _, fun _ hcut => cut_iff.1 hcut⟩
  · intro template pieces args hcut hlength
    obtain rfl := cut_iff.1 hcut
    have hargs : (args.map String.toList).length + 1 =
        (Template.pieces template.toList).length := by
      rwa [List.length_map]
    refine ⟨toList_render template args hlength, fun n text => ?_⟩
    rw [Filling.ends_iff, Filling.result, List.nil_append, fill_eq_interleave hargs, ← hlength,
      Nat.succ_inj, eq_comm]
  · intro rule hrule template columns params quoted htest
    have hplaces := Rule.places_of_mem rule hrule _ htest
    have hfilled := Test.filled_toFragment hplaces quoted
    refine ⟨hfilled, fun columns' params' hlengths hsame => ?_⟩
    -- arguments of the same lengths are as many, so they fill the same places
    have hcount : columns'.length + params'.length = columns.length + params.length := by
      simpa [Test.arguments] using congrArg List.length hlengths
    have hplaces' : columns'.length + params'.length + 1 = (Template.pieces template.toList).length := by
      rw [hcount]
      exact hplaces
    have hfilled' := Test.filled_toFragment hplaces' quoted
    rw [hsame] at hfilled'
    exact hfilled'.unique hfilled hlengths
  · intro s model query config root conditions done plan hcompiles t ht
    -- a sound statement has in every test as many arguments as the template has places
    have hsound : done.finish.Sound fun _ => True :=
      hcompiles.sound (fun _ => trivial) (Query.binds_any query) (fun _ _ _ => trivial)
        (fun _ _ _ _ => trivial) fun _ _ => trivial
    obtain @⟨template, columns, params, takes⟩ := hsound.of_mem_tests ht
    exact ⟨template, columns, params, rfl, Test.filled_toFragment takes.1.symm _⟩

/-- Arguments that hold places, or make one with the text around them, stay as they are. -/
theorem render_lookalikes :
    Cut "%ss = %s".toList [[], "s = ".toList, []] ∧
      (render "%ss = %s" ["%", "%s"]).toList = "%s = %s".toList ∧
      Filling.Ends ⟨[], "%ss = %s".toList, ["%".toList, "%s".toList]⟩ 2 "%s = %s".toList ∧
      (∃ rule ∈ Rule.table, rule.form.test? = some ("%s IN (%s)", 1, 1)) ∧
      Filled "%s IN (%s)".toList ["people.%s".toList, ":p%s".toList] "people.%s IN (:p%s)".toList ∧
      ∃ root conditions done plan,
        Query.Compiles Schema.people "Person" Query.manyWays {} root conditions done plan ∧
        ∃ t ∈ done.finish.tests, ∃ template columns params,
          t = Test.template template columns params ∧
          Filled template.toList (Test.arguments false columns params)
            (t.toFragment false).sql.toList := by
  obtain ⟨-, hrender, hrules, hcompiled⟩ := render_in_order
  have hcut : Cut "%ss = %s".toList [[], "s = ".toList, []] := cut_iff.2 (by decide +kernel)
  have htext : interleave [[], "s = ".toList, []] ["%".toList, "%s".toList] = "%s = %s".toList := by
    decide
  obtain ⟨hfilled, hends⟩ := hrender _ _ ["%", "%s"] hcut rfl
  have hrule : ∃ rule ∈ Rule.table, rule.form.test? = some ("%s IN (%s)", 1, 1) := by decide +kernel
  obtain ⟨rule, hmem, htest⟩ := hrule
  obtain ⟨hlisted, -⟩ := hrules rule hmem "%s IN (%s)" [⟨"people", "%s"⟩] ["p%s"] false htest
  have hbindings : (Query.compile Schema.people "Person" Query.manyWays {}).toOption.map
      (fun plan => plan.bindings.length) = some 4 := by
    decide +kernel
  obtain ⟨plan, hplan, hfour⟩ := exists_of_map_toOption hbindings
  obtain ⟨root, conditions, done, hcompiles⟩ := Query.compile_eq_ok_iff.1 hplan
  -- each value that is bound stands in a test
  have haccounts := hcompiles.accounts (fun _ => trivial) (Query.binds_any Query.manyWays)
  rw [hcompiles.plan_eq, Statement.bindings_toPlan] at hfour
  have hpos : 0 < done.finish.bindings.length := by omega
  obtain ⟨b, hb⟩ := List.exists_mem_of_length_pos hpos
  obtain ⟨t, ht, -⟩ := haccounts.used b hb
  exact ⟨hcut, hfilled.trans htext, (hends _ _).2 ⟨rfl, htext.symm⟩, ⟨rule, hmem, htest⟩, hlisted,
    root, conditions, done, plan, hcompiles, t, ht, hcompiled _ _ _ _ _ _ _ _ hcompiles t ht⟩

end Template

end DocQuery
