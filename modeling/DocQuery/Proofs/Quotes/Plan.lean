import DocQuery.Proofs.Parameters.Account
import DocQuery.Proofs.Quotes.Build

namespace DocQuery

/-! # Plans with quoted identifiers

The statement of a query is the same whether identifiers are quoted or not, so the two plans differ
in their texts alone, and there in the quotes.

* `assemble_requoted`: assembling does not look at whether identifiers are quoted.
* `compile_unquotes`: a query compiles with quotes exactly if it does without, to plans that differ
  in the quotes.
* `orderedByStar_differs`: an alias that starts like a selected table tells a quoted column from a
  bare one.
-/

open Build Draft

variable {s : Schema} {stem : String}

/-- The second plan is the first without quotes. -/
structure Plan.Unquotes (quoted bare : Plan) : Prop where
  bindings : quoted.bindings = bare.bindings
  limit : quoted.limit = bare.limit
  offset : quoted.offset = bare.offset
  includes : quoted.includes = bare.includes
  select : quoted.select.length = bare.select.length
  joins : quoted.joins.length = bare.joins.length
  order : quoted.order.length = bare.order.length
  toSql : quoted.toSql.toList.filter (· ≠ '"') = bare.toSql.toList

namespace Statement

theorem length_joinTexts (quoted : Bool) (joins : List (Join Statement)) :
    (joinTexts quoted joins).length = joins.length := by
  induction joins with
  | nil => rfl
  | cons join joins ih => rw [joinTexts, List.length_cons, List.length_cons, ih]

/-- The plans of a sound statement, as its parameters have no quotes in their names. -/
theorem Sound.unquotes {st : Statement} (h : st.Sound (· ≠ '"'))
    (hparams : ∀ test param, .operand test param ∈ st.tokens true → Quoteless param) :
    (st.toPlan true).Unquotes (st.toPlan false) where
  bindings := by
    rcases st with ⟨⟩
    simp only [toPlan]
  limit := by
    rcases st with ⟨⟩
    simp only [toPlan]
  offset := by
    rcases st with ⟨⟩
    simp only [toPlan]
  includes := by
    rcases st with ⟨⟩
    simp only [toPlan]
  select := by
    rcases st with ⟨⟩
    simp only [toPlan, List.length_map]
  joins := by
    rcases st with ⟨⟩
    simp only [toPlan, length_joinTexts]
  order := by
    rcases st with ⟨⟩
    simp only [toPlan, List.length_map]
  toSql := by
    rw [← textOf_tokens, ← textOf_tokens]
    exact (st.unquotes_tokens true h).textOf_eq fun test param hmem => (hparams test param hmem).notMem

end Statement

namespace Query

variable {model : String} {query : Json} {config : Config} {root : Model s}
  {conditions : List (Condition s)} {done : Draft s} {plan : Plan}

/-- Quoting makes no difference to the statement of a document's conditions. -/
theorem assemble_requoted (hdocument : Condition.ofDocument query root = .ok conditions)
    (hmarked : ¬(Marked config.aliasStem ∧ ∃ m : Model s, m.hasColumn "*" = true)) (quoted : Bool) :
    assemble root conditions { config with quoteIdentifiers := quoted } =
      assemble root conditions config := by
  -- what is listed is compared in its printed form, so a column printed as all rows has to be ruled
  -- out
  have hlists : ∀ c ∈ conditions, c.Lists (Listable config.aliasStem) := by
    refine Condition.lists_of_ofDocument (fun m name hcolumn hundotted => ⟨hundotted, ?_⟩) hdocument
    rintro rfl hstem
    exact hmarked ⟨hstem, m, hcolumn⟩
  have hlegible : (Draft.new root config).Legible config.aliasStem :=
    legible_withBase root rfl root.table [] 0
  have hrun := (Condition.buildWhere_requotes quoted hlists (.root root.table) hlegible).runOn_eq
  have hnew : Draft.new root { config with quoteIdentifiers := quoted } =
      (Draft.new root config).withQuotes quoted := rfl
  have hbase : ∀ config : Config, (Draft.new root config).base = .root root.table := fun _ => rfl
  unfold assemble
  simp only [hbase]
  rw [hnew, hrun]
  cases (Condition.buildWhere conditions (.root root.table)).runOn (Draft.new root config) with
  | mk result done =>
    cases result with
    | error e => rfl
    | ok u => rfl

/-- A document that has been read is assembled and rendered. -/
theorem compile_eq_map (hroot : rootModel s model = .ok root)
    (hdocument : Condition.ofDocument query root = .ok conditions) (config : Config) :
    compile s model query config =
      (assemble root conditions config).map (Statement.toPlan config.quoteIdentifiers) := by
  rw [compile, hroot]
  change (Condition.ofDocument query root >>= _) = _
  rw [hdocument]
  change (assemble root conditions config >>= _) = _
  cases assemble root conditions config with
  | error e => rfl
  | ok statement => rfl

/-- The statement of a query is written without quotes but for those around identifiers. -/
theorem Compiles.unquotes (h : Compiles s model query config root conditions done plan)
    (hschema : ∀ name ∈ s.identifiers, Quoteless name) (hstem : Quoteless config.aliasStem)
    (hparam : Quoteless config.paramStem) :
    (done.finish.toPlan true).Unquotes (done.finish.toPlan false) := by
  have hsound : done.finish.Sound (· ≠ '"') :=
    h.sound (fun _ => trivial) (binds_any query) (fun _ _ hc => hc) hschema hstem
  refine hsound.unquotes fun test param hmem => ?_
  have haccounts := h.accounts (fun _ => trivial) (binds_any query)
  have hspelled : done.finish.Sound fun _ => True :=
    h.sound (fun _ => trivial) (binds_any query) (fun _ _ _ => trivial) (fun _ _ _ _ => trivial)
      fun _ _ => trivial
  have hreads := done.finish.reads_tokens (fun _ _ => trivial) true hspelled
  -- an operand is one of the parameters, whose names are the stem with a number
  have hname := haccounts.mem_iff.1 ⟨test, hreads.mem_iff.2 hmem⟩
  rcases List.mem_map.1 hname with ⟨i, _, rfl⟩
  exact hparam.append (.toString_nat (fun _ _ hc => hc) i)

/-- With and without quotes around identifiers a query fails alike, or compiles to plans that differ
in the quotes alone. -/
theorem compile_unquotes (config : Config) (hschema : ∀ name ∈ s.identifiers, '"' ∉ name.toList)
    (hstem : '"' ∉ config.aliasStem.toList) (hparam : '"' ∉ config.paramStem.toList)
    (hmarked : ¬("DISTINCT ".toList <+: config.aliasStem.toList ∧
      ∃ m : Model s, m.hasColumn "*" = true)) (model : String) (query : Json) :
    (∃ e, compile s model query { config with quoteIdentifiers := true } = .error e ∧
        compile s model query { config with quoteIdentifiers := false } = .error e) ∨
      ∃ quoted bare, compile s model query { config with quoteIdentifiers := true } = .ok quoted ∧
        compile s model query { config with quoteIdentifiers := false } = .ok bare ∧
          quoted.Unquotes bare := by
  have hquoteless : ∀ {name : String}, '"' ∉ name.toList → Quoteless name := by
    intro name hname c hc hquote
    exact hname (hquote ▸ hc)
  -- neither finding the model nor reading the document looks at the configuration
  cases hroot : rootModel s model with
  | error e =>
    have hfails : ∀ config, compile s model query config = .error e := by
      intro config
      rw [compile, hroot]
      rfl
    exact .inl ⟨e, hfails _, hfails _⟩
  | ok root =>
    cases hdocument : Condition.ofDocument query root with
    | error e =>
      have hfails : ∀ config, compile s model query config = .error e := by
        intro config
        rw [compile, hroot]
        change (Condition.ofDocument query root >>= _) = _
        rw [hdocument]
        rfl
      exact .inl ⟨e, hfails _, hfails _⟩
    | ok conditions =>
      -- both plans are printed from the one statement
      have hcompile : ∀ quoted, compile s model query { config with quoteIdentifiers := quoted } =
          (assemble root conditions config).map (Statement.toPlan quoted) := by
        intro quoted
        rw [← assemble_requoted hdocument hmarked quoted]
        exact compile_eq_map hroot hdocument _
      cases hstatement : assemble root conditions config with
      | error e =>
        rw [hstatement] at hcompile
        exact .inl ⟨e, hcompile true, hcompile false⟩
      | ok statement =>
        rw [hstatement] at hcompile
        rcases assemble_eq_ok_iff.1 hstatement with ⟨done, hrun, rfl⟩
        have hcompiles : Compiles s model query config root conditions done
            (done.finish.toPlan config.quoteIdentifiers) :=
          ⟨rootModel_eq_ok_iff.1 hroot, hdocument, hrun, rfl⟩
        exact .inr ⟨_, _, hcompile true, hcompile false, hcompiles.unquotes
          (fun name hname => hquoteless (hschema name hname)) (hquoteless hstem) (hquoteless hparam)⟩

theorem unquotes_manyWays :
    ∃ quoted bare, compile Schema.people "Person" manyWays { quoteIdentifiers := true } = .ok quoted ∧
      compile Schema.people "Person" manyWays {} = .ok bare ∧ quoted.select.length = 1 ∧
        quoted.Unquotes bare := by
  have hschema : ∀ name ∈ Schema.people.identifiers, '"' ∉ name.toList := by decide +kernel
  have hselect : (compile Schema.people "Person" manyWays { quoteIdentifiers := true }).toOption.map
      (fun plan => plan.select.length) = some 1 := by decide +kernel
  rcases exists_of_map_toOption hselect with ⟨plan, hplan, hone⟩
  rcases compile_unquotes {} hschema (by decide) (by decide) (fun h => absurd h.1 (by decide)) "Person"
    manyWays with ⟨e, hfails, _⟩ | ⟨quoted, bare, hquoted, hbare, hunquotes⟩
  · rw [hplan] at hfails
    cases hfails
  · rw [hplan] at hquoted
    cases hquoted
    exact ⟨plan, bare, hplan, hbare, hone, hunquotes⟩

end Query

/-! ## Where the plans differ -/

namespace Schema

/-- A model whose rows are related to those of one with a column called `*`. -/
def starred : Schema :=
  ⟨.ofList
    [("A",
      { table := "x_a"
        columns := [⟨"id", ""⟩]
        relations := .ofList [("a", .oneToMany "B" "a_id")] }),
    ("B", { table := "b", columns := [⟨"id", ""⟩, ⟨"*", ""⟩] })]⟩

end Schema

namespace Query

def orderedByStar : Json := .object [("order:", .string "a.*")]

/-- The stem of aliases makes the alias of a joined table look like the rows of the base table. -/
def rowsLike : Config := { aliasStem := "DISTINCT x" }

/-- Without quotes the column `*` is taken for the rows of the base table and is not selected, with
quotes it is. A parameter whose name has a quote brings one into the text of either plan. -/
theorem orderedByStar_differs :
    rowsLike.validate = .ok () ∧ '"' ∉ rowsLike.aliasStem.toList ∧
      (∀ name ∈ Schema.starred.identifiers, '"' ∉ name.toList) ∧
      (compile Schema.starred "A" orderedByStar { rowsLike with quoteIdentifiers := true }).toOption.map
        (fun plan => plan.select.length) = some 2 ∧
      (compile Schema.starred "A" orderedByStar { rowsLike with quoteIdentifiers := false }).toOption.map
        (fun plan => plan.select.length) = some 1 ∧
      (compile Schema.people "Person" (.object [("surname=", .string "Doe")])
        { paramStem := "\"" }).toOption.map (fun plan => plan.toSql.toList.contains '"') =
          some true := by
  refine ⟨rfl, by decide, ?_, ?_, ?_, ?_⟩
  · decide +kernel
  · decide +kernel
  · decide +kernel
  · decide +kernel

end Query

end DocQuery
