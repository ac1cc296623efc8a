import DocQuery.Proofs.Events.Traces
import DocQuery.Proofs.Quotes.Statement
import DocQuery.Proofs.Schema.Identifiers

namespace DocQuery

/-! # The columns of derived tables

A derived table has the columns that the select list of its statement produces: those of the base
table, whose rows are selected as a whole, and those that are listed besides. Conditions on its row
read them under their names, so what is produced twice is ambiguous. Exactly what the sub-query
itself lists is.

* `produces_of_compile`: every derived table of a compiled query produces the columns that its
  sub-query lists.
-/

open Draft

variable {s : Schema}

/-! ## Produced columns -/

/-- The names of the declared columns. -/
def Model.columnNames (m : Model s) : List String := m.definition.columns.map (·.name)

/-- No model declares two columns of one name. -/
def Schema.DistinctColumns (s : Schema) : Prop :=
  ∀ entry ∈ s.models.entries, (entry.2.columns.map (·.name)).Nodup

instance : Decidable s.DistinctColumns :=
  inferInstanceAs (Decidable (∀ entry ∈ s.models.entries, _))

theorem Schema.DistinctColumns.nodup (h : s.DistinctColumns) (m : Model s) : m.columnNames.Nodup :=
  h _ (Dictionary.mem_of_find? m.found)

/-- The columns that the entry produces, over a base table with the given columns. -/
def SelectItem.produced (columns : List String) : SelectItem → List String
  | rowsOf _ => columns
  | column c => [c.column]
  | text _ => []

/-- The columns that the statement produces, over a base table with the given columns. -/
def Statement.produced (statement : Statement) (columns : List String) : List String :=
  statement.select.flatMap (SelectItem.produced columns)

/-- A statement of rows and listed columns produces a column of the base table once, and once more
each time that it is listed. -/
theorem Statement.count_produced {statement : Statement} {columns : List String} {base name : String}
    {listed : List QualifiedColumn} (hselect : statement.select = .rowsOf base :: listed.map .column)
    (hdistinct : columns.Nodup) (hname : name ∈ columns) :
    (statement.produced columns).count name = 1 + (listed.map (·.column)).count name := by
  have hlisted : (listed.map SelectItem.column).flatMap (SelectItem.produced columns) =
      listed.map (·.column) := by
    rw [List.flatMap_map, List.map_eq_flatMap]
    rfl
  rw [produced, hselect, List.flatMap_cons, hlisted, List.count_append, SelectItem.produced,
    List.count_eq_one_of_mem hdistinct hname]

/-- The statement is one of a sub-query over the relation. It selects the rows of the relation's
target and lists columns besides. A declared column is produced once, unless the sub-query lists one
of its name. The same goes for the statements inside. (A listed column called `*` may be written
like the rows of the base table, and then it does not enter the list.) -/
inductive Condition.Produces : Relation s × List (Condition s) → Statement → Prop where
  | intro {relation : Relation s} {subquery : List (Condition s)} {statement : Statement}
      {listed : List QualifiedColumn} (base : statement.baseTable = relation.target.table)
      (select : statement.select = .rowsOf statement.baseAlias :: listed.map .column)
      (once : ∀ name ∈ relation.target.columnNames, name ∉ listedByEach subquery →
        (statement.produced relation.target.columnNames).count name = 1)
      (repeated : ∀ name ∈ relation.target.columnNames, name ∈ listedByEach subquery → name ≠ "*" →
        2 ≤ (statement.produced relation.target.columnNames).count name)
      (inner : List.Forall₂ Produces (subqueriesOfEach subquery) statement.derived) :
      Produces (relation, subquery) statement

/-! ## Select lists -/

namespace Draft

variable {d e : Draft s} {events : List (Event s)}

/-- The draft selects the rows of its base table and lists columns besides. -/
structure Selects (d : Draft s) (listed : List QualifiedColumn) : Prop where
  select_eq : d.select = .rowsOf d.baseAlias :: listed.map .column
  undotted : ∀ c ∈ listed, '.' ∉ c.column.toList

theorem selects_nestedDraft (d : Draft s) (place : TablePath) (model : Model s) :
    (d.nestedDraft place model).Selects [] := ⟨rfl, List.forall_mem_nil _⟩

theorem Selects.of_same {listed : List QualifiedColumn} (h : d.Selects listed)
    (hselect : e.select = d.select) (hbase : e.baseAlias = d.baseAlias) : e.Selects listed :=
  ⟨hselect.trans (hbase ▸ h.select_eq), h.undotted⟩

/-- The columns listed before stay; what comes in are columns of the names, each of which is there
in the end. The name `*` may be written like the rows of the base table. -/
structure Enlists (names : List String) (listed listed' : List QualifiedColumn) : Prop where
  kept : ∀ c ∈ listed, c ∈ listed'
  entered : ∀ name ∈ names, name ≠ "*" → ∃ c ∈ listed', c.column = name
  only : ∀ c ∈ listed', c ∈ listed ∨ c.column ∈ names

theorem enlists_nil (listed : List QualifiedColumn) : Enlists [] listed listed :=
  ⟨fun _ hc => hc, List.forall_mem_nil _, fun _ hc => .inl hc⟩

theorem Enlists.append {names names' : List String} {listed listed' listed'' : List QualifiedColumn}
    (h : Enlists names listed listed') (h' : Enlists names' listed' listed'') :
    Enlists (names ++ names') listed listed'' := by
  constructor
  · -- rcases an entry at the end is one of the second step's, of the first step's, or stood there
    -- before
    intro c hc
    exact h'.kept c (h.kept c hc)
  · intro name hname hstar
    rcases List.mem_append.1 hname with hname | hname
    · obtain ⟨c, hc, heq⟩ := h.entered name hname hstar
      exact ⟨c, h'.kept c hc, heq⟩
    · exact h'.entered name hname hstar
  · intro c hc
    rcases h'.only c hc with hc | hname
    · rcases h.only c hc with hc | hname
      · exact .inl hc
      · exact .inr (List.mem_append_left _ hname)
    · exact .inr (List.mem_append_right _ hname)

/-- What listing one column does. -/
theorem enlists_singleton {listed listed' : List QualifiedColumn} {c : QualifiedColumn}
    (h : listed' = listed ∧ (c ∈ listed ∨ c.column = "*") ∨ listed' = listed ++ [c]) :
    Enlists [c.column] listed listed' := by
  rcases h with ⟨rfl, hthere⟩ | rfl
  · constructor
    · intro other hother
      exact hother
    · intro name hname hstar
      cases List.mem_singleton.1 hname
      exact ⟨c, hthere.resolve_right hstar, rfl⟩
    · intro other hother
      exact .inl hother
  · constructor
    · intro other hother
      exact List.mem_append_left _ hother
    · intro name hname _
      cases List.mem_singleton.1 hname
      exact ⟨c, List.mem_append_right _ (List.mem_singleton_self c), rfl⟩
    · intro other hother
      rcases List.mem_append.1 hother with hother | hother
      · exact .inl hother
      · cases List.mem_singleton.1 hother
        exact .inr (List.mem_singleton_self _)

/-- A column enters the list, unless it is there already or is written like the rows of the base
table. -/
theorem Selects.addSelect {listed : List QualifiedColumn} (h : d.Selects listed) {c : QualifiedColumn}
    (hundotted : '.' ∉ c.column.toList) : ∃ listed', (d.addSelect (.column c)).Selects listed' ∧
      Enlists [c.column] listed listed' := by
  unfold Draft.addSelect
  dsimp only
  split
  · rename_i hwritten
    refine ⟨listed, h, enlists_singleton (.inl ⟨rfl, ?_⟩)⟩
    rw [h.select_eq, List.any_eq_true] at hwritten
    obtain ⟨item, hitem, hsame⟩ := hwritten
    have hsame := (beq_iff_eq.1 hsame).symm
    rcases List.mem_cons.1 hitem with rfl | hitem
    · -- a column that is printed as all rows is none that anybody has asked for
      right
      by_contra hstar
      exact c.toSql_ne_rowsOf hundotted (fun heq => absurd heq hstar) _ hsame
    · -- columns with no dot in their name are the same if they are printed alike
      left
      obtain ⟨other, hother, rfl⟩ := List.mem_map.1 hitem
      have heq := (QualifiedColumn.toSql_inj hundotted (h.undotted other hother) _).1 hsame
      exact heq ▸ hother
  · refine ⟨listed ++ [c], ?_, enlists_singleton (.inr rfl)⟩
    constructor
    · simp [h.select_eq]
    · intro other hother
      rcases List.mem_append.1 hother with hother | hother
      · exact h.undotted other hother
      · rw [List.mem_singleton.1 hother]
        exact hundotted

/-- Over the same base table, the columns that the events list enter the select list. -/
structure Extends (events : List (Event s)) (d e : Draft s) : Prop where
  model : e.model = d.model
  baseAlias : e.baseAlias = d.baseAlias
  selects : ∀ listed, d.Selects listed → ∃ listed', e.Selects listed' ∧
    Enlists (events.filterMap Event.listed?) listed listed'

theorem addIncludes_eq (d : Draft s) (paths : List TablePath) (path : TablePath) :
    ∃ includes, (paths.foldl addInclude d).addInclude path = { d with includes } := by
  induction paths generalizing d with
  | nil =>
    rw [List.foldl_nil, addInclude]
    split
    · exact ⟨d.includes, rfl⟩
    · exact ⟨_, rfl⟩
  | cons first paths ih =>
    rcases ih (d.addInclude first) with ⟨includes, heq⟩
    refine ⟨includes, ?_⟩
    rw [List.foldl_cons, heq, addInclude]
    split <;> rfl

theorem addSelect_eq (d : Draft s) (item : SelectItem) :
    ∃ select, d.addSelect item = { d with select } := by
  unfold Draft.addSelect
  dsimp only
  split
  · exact ⟨d.select, rfl⟩
  · exact ⟨_, rfl⟩

theorem Traces.extends (h : Traces events d e) : Extends events d e := by
  -- only a listed column changes the select list; steps that follow each other enlist one after the
  -- other
  induction h with
  | quiet h =>
    exact ⟨h.model, h.baseAlias,
      fun listed hd => ⟨listed, hd.of_same h.select h.baseAlias, enlists_nil listed⟩⟩
  | trans _ _ ihFirst ihSecond =>
    refine ⟨ihSecond.model.trans ihFirst.model, ihSecond.baseAlias.trans ihFirst.baseAlias,
      fun listed hd => ?_⟩
    rcases ihFirst.selects listed hd with ⟨listed', hmiddle, hfirst⟩
    rcases ihSecond.selects listed' hmiddle with ⟨listed'', hend, hsecond⟩
    rw [List.filterMap_append]
    exact ⟨listed'', hend, hfirst.append hsecond⟩
  | @load d spot paths onTheWay =>
    rcases addIncludes_eq d paths spot.table with ⟨includes, heq⟩
    rw [heq]
    exact ⟨rfl, rfl, fun listed hd => ⟨listed, hd.of_same rfl rfl, enlists_nil listed⟩⟩
  | @list d c undotted =>
    rcases addSelect_eq d (.column c) with ⟨select, heq⟩
    exact ⟨by rw [heq], by rw [heq], fun listed hd => hd.addSelect undotted⟩
  | embed account inside correlates =>
    exact ⟨rfl, rfl, fun listed hd => ⟨listed, hd.of_same rfl rfl, enlists_nil listed⟩⟩

/-! ## Embedded statements -/

/-- The statement of a sub-query that has been built and correlated. -/
theorem produces_finish (hschema : s.DistinctColumns) {built done : Draft s} {place : TablePath}
    {a : String} {relation : Relation s} {subquery : List (Condition s)}
    {trees : List (Predicate Test)} {inner : List (Event s)}
    (account : Condition.Accounts inner (Condition.listedByEach subquery)
      (Condition.subqueriesOfEach subquery))
    (inside : Traces inner (d.nestedDraft place relation.target) built)
    (correlates : Correlates a relation (built.pushWhere (.all trees)) done)
    (hinner : List.Forall₂ Condition.Produces (Condition.subqueriesOfEach subquery) built.derived) :
    Condition.Produces (relation, subquery) done.finish := by
  -- what follows the build of the conditions leaves the select list as it is
  have hwhere : built.Quiet (built.pushWhere (.all trees)) := ⟨rfl, rfl, rfl, rfl, rfl⟩
  have hquiet := hwhere.trans correlates.quiet
  have hextends := inside.extends
  rcases hextends.selects [] (selects_nestedDraft d place relation.target) with
    ⟨listed, hselects, henlists⟩
  rw [account.listed_eq] at henlists
  have hdone := hselects.of_same hquiet.select hquiet.baseAlias
  -- the base table produces each of its columns once, and each entry of the list one more
  have hcount : ∀ name ∈ relation.target.columnNames,
      (done.finish.produced relation.target.columnNames).count name =
        1 + (listed.map (·.column)).count name := fun name hname =>
    Statement.count_produced hdone.select_eq (hschema.nodup relation.target) hname
  refine .intro ?_ hdone.select_eq (fun name hname hfree => ?_) (fun name hname hlisted hstar => ?_) ?_
  · exact congrArg Model.table (hquiet.model.trans hextends.model)
  · have hnone : name ∉ listed.map (·.column) := by
      intro hmem
      rcases List.mem_map.1 hmem with ⟨c, hc, rfl⟩
      exact hfree ((henlists.only c hc).resolve_left List.not_mem_nil)
    rw [hcount name hname, List.count_eq_zero_of_not_mem hnone]
  · rcases henlists.entered name hlisted hstar with ⟨c, hc, rfl⟩
    have hpos : 0 < (listed.map (·.column)).count c.column :=
      List.count_pos_iff.2 (List.mem_map_of_mem hc)
    rw [hcount _ hname]
    omega
  · have hderived : done.finish.derived = built.derived := hquiet.derived
    rw [hderived]
    exact hinner

/-- The statements that come in are those of the sub-queries. -/
theorem Traces.derived (hschema : s.DistinctColumns) (h : Traces events d e) :
    ∃ statements, e.derived = d.derived ++ statements ∧
      List.Forall₂ Condition.Produces (events.filterMap Event.embedded?) statements := by
  induction h with
  | quiet h => exact ⟨[], by rw [h.derived, List.append_nil], .nil⟩
  | trans _ _ ihFirst ihSecond =>
    rcases ihFirst with ⟨statements, hfirst, hproduces⟩
    rcases ihSecond with ⟨statements', hsecond, hproduces'⟩
    refine ⟨statements ++ statements', ?_, ?_⟩
    · rw [hsecond, hfirst, List.append_assoc]
    · rw [List.filterMap_append]
      exact List.rel_append hproduces hproduces'
  | @load d spot paths onTheWay =>
    rcases addIncludes_eq d paths spot.table with ⟨includes, heq⟩
    rw [heq]
    exact ⟨[], (List.append_nil _).symm, .nil⟩
  | @list d c undotted =>
    rcases addSelect_eq d (.column c) with ⟨select, heq⟩
    rw [heq]
    exact ⟨[], (List.append_nil _).symm, .nil⟩
  -- one statement is embedded; those inside it are its own
  | @embed d built done place a relation subquery trees inner account inside correlates ih =>
    rcases ih with ⟨statements, hbuilt, hproduces⟩
    have hinner : built.derived = statements := hbuilt
    rw [account.embedded_eq, ← hinner] at hproduces
    exact ⟨[done.finish], derived_addJoin _ _,
      .cons (produces_finish hschema account inside correlates hproduces) .nil⟩

end Draft

namespace Query

open Condition

variable {model : String} {query : Json} {config : Config} {plan : Plan}

/-- In the statement of every sub-query of a plan, at any depth, each declared column of the target
is produced once if the sub-query lists none of its name, and repeatedly if it does. -/
theorem produces_of_compile (hschema : s.DistinctColumns) (h : compile s model query config = .ok plan) :
    ∃ root conditions done, Compiles s model query config root conditions done plan ∧
      List.Forall₂ Produces (subqueriesOfEach conditions) done.finish.derived := by
  rcases compile_eq_ok_iff.1 h with ⟨root, conditions, done, hcompiles⟩
  rcases hcompiles.traces.derived hschema with ⟨statements, hderived, hproduces⟩
  have haccount := eventsOfEach_account conditions (.start root) ⟨0, []⟩
  have hdone : done.finish.derived = statements := hderived
  rw [haccount.embedded_eq, ← hdone] at hproduces
  exact ⟨root, conditions, done, hcompiles, hproduces⟩

end Query

namespace Schema

/-- A schema with people and their articles, which declares the key columns too. -/
def bylines : Schema :=
  ⟨.ofList
    [("Person",
      { table := "people"
        columns := [⟨"id", ""⟩, ⟨"surname", ""⟩]
        relations := .ofList [("articles", .oneToMany "Article" "person_id")] }),
    ("Article",
      { table := "articles"
        columns := [⟨"id", ""⟩, ⟨"person_id", ""⟩, ⟨"title", ""⟩, ⟨"rating", ""⟩]
        relations := .ofList [("author", .manyToOne "Person" "person_id")] })]⟩

/-- The columns of an article. -/
def articleColumns : List String := ["id", "person_id", "title", "rating"]

end Schema

namespace Query

open Condition Schema

/-- A sub-query that lists a column of another table, and a condition that reads a column of its
row. -/
def listedSurname : Json :=
  .object
    [("articles()", .array
      [.object [("author.surname", .null), ("order:", .string "rating")],
        .object [("title=", .string "Roe")]])]

/-- Nothing that the sub-query lists has the name of a declared column, so each is produced once. -/
theorem produces_listedSurname :
    bylines.DistinctColumns ∧
      ∃ plan root conditions done, compile bylines "Person" listedSurname {} = .ok plan ∧
        Compiles bylines "Person" listedSurname {} root conditions done plan ∧
        ∃ statement, done.finish.derived = [statement] ∧ ∀ name ∈ articleColumns,
          (statement.produced articleColumns).count name = 1 := by
  have hschema : bylines.DistinctColumns := by decide +kernel
  have hselect : (compile bylines "Person" listedSurname {}).toOption.map
      (fun plan => plan.select.length) = some 1 := by decide +kernel
  have hlisted : (parse bylines "Person" listedSurname).toOption.map (fun conditions =>
      (subqueriesOfEach conditions).map fun q => (q.1.target.columnNames, listedByEach q.2)) =
        some [(articleColumns, ["surname"])] := by decide +kernel
  rcases exists_of_map_toOption hselect with ⟨plan, hplan, _⟩
  rcases exists_of_map_toOption hlisted with ⟨conditions, hparse, hsubqueries⟩
  rcases produces_of_compile hschema hplan with ⟨root, read, done, hcompiles, hproduces⟩
  rw [parse, rootModel_eq_ok_iff.2 hcompiles.root_eq] at hparse
  cases hcompiles.conditions_eq.symm.trans hparse
  rcases List.map_eq_singleton_iff.1 hsubqueries with ⟨⟨relation, subquery⟩, hq, hparts⟩
  rw [Prod.mk.injEq] at hparts
  rw [hq, List.forall₂_cons_left_iff] at hproduces
  rcases hproduces with ⟨statement, rest, hfirst, hrest, hderived⟩
  rw [List.forall₂_nil_left_iff.1 hrest] at hderived
  refine ⟨hschema, plan, root, conditions, done, hplan, hcompiles, statement, hderived,
    fun name hname => ?_⟩
  cases hfirst with
  | intro base select once repeated inner =>
    rw [hparts.1, hparts.2] at once
    have hapart : ∀ name ∈ articleColumns, name ∉ ["surname"] := by decide
    exact once name hname (hapart name hname)

/-- A sub-query that lists a column of its own table, and a condition that reads it. -/
def listedTitle : Json :=
  .object
    [("articles()", .array [.object [("title", .null)], .object [("title=", .string "Roe")]])]

/-- The condition reads a column that the derived table has twice. -/
theorem produces_listedTitle :
    bylines.DistinctColumns ∧
    ∃ plan root conditions statement, compile bylines "Person" listedTitle {} = .ok plan ∧
      rootModel bylines "Person" = .ok root ∧
      Condition.ofDocument listedTitle root = .ok conditions ∧
      assemble root conditions {} = .ok statement ∧
      plan = statement.toPlan false ∧ plan.whereClause = some "smql_sub_articles.title = :p1" ∧
      ∃ sub, statement.derived = [sub] ∧ (sub.produced articleColumns).count "title" = 2 := by
  have hcounts : (do
      let root ← rootModel bylines "Person"
      let conditions ← Condition.ofDocument listedTitle root
      assemble root conditions {}).toOption.map (fun statement : Statement =>
        ((statement.toPlan false).whereClause, statement.derived.map fun sub : Statement =>
          (sub.produced articleColumns).count "title")) =
        some (some "smql_sub_articles.title = :p1", [2]) := by
    decide +kernel
  rcases exists_of_map_toOption hcounts with ⟨statement, hstatement, hparts⟩
  simp only [bind_eq_ok_iff] at hstatement
  rcases hstatement with ⟨root, hroot, conditions, hconditions, hassemble⟩
  have hplan : compile bylines "Person" listedTitle {} = .ok (statement.toPlan false) := by
    simp only [compile, bind_eq_ok_iff, pure_eq_ok_iff]
    exact ⟨root, hroot, conditions, hconditions, statement, hassemble, rfl⟩
  rw [Prod.mk.injEq] at hparts
  rcases List.map_eq_singleton_iff.1 hparts.2 with ⟨sub, hsub, hcount⟩
  exact ⟨by decide +kernel, _, root, conditions, statement, hplan, hroot, hconditions, hassemble, rfl,
    hparts.1, sub, hsub, hcount⟩

end Query

end DocQuery
