import DocQuery.Proofs.Condition.Functions

namespace DocQuery

/-! # What ordering leaves in a draft

Rows are told apart by what is selected, so a statement can only be ordered by columns of its base
table, whose rows are selected as a whole, and by columns that are selected besides. `Orders` says
so of a statement and of those embedded in it. `Sorts` is what a part of a build leaves of it in a
draft.

* `Sorts.orders`: what a build leaves of orders in a draft, its statement has.
-/

open Build

variable {s : Schema}

namespace Condition

/-- The entries of a call of `order`. -/
def orderEntries : Condition s → List (Column s × Direction)
  | .order entries => entries
  | _ => []

/-- The entries by which calls order, in their order. -/
def entriesOf (calls : List (Condition s)) : List (Column s × Direction) := calls.flatMap orderEntries

theorem entriesOf_append (calls more : List (Condition s)) :
    entriesOf (calls ++ more) = entriesOf calls ++ entriesOf more := List.flatMap_append

end Condition

/-- The text of an ORDER BY list is that of the entry: a column with a direction. A column of the
base table belongs to its alias, and any other is selected. -/
inductive OrderEntry.Covered (quoted : Bool) (base : String) (selected : List String) :
    Column s × Direction → String → Prop where
  | own {c : Column s} {direction : Direction} (here : c.path = []) :
      Covered quoted base selected (c, direction)
        (QualifiedColumn.toSql quoted ⟨base, c.name.getD ""⟩ ++ " " ++ direction.keyword)
  | joined {c : Column s} {direction : Direction} {tableAlias : String} (away : c.path ≠ [])
      (listed : QualifiedColumn.toSql quoted ⟨tableAlias, c.name.getD ""⟩ ∈ selected) :
      Covered quoted base selected (c, direction)
        (QualifiedColumn.toSql quoted ⟨tableAlias, c.name.getD ""⟩ ++ " " ++ direction.keyword)

theorem OrderEntry.Covered.mono {quoted : Bool} {base : String} {selected selected' : List String}
    {entry : Column s × Direction} {text : String} (h : Covered quoted base selected entry text)
    (hsubset : selected ⊆ selected') : Covered quoted base selected' entry text := by
  cases h with
  | own here => exact .own here
  | joined away listed => exact .joined away (hsubset listed)

namespace Statement

theorem select_toPlan (quoted : Bool) (statement : Statement) :
    (statement.toPlan quoted).select = statement.select.map (SelectItem.toSql quoted) := by
  cases statement
  rw [toPlan]

theorem order_toPlan (quoted : Bool) (statement : Statement) :
    (statement.toPlan quoted).order = statement.order.map (OrderItem.toSql quoted) := by
  cases statement
  rw [toPlan]

end Statement

/-- The plan of the statement selects the rows of its base table, nothing twice, and orders by the
entries of the conditions, each of which is covered by the select list. So do the plans of the
statements embedded in it, by the entries of their own sub-queries. -/
inductive Condition.Orders (quoted : Bool) : List (Condition s) → Statement → Prop where
  | intro {conditions : List (Condition s)} {statement : Statement}
      (head : (statement.toPlan quoted).select.head? =
        some ("DISTINCT " ++ identifier quoted statement.baseAlias ++ ".*"))
      (nodup : (statement.toPlan quoted).select.Nodup)
      (order : List.Forall₂ (OrderEntry.Covered quoted statement.baseAlias
        (statement.toPlan quoted).select) (entriesOf (callsOfEach conditions))
        (statement.toPlan quoted).order)
      (inner : List.Forall₂ (fun subquery => Orders quoted subquery.2) (subqueriesOfEach conditions)
        statement.derived) : Orders quoted conditions statement

namespace Draft

open Condition

/-- The texts of the select list. -/
def selected (d : Draft s) : List String := d.select.map (SelectItem.toSql d.config.quoteIdentifiers)

/-- The texts of the ORDER BY list. -/
def ordered (d : Draft s) : List String := d.order.map (OrderItem.toSql d.config.quoteIdentifiers)

variable {d e f : Draft s} {entries entries' : List (Column s × Direction)}
  {subqueries subqueries' : List (Relation s × List (Condition s))}

/-- The rows of the same table are selected and nothing twice, the entries are ordered by, and the
statements of the sub-queries are embedded. -/
structure Sorts (entries : List (Column s × Direction))
    (subqueries : List (Relation s × List (Condition s))) (d e : Draft s) : Prop where
  config : e.config = d.config
  baseAlias : e.baseAlias = d.baseAlias
  select : d.selected <+: e.selected
  nodup : d.selected.Nodup → e.selected.Nodup
  order : ∃ texts, e.ordered = d.ordered ++ texts ∧
    List.Forall₂ (OrderEntry.Covered d.config.quoteIdentifiers d.baseAlias e.selected) entries texts
  derived : ∃ statements, e.derived = d.derived ++ statements ∧
    List.Forall₂ (fun subquery => Orders d.config.quoteIdentifiers subquery.2) subqueries statements

/-- Nothing is selected, ordered by or embedded. -/
theorem sorts_of_same (hconfig : e.config = d.config) (hbase : e.baseAlias = d.baseAlias)
    (hselect : e.select = d.select) (horder : e.order = d.order) (hderived : e.derived = d.derived) :
    Sorts [] [] d e := by
  have hselected : e.selected = d.selected := by rw [selected, hselect, hconfig, selected]
  have hordered : e.ordered = d.ordered := by rw [ordered, horder, hconfig, ordered]
  constructor
  · exact hconfig
  · exact hbase
  · rw [hselected]
  · intro hnodup
    rwa [hselected]
  · exact ⟨[], by rw [hordered, List.append_nil], .nil⟩
  · exact ⟨[], by rw [hderived, List.append_nil], .nil⟩

theorem Sorts.refl (d : Draft s) : Sorts [] [] d d := sorts_of_same rfl rfl rfl rfl rfl

/-- What is selected later covers what was ordered by before. -/
theorem Sorts.trans (h : Sorts entries subqueries d e) (h' : Sorts entries' subqueries' e f) :
    Sorts (entries ++ entries') (subqueries ++ subqueries') d f where
  config := h'.config.trans h.config
  baseAlias := h'.baseAlias.trans h.baseAlias
  select := h.select.trans h'.select
  nodup hnodup := h'.nodup (h.nodup hnodup)
  order := by
    obtain ⟨texts, htexts, hcovered⟩ := h.order
    -- what the first step selected is still selected after the second
    obtain ⟨texts', htexts', hcovered'⟩ := h'.order
    rw [h.config, h.baseAlias] at hcovered'
    refine ⟨texts ++ texts', by rw [htexts', htexts, List.append_assoc], ?_⟩
    exact List.rel_append (hcovered.imp fun _ _ hentry => hentry.mono h'.select.subset) hcovered'
  derived := by
    obtain ⟨statements, hstatements, horders⟩ := h.derived
    obtain ⟨statements', hstatements', horders'⟩ := h'.derived
    rw [h.config] at horders'
    exact ⟨statements ++ statements', by rw [hstatements', hstatements, List.append_assoc],
      List.rel_append horders horders'⟩

/-- What sorts nothing comes first. -/
theorem Sorts.before (h : Sorts [] [] d e) (h' : Sorts entries subqueries e f) :
    Sorts entries subqueries d f := h.trans h'

/-- What sorts nothing comes last. -/
theorem Sorts.after (h : Sorts entries subqueries d e) (h' : Sorts [] [] e f) :
    Sorts entries subqueries d f := by
  have hboth := h.trans h'
  rwa [List.append_nil, List.append_nil] at hboth

/-! ## Steps -/

theorem Joins.sorts (h : Joins d e) : Sorts [] [] d e := by
  refine sorts_of_same ?_ h.quiet.baseAlias h.quiet.select ?_ h.quiet.derived
  · rw [h.eq_with]
  · rw [h.eq_with]

theorem sorts_bindAll (d : Draft s) (values : List Operand) : Sorts [] [] d (d.bindAll values).2 := by
  induction values generalizing d with
  | nil => exact .refl d
  | cons value values ih =>
    have hfirst : Sorts [] [] d (d.bind value).2 := sorts_of_same rfl rfl rfl rfl rfl
    exact hfirst.before (ih (d.bind value).2)

/-- An entry enters the select list if none of its text is there; it is there then. -/
theorem sorts_addSelect (d : Draft s) (item : SelectItem) : Sorts [] [] d (d.addSelect item) ∧
    item.toSql d.config.quoteIdentifiers ∈ (d.addSelect item).selected := by
  -- entries are told apart by their texts
  have hwritten : (d.select.any fun other =>
      other.toSql d.config.quoteIdentifiers == item.toSql d.config.quoteIdentifiers) = true ↔
        item.toSql d.config.quoteIdentifiers ∈ d.selected := by
    simp [selected]
  by_cases hthere : item.toSql d.config.quoteIdentifiers ∈ d.selected
  · have hsame : d.addSelect item = d := if_pos (hwritten.2 hthere)
    rw [hsame]
    exact ⟨.refl d, hthere⟩
  · have hadd : d.addSelect item = { d with select := d.select ++ [item] } :=
      if_neg fun hany => hthere (hwritten.1 hany)
    have hselected : (d.addSelect item).selected =
        d.selected ++ [item.toSql d.config.quoteIdentifiers] := by
      rw [hadd, selected, List.map_append]
      rfl
    refine ⟨⟨by rw [hadd], by rw [hadd], ?_, ?_, ?_, ?_⟩, ?_⟩
    · rw [hselected]
      exact List.prefix_append _ _
    · intro hnodup
      rw [hselected]
      exact hnodup.append (List.nodup_singleton _) (by simpa using hthere)
    · exact ⟨[], by rw [hadd, List.append_nil]; rfl, .nil⟩
    · exact ⟨[], by rw [hadd, List.append_nil]; rfl, .nil⟩
    · rw [hselected]
      exact List.mem_append_right _ (List.mem_singleton_self _)

/-- An entry at the end of the ORDER BY list. -/
theorem sorts_appendOrder {c : Column s} {direction : Direction} {tableAlias : String}
    (h : OrderEntry.Covered d.config.quoteIdentifiers d.baseAlias d.selected (c, direction)
      (OrderItem.toSql d.config.quoteIdentifiers ⟨⟨tableAlias, c.name.getD ""⟩, direction⟩)) :
    Sorts [(c, direction)] [] d
      { d with order := d.order ++ [⟨⟨tableAlias, c.name.getD ""⟩, direction⟩] } := by
  refine ⟨rfl, rfl, List.prefix_rfl, id, ⟨_, ?_, .cons h .nil⟩, [], (List.append_nil _).symm, .nil⟩
  rw [ordered, List.map_append]
  rfl

/-- At the base table a column is ordered by under its alias; behind a path it is selected before. -/
theorem sorts_addOrder (hbase : d.aliasAt? d.base = some d.baseAlias) {c : Column s} {a : String}
    (ha : d.aliasAt? (d.base.join c.path) = some a) (direction : Direction) :
    Sorts [(c, direction)] [] d (d.addOrder (d.base.join c.path) (c.name.getD "") direction) := by
  unfold addOrder
  simp only [columnAt, aliasOf_of_some ha]
  -- a column of the base table needs no selecting
  by_cases hpath : c.path = []
  · have hhere : d.base.join c.path = d.base := by rw [hpath, TablePath.join_nil]
    rw [hhere, hbase] at ha
    cases ha
    rw [if_pos hhere]
    exact sorts_appendOrder (.own hpath)
  · have helse : d.base.join c.path ≠ d.base := by
      intro heq
      exact TablePath.not_isBelow_self _ (heq ▸ TablePath.isBelow_join d.base hpath)
    rw [if_neg helse]
    obtain ⟨hselect, hlisted⟩ := sorts_addSelect d (.column ⟨a, c.name.getD ""⟩)
    rw [← hselect.config] at hlisted
    exact hselect.before (sorts_appendOrder (.joined hpath hlisted))

theorem Correlates.sorts {a : String} {relation : Relation s} (h : Correlates a relation d e) :
    Sorts [] [] d e := by
  have hquiet := h.quiet
  cases h with
  | hasMany named => exact sorts_of_same rfl rfl rfl rfl hquiet.derived
  | belongsTo named => exact sorts_of_same rfl rfl rfl rfl hquiet.derived
  | manyToMany named =>
    refine sorts_of_same ?_ hquiet.baseAlias hquiet.select ?_ hquiet.derived
    · rw [aliasOf_eq_with named]
      rfl
    · rw [aliasOf_eq_with named]
      rfl

/-! ## Statements -/

/-- A statement that is drafted from the rows of its base table is ordered by its own entries. -/
theorem Sorts.orders {conditions : List (Condition s)}
    (h : Sorts (entriesOf (callsOfEach conditions)) (subqueriesOfEach conditions) d e)
    (hselect : d.select = [.rowsOf d.baseAlias]) (horder : d.order = []) (hderived : d.derived = []) :
    Orders d.config.quoteIdentifiers conditions e.finish := by
  have hselected : (e.finish.toPlan d.config.quoteIdentifiers).select = e.selected := by
    rw [Statement.select_toPlan, ← h.config]
    rfl
  have hordered : (e.finish.toPlan d.config.quoteIdentifiers).order = e.ordered := by
    rw [Statement.order_toPlan, ← h.config]
    rfl
  have hbase : e.finish.baseAlias = d.baseAlias := h.baseAlias
  have hstart : d.selected = [(SelectItem.rowsOf d.baseAlias).toSql d.config.quoteIdentifiers] := by
    rw [selected, hselect, List.map_singleton]
  -- the base table first, nothing twice, every order covered, and so in the sub-queries
  refine .intro ?_ ?_ ?_ ?_
  · obtain ⟨rest, hrest⟩ := h.select
    rw [hselected, hbase, ← hrest, hstart]
    rfl
  · rw [hselected]
    exact h.nodup (hstart ▸ List.nodup_singleton _)
  · obtain ⟨texts, htexts, hcovered⟩ := h.order
    have hempty : d.ordered = [] := by rw [ordered, horder, List.map_nil]
    rw [hempty, List.nil_append] at htexts
    rw [hselected, hordered, hbase, htexts]
    exact hcovered
  · obtain ⟨statements, hstatements, horders⟩ := h.derived
    rw [hderived, List.nil_append] at hstatements
    rw [show e.finish.derived = statements from hstatements]
    exact horders

/-- The statement of a sub-query is embedded. -/
theorem sorts_embed {built done : Draft s} {place : TablePath} {a : String} {relation : Relation s}
    {subquery : List (Condition s)} {trees : List (Predicate Test)}
    (h : Sorts (entriesOf (callsOfEach subquery)) (subqueriesOfEach subquery)
      (d.nestedDraft place relation.target) built)
    (hcorrelates : Correlates a relation (built.pushWhere (.all trees)) done) :
    Sorts [] [(relation, subquery)] d (d.embed place relation.target done) := by
  have hwhere : Sorts (s := s) [] [] built (built.pushWhere (.all trees)) :=
    sorts_of_same rfl rfl rfl rfl rfl
  have horders := (h.after (hwhere.before hcorrelates.sorts)).orders rfl rfl rfl
  refine ⟨rfl, rfl, List.prefix_rfl, id, ⟨[], (List.append_nil _).symm, .nil⟩, [done.finish], ?_, ?_⟩
  · exact derived_addJoin _ _
  · exact .cons horders .nil

end Draft

end DocQuery
