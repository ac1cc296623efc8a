import DocQuery.Proofs.Build.Derived
import DocQuery.Proofs.Build.Twins
import DocQuery.Proofs.Nesting.Column

namespace DocQuery

/-! # Steps of conditions on drafts alike

What conditions do to a draft they do alike to drafts alike: they bind the same values, reach the
same tables and add the same clauses. Of a column it only matters in which table it is found.

* `runs_joinColumns_alike`: columns in the same tables are joined alike on drafts alike.
* `runs_correlation_alike`: a sub-query is tied to its parent alike.
-/

open Build Draft

variable {s : Schema}

namespace Draft

variable {d d' e e' f : Draft s} {table : TablePath} {m n : Model s}

/-! ## Clauses -/

/-- What is done to the clauses alone. -/
theorem GrowAlike.clause (h : Twins table m d d') (halike : e.Alike e') (step : ClauseStep d e)
    (step' : ClauseStep d' e') : GrowAlike d d' e e' :=
  .of_grows h halike (.clause step) (.clause step')

/-- Selecting does not look at the tables. -/
theorem addSelect_withTables (d f : Draft s) (item : SelectItem) :
    (d.withTables f).addSelect item = (d.addSelect item).withTables f := by
  unfold addSelect
  simp only
  rw [apply_ite fun d : Draft s => d.withTables f]
  rfl

/-- Neither does asking for relations. -/
theorem addInclude_withTables (d f : Draft s) (path : TablePath) :
    (d.withTables f).addInclude path = (d.addInclude path).withTables f := by
  unfold addInclude
  rw [apply_ite fun d : Draft s => d.withTables f]
  rfl

/-- Nor binding values. -/
theorem bindAll_withTables (d f : Draft s) (values : List Operand) :
    (d.withTables f).bindAll values =
      ((d.bindAll values).1, (d.bindAll values).2.withTables f) := by
  induction values generalizing d with
  | nil => rfl
  | cons value values ih =>
    have hfirst : (d.withTables f).bind value = ((d.bind value).1, (d.bind value).2.withTables f) := rfl
    simp only [bindAll, hfirst, ih]

/-- Values are bound to the same parameters. -/
theorem Twins.bindAll (h : Twins table m d d') (values : List Operand) :
    (d'.bindAll values).1 = (d.bindAll values).1 ∧
      GrowAlike d d' (d.bindAll values).2 (d'.bindAll values).2 := by
  refine ⟨?_, .of_grows h ?_ (builds_bindAll table h.ready.tidy values).grows
    (builds_bindAll table h.ready'.tidy values).grows⟩
  · rw [h.alike.rest, bindAll_withTables]
  · refine h.alike.clause (g := fun d => (d.bindAll values).2) fun f => ?_
    simp only [bindAll_withTables]

/-- Orders by a column of a table that has been joined. -/
def orderColumn (d : Draft s) (path : TablePath) (column : QualifiedColumn) (direction : Direction) :
    Draft s :=
  let d := if path = d.base then d else d.addSelect (.column column)
  { d with order := d.order ++ [⟨column, direction⟩] }

/-- Ordering by a column of a named table looks at its alias only. -/
theorem addOrder_eq {path : TablePath} {a : String} (ha : d.aliasAt? path = some a) (name : String)
    (direction : Direction) :
    d.addOrder path name direction = d.orderColumn path ⟨a, name⟩ direction := by
  unfold addOrder orderColumn
  simp only [columnAt, aliasOf_of_some ha]

/-- Ordering by a known column does not look at the tables. -/
theorem orderColumn_withTables (d f : Draft s) (path : TablePath) (column : QualifiedColumn)
    (direction : Direction) : (d.withTables f).orderColumn path column direction =
      (d.orderColumn path column direction).withTables f := by
  unfold orderColumn
  simp only [addSelect_withTables]
  by_cases hbase : path = d.base
  · rw [if_pos hbase, if_pos (show path = (d.withTables f).base from hbase)]
    rfl
  · rw [if_neg hbase, if_neg (show ¬path = (d.withTables f).base from hbase)]
    rfl

end Draft

/-! ## Columns -/

/-- The columns have one name, and wherever the first is joined the second is joined on a draft
alike, in a table of the same alias. -/
structure Column.SameTable (m : Model s) (c c' : Column s) : Prop where
  reached : c.LeadsToColumn m
  reached' : c'.LeadsToColumn m
  name_eq : c'.name = c.name
  follow : ∀ table d d' e, Twins table m d d' → (followPath table m c.path).Runs d () e →
    ∃ e', (followPath table m c'.path).Runs d' () e' ∧ GrowAlike d d' e e' ∧ ∃ a,
      e.aliasAt? (table.join c.path) = some a ∧ e'.aliasAt? (table.join c'.path) = some a

variable {d d' e : Draft s} {table : TablePath} {m n : Model s}

namespace Column

variable {c c' : Column s}

/-- A column is joined alike. -/
theorem LeadsToColumn.runs_joinColumn_alike (hc : c.LeadsToColumn m) (h : Twins table m d d')
    {path : TablePath} (hrun : (joinColumn table c).Runs d path e) :
    path = table.join c.path ∧ ∃ e' n, (joinColumn table c).Runs d' path e' ∧ GrowAlike d d' e e' ∧
      Twins (table.join c.path) n e e' := by
  rcases hc with ⟨hmodel, n, _, hopen, _⟩
  rcases (runs_joinColumn_iff hmodel hopen).1 hrun with ⟨rfl, hfollow⟩
  rcases h.runs_followPath hopen hfollow with ⟨e', hfollow', hgrow, hend⟩
  exact ⟨rfl, e', n, (runs_joinColumn_iff hmodel hopen).2 ⟨rfl, hfollow'⟩, hgrow, hend⟩

/-- A column is in the table that it is in. -/
theorem SameTable.refl (hc : c.LeadsToColumn m) : SameTable m c c where
  reached := hc
  reached' := hc
  name_eq := rfl
  follow := by
    intro table d d' e h hrun
    rcases hc with ⟨_, n, _, hopen, _⟩
    rcases h.runs_followPath hopen hrun with ⟨e', hrun', hgrow, hend⟩
    exact ⟨e', hrun', hgrow, hend.aliasAt?_joined⟩

/-- Where the one column is joined the other is, under the same alias. -/
theorem SameTable.runs_joinColumn (hc : SameTable m c c') (h : Twins table m d d') {path : TablePath}
    (hrun : (joinColumn table c).Runs d path e) :
    path = table.join c.path ∧ ∃ e', (joinColumn table c').Runs d' (table.join c'.path) e' ∧
      GrowAlike d d' e e' ∧ ∃ a, e.aliasAt? (table.join c.path) = some a ∧
        e'.aliasAt? (table.join c'.path) = some a := by
  rcases hc.reached with ⟨hmodel, _, _, hopen, _⟩
  rcases hc.reached' with ⟨hmodel', _, _, hopen', _⟩
  rcases (runs_joinColumn_iff hmodel hopen).1 hrun with ⟨rfl, hfollow⟩
  rcases hc.follow _ _ _ _ h hfollow with ⟨e', hfollow', hgrow, ha⟩
  exact ⟨rfl, e', (runs_joinColumn_iff hmodel' hopen').2 ⟨rfl, hfollow'⟩, hgrow, ha⟩

end Column

namespace Condition

/-- Columns of the same tables are joined alike, and a statement has them as one. -/
theorem runs_joinColumns_alike {columns columns' : List (Column s)}
    (hcolumns : List.Forall₂ (Column.SameTable m) columns columns') (h : Twins table m d d')
    {qualified : List QualifiedColumn} (hrun : (joinColumns table columns).Runs d qualified e) :
    ∃ e', (joinColumns table columns').Runs d' qualified e' ∧ GrowAlike d d' e e' := by
  induction hcolumns generalizing d d' qualified with
  | nil =>
    rw [joinColumns, runs_pure] at hrun
    rcases hrun with ⟨rfl, rfl⟩
    exact ⟨d', by rw [joinColumns, runs_pure]; exact ⟨rfl, rfl⟩, .refl h⟩
  | @cons c c' columns columns' hc _ ih =>
    rcases runs_joinColumns_cons_iff.1 hrun with ⟨_, d₁, rest, hcolumn, hrest, rfl⟩
    -- the two columns are found in the same table, which has one alias on both drafts
    rcases hc.runs_joinColumn h hcolumn with ⟨rfl, d₁', hcolumn', hgrow, a, ha, ha'⟩
    simp only [columnAt, aliasOf_of_some ha] at hrest ⊢
    rcases ih (hgrow.twins h) hrest with ⟨e', hrest', hgrow'⟩
    refine ⟨e', runs_joinColumns_cons_iff.2 ⟨_, d₁', rest, hcolumn', ?_, ?_⟩, hgrow.trans hgrow'⟩
    · simp only [columnAt, aliasOf_of_some ha']
      exact hrest'
    · simp only [columnAt, aliasOf_of_some ha', hc.name_eq]

/-- Ordering by columns. -/
theorem runs_orderBy_alike {entries : List (Column s × Direction)}
    (hreached : ∀ entry ∈ entries, entry.1.LeadsToColumn m) (h : Twins table m d d') {u : Unit}
    (hrun : (orderBy table entries).Runs d u e) :
    ∃ e', (orderBy table entries).Runs d' u e' ∧ GrowAlike d d' e e' := by
  induction entries generalizing d d' with
  | nil =>
    rw [orderBy, runs_pure] at hrun
    rcases hrun with ⟨rfl, rfl⟩
    exact ⟨d', by rw [orderBy, runs_pure]; exact ⟨rfl, rfl⟩, .refl h⟩
  | cons entry entries ih =>
    rcases entry with ⟨column, direction⟩
    rcases runs_orderBy_cons_iff.1 hrun with ⟨_, d₁, hcolumn, hrest⟩
    have hc : column.LeadsToColumn m := hreached (column, direction) List.mem_cons_self
    rcases hc.runs_joinColumn_alike h hcolumn with ⟨rfl, d₁', n, hcolumn', hgrow, hend⟩
    rcases hend.aliasAt?_joined with ⟨a, ha, ha'⟩
    -- the column has one alias in both drafts, so the same is added
    have halike : (d₁.addOrder (table.join column.path) (column.name.getD "") direction).Alike
        (d₁'.addOrder (table.join column.path) (column.name.getD "") direction) := by
      rw [addOrder_eq ha, addOrder_eq ha']
      exact hgrow.alike.clause (g := fun d => d.orderColumn _ _ _) fun f =>
        orderColumn_withTables d₁ f _ _ _
    have horder := GrowAlike.clause hend halike (.order hend.ready.mem ha _ _)
      (.order hend.ready'.mem ha' _ _)
    have hgrow' := hgrow.trans horder
    rcases ih (fun entry hentry => hreached entry (List.mem_cons_of_mem _ hentry)) (hgrow'.twins h)
      hrest with ⟨e', hrest', hgrow''⟩
    exact ⟨e', runs_orderBy_cons_iff.2 ⟨_, d₁', hcolumn', hrest'⟩, hgrow'.trans hgrow''⟩

/-- Selecting a column. -/
theorem runs_selectColumn_alike {column : Column s} (hc : column.LeadsToColumn m)
    (h : Twins table m d d') {path : TablePath} (hrun : (joinColumn table column).Runs d path e) :
    ∃ e', (joinColumn table column).Runs d' path e' ∧ GrowAlike d d'
      ((e.columnAt path (column.name.getD "")).2.addSelect
        (.column (e.columnAt path (column.name.getD "")).1))
      ((e'.columnAt path (column.name.getD "")).2.addSelect
        (.column (e'.columnAt path (column.name.getD "")).1)) := by
  rcases hc.runs_joinColumn_alike h hrun with ⟨rfl, e', n, hrun', hgrow, hend⟩
  rcases hend.aliasAt?_joined with ⟨a, ha, ha'⟩
  refine ⟨e', hrun', ?_⟩
  simp only [columnAt, aliasOf_of_some ha, aliasOf_of_some ha']
  have halike := hgrow.alike.clause (g := fun d => d.addSelect (.column ⟨a, column.name.getD ""⟩))
    fun f => addSelect_withTables e f _
  exact hgrow.trans (.clause hend halike (.select hend.ready.mem ha _) (.select hend.ready'.mem ha' _))

/-- Asking for relations to be loaded. -/
theorem growAlike_addInclude (h : Twins table m d d') (path : TablePath) :
    GrowAlike d d' (d.addInclude path) (d'.addInclude path) := by
  have halike := h.alike.clause (g := fun d => d.addInclude path) fun f => addInclude_withTables d f path
  exact .clause h halike (.load path) (.load path)

/-- Asking for relations keeps drafts alike. -/
theorem growAlike_addIncludes (h : Twins table m d d') (paths : List TablePath) :
    GrowAlike d d' (paths.foldl addInclude d) (paths.foldl addInclude d') := by
  induction paths generalizing d d' with
  | nil => exact .refl h
  | cons path paths ih =>
    have hfirst := growAlike_addInclude h path
    exact hfirst.trans (ih (hfirst.twins h))

/-- So does asking for the relation of a column. -/
theorem runs_includeRelation_alike {column : Column s} (h : Twins table m d d') {u : Unit}
    (hrun : (includeRelation table column).Runs d u e) :
    ∃ e', (includeRelation table column).Runs d' u e' ∧ GrowAlike d d' e e' := by
  rcases runs_includeRelation_iff.1 hrun with ⟨hhops, rfl⟩
  exact ⟨_, runs_includeRelation_iff.2 ⟨hhops, rfl⟩, growAlike_addIncludes h _⟩

/-- Following a column to rows. -/
theorem runs_joinRelation_alike {column : Column s} (hrows : column.LeadsToRows m n)
    (h : Twins table m d d') {path : TablePath} (hrun : (joinRelation table column).Runs d path e) :
    ∃ e', (joinRelation table column).Runs d' path e' ∧ GrowAlike d d' e e' ∧ Twins path n e e' := by
  rcases (runs_joinRelation_iff hrows).1 hrun with ⟨rfl, hfollow⟩
  rcases h.runs_followPath hrows.openPath_segments hfollow with ⟨e', hfollow', hgrow, hend⟩
  exact ⟨e', (runs_joinRelation_iff hrows).2 ⟨rfl, hfollow'⟩, hgrow, hend⟩

/-! ## Sub-queries -/

/-- A sub-query over a relation with a join table is tied to its parent by that table. -/
theorem runs_correlation_manyToMany {name parentAlias joinTable foreignKey associationKey : String}
    {owner target : Model s} {definition : RelationDefinition} {test : Predicate Test} :
    (correlation (.direct name owner definition (.manyToMany joinTable foreignKey associationKey) target)
      parentAlias).Runs d test e ↔ ∃ a d₁, d.aliasOf (d.base.child (.joinTable name)) = (a, d₁) ∧
        test = equalColumns ⟨a, foreignKey⟩ ⟨parentAlias, owner.primaryKey⟩ ∧
        e = { d₁.addJoin (.table joinTable a ⟨d₁.baseAlias, target.primaryKey⟩ associationKey) with
          joined := d.base.child (.joinTable name) :: d₁.joined } := by
  unfold correlation
  simp only [runs_bind, runs_modifyGet, runs_modify, runs_get, runs_pure]
  -- the alias of the join table is the only thing that the draft decides
  constructor
  · rintro ⟨_, _, ⟨rfl, rfl⟩, _, _, ⟨rfl, rfl⟩, _, _, ⟨rfl, rfl⟩, _, _, rfl, _, _, rfl, rfl, rfl⟩
    exact ⟨_, _, rfl, rfl, rfl⟩
  · rintro ⟨a, d₁, halias, rfl, rfl⟩
    rcases Prod.ext_iff.1 halias with ⟨rfl, rfl⟩
    exact ⟨d, d, ⟨rfl, rfl⟩, _, _, ⟨rfl, rfl⟩, _, _, ⟨rfl, rfl⟩, (), _, rfl, (), _, rfl, rfl, rfl⟩

/-- On drafts alike, sub-queries are tied to their parents by the same test. -/
theorem runs_correlation_alike {relation : Relation s} {parentAlias a : String} (halike : d.Alike d')
    (ha : d.aliasAt? d.base = some a) (ha' : d'.aliasAt? d.base = some a) {test : Predicate Test}
    (hrun : (correlation relation parentAlias).Runs d test e) :
    ∃ e', (correlation relation parentAlias).Runs d' test e' ∧ e' = e.withTables e' := by
  have hbase : d'.base = d.base := by
    rw [halike.rest]
    rfl
  cases relation with
  | through name owner definition first second =>
    simp only [correlation, runs_bind, runs_get] at hrun
    rcases hrun with ⟨_, _, ⟨rfl, rfl⟩, hrun⟩
    exact absurd hrun runs_throw
  | direct name owner definition link target =>
    cases link with
    | hasMany foreignKey =>
      simp only [correlation, runs_bind, runs_get, runs_modifyGet, runs_pure] at hrun ⊢
      rcases hrun with ⟨_, _, ⟨rfl, rfl⟩, _, _, ⟨rfl, rfl⟩, rfl, rfl⟩
      refine ⟨d', ⟨d', d', ⟨rfl, rfl⟩, _, _, ⟨rfl, rfl⟩, ?_, ?_⟩, ?_⟩
      · simp only [columnAt, hbase, aliasOf_of_some ha, aliasOf_of_some ha']
      · simp only [columnAt, hbase, aliasOf_of_some ha']
      · simp only [columnAt, aliasOf_of_some ha]
        exact halike.rest
    | belongsTo foreignKey =>
      simp only [correlation, runs_bind, runs_get, runs_modifyGet, runs_pure] at hrun ⊢
      rcases hrun with ⟨_, _, ⟨rfl, rfl⟩, _, _, ⟨rfl, rfl⟩, rfl, rfl⟩
      refine ⟨d', ⟨d', d', ⟨rfl, rfl⟩, _, _, ⟨rfl, rfl⟩, ?_, ?_⟩, ?_⟩
      · simp only [columnAt, hbase, aliasOf_of_some ha, aliasOf_of_some ha']
      · simp only [columnAt, hbase, aliasOf_of_some ha']
      · simp only [columnAt, aliasOf_of_some ha]
        exact halike.rest
    | manyToMany joinTable foreignKey associationKey =>
      rcases runs_correlation_manyToMany.1 hrun with ⟨b, d₁, halias, rfl, rfl⟩
      -- the path of a join table is no through relation's, so both have an alias there or neither
      have hsame : d.SameAt d' (d.base.child (.joinTable name)) := by
        refine halike.sameAt fun parent other hpath => ?_
        cases (TablePath.child_inj.1 hpath).2
      rcases halike.aliasOf hsame.alias_eq with ⟨hname, hrest⟩
      rw [halias] at hname hrest
      refine ⟨_, runs_correlation_manyToMany.2 ⟨b, (d'.aliasOf (d'.base.child (.joinTable name))).2,
        ?_, rfl, rfl⟩, ?_⟩
      · rw [hbase]
        exact Prod.ext hname rfl
      · rw [hbase, hrest]
        rfl
    | unknown kind =>
      simp only [correlation, runs_bind, runs_get] at hrun
      rcases hrun with ⟨_, _, ⟨rfl, rfl⟩, hrun⟩
      exact absurd hrun runs_throw

end Condition

end DocQuery
