import DocQuery.Proofs.Build.Blind
import DocQuery.Proofs.Order.Sorts

namespace DocQuery

/-! # Building admitted conditions sorts a draft

A run that builds admitted conditions orders by the entries that stand in them, one after the other,
and selects what these need. The proof is one induction over conditions, documents and targets,
which follows the recursion of `build`; functions are called at the base table only, so paths of
columns start there.

* `build_sorts`: a build of admitted conditions orders by the entries that stand in them.
-/

open Build Draft

variable {s : Schema}

namespace Draft

variable {d e : Draft s} {table : TablePath} {m : Model s}

/-- Conditions on the model can be built at the table, which is the base table or lies behind it. -/
structure Sits (d : Draft s) (table : TablePath) (m : Model s) : Prop where
  ready : d.Ready table m
  behind : d.base.steps <+: table.steps
  named : d.aliasAt? d.base = some d.baseAlias

theorem Sits.grow {subqueries : List (Relation s × List (Condition s))} (h : d.Sits table m)
    (hgrows : Grows subqueries d e) : e.Sits table m := by
  have hsteady := (hgrows.tidy_steady h.ready.tidy).2
  constructor
  · exact h.ready.grow hgrows
  · rw [hsteady.base]
    exact h.behind
  · rw [hsteady.base, hsteady.baseAlias]
    exact hsteady.aliases _ _ h.named

/-- Further on conditions can be built as well. -/
theorem Sits.further {further : TablePath} {n : Model s} (h : d.Sits table m)
    (hready : d.Ready further n) (hbehind : table.steps <+: further.steps) : d.Sits further n :=
  ⟨hready, h.behind.trans hbehind, h.named⟩

theorem sits_withBase (model : Model s) (config : Config) (baseAlias : String)
    (usedAliases : List String) (lastParam : Nat) :
    (withBase model config baseAlias usedAliases lastParam).Sits (.root model.table) model where
  ready := ready_withBase model config baseAlias usedAliases lastParam
  behind := List.prefix_rfl
  named := by simp [aliasAt?, withBase]

theorem exists_addInclude_eq (d : Draft s) (path : TablePath) :
    ∃ includes, d.addInclude path = { d with includes } := by
  unfold addInclude
  split
  · exact ⟨d.includes, rfl⟩
  · exact ⟨_, rfl⟩

end Draft

namespace Condition

variable {d e : Draft s} {table : TablePath} {m : Model s}

/-! ## Steps without nested conditions -/

/-- Columns are joined and values bound. -/
theorem sorts_test (h : d.Sits table m) {columns : List (Column s)}
    (hreached : ∀ c ∈ columns, c.LeadsToColumn m) (values : List Operand)
    {qualified : List QualifiedColumn} (hrun : (joinColumns table columns).Runs d qualified e) :
    Sorts [] [] d (e.bindAll values).2 := by
  have hcolumns := runs_joinColumns h.ready.tidy hreached h.ready.mem h.ready.typed hrun
  exact hcolumns.joins.sorts.before (sorts_bindAll e values)

/-- Each column is ordered by when its table has been joined. -/
theorem sorts_orderBy (h : d.Sits table m) (hroot : table.isRoot = true)
    {entries : List (Column s × Direction)} (hreached : ∀ e ∈ entries, e.1.LeadsToColumn m) {u : Unit}
    (hrun : (orderBy table entries).Runs d u e) : Sorts entries [] d e := by
  induction entries generalizing d with
  | nil =>
    rw [orderBy, runs_pure] at hrun
    obtain ⟨_, rfl⟩ := hrun
    exact .refl d
  | cons entry entries ih =>
    rcases entry with ⟨c, direction⟩
    obtain ⟨_, d₁, hcolumn, hrest⟩ := runs_orderBy_cons_iff.1 hrun
    obtain ⟨rfl, n, name, hopen, hname, _⟩ := hreached (c, direction) List.mem_cons_self
    obtain ⟨rfl, hfollow⟩ :=
      h.ready.tidy.runs_joinColumn rfl hopen h.ready.mem h.ready.typed hcolumn
    have hsits := h.grow hfollow.joins.grows
    obtain ⟨a, ha⟩ := hsits.ready.tidy.named _ hfollow.mem
    have hgrows : Grows [] d₁ (d₁.addOrder (table.join c.path) (c.name.getD "") direction) :=
      .clause (.order hfollow.mem ha _ _)
    have htail := ih (hsits.grow hgrows) (fun e he => hreached e (List.mem_cons_of_mem _ he)) hrest
    have hstep : Sorts [(c, direction)] [] d₁
        (d₁.addOrder (table.join c.path) (c.name.getD "") direction) := by
      -- the call stands at the base table, so the path of the column starts there
      have hbase := hsits.ready.tidy.eq_base_of_isRoot hsits.behind hroot
      rw [hbase] at ha ⊢
      exact sorts_addOrder hsits.named ha direction
    exact hfollow.joins.sorts.before (hstep.trans htail)

/-- Relations are loaded, and nothing else changes. -/
theorem exists_addIncludes_eq (paths : List TablePath) (d : Draft s) :
    ∃ includes, paths.foldl addInclude d = { d with includes } := by
  induction paths generalizing d with
  | nil => exact ⟨d.includes, rfl⟩
  | cons path paths ih =>
    obtain ⟨includes, hrest⟩ := ih (d.addInclude path)
    obtain ⟨_, hfirst⟩ := exists_addInclude_eq d path
    exact ⟨includes, by rw [List.foldl_cons, hrest, hfirst]⟩

theorem sorts_includeRelation {column : Column s} {u : Unit}
    (hrun : (includeRelation table column).Runs d u e) : Sorts [] [] d e := by
  obtain ⟨_, rfl⟩ := runs_includeRelation_iff.1 hrun
  obtain ⟨_, hincludes⟩ := exists_addIncludes_eq _ d
  rw [hincludes]
  exact sorts_of_same rfl rfl rfl rfl rfl

/-- A column is followed to rows, at whose table conditions can be built. -/
theorem sits_joinRelation (h : d.Sits table m) {c : Column s} {n : Model s}
    (hrows : c.LeadsToRows m n) {reached : TablePath} (hrun : (joinRelation table c).Runs d reached e) :
    Sorts [] [] d e ∧ e.Sits table m ∧ e.Sits reached n := by
  obtain ⟨rfl, hready, hbuilds⟩ := builds_joinRelation h.ready hrows hrun
  have hjoins := (runs_joinRelation h.ready.tidy hrows h.ready.mem h.ready.typed hrun).2.joins
  have hgrown := h.grow hbuilds.grows
  exact ⟨hjoins.sorts, hgrown, hgrown.further hready (List.prefix_append _ _)⟩

/-! ## Conditions -/

/-- A sub-query is built in a draft of its own and embedded; then the conditions on its row are
built. -/
theorem derivedJoin_sorts {column : Column s} {relation : Relation s}
    {subquery conditions : List (Condition s)} {t : Option (Predicate Test)}
    (h : d.Sits table relation.owner) (hresolved : relation.Resolved)
    (hadmitted : ∀ c ∈ subquery, c.Admitted relation.target)
    (hsubquery : ∀ {d e : Draft s} {trees : List (Predicate Test)},
      d.Sits (.root relation.target.table) relation.target →
      (buildEach subquery (.root relation.target.table)).Runs d trees e →
      Sorts (entriesOf (callsOfEach subquery)) (subqueriesOfEach subquery) d e)
    (hconditions : ∀ {path : TablePath} {d e : Draft s} {trees : List (Predicate Test)},
      d.Sits path relation.target → (buildEach conditions path).Runs d trees e →
      Sorts (entriesOf (callsOfEach conditions)) (subqueriesOfEach conditions) d e)
    (hrun : (build (.derivedJoin column relation subquery conditions) table).Runs d t e) :
    Sorts (entriesOf (callsOfEach conditions))
      (subqueries (.derivedJoin column relation subquery conditions)) d e := by
  obtain ⟨a, trees, built, done, trees', ha, hsub, hcorrelate, hnested, rfl⟩ :=
    (runs_derivedJoin_iff h.ready).1 hrun
  have hinside : (d.nestedDraft (derivedPath d table relation.name) relation.target).Sits
      (.root relation.target.table) relation.target := sits_withBase _ _ _ _ _
  have hbuilt := buildEach_builds subquery hadmitted hinside.ready hsub
  have hcorrelates : Correlates a relation (built.pushWhere (.all trees)) done :=
    ((hbuilt.tidy hinside.ready.tidy).withPredicate _).runs_correlate hcorrelate
  have hgrown := h.grow (builds_embed h.ready hresolved ha hbuilt hcorrelates).grows
  -- the row is read at the path of the derived table, which lies behind this one
  have hrow : (d.embed (derivedPath d table relation.name) relation.target done).Sits
      (derivedPath d table relation.name) relation.target := by
    refine hgrown.further (h.ready.embed relation.name relation.target done) ?_
    obtain ⟨name, hname⟩ := derivedPath_eq_child d table relation.name
    rw [hname]
    exact List.prefix_append _ _
  exact (sorts_embed (hsubquery hinside hsub) hcorrelates).trans (hconditions hrow hnested)

/-- A column is selected once its table is joined. -/
theorem sorts_selectColumn (h : d.Sits table m) {c : Column s} (hc : c.LeadsToColumn m)
    {path : TablePath} (hrun : (joinColumn table c).Runs d path e) :
    Sorts [] [] d ((e.columnAt path (c.name.getD "")).2.addSelect
      (.column (e.columnAt path (c.name.getD "")).1)) := by
  obtain ⟨rfl, n, name, hopen, _⟩ := hc
  obtain ⟨rfl, hfollow⟩ := h.ready.tidy.runs_joinColumn rfl hopen h.ready.mem h.ready.typed hrun
  have htidy := hfollow.joins.tidy h.ready.tidy
  obtain ⟨a, _, hqualified⟩ := htidy.columnAt_joined hfollow.mem (c.name.getD "")
  rw [hqualified]
  exact hfollow.joins.sorts.before (sorts_addSelect e _).1

mutual

/-- Building an admitted condition sorts the draft by the entries of the condition. -/
theorem build_sorts (c : Condition s) {m : Model s} {table : TablePath} {d e : Draft s}
    {t : Option (Predicate Test)} (hc : c.Admitted m) (h : d.Sits table m)
    (hrun : (build c table).Runs d t e) : Sorts (entriesOf c.calls) c.subqueries d e := by
  cases c with
  | comparison rule template columns values =>
    cases hc with
    | comparison reached =>
      obtain ⟨_, _, hcolumns, rfl, rfl⟩ := runs_comparison_iff.1 hrun
      exact sorts_test h reached values hcolumns
  | presence rule template columns =>
    cases hc with
    | presence reached =>
      obtain ⟨_, hcolumns, rfl⟩ := runs_presence_iff.1 hrun
      exact sorts_test h reached [] hcolumns
  | membership rule template columns values =>
    cases hc with
    | membership reached =>
      obtain ⟨_, _, hcolumns, rfl, rfl⟩ := runs_membership_iff.1 hrun
      exact sorts_test h reached [values] hcolumns
  | range rule template columns low high =>
    cases hc with
    | range reached =>
      obtain ⟨_, _, hcolumns, rfl, rfl⟩ := runs_range_iff.1 hrun
      exact sorts_test h reached [low, high] hcolumns
  | overlap rule template columns span =>
    cases hc with
    | overlap reached =>
      obtain ⟨_, _, hcolumns, rfl, rfl⟩ := runs_overlap_iff.1 hrun
      exact sorts_test h reached [.instant span.start, .instant span.stop] hcolumns
  -- the tests above order by nothing, and neither does a relation, but its documents may
  | relationJoin targets =>
    cases hc with
    | relationJoin reached nested =>
      obtain ⟨trees, hjoins, rfl⟩ := runs_relationJoin_iff.1 hrun
      exact buildJoins_sorts targets reached nested h hjoins
  | derivedJoin column relation subquery conditions =>
    cases hc with
    | derivedJoin own direct reached rows nested =>
      obtain ⟨hresolved, rfl⟩ := reached.resolved_owner own
      exact derivedJoin_sorts h hresolved rows
        (fun hsits hsub => buildEach_sorts subquery rows hsits hsub)
        (fun hsits hconditions => buildEach_sorts conditions nested hsits hconditions) hrun
  | select targets =>
    cases hc with
    | select reached nested =>
      obtain ⟨trees, hselects, rfl⟩ := runs_select_iff.1 hrun
      exact buildSelects_sorts targets reached nested h hselects
  -- an order stands at the root, so its columns start at the base table
  | order entries =>
    cases hc with
    | order reached =>
      obtain ⟨hroot, horder, rfl⟩ := runs_order_iff.1 hrun
      have hentries : entriesOf (calls (.order entries)) = entries := List.append_nil entries
      rw [hentries]
      exact sorts_orderBy h hroot reached horder
  | limit n =>
    obtain ⟨_, rfl, rfl⟩ := runs_clause_iff.1 hrun
    exact sorts_of_same rfl rfl rfl rfl rfl
  | offset n =>
    obtain ⟨_, rfl, rfl⟩ := runs_clause_iff.1 hrun
    exact sorts_of_same rfl rfl rfl rfl rfl

theorem buildEach_sorts (conditions : List (Condition s)) {m : Model s} {table : TablePath}
    {d e : Draft s} {trees : List (Predicate Test)} (hc : ∀ c ∈ conditions, c.Admitted m)
    (h : d.Sits table m) (hrun : (buildEach conditions table).Runs d trees e) :
    Sorts (entriesOf (callsOfEach conditions)) (subqueriesOfEach conditions) d e := by
  cases conditions with
  | nil =>
    rw [buildEach, runs_pure] at hrun
    obtain ⟨rfl, rfl⟩ := hrun
    exact .refl d
  | cons condition conditions =>
    obtain ⟨tree, _, rest, hfirst, hrest, rfl⟩ := runs_buildEach_cons_iff.1 hrun
    obtain ⟨hcondition, hconditions⟩ := admitted_of_cons hc
    -- the first condition leaves the draft where the others find their table
    have hhead := build_builds condition hcondition h.ready hfirst
    rw [callsOfEach, entriesOf_append]
    exact (build_sorts condition hcondition h hfirst).trans
      (buildEach_sorts conditions hconditions (h.grow hhead.grows) hrest)

theorem buildDocuments_sorts (documents : List (List (Condition s))) {m : Model s}
    {table : TablePath} {d e : Draft s} {trees : List (Predicate Test)}
    (hc : ∀ document ∈ documents, ∀ c ∈ document, c.Admitted m) (h : d.Sits table m)
    (hrun : (buildDocuments documents table).Runs d trees e) :
    Sorts (entriesOf (callsOfDocuments documents)) (subqueriesOfDocuments documents) d e := by
  cases documents with
  | nil =>
    rw [buildDocuments, runs_pure] at hrun
    obtain ⟨rfl, rfl⟩ := hrun
    exact .refl d
  | cons document documents =>
    obtain ⟨trees, _, rest, hfirst, hrest, rfl⟩ := runs_buildDocuments_cons_iff.1 hrun
    have hdocument := hc document List.mem_cons_self
    have hhead := buildEach_builds document hdocument h.ready hfirst
    rw [callsOfDocuments, entriesOf_append]
    exact (buildEach_sorts document hdocument h hfirst).trans
      (buildDocuments_sorts documents (fun document hd => hc document (List.mem_cons_of_mem _ hd))
        (h.grow hhead.grows) hrest)

theorem buildJoins_sorts (targets : List (Target s (List (List (Condition s))))) {m : Model s}
    {table : TablePath} {within : Connective} {d e : Draft s} {trees : List (Predicate Test)}
    (reached : ∀ t ∈ targets, ∃ target, t.column.LeadsToRows m target)
    (nested : ∀ t ∈ targets, ∀ target, t.column.LeadsToRows m target →
      ∀ document ∈ t.nested, ∀ c ∈ document, c.Admitted target)
    (h : d.Sits table m) (hrun : (buildJoins within targets table).Runs d trees e) :
    Sorts (entriesOf (callsOfJoins targets)) (subqueriesOfJoins targets) d e := by
  cases targets with
  | nil =>
    rw [buildJoins, runs_pure] at hrun
    obtain ⟨rfl, rfl⟩ := hrun
    exact .refl d
  | cons target targets =>
    rcases target with ⟨column, documents⟩
    obtain ⟨path, _, trees, d₁, rest, hpath, hdocuments, hrest, rfl⟩ := runs_buildJoins_cons_iff.1 hrun
    obtain ⟨n, hrows⟩ := reached ⟨column, documents⟩ List.mem_cons_self
    obtain ⟨hjoin, hsits, hsits'⟩ := sits_joinRelation h hrows hpath
    have hadmitted := nested ⟨column, documents⟩ List.mem_cons_self n hrows
    have hnested := buildDocuments_builds documents hadmitted hsits'.ready hdocuments
    rw [callsOfJoins, entriesOf_append]
    -- the table outlives the documents about the rows of the target
    exact (hjoin.before (buildDocuments_sorts documents hadmitted hsits' hdocuments)).trans
      (buildJoins_sorts targets (fun t ht => reached t (List.mem_cons_of_mem _ ht))
        (fun t ht => nested t (List.mem_cons_of_mem _ ht)) (hsits.grow hnested.grows) hrest)

theorem buildSelect_sorts (target : Target s (List (Condition s))) {m : Model s} {table : TablePath}
    {d e : Draft s} {tree : Option (Predicate Test)}
    (reached : (target.column.LeadsToColumn m ∧ target.nested = []) ∨
      target.column.isColumn = false ∧ ∃ r, target.column.LeadsToRelation m r)
    (nested : ∀ r, target.column.LeadsToRelation m r → ∀ c ∈ target.nested, c.Admitted r.target)
    (h : d.Sits table m) (hrun : (buildSelect target table).Runs d tree e) :
    Sorts (entriesOf (callsOfEach target.nested)) (subqueriesOfEach target.nested) d e := by
  rcases target with ⟨column, conditions⟩
  simp only at reached nested ⊢
  rcases reached with ⟨hcolumn, rfl⟩ | ⟨hcolumn, r, hr⟩
  · obtain ⟨path, _, hjoin, rfl, rfl⟩ := (runs_buildSelect_column_iff hcolumn.isColumn_eq).1 hrun
    exact sorts_selectColumn h hcolumn hjoin
  · obtain ⟨d₁, hinclude, ⟨rfl, rfl, rfl⟩ | ⟨_, path, d₂, trees, hpath, hconditions, rfl⟩⟩ :=
      (runs_buildSelect_relation_iff hcolumn).1 hrun
    · exact sorts_includeRelation hinclude
    · have hload := sorts_includeRelation hinclude
      have hloaded := h.grow (builds_includeRelation table hinclude).grows
      have hrows : column.LeadsToRows m r.target := .inr ⟨r, hr, rfl⟩
      obtain ⟨hjoin, _, hsits⟩ := sits_joinRelation hloaded hrows hpath
      exact hload.before (hjoin.before (buildEach_sorts conditions (nested r hr) hsits hconditions))

theorem buildSelects_sorts (targets : List (Target s (List (Condition s)))) {m : Model s}
    {table : TablePath} {d e : Draft s} {trees : List (Predicate Test)}
    (reached : ∀ t ∈ targets, (t.column.LeadsToColumn m ∧ t.nested = []) ∨
      t.column.isColumn = false ∧ ∃ r, t.column.LeadsToRelation m r)
    (nested : ∀ t ∈ targets, ∀ r, t.column.LeadsToRelation m r →
      ∀ c ∈ t.nested, c.Admitted r.target)
    (h : d.Sits table m) (hrun : (buildSelects targets table).Runs d trees e) :
    Sorts (entriesOf (callsOfSelects targets)) (subqueriesOfSelects targets) d e := by
  cases targets with
  | nil =>
    rw [buildSelects, runs_pure] at hrun
    obtain ⟨rfl, rfl⟩ := hrun
    exact .refl d
  | cons target targets =>
    obtain ⟨tree, _, rest, hfirst, hrest, rfl⟩ := runs_buildSelects_cons_iff.1 hrun
    have hreached := reached target List.mem_cons_self
    have hnested := nested target List.mem_cons_self
    have hhead := buildSelect_builds target hreached hnested h.ready hfirst
    rw [callsOfSelects, entriesOf_append]
    exact (buildSelect_sorts target hreached hnested h hfirst).trans
      (buildSelects_sorts targets (fun t ht => reached t (List.mem_cons_of_mem _ ht))
        (fun t ht => nested t (List.mem_cons_of_mem _ ht)) (h.grow hhead.grows) hrest)

end

end Condition

namespace Query

variable {model : String} {query : Json} {config : Config} {plan : Plan}

/-- A plan is ordered by the entries of its query, and covers them by what it selects. -/
theorem orders_of_compile (h : compile s model query config = .ok plan) :
    ∃ conditions statement, parse s model query = .ok conditions ∧
      plan = statement.toPlan config.quoteIdentifiers ∧
      Condition.Orders config.quoteIdentifiers conditions statement := by
  obtain ⟨root, conditions, done, hcompiles⟩ := compile_eq_ok_iff.1 h
  obtain ⟨trees, e, hrun, rfl⟩ := hcompiles.buildEach
  have hparse : parse s model query = .ok conditions := by
    rw [parse, rootModel_eq_ok_iff.2 hcompiles.root_eq]
    exact hcompiles.conditions_eq
  have hsorts := Condition.buildEach_sorts conditions hcompiles.admitted
    (sits_withBase root config root.table [] 0) hrun
  have hwhere : Sorts (s := s) [] [] e (e.withPredicate (.all trees)) :=
    sorts_of_same rfl rfl rfl rfl rfl
  exact ⟨conditions, _, hparse, hcompiles.plan_eq, (hsorts.after hwhere).orders rfl rfl rfl⟩

end Query

end DocQuery
