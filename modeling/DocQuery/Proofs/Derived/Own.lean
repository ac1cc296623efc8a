import DocQuery.Proofs.Build.Blind
import DocQuery.Proofs.Build.Scope
import DocQuery.Proofs.Build.Writes
import DocQuery.Proofs.Derived.Tables

namespace DocQuery

/-! # Every sub-equal-join has its own derived table

The path of a derived table is looked for when its sub-query is begun, and taken only once the
sub-query has been built and embedded. In between nothing is joined in the outer draft, so the path
is still free then, and no sub-query is dropped. The proof is one induction over conditions,
documents and targets, as their build goes.

* `derivedJoin_settles`: a sub-query gets a path and an alias of its own, and is joined once.
* `build_settles`: so does each sub-query of a condition, at every depth.
* `exists_housed`: and each of a compiled query.
-/

open Build Draft

variable {s : Schema}

namespace Condition

open Predicate

variable {d e : Draft s} {table : TablePath} {m : Model s}

/-- Building lodges derived tables for these sub-equal-joins, in this order. -/
def Settles (joins : List (DerivedJoin s)) (table : TablePath) (d : Draft s) (tests : List Test)
    (e : Draft s) : Prop :=
  ∃ tables, tables.map DerivedTable.join = joins ∧ Lodges tables table d tests e

variable {joins joins' : List (DerivedJoin s)} {tests tests' : List Test} {f : Draft s}

/-- Runs one after the other settle their derived tables one after the other. -/
theorem Settles.trans (h : Settles joins table d tests e) (h' : Settles joins' table e tests' f) :
    Settles (joins ++ joins') table d (tests ++ tests') f := by
  rcases h with ⟨tables, rfl, hlodges⟩
  rcases h' with ⟨tables', rfl, hlodges'⟩
  exact ⟨tables ++ tables', List.map_append, hlodges.trans hlodges'⟩

/-- What is settled below a table is settled below those above it. -/
theorem Settles.of_inner {inner : TablePath} (h : Settles joins inner d tests e)
    (hunder : table.steps <+: inner.steps) : Settles joins table d tests e := by
  rcases h with ⟨tables, hjoins, hlodges⟩
  exact ⟨tables, hjoins, hlodges.of_inner hunder⟩

/-- What embeds nothing settles nothing, whatever it tests. -/
theorem settles_of_grows (h : Grows [] d e) (hd : d.Tidy)
    (hown : ∀ test ∈ tests, test.Within (e.aliasesFrom table)) : Settles [] table d tests e :=
  ⟨[], rfl, .of_grows h hd hown⟩

/-- Steps without sub-queries and tests come first. -/
theorem Settles.before (h' : Settles joins table e tests f) (h : Grows [] d e) (hd : d.Tidy) :
    Settles joins table d tests f :=
  (settles_of_grows h hd (List.forall_mem_nil _)).trans h'

/-! ## Tests -/

/-- Columns are qualified by aliases of tables at the given one or below it. -/
theorem aliases_of_runs_joinColumns (h : d.Ready table m) {columns : List (Column s)}
    (hreached : ∀ c ∈ columns, c.LeadsToColumn m) {qualified : List QualifiedColumn}
    (hrun : (joinColumns table columns).Runs d qualified e) :
    ∀ c ∈ qualified, c.tableAlias ∈ e.aliasesFrom table := by
  intro c hc
  rcases (offers_of_runs_joinColumns h hreached hrun).2.2 c hc with ⟨path, hunder, hoffers⟩
  exact mem_aliasesFrom.2 ⟨path, hoffers.joined, hunder, hoffers.named⟩

section

variable {template : String} {columns : List QualifiedColumn} {params aliases : List String}

/-- The tests of a comparison are about its columns. -/
theorem within_comparisonTree (hknown : ∀ c ∈ columns, c.tableAlias ∈ aliases) :
    ∀ test ∈ (comparisonTree template columns params).leaves, test.Within aliases := by
  intro test htest
  rw [leaves_comparisonTree] at htest
  rcases List.mem_flatMap.1 htest with ⟨param, _, htest⟩
  rcases List.mem_map.1 htest with ⟨column, hcolumn, rfl⟩
  exact .template (List.forall_mem_singleton.2 (hknown column hcolumn))

/-- A test for each column is about the column. -/
theorem within_eachColumn (hknown : ∀ c ∈ columns, c.tableAlias ∈ aliases) :
    ∀ test ∈ childLeaves (eachColumn template columns params), test.Within aliases := by
  intro test htest
  rw [childLeaves_eachColumn] at htest
  rcases List.mem_map.1 htest with ⟨column, hcolumn, rfl⟩
  exact .template (List.forall_mem_singleton.2 (hknown column hcolumn))

/-- A test for each pair is about its columns. -/
theorem within_eachPair (hknown : ∀ c ∈ columns, c.tableAlias ∈ aliases) :
    ∀ test ∈ childLeaves (eachPair template params columns), test.Within aliases := by
  intro test htest
  rcases exists_of_mem_eachPair htest with ⟨first, hfirst, second, hsecond, rfl⟩
  refine .template fun c hc => ?_
  rw [List.mem_pair] at hc
  rcases hc with rfl | rfl
  · exact hknown c hfirst
  · exact hknown c hsecond

end

/-- Columns are joined, and tests ask about them. -/
theorem settles_test (h : d.Ready table m) {columns : List (Column s)}
    (hreached : ∀ c ∈ columns, c.LeadsToColumn m) (values : List Operand)
    {qualified : List QualifiedColumn} (hrun : (joinColumns table columns).Runs d qualified e)
    (hwithin : ∀ aliases, (∀ c ∈ qualified, c.tableAlias ∈ aliases) →
      ∀ test ∈ tests, test.Within aliases) :
    Settles [] table d tests (e.bindAll values).2 := by
  have hcolumns := builds_joinColumns h hreached hrun
  have hready := h.grow hcolumns.grows
  have hvalues := builds_bindAll table hready.tidy values
  refine settles_of_grows (hcolumns.grows.trans hvalues.grows) h.tidy (hwithin _ fun c hc => ?_)
  exact (hvalues.grows.keeps hready.tidy).aliasesFrom_subset table
    (aliases_of_runs_joinColumns h hreached hrun c hc)

/-! ## Sub-queries -/

/-- Embedding a sub-query keeps what is there. -/
theorem keeps_embed (h : d.Ready table m) (relation : Relation s) (done : Draft s) :
    d.Keeps (d.embed (derivedPath d table relation.name) relation.target done) := by
  have henters := h.tidy.enters_embed (place_derivedPath h.mem relation.name) relation.target done
  refine ⟨fun path hpath => henters.mem_joined.2 (.inr hpath), henters.keeps, fun a ha => ?_⟩
  exact List.mem_cons_of_mem _ (mem_usedAliases_takeOver.2 (.inr (.inr ha)))

/-- A sub-query is joined as a derived table of its own, in front of those of the conditions on its
row. -/
theorem lodges_embed {t : DerivedTable s} {rows : List (DerivedTable s)} (h : t.start.Ready t.table m)
    (hhoused : t.inner.Housed (derivedJoinsOfEach t.join.subquery) t.innerAliases)
    (hdistinct : t.innerAliases.Nodup) (hnew : ∀ a ∈ t.innerAliases, a ∉ t.start.usedAliases)
    (hused : t.innerAliases ⊆ t.inner.usedAliases)
    (hrun : ∃ tree, (build t.join.condition t.table).Runs t.start tree e ∧
      t.tests = childLeaves tree.toList)
    (hrows : Lodges rows t.place (t.start.embed t.place t.join.relation.target t.inner) t.tests e) :
    Lodges (t :: rows) t.table t.start t.tests e := by
  have hplace := place_derivedPath h.mem t.join.relation.name
  have henters := h.tidy.enters_embed hplace t.join.relation.target t.inner
  have hkeeps : t.start.Keeps (t.start.embed t.place t.join.relation.target t.inner) :=
    keeps_embed h t.join.relation t.inner
  have hmem : t.place ∈ (t.start.embed t.place t.join.relation.target t.inner).joined :=
    henters.mem_joined.2 (.inl rfl)
  have htaken : ∀ a ∈ t.innerAliases,
      a ∈ (t.start.takeOver t.place t.join.relation.target t.inner).usedAliases :=
    fun a ha => mem_usedAliases_takeOver.2 (.inl (hused ha))
  have hfresh : t.tableAlias ∉
      (t.start.takeOver t.place t.join.relation.target t.inner).usedAliases :=
    newAlias_notMem _ _
  -- the aliases of this table are in use before the conditions on its row are built
  have haliases : t.aliases ⊆
      (t.start.embed t.place t.join.relation.target t.inner).usedAliases := by
    intro a ha
    rcases List.mem_cons.1 ha with rfl | ha
    · exact List.mem_cons_self
    · exact List.mem_cons_of_mem _ (htaken a ha)
  have hunder : t.table.steps <+: t.place.steps := by
    rcases derivedPath_eq_child t.start t.table t.join.relation.name with ⟨name, hchild⟩
    rw [DerivedTable.place, hchild]
    exact List.prefix_append _ _
  have hnamed : e.aliasAt? t.place = some t.tableAlias := by
    refine hrows.keeps.aliases _ _ ?_
    rw [aliasAt?_embed, if_pos rfl]
    rfl
  rcases freePath_firstFree t.start.joined t.table t.join.relation.name with ⟨n, hn, hfirst⟩
  rcases hrun with ⟨tree, hrun, htests⟩
  exact {
    keeps := hkeeps.trans hrows.keeps
    laterals_eq := by
      rw [hrows.laterals_eq, List.map_cons, ← List.singleton_append, ← List.append_assoc]
      exact congrArg (· ++ _) (List.filter_append _ _)
    places := by
      rw [List.map_cons, List.nodup_cons]
      refine ⟨fun hagain => ?_, hrows.places⟩
      rcases List.mem_map.1 hagain with ⟨row, hrow, heq⟩
      exact hrows.new_places row hrow (heq ▸ hmem)
    new_places := by
      rw [List.forall_mem_cons]
      exact ⟨hplace.unjoined, fun row hrow hjoined => hrows.new_places row hrow (hkeeps.joined hjoined)⟩
    aliases := by
      rw [List.flatMap_cons, List.nodup_append']
      refine ⟨List.nodup_cons.2 ⟨fun ha => hfresh (htaken _ ha), hdistinct⟩, hrows.aliases, ?_⟩
      exact fun a ha hagain => hrows.new_aliases a hagain (haliases ha)
    new_aliases := by
      rw [List.flatMap_cons, List.forall_mem_append]
      refine ⟨List.forall_mem_cons.2 ⟨fun ha => hfresh ?_, hnew⟩, fun a ha hused => ?_⟩
      · exact mem_usedAliases_takeOver.2 (.inr (.inr ha))
      · exact hrows.new_aliases a ha (hkeeps.used hused)
    used := by
      rw [List.flatMap_cons]
      exact List.append_subset.2 ⟨List.Subset.trans haliases hrows.keeps.used, hrows.used⟩
    stands := by
      rw [List.forall_mem_cons]
      refine ⟨⟨hkeeps.trans hrows.keeps, h.mem, ⟨n, ?_, hfirst⟩, hrows.keeps.joined hmem, hnamed,
        ⟨tree, e, hrun, htests⟩, hrows.own⟩, hrows.stands⟩
      rw [DerivedTable.place, derivedPath_eq_freePath, hn]
    tested := by
      rw [List.forall_mem_cons]
      exact ⟨List.Subset.refl _, hrows.tested⟩
    inside := by
      rw [List.forall_mem_cons]
      exact ⟨hhoused, hrows.inside⟩
    own := fun test htest => (hrows.own test htest).mono (e.aliasesFrom_subset_of_prefix hunder) }

/-- The sub-query is built in a draft of its own, tied to its parent and embedded. -/
theorem derivedJoin_settles {column : Column s} {relation : Relation s}
    {subquery conditions : List (Condition s)} {t : Option (Predicate Test)}
    (h : d.Ready table relation.owner) (hadmitted : ∀ c ∈ subquery, c.Admitted relation.target)
    (hsubquery : ∀ {d e : Draft s} {trees : List (Predicate Test)},
      d.Ready (.root relation.target.table) relation.target →
      (buildEach subquery (.root relation.target.table)).Runs d trees e →
      Settles (derivedJoinsOfEach subquery) (.root relation.target.table) d (childLeaves trees) e)
    (hconditions : ∀ {path : TablePath} {d e : Draft s} {trees : List (Predicate Test)},
      d.Ready path relation.target → (buildEach conditions path).Runs d trees e →
      Settles (derivedJoinsOfEach conditions) path d (childLeaves trees) e)
    (hrun : (build (.derivedJoin column relation subquery conditions) table).Runs d t e) :
    Settles (derivedJoins (.derivedJoin column relation subquery conditions)) table d
      (childLeaves t.toList) e := by
  rcases (runs_derivedJoin_iff h).1 hrun with
      ⟨a, trees, built, done, trees', _, hsub, hcorrelate, hnested, rfl⟩
  have hsubReady : (d.nestedDraft (derivedPath d table relation.name) relation.target).Ready
      (.root relation.target.table) relation.target :=
    ready_withBase relation.target _ _ _ _
  have hbuilt := buildEach_builds subquery hadmitted hsubReady hsub
  have hcorrelates : Correlates a relation (built.pushWhere (.all trees)) done :=
    ((hbuilt.tidy hsubReady.tidy).withPredicate _).runs_correlate hcorrelate
  -- inside, the sub-query has houses for its own derived tables
  rcases hsubquery hsubReady hsub with ⟨inside, hinside, hlodged⟩
  rcases hcorrelates.keeps with ⟨hkeeps, hlaterals, hleaves⟩
  have hdone : built.Keeps done := (keeps_pushWhere built _).trans hkeeps
  have hhoused := hlodged.housed rfl hdone hlaterals (by
    refine List.Subset.trans ?_ hleaves
    rw [pushWhere, leaves_push, leaves_all]
    exact List.subset_append_right _ _)
  rw [hinside] at hhoused
  -- behind it come those of the conditions on its row
  rcases hconditions (h.embed relation.name relation.target done) hnested with
    ⟨rows, hrows, hlodges⟩
  rw [Option.toList_some, childLeaves_all]
  refine ⟨⟨⟨column, relation, subquery, conditions⟩, table, d, done,
      inside.flatMap DerivedTable.aliases, childLeaves trees'⟩ :: rows, congrArg (_ :: ·) hrows,
    lodges_embed h hhoused hlodged.aliases ?_ (List.Subset.trans hlodged.used hdone.used)
      ⟨_, hrun, ?_⟩ hlodges⟩
  · intro b hb hused
    exact hlodged.new_aliases b hb (List.mem_cons_of_mem _ (List.mem_cons_of_mem _ hused))
  · rw [Option.toList_some, childLeaves_all]

/-! ## Conditions -/

mutual

/-- Building an admitted condition settles its sub-equal-joins. -/
theorem build_settles (c : Condition s) {m : Model s} {table : TablePath} {d e : Draft s}
    {t : Option (Predicate Test)} (hc : c.Admitted m) (h : d.Ready table m)
    (hrun : (build c table).Runs d t e) :
    Settles c.derivedJoins table d (childLeaves t.toList) e := by
  have hbuilds := build_builds c hc h hrun
  cases c with
  | comparison rule template columns values =>
    cases hc with
    | comparison reached =>
      rcases runs_comparison_iff.1 hrun with ⟨_, _, hcolumns, rfl, rfl⟩
      rw [Option.toList_some, childLeaves_singleton]
      exact settles_test h reached values hcolumns fun _ => within_comparisonTree
  | presence rule template columns =>
    cases hc with
    | presence reached =>
      rcases runs_presence_iff.1 hrun with ⟨_, hcolumns, rfl⟩
      rw [Option.toList_some, childLeaves_singleton, any, leaves]
      exact settles_test h reached [] hcolumns fun _ => within_eachColumn
  | membership rule template columns values =>
    cases hc with
    | membership reached =>
      rcases runs_membership_iff.1 hrun with ⟨_, _, hcolumns, rfl, rfl⟩
      rw [Option.toList_some, childLeaves_all]
      exact settles_test h reached [values] hcolumns fun _ => within_eachColumn
  | range rule template columns low high =>
    cases hc with
    | range reached =>
      rcases runs_range_iff.1 hrun with ⟨_, _, hcolumns, rfl, rfl⟩
      rw [Option.toList_some, childLeaves_all]
      exact settles_test h reached [low, high] hcolumns fun _ => within_eachColumn
  | overlap rule template columns span =>
    cases hc with
    | overlap reached =>
      rcases runs_overlap_iff.1 hrun with ⟨_, _, hcolumns, rfl, rfl⟩
      rw [Option.toList_some, childLeaves_singleton, any, leaves]
      exact settles_test h reached [.instant span.start, .instant span.stop] hcolumns fun _ =>
        within_eachPair
  | relationJoin targets =>
    cases hc with
    | relationJoin reached nested =>
      rcases runs_relationJoin_iff.1 hrun with ⟨trees, hjoins, rfl⟩
      rw [Option.toList_some, childLeaves_singleton, leaves]
      exact buildJoins_settles targets reached nested h hjoins
  | derivedJoin column relation subquery conditions =>
    cases hc with
    | derivedJoin own direct reached rows nested =>
      rcases reached.resolved_owner own with ⟨_, rfl⟩
      exact derivedJoin_settles h rows
        (fun hready hsub => buildEach_settles subquery rows hready hsub)
        (fun hready hconditions => buildEach_settles conditions nested hready hconditions) hrun
  | select targets =>
    cases hc with
    | select reached nested =>
      rcases runs_select_iff.1 hrun with ⟨trees, hselects, rfl⟩
      have hsettles := buildSelects_settles targets reached nested h hselects
      split
      · rename_i hempty
        rw [List.isEmpty_iff.1 hempty] at hsettles
        exact hsettles
      · rw [Option.toList_some, childLeaves_all]
        exact hsettles
  -- the functions join no sub-query and give no tests
  | order entries =>
    rcases runs_order_iff.1 hrun with ⟨_, _, rfl⟩
    exact settles_of_grows hbuilds.grows h.tidy (List.forall_mem_nil _)
  | limit n =>
    rcases runs_clause_iff.1 hrun with ⟨_, rfl, _⟩
    exact settles_of_grows hbuilds.grows h.tidy (List.forall_mem_nil _)
  | offset n =>
    rcases runs_clause_iff.1 hrun with ⟨_, rfl, _⟩
    exact settles_of_grows hbuilds.grows h.tidy (List.forall_mem_nil _)

/-- Conditions settle their derived tables one after the other. -/
theorem buildEach_settles (conditions : List (Condition s)) {m : Model s} {table : TablePath}
    {d e : Draft s} {trees : List (Predicate Test)} (hc : ∀ c ∈ conditions, c.Admitted m)
    (h : d.Ready table m) (hrun : (buildEach conditions table).Runs d trees e) :
    Settles (derivedJoinsOfEach conditions) table d (childLeaves trees) e := by
  cases conditions with
  | nil =>
    rw [buildEach, runs_pure] at hrun
    rcases hrun with ⟨rfl, rfl⟩
    exact settles_of_grows (.refl d) h.tidy (List.forall_mem_nil _)
  | cons condition conditions =>
    rcases runs_buildEach_cons_iff.1 hrun with ⟨tree, _, rest, hfirst, hrest, rfl⟩
    rcases admitted_of_cons hc with ⟨hcondition, hconditions⟩
    have hhead := build_builds condition hcondition h hfirst
    rw [childLeaves_append]
    exact (build_settles condition hcondition h hfirst).trans
      (buildEach_settles conditions hconditions (h.grow hhead.grows) hrest)

/-- So do documents. -/
theorem buildDocuments_settles (documents : List (List (Condition s))) {m : Model s}
    {table : TablePath} {d e : Draft s} {trees : List (Predicate Test)}
    (hc : ∀ document ∈ documents, ∀ c ∈ document, c.Admitted m) (h : d.Ready table m)
    (hrun : (buildDocuments documents table).Runs d trees e) :
    Settles (derivedJoinsOfDocuments documents) table d (childLeaves trees) e := by
  cases documents with
  | nil =>
    rw [buildDocuments, runs_pure] at hrun
    rcases hrun with ⟨rfl, rfl⟩
    exact settles_of_grows (.refl d) h.tidy (List.forall_mem_nil _)
  | cons document documents =>
    rcases runs_buildDocuments_cons_iff.1 hrun with ⟨trees, _, rest, hfirst, hrest, rfl⟩
    have hadmitted := hc document List.mem_cons_self
    have hhead := buildEach_builds document hadmitted h hfirst
    rw [childLeaves, leaves_all]
    exact (buildEach_settles document hadmitted h hfirst).trans
      (buildDocuments_settles documents (fun document hd => hc document (List.mem_cons_of_mem _ hd))
        (h.grow hhead.grows) hrest)

/-- So do the targets of a relation join, below the tables that they lead to. -/
theorem buildJoins_settles (targets : List (Target s (List (List (Condition s))))) {m : Model s}
    {table : TablePath} {within : Connective} {d e : Draft s} {trees : List (Predicate Test)}
    (reached : ∀ t ∈ targets, ∃ target, t.column.LeadsToRows m target)
    (nested : ∀ t ∈ targets, ∀ target, t.column.LeadsToRows m target →
      ∀ document ∈ t.nested, ∀ c ∈ document, c.Admitted target)
    (h : d.Ready table m) (hrun : (buildJoins within targets table).Runs d trees e) :
    Settles (derivedJoinsOfJoins targets) table d (childLeaves trees) e := by
  cases targets with
  | nil =>
    rw [buildJoins, runs_pure] at hrun
    rcases hrun with ⟨rfl, rfl⟩
    exact settles_of_grows (.refl d) h.tidy (List.forall_mem_nil _)
  | cons target targets =>
    rcases target with ⟨column, documents⟩
    rcases runs_buildJoins_cons_iff.1 hrun with
      ⟨path, _, trees, d₁, rest, hpath, hdocuments, hrest, rfl⟩
    rcases reached ⟨column, documents⟩ List.mem_cons_self with ⟨n, hrows⟩
    rcases builds_joinRelation h hrows hpath with ⟨rfl, hready, hjoin⟩
    have hadmitted := nested ⟨column, documents⟩ List.mem_cons_self n hrows
    have hnested := buildDocuments_builds documents hadmitted hready hdocuments
    -- the rows of the target are read at its table, which stands below this one
    have hfirst := ((buildDocuments_settles documents hadmitted hready hdocuments).of_inner
      (List.prefix_append _ _)).before hjoin.grows h.tidy
    rw [childLeaves, leaves]
    exact hfirst.trans (buildJoins_settles targets (fun t ht => reached t (List.mem_cons_of_mem _ ht))
      (fun t ht => nested t (List.mem_cons_of_mem _ ht))
      ((h.grow hjoin.grows).grow hnested.grows) hrest)

/-- A selected relation settles those of its conditions. -/
theorem buildSelect_settles (target : Target s (List (Condition s))) {m : Model s}
    {table : TablePath} {d e : Draft s} {tree : Option (Predicate Test)}
    (reached : (target.column.LeadsToColumn m ∧ target.nested = []) ∨
      target.column.isColumn = false ∧ ∃ r, target.column.LeadsToRelation m r)
    (nested : ∀ r, target.column.LeadsToRelation m r → ∀ c ∈ target.nested, c.Admitted r.target)
    (h : d.Ready table m) (hrun : (buildSelect target table).Runs d tree e) :
    Settles (derivedJoinsOfEach target.nested) table d (childLeaves tree.toList) e := by
  rcases target with ⟨column, conditions⟩
  simp only at reached nested ⊢
  rcases reached with ⟨hcolumn, rfl⟩ | ⟨hcolumn, r, hr⟩
  · -- a column: its table is joined, and nothing is tested
    rcases (runs_buildSelect_column_iff hcolumn.isColumn_eq).1 hrun with ⟨path, _, hjoin, rfl, rfl⟩
    exact settles_of_grows (builds_selectColumn h hcolumn hjoin).grows h.tidy (List.forall_mem_nil _)
  · rcases (runs_buildSelect_relation_iff hcolumn).1 hrun with
      ⟨d₁, hinclude, ⟨rfl, rfl, rfl⟩ | ⟨_, path, d₂, trees, hpath, hconditions, rfl⟩⟩
    · exact settles_of_grows (builds_includeRelation table hinclude).grows h.tidy
        (List.forall_mem_nil _)
    · have hload := (builds_includeRelation table hinclude).grows
      have hready := h.grow hload
      rcases builds_joinRelation hready (.inr ⟨r, hr, rfl⟩) hpath with ⟨rfl, hready', hjoin⟩
      rw [Option.toList_some, childLeaves_all]
      exact (((buildEach_settles conditions (nested r hr) hready' hconditions).of_inner
        (List.prefix_append _ _)).before hjoin.grows hready.tidy).before hload h.tidy

/-- So do all targets of a selection. -/
theorem buildSelects_settles (targets : List (Target s (List (Condition s)))) {m : Model s}
    {table : TablePath} {d e : Draft s} {trees : List (Predicate Test)}
    (reached : ∀ t ∈ targets, (t.column.LeadsToColumn m ∧ t.nested = []) ∨
      t.column.isColumn = false ∧ ∃ r, t.column.LeadsToRelation m r)
    (nested : ∀ t ∈ targets, ∀ r, t.column.LeadsToRelation m r →
      ∀ c ∈ t.nested, c.Admitted r.target)
    (h : d.Ready table m) (hrun : (buildSelects targets table).Runs d trees e) :
    Settles (derivedJoinsOfSelects targets) table d (childLeaves trees) e := by
  cases targets with
  | nil =>
    rw [buildSelects, runs_pure] at hrun
    rcases hrun with ⟨rfl, rfl⟩
    exact settles_of_grows (.refl d) h.tidy (List.forall_mem_nil _)
  | cons target targets =>
    rcases runs_buildSelects_cons_iff.1 hrun with ⟨tree, _, rest, hfirst, hrest, rfl⟩
    have hhead := buildSelect_builds target (reached target List.mem_cons_self)
      (nested target List.mem_cons_self) h hfirst
    rw [childLeaves_append]
    exact (buildSelect_settles target (reached target List.mem_cons_self)
      (nested target List.mem_cons_self) h hfirst).trans
      (buildSelects_settles targets (fun t ht => reached t (List.mem_cons_of_mem _ ht))
        (fun t ht => nested t (List.mem_cons_of_mem _ ht)) (h.grow hhead.grows) hrest)

end

end Condition

/-! ## Compiled queries -/

namespace Query

variable {model : String} {query : Json} {config : Config} {plan : Plan}

/-- Each sub-equal-join of a compiled query has a derived table of its own. Its path was found free
and is that of no other, its alias is that of no other in the whole statement, its sub-query is
joined exactly once, and the conditions on its row ask only about this table and what is joined
below it. The same holds inside its sub-query. -/
theorem exists_housed (h : compile s model query config = .ok plan) :
    ∃ root conditions done aliases, Compiles s model query config root conditions done plan ∧
      done.Housed (Condition.derivedJoinsOfEach conditions) aliases := by
  rcases compile_eq_ok_iff.1 h with ⟨root, conditions, done, hstages⟩
  rcases hstages.buildEach with ⟨trees, e, hrun, rfl⟩
  have hready : (Draft.new root config).Ready (.root root.table) root :=
    ready_withBase root config root.table [] 0
  rcases Condition.buildEach_settles conditions hstages.admitted hready hrun with
    ⟨tables, hjoins, hlodges⟩
  -- the last step only puts the tests into the predicate
  have hkeeps : e.Keeps (e.withPredicate (.all trees)) :=
    ⟨List.Subset.refl _, fun _ _ ha => ha, List.Subset.refl _⟩
  have htests : Predicate.childLeaves trees ⊆ (e.withPredicate (.all trees)).predicate.leaves := by
    rw [withPredicate, Predicate.leaves_all]
    exact List.Subset.refl _
  have hhoused := hlodges.housed rfl hkeeps rfl htests
  rw [hjoins] at hhoused
  exact ⟨root, conditions, _, _, hstages, hhoused⟩

end Query

/-- People with the articles that they wrote, and with those that they edited under a name like that
of a second derived table. -/
def Schema.editors : Schema :=
  ⟨.ofList
    [("Person",
      { table := "people"
        relations := .ofList
          [("articles", .oneToMany "Article" "person_id"),
            ("articles_2", .oneToMany "Article" "editor_id")] }),
    ("Article",
      { table := "articles"
        columns := [⟨"title", ""⟩] })]⟩

namespace Query

/-- A sub-query over the edited articles, and two over the written ones. -/
def threeArticles : Json :=
  .object
    [("articles_2()", .array [.object [], .object [("title=", .string "Loops")]]),
      ("1:articles()", .array [.object [("order:", .string "title")],
        .object [("title=", .string "Trees")]]),
      ("2:articles()", .array [.object [], .object [("title=", .string "Heaps")]])]

/-- The second path of a derived table is taken by the relation of that name. -/
theorem exists_housed_threeArticles :
    ∃ plan, compile Schema.editors "Person" threeArticles {} = .ok plan ∧
      plan.joins.length = 3 ∧
      plan.whereClause =
        some ("smql_sub_articles_2.title = :p1 AND smql_sub_articles.title = :p2 AND " ++
        "smql_sub_articles_3.title = :p3") ∧
      ∃ root conditions done aliases,
        Compiles Schema.editors "Person" threeArticles {} root conditions done plan ∧
        done.Housed (Condition.derivedJoinsOfEach conditions) aliases := by
  have hplan : (compile Schema.editors "Person" threeArticles {}).toOption.map
      (fun plan => (plan.joins.length, plan.whereClause)) =
        some (3, some ("smql_sub_articles_2.title = :p1 AND smql_sub_articles.title = :p2 AND " ++
          "smql_sub_articles_3.title = :p3")) := by
    decide +kernel
  rcases exists_of_map_toOption hplan with ⟨plan, hcompile, hparts⟩
  rcases Prod.mk.inj hparts with ⟨hthree, hwhere⟩
  exact ⟨plan, hcompile, hthree, hwhere, exists_housed hcompile⟩

end Query

end DocQuery
